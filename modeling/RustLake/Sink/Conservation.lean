import RustLake.Sink.Parquet

/-! The rows that a sink has been given: they are in its buffer or counted as written, whatever fails,
and each file that it tries to put has a name of its own. -/
namespace RustLake.Sink
open RustLake.ObjectStore RustLake.Iceberg RustLake.Text

variable {Row : Type}

/-- A call of the sink, with what it meets: the time, the writer of Parquet files, the faults of the
store and what others have left in it. -/
structure BufferCall (Row : Type) where
  batch : Option (RecordBatch Row)
  now : DateTime
  parquet : Parquet Row
  faults : Faults
  store : Store (Object Row)

/-- `write_batch` where there is a batch, or `flush`. -/
def BufferCall.program (sink : ParquetSink Row) (call : BufferCall Row) :
    Program (Object Row) (ParquetSink Row × Except String Unit) :=
  match call.batch with
  | some batch => sink.writeBatch call.parquet call.now batch
  | none => sink.flush call.parquet call.now

def BufferCall.rows (call : BufferCall Row) : UInt64 :=
  match call.batch with
  | some batch => UInt64.ofNat batch.rows.length
  | none => 0

/-- A sink, the rows of the batches that it has taken into its buffer, and the keys that it has tried
to put. -/
structure Tally (Row : Type) where
  sink : ParquetSink Row
  accepted : UInt64
  uploads : List Path

variable (size : Object Row → ℕ)

def Tally.start (sinkPrefix bucket : String) (flushThreshold : UInt64) : Tally Row :=
  ⟨.new sinkPrefix bucket flushThreshold, 0, []⟩

def Tally.call (tally : Tally Row) (call : BufferCall Row) : Tally Row where
  sink :=
    match (run size (call.program tally.sink) call.faults call.store).result with
    | .ok (sink, _) => sink
    | .error _ => tally.sink
  accepted := tally.accepted + call.rows
  uploads := tally.uploads ++ putTries size (call.program tally.sink) call.faults call.store

section Property

def bufferedRows (buffer : List (RecordBatch Row)) : UInt64 :=
  (buffer.map fun batch => UInt64.ofNat batch.rows.length).sum

/-- No row is lost or counted twice, and two files have one name only if as many files as the counter
can tell apart lie between them. -/
structure Tally.Conserved (tally : Tally Row) : Prop where
  rows : tally.accepted = bufferedRows tally.sink.buffer + tally.sink.totalRowsWritten
  buffer : tally.sink.bufferRows = bufferedRows tally.sink.buffer
  files : tally.sink.totalRowsWritten = (tally.sink.dataFiles.map (·.rowCount)).sum
  names : ∀ (i j : ℕ) (key : Path), tally.uploads[i]? = some key → tally.uploads[j]? = some key →
    i % 2 ^ 64 = j % 2 ^ 64

end Property

section Names

theorem padded_injective {width a b : ℕ} (h : padded width a = padded width b) : a = b := by
  have hvalue : ∀ n, Nat.ofDigitChars 10 (padded width n).toList 0 = n := by
    intro n
    have hdigits : (toString n).toList = Nat.toDigits 10 n := Nat.toList_repr
    rw [padded, String.toList_ofList, hdigits, Nat.ofDigitChars_append,
      Nat.ofDigitChars_replicate_zero, Nat.mul_zero, Nat.ofDigitChars_ten_toDigits]
  rw [← hvalue a, h, hvalue b]

theorem batchName_injective {now now' : DateTime} {n n' : UInt64}
    (h : ParquetSink.batchName now n = ParquetSink.batchName now' n') : n = n' := by
  have hdash : ∀ m : ℕ, '-' ∉ (padded 4 m).toList := by
    intro m hmem
    have hdigits : (toString m).toList = Nat.toDigits 10 m := Nat.toList_repr
    rw [padded, String.toList_ofList, hdigits, List.mem_append] at hmem
    rcases hmem with hzero | hdigit
    · exact absurd (List.mem_replicate.mp hzero).2 (by decide)
    · exact absurd (Nat.isDigit_of_mem_toDigits (by decide) (by decide) hdigit) (by decide)
  have htext : ∀ (t : DateTime) (m : UInt64), (ParquetSink.batchName t m).toList =
      ("batch-".toList ++ t.timePart.toList) ++ '-' :: (padded 4 m.toNat).toList ++
        ".parquet".toList := by
    intro t m
    simp [ParquetSink.batchName, String.toList_append]
  have hlist := congrArg String.toList h
  rw [htext, htext, List.append_cancel_right_eq] at hlist
  have hlast := congrArg (afterLast '-') hlist
  rw [afterLast_append_cons _ (hdash _), afterLast_append_cons _ (hdash _)] at hlast
  exact UInt64.toNat_inj.mp (padded_injective (String.toList_injective hlast))

end Names

section Calls
variable {size} {P : Parquet Row} {sink : ParquetSink Row} {now : DateTime} {faults : Faults}
  {s : Store (Object Row)}

/-- What is known of the fields of a sink that has been given some rows and has tried some files. -/
structure Balanced (sink : ParquetSink Row) (accepted : UInt64) (tries : ℕ) : Prop where
  rows : accepted = bufferedRows sink.buffer + sink.totalRowsWritten
  buffer : sink.bufferRows = bufferedRows sink.buffer
  files : sink.totalRowsWritten = (sink.dataFiles.map (·.rowCount)).sum
  tries : sink.filesWritten = UInt64.ofNat tries

/-- The files that a call tries to put: none, or the next one. -/
def TriesNext (now : DateTime) (tries : ℕ) (keys : List Path) : Prop :=
  keys = [] ∨ ∃ key, keys = [key] ∧
    fileName key = (ParquetSink.batchName now (UInt64.ofNat (tries + 1))).toList

theorem balanced_flush {accepted : UInt64} {tries : ℕ} (h : Balanced sink accepted tries) :
    ∃ sink' result, (run size (sink.flush P now) faults s).result = .ok (sink', result) ∧
      Balanced sink' accepted (tries + (putTries size (sink.flush P now) faults s).length) ∧
      TriesNext now tries (putTries size (sink.flush P now) faults s) := by
  unfold ParquetSink.flush
  cases hbuffer : sink.buffer with
  | nil => exact ⟨_, _, rfl, h, Or.inl rfl⟩
  | cons first rest =>
    dsimp only
    cases hencode : P.encode first.schema ((first :: rest).map (·.rows)) with
    | error e => exact ⟨_, _, rfl, h, Or.inl rfl⟩
    | ok length =>
      have hnext : sink.filesWritten + 1 = UInt64.ofNat (tries + 1) := by
        rw [h.tries, UInt64.ofNat_add]
        rfl
      have hname := fileName_ofText_datedFile sink.sinkPrefix now.datePart
        (isSegment_batchName now (sink.filesWritten + 1))
      rw [hnext] at hname
      simp only [run_put, putTries, hnext]
      cases h0 : faults 0 with
      | some e =>
        rw [answer_of_some h0]
        refine ⟨_, _, rfl, ⟨?_, ?_, h.files, rfl⟩, Or.inr ⟨_, rfl, hname⟩⟩
        · exact hbuffer ▸ h.rows
        · exact hbuffer ▸ h.buffer
      | none =>
        rw [answer_of_none h0]
        refine ⟨_, _, rfl, ⟨?_, rfl, ?_, rfl⟩, Or.inr ⟨_, rfl, hname⟩⟩
        · change accepted = 0 + (sink.totalRowsWritten + sink.bufferRows)
          rw [h.rows, h.buffer, UInt64.zero_add, UInt64.add_comm]
        · change _ = (List.map _ (sink.dataFiles ++ [_])).sum
          rw [List.map_append, List.sum_append, ← h.files]
          change _ = sink.totalRowsWritten + (sink.bufferRows + 0)
          rw [UInt64.add_zero]

theorem bufferedRows_append (buffer : List (RecordBatch Row)) (batch : RecordBatch Row) :
    bufferedRows (buffer ++ [batch]) = bufferedRows buffer + UInt64.ofNat batch.rows.length := by
  rw [bufferedRows, List.map_append, List.sum_append]
  change _ + (_ + 0) = _
  rw [UInt64.add_zero]
  rfl

variable (size) in
theorem balanced_call {accepted : UInt64} {tries : ℕ} (h : Balanced sink accepted tries)
    (call : BufferCall Row) :
    ∃ sink' result,
      (run size (call.program sink) call.faults call.store).result = .ok (sink', result) ∧
      Balanced sink' (accepted + call.rows)
        (tries + (putTries size (call.program sink) call.faults call.store).length) ∧
      TriesNext call.now tries (putTries size (call.program sink) call.faults call.store) := by
  unfold BufferCall.program BufferCall.rows
  cases call.batch with
  | none =>
    rw [UInt64.add_zero]
    exact balanced_flush h
  | some batch =>
    have hbuffered : Balanced { sink with
        buffer := sink.buffer ++ [batch]
        bufferRows := sink.bufferRows + UInt64.ofNat batch.rows.length }
        (accepted + UInt64.ofNat batch.rows.length) tries := by
      refine ⟨?_, ?_, h.files, h.tries⟩
      · rw [h.rows, bufferedRows_append, UInt64.add_assoc, UInt64.add_assoc,
          UInt64.add_comm sink.totalRowsWritten]
      · rw [bufferedRows_append, ← h.buffer]
    unfold ParquetSink.writeBatch
    dsimp only
    split
    · exact balanced_flush hbuffered
    · exact ⟨_, _, rfl, hbuffered, Or.inl rfl⟩

end Calls

section Runs
variable {size}

/-- The state that all calls keep: the balance, and each key with the number of its file. -/
structure Tally.Inv (tally : Tally Row) : Prop where
  balanced : Balanced tally.sink tally.accepted tally.uploads.length
  numbered : ∀ (i : ℕ) (key : Path), tally.uploads[i]? = some key →
    ∃ now, fileName key = (ParquetSink.batchName now (UInt64.ofNat (i + 1))).toList

theorem Tally.Inv.call {tally : Tally Row} (h : tally.Inv) (call : BufferCall Row) :
    (tally.call size call).Inv := by
  obtain ⟨sink', result, hresult, hbalanced, htries⟩ := balanced_call size h.balanced call
  have hsink : (tally.call size call).sink = sink' := by
    rw [Tally.call, hresult]
  have huploads : (tally.call size call).uploads = tally.uploads ++
      putTries size (call.program tally.sink) call.faults call.store := rfl
  constructor
  · rw [hsink, huploads, List.length_append]
    exact hbalanced
  · intro i key hkey
    rw [huploads] at hkey
    rcases htries with hnone | ⟨next, hnext, hname⟩
    · rw [hnone, List.append_nil] at hkey
      exact h.numbered i key hkey
    · rw [hnext, List.getElem?_append] at hkey
      split at hkey
      · exact h.numbered i key hkey
      · rename_i hlast
        have hindex : i - tally.uploads.length = 0 := by
          by_contra hne
          rw [List.getElem?_eq_none (by rw [List.length_singleton]; omega)] at hkey
          cases hkey
        have hi : i = tally.uploads.length := by omega
        rw [hindex, List.getElem?_cons_zero, Option.some.injEq] at hkey
        exact ⟨call.now, by rw [← hkey, hname, hi]⟩

theorem Tally.Inv.conserved {tally : Tally Row} (h : tally.Inv) : tally.Conserved where
  rows := h.balanced.rows
  buffer := h.balanced.buffer
  files := h.balanced.files
  names := by
    intro i j key hi hj
    obtain ⟨now, hnow⟩ := h.numbered i key hi
    obtain ⟨now', hnow'⟩ := h.numbered j key hj
    have hsame := batchName_injective (String.toList_injective (hnow.symm.trans hnow'))
    have hnat := congrArg UInt64.toNat hsame
    rw [UInt64.toNat_ofNat', UInt64.toNat_ofNat'] at hnat
    omega

/-- After any calls of a sink, whatever fails in them, its rows are conserved and its files have names
of their own. -/
theorem conserved_calls (size : Object Row → ℕ) (sinkPrefix bucket : String)
    (flushThreshold : UInt64) (calls : List (BufferCall Row)) :
    (calls.foldl (Tally.call size) (.start sinkPrefix bucket flushThreshold)).Conserved := by
  have hstart : (Tally.start sinkPrefix bucket flushThreshold : Tally Row).Inv :=
    ⟨⟨rfl, rfl, rfl, rfl⟩, fun i key h => by cases h⟩
  have hcalls : ∀ tally : Tally Row, tally.Inv → (calls.foldl (Tally.call size) tally).Inv := by
    induction calls with
    | nil => exact fun tally h => h
    | cons call rest ih => exact fun tally h => ih _ (h.call call)
  exact (hcalls _ hstart).conserved

end Runs
end RustLake.Sink
