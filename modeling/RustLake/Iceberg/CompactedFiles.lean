import RustLake.Iceberg.Compaction
import RustLake.ObjectStore.DatedFile

/-! The data files that a compaction puts: their names start from 1 each time, below the directory
of the day. -/
namespace RustLake.Iceberg
open RustLake.Json RustLake.ObjectStore RustLake.Text

variable {Row : Type}

/-- The keys under which Parquet files were put. -/
def parquetKeys (log : List (Path × Object Row)) : List Path :=
  log.filterMap fun e => match e.2 with
    | .parquet _ _ => some e.1
    | _ => none

def compactedName (fileCounter : UInt32) : String :=
  "compacted-" ++ padFour fileCounter ++ ".parquet"

/-- The keys that a compaction of a day may put its files under. -/
def CompactedKey (filePrefix datePart : String) (key : Path) : Prop :=
  ∃ fileCounter, key = Path.ofText (datedFile filePrefix datePart (compactedName fileCounter))

theorem padFour_eq (n : UInt32) : padFour n = padded 4 n.toNat := rfl

theorem isSegment_compactedName (fileCounter : UInt32) : IsSegment (compactedName fileCounter) := by
  have hstart : Plain "compacted-" := plain_of_all (by decide)
  have hend : Plain ".parquet" := plain_of_all (by decide)
  have hplain : Plain (compactedName fileCounter) :=
    (hstart.append (by rw [padFour_eq]; exact plain_padded _ _)).append hend
  have hmem : 'c' ∈ (compactedName fileCounter).toList := by
    simp [compactedName, String.toList_append]
  exact hplain.isSegment hmem (by decide)

theorem datedFile_compacted (filePrefix datePart : String) (fileCounter : UInt32) :
    filePrefix ++ "/" ++ datePart ++ "/compacted-" ++ padFour fileCounter ++ ".parquet" =
      datedFile filePrefix datePart (compactedName fileCounter) := by
  apply String.toList_injective
  simp [datedFile, compactedName, String.toList_append]

@[simp] theorem parquetKeys_append (a b : List (Path × Object Row)) :
    parquetKeys (a ++ b) = parquetKeys a ++ parquetKeys b := List.filterMap_append

theorem mem_parquetKeys {log : List (Path × Object Row)} {key : Path} :
    key ∈ parquetKeys log ↔ ∃ rows length, (key, .parquet rows length) ∈ log := by
  unfold parquetKeys
  rw [List.mem_filterMap]
  constructor
  · rintro ⟨⟨path, object⟩, hmem, hkey⟩
    cases object with
    | parquet rows length =>
      cases hkey
      exact ⟨rows, length, hmem⟩
    | json doc => cases hkey
    | other length => cases hkey
  · rintro ⟨rows, length, hmem⟩
    exact ⟨_, hmem, rfl⟩

section Puts
variable {Q : Path → Prop}

/-- Parquet files go under these keys only, and everything else is a `.json` file. -/
def PutsFiles (Q : Path → Prop) (key : Path) : Object Row → Prop
  | .parquet _ _ => Q key
  | .json _ => ".json".toList <:+ key.toList
  | .other _ => False

theorem puts_readBatches (P : Parquet Row) (paths : List String) :
    (readBatches P paths).Puts (PutsFiles Q) := by
  induction paths with
  | nil => trivial
  | cons path rest ih =>
    refine fun r => .bind (puts_orFail _ _ r) fun found => fun r => ?_
    refine .bind (puts_orFail _ _ r) fun data => .bind (puts_orFail _ _ _) fun batches => ?_
    exact .bind ih fun later => trivial

theorem puts_writeCompactedFile {P : Parquet Row} {filePrefix datePart : String}
    {fileCounter : UInt32} (batches : List (List Row)) (schema : ArrowSchema) :
    (writeCompactedFile P filePrefix datePart fileCounter batches schema).Puts
      (PutsFiles (CompactedKey filePrefix datePart)) := by
  refine .bind (puts_orFail _ _ _) fun length => ⟨⟨fileCounter, ?_⟩, fun r => ?_⟩
  · rw [datedFile_compacted]
  · exact .bind (puts_orFail _ _ r) fun _ => trivial

theorem puts_writeCompacted {P : Parquet Row} {filePrefix datePart : String} {schema : ArrowSchema}
    {targetBytes : UInt64} (batches buf : List (List Row)) (currentRows : UInt64)
    (counter : UInt32) :
    (writeCompacted P filePrefix datePart schema targetBytes batches buf currentRows counter).Puts
      (PutsFiles (CompactedKey filePrefix datePart)) := by
  induction batches generalizing buf currentRows counter with
  | nil =>
    unfold writeCompacted
    split
    · trivial
    · exact .bind (puts_writeCompactedFile _ _) fun df => trivial
  | cons batch rest ih =>
    unfold writeCompacted
    dsimp only
    split
    · refine .bind (puts_writeCompactedFile _ _) fun df => ?_
      exact .bind (ih _ _ _) fun later => trivial
    · exact ih _ _ _

theorem puts_files_appendSnapshot (state : IcebergTableState) (files : List DataFileInfo)
    (schema : ArrowSchema) (operation : String) (nowMs : Int64) :
    (appendSnapshot state files schema operation nowMs : Program (Object Row) String).Puts
      (PutsFiles Q) := by
  unfold appendSnapshot
  split
  · trivial
  · refine ⟨json_manifestKey state nowMs, fun r => .bind (puts_orFail _ _ r) fun _ => ?_⟩
    refine .orPanic_bind fun doc _ => ⟨json_versionPath _ _, fun r => ?_⟩
    exact .bind (puts_orFail _ _ r) fun _ => trivial

/-- A compaction puts Parquet files under the names of its day only, and `.json` files, however it
ends. -/
theorem puts_compactTable (P : Parquet Row) (state : IcebergTableState) (targetFileSizeMb : UInt64)
    (schema : ArrowSchema) (datePart : String) (nowMs : Int64) :
    (compactTable P state targetFileSizeMb schema datePart nowMs).Puts
      (PutsFiles (CompactedKey (stripS3Prefix state.location) datePart)) := by
  unfold compactTable
  dsimp only
  split
  · trivial
  · refine .bind (puts_readBatches P _) fun batches => ?_
    split
    · trivial
    · refine .bind (puts_writeCompacted _ _ _ _) fun files => ?_
      exact .bind (puts_files_appendSnapshot _ _ _ _ _) fun _ => trivial

theorem parquetKeys_of_puts {α : Type} {p : Program (Object Row) α} (hp : p.Puts (PutsFiles Q))
    {size : Object Row → ℕ} {faults : Faults} {s : Store (Object Row)} :
    ∀ key ∈ parquetKeys (putLog size p faults s), Q key := by
  intro key hkey
  obtain ⟨rows, length, hmem⟩ := mem_parquetKeys.mp hkey
  exact forall_mem_putLog size hp _ hmem

theorem parquetKeys_eq_nil {α : Type} {p : Program (Object Row) α}
    (hp : p.Puts (PutsFiles fun _ => False)) (size : Object Row → ℕ) (faults : Faults)
    (s : Store (Object Row)) : parquetKeys (putLog size p faults s) = [] :=
  List.eq_nil_iff_forall_not_mem.mpr fun key hkey => parquetKeys_of_puts hp key hkey

end Puts

section Run
variable {size : Object Row → ℕ} {P : Parquet Row} {filePrefix datePart : String}
  {faults faults' : Faults} {s s' : Store (Object Row)}

theorem writeCompactedFile_log {fileCounter : UInt32} {batches : List (List Row)}
    {schema : ArrowSchema} {df : DataFileInfo}
    (h : run size (writeCompactedFile P filePrefix datePart fileCounter batches schema) faults s =
      ⟨.ok df, s', faults'⟩) :
    df.filePath = datedFile filePrefix datePart (compactedName fileCounter) ∧
      parquetKeys (putLog size (writeCompactedFile P filePrefix datePart fileCounter batches schema)
        faults s) = [Path.ofText df.filePath] := by
  unfold writeCompactedFile at h ⊢
  obtain ⟨length, hlength, h⟩ := run_orFail_bind_ok size h
  rw [hlength, Program.orFail_ok, Program.done_bind]
  simp only [run_put] at h
  obtain ⟨_, hput, h⟩ := run_orFail_bind_ok size h
  have h0 := (answer_eq_ok hput).1
  cases h
  refine ⟨datedFile_compacted _ _ _, ?_⟩
  rw [putLog_put_of_none size h0]
  rfl

/-- The files of the write loop and the keys they are put under, named from the counter on. -/
theorem writeCompacted_log {schema : ArrowSchema} {targetBytes : UInt64}
    {batches buf : List (List Row)} {currentRows : UInt64} {counter : UInt32}
    {files : List DataFileInfo}
    (h : run size (writeCompacted P filePrefix datePart schema targetBytes batches buf currentRows
      counter) faults s = ⟨.ok files, s', faults'⟩) :
    parquetKeys (putLog size (writeCompacted P filePrefix datePart schema targetBytes batches buf
        currentRows counter) faults s) = files.map (fun df => Path.ofText df.filePath) ∧
      (∀ df ∈ files, ∃ fileCounter,
        df.filePath = datedFile filePrefix datePart (compactedName fileCounter)) ∧
      (buf ++ batches ≠ [] → ∃ df ∈ files,
        df.filePath = datedFile filePrefix datePart (compactedName (counter + 1))) := by
  induction batches generalizing buf currentRows counter faults s files with
  | nil =>
    unfold writeCompacted at h ⊢
    split at h
    · rename_i hempty
      rw [if_pos hempty]
      cases h
      refine ⟨rfl, by simp, fun hne => ?_⟩
      rw [List.append_nil] at hne
      exact absurd (List.isEmpty_iff.mp hempty) hne
    · rename_i hsome
      rw [if_neg hsome]
      obtain ⟨df, s₁, faults₁, hfile, h⟩ := run_bind_ok size h
      rw [putLog_bind_of_run size hfile]
      cases h
      obtain ⟨hpath, hlog⟩ := writeCompactedFile_log hfile
      refine ⟨?_, fun df' hdf' => ⟨counter + 1, ?_⟩,
        fun _ => ⟨df, List.mem_singleton_self _, hpath⟩⟩
      · rw [parquetKeys_append, hlog]
        rfl
      · rw [List.mem_singleton.mp hdf', hpath]
  | cons batch rest ih =>
    unfold writeCompacted at h ⊢
    dsimp only at h ⊢
    split at h
    · rename_i hfull
      rw [if_pos hfull]
      obtain ⟨df, s₁, faults₁, hfile, h⟩ := run_bind_ok size h
      rw [putLog_bind_of_run size hfile]
      obtain ⟨later, s₂, faults₂, hlater, h⟩ := run_bind_ok size h
      rw [putLog_bind_of_run size hlater]
      cases h
      obtain ⟨hpath, hlog⟩ := writeCompactedFile_log hfile
      obtain ⟨hkeys, hnames, -⟩ := ih hlater
      refine ⟨?_, fun df' hdf' => ?_, fun _ => ⟨df, List.mem_cons_self, hpath⟩⟩
      · rw [parquetKeys_append, parquetKeys_append, hlog, hkeys]
        simp [parquetKeys]
      · rcases List.mem_cons.mp hdf' with rfl | hmem
        · exact ⟨_, hpath⟩
        · exact hnames df' hmem
    · rename_i hroom
      rw [if_neg hroom]
      obtain ⟨hkeys, hnames, hfirst⟩ := ih h
      exact ⟨hkeys, hnames, fun _ => hfirst (by simp)⟩

/-- The data files of a compaction that ends well: the keys they are put under, and the manifest
list that names them. The first one has the number 1. -/
theorem compactTable_log {state : IcebergTableState} {targetFileSizeMb : UInt64}
    {schema : ArrowSchema} {nowMs : Int64} {result : CompactionResult}
    (h : run size (compactTable P state targetFileSizeMb schema datePart nowMs) faults s =
      ⟨.ok result, s', faults'⟩) :
    ∃ files, parquetKeys (putLog size (compactTable P state targetFileSizeMb schema datePart nowMs)
        faults s) = files.map (fun df => Path.ofText df.filePath) ∧
      (∀ df ∈ files, ∃ fileCounter, df.filePath =
        datedFile (stripS3Prefix state.location) datePart (compactedName fileCounter)) ∧
      (∃ df ∈ files, df.filePath =
        datedFile (stripS3Prefix state.location) datePart (compactedName 1)) ∧
      s'.lookup (manifestKey state nowMs) = some (.json (manifestList state.location files nowMs)) := by
  unfold compactTable at h ⊢
  dsimp only at h ⊢
  split at h
  · cases h
  · rename_i hpaths
    rw [if_neg hpaths]
    obtain ⟨batches, s₁, faults₁, hread, h⟩ := run_bind_ok size h
    rw [putLog_bind_of_run size hread]
    split at h
    · cases h
    · rename_i hbatches
      rw [if_neg hbatches]
      obtain ⟨files, s₂, faults₂, hwrite, h⟩ := run_bind_ok size h
      rw [putLog_bind_of_run size hwrite]
      obtain ⟨path, s₃, faults₃, happend, h⟩ := run_bind_ok size h
      rw [putLog_bind_of_run size happend]
      cases h
      obtain ⟨hkeys, hnames, hfirst⟩ := writeCompacted_log hwrite
      refine ⟨files, ?_, hnames, hfirst (by simpa using hbatches), ?_⟩
      · simp only [parquetKeys_append, hkeys, parquetKeys_eq_nil (puts_readBatches P _),
          parquetKeys_eq_nil (puts_files_appendSnapshot _ _ _ _ _)]
        simp [parquetKeys]
      · obtain ⟨doc, hdoc, rfl, rfl⟩ := appendSnapshot_ok happend
        rw [AList.lookup_insert_ne (manifestKey_ne _ _ _ _), AList.lookup_insert]

end Run
section Adds
variable {size : Object Row → ℕ} {P : Parquet Row} {targetFileSizeMb : UInt64}
  {schema : ArrowSchema} {datePart : String} {nowMs : Int64}

theorem touches_readBatches (P : Parquet Row) (paths : List String) :
    (readBatches P paths).Touches fun _ => False := by
  induction paths with
  | nil => trivial
  | cons path rest ih =>
    refine fun r => .bind (touches_orFail _ _ r) fun found => fun r => ?_
    refine .bind (touches_orFail _ _ r) fun data => .bind (touches_orFail _ _ _) fun batches => ?_
    exact .bind ih fun later => trivial

/-- Reading data files leaves the store as it is. -/
theorem run_readBatches (size : Object Row → ℕ) (P : Parquet Row) (paths : List String)
    (faults : Faults) (s : Store (Object Row)) :
    (run size (readBatches P paths) faults s).store = s :=
  run_store_of_readOnly size (touches_readBatches P paths) faults s

theorem adds_writeCompactedFile (P : Parquet Row) (pfx datePart : String) (fileCounter : UInt32)
    (batches : List (List Row)) (schema : ArrowSchema) :
    (writeCompactedFile P pfx datePart fileCounter batches schema).Adds
      (CompactedKey pfx datePart) := by
  refine .bind (adds_orFail _ _ _) fun length => ⟨⟨fileCounter, ?_⟩, fun r => ?_⟩
  · rw [datedFile_compacted]
  · exact .bind (adds_orFail _ _ r) fun _ => trivial

theorem adds_writeCompacted (P : Parquet Row) (pfx datePart : String) (schema : ArrowSchema)
    (targetBytes : UInt64) (batches buf : List (List Row)) (currentRows : UInt64)
    (counter : UInt32) :
    (writeCompacted P pfx datePart schema targetBytes batches buf currentRows counter).Adds
      (CompactedKey pfx datePart) := by
  induction batches generalizing buf currentRows counter with
  | nil =>
    unfold writeCompacted
    split
    · trivial
    · exact .bind (adds_writeCompactedFile _ _ _ _ _ _) fun df => trivial
  | cons batch rest ih =>
    unfold writeCompacted
    dsimp only
    split
    · refine .bind (adds_writeCompactedFile _ _ _ _ _ _) fun df => ?_
      exact .bind (ih _ _ _) fun later => trivial
    · exact ih _ _ _

/-- The batches that the write loop writes first. -/
def firstGroup (targetBytes : UInt64) :
    List (List Row) → List (List Row) → UInt64 → List (List Row)
  | [], buf, _ => buf
  | batch :: rest, buf, currentRows =>
    let buf := buf ++ [batch]
    let currentRows := currentRows + UInt64.ofNat batch.length
    if targetBytes ≤ currentRows * 100 then buf
    else firstGroup targetBytes rest buf currentRows

/-- A compaction ends before its first put: there is nothing to read, a file cannot be read, or the
first file that it writes can be neither encoded nor put. -/
def CompactsNothing (size : Object Row → ℕ) (P : Parquet Row) (state : IcebergTableState)
    (targetFileSizeMb : UInt64) (schema : ArrowSchema) (faults : Faults) (s : Store (Object Row)) :
    Prop :=
  match run size (readBatches P (allFilePaths state)) faults s with
  | ⟨.ok batches, _, later⟩ => batches = [] ∨ later 0 ≠ none ∨
      ∃ e, P.encode schema (firstGroup (targetFileSizeMb * 1024 * 1024) batches [] 0) = .error e
  | ⟨.error _, _, _⟩ => True

theorem writeCompactedFile_fails (size : Object Row → ℕ) (pfx datePart : String)
    (fileCounter : UInt32) {batches : List (List Row)} {faults : Faults} (s : Store (Object Row))
    (h : faults 0 ≠ none ∨ ∃ e, P.encode schema batches = .error e) :
    ∃ e faults', run size (writeCompactedFile P pfx datePart fileCounter batches schema) faults s =
      ⟨.error e, s, faults'⟩ := by
  unfold writeCompactedFile
  cases hencode : P.encode schema batches with
  | error e => exact ⟨_, _, rfl⟩
  | ok length =>
    have hfault : faults 0 ≠ none := h.resolve_right (by simp [hencode])
    obtain ⟨e, h0⟩ := Option.ne_none_iff_exists'.mp hfault
    rw [Program.orFail_ok, Program.done_bind, run_put, answer_of_some h0, effect_of_some h0]
    exact ⟨_, _, rfl⟩

/-- Where the first file is not written, the write loop ends and no file is. -/
theorem writeCompacted_fails (size : Object Row → ℕ) (pfx datePart : String) {targetBytes : UInt64}
    {batches buf : List (List Row)} {currentRows : UInt64} (counter : UInt32) {faults : Faults}
    (s : Store (Object Row)) (hne : buf ++ batches ≠ [])
    (h : faults 0 ≠ none ∨
      ∃ e, P.encode schema (firstGroup targetBytes batches buf currentRows) = .error e) :
    ∃ e faults', run size (writeCompacted P pfx datePart schema targetBytes batches buf currentRows
      counter) faults s = ⟨.error e, s, faults'⟩ := by
  induction batches generalizing buf currentRows with
  | nil =>
    unfold writeCompacted
    rw [List.append_nil] at hne
    have hsome : ¬ buf.isEmpty = true := fun hempty => hne (List.isEmpty_iff.mp hempty)
    have hencode : faults 0 ≠ none ∨ ∃ e, P.encode schema buf = .error e := h
    obtain ⟨e, faults', hrun⟩ := writeCompactedFile_fails size pfx datePart (counter + 1) s hencode
    rw [if_neg hsome, run_bind, hrun]
    exact ⟨e, faults', rfl⟩
  | cons batch rest ih =>
    unfold writeCompacted
    unfold firstGroup at h
    dsimp only at h ⊢
    split
    · rename_i hfull
      rw [if_pos hfull] at h
      obtain ⟨e, faults', hrun⟩ := writeCompactedFile_fails size pfx datePart (counter + 1) s h
      rw [run_bind, hrun]
      exact ⟨e, faults', rfl⟩
    · rename_i hroom
      rw [if_neg hroom] at h
      exact ih (by simp) h

/-- A compaction that ends before its first put leaves the store as it is. -/
theorem CompactsNothing.store_eq {state : IcebergTableState} {faults : Faults}
    {s : Store (Object Row)} (h : CompactsNothing size P state targetFileSizeMb schema faults s) :
    (run size (compactTable P state targetFileSizeMb schema datePart nowMs) faults s).store = s := by
  have hreads := run_readBatches size P (allFilePaths state) faults s
  unfold CompactsNothing at h
  unfold compactTable
  dsimp only
  split
  · rfl
  · rw [run_bind]
    cases hread : run size (readBatches P (allFilePaths state)) faults s with
    | mk read s₀ later =>
      rw [hread] at h hreads
      dsimp only at hreads
      subst hreads
      cases read with
      | error e => rfl
      | ok batches =>
        dsimp only at h ⊢
        split
        · rfl
        · rename_i hbatches
          have hne : batches ≠ [] := fun hnil => hbatches (List.isEmpty_iff.mpr hnil)
          have hgroup : [] ++ batches ≠ [] := hne
          obtain ⟨e, faults', hwrite⟩ := writeCompacted_fails size (stripS3Prefix state.location)
            datePart 0 _ hgroup (h.resolve_left hne)
          rw [run_bind, hwrite]

end Adds

end RustLake.Iceberg
