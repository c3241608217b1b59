import RustLake.Iceberg.Maintenance
import RustLake.ObjectStore.DatedFile

/-! The Parquet sink of the pipelines: batches join a buffer, and a flush puts the buffer as one
file and remembers it for the table's metadata. -/
namespace RustLake.Sink
open RustLake.ObjectStore RustLake.Iceberg

structure RecordBatch (Row : Type) where
  schema : ArrowSchema
  rows : List Row

structure ParquetSink (Row : Type) where
  sinkPrefix : String
  flushThreshold : UInt64
  buffer : List (RecordBatch Row)
  bufferRows : UInt64
  filesWritten : UInt64
  totalRowsWritten : UInt64
  dataFiles : List DataFileInfo
  lastSchema : Option ArrowSchema
  bucket : String

variable {Row : Type}

namespace ParquetSink

def new (sinkPrefix bucket : String) (flushThreshold : UInt64) : ParquetSink Row where
  sinkPrefix := sinkPrefix
  flushThreshold := flushThreshold
  buffer := []
  bufferRows := 0
  filesWritten := 0
  totalRowsWritten := 0
  dataFiles := []
  lastSchema := none
  bucket := bucket

def batchName (now : DateTime) (filesWritten : UInt64) : String :=
  "batch-" ++ now.timePart ++ "-" ++ padded 4 filesWritten.toNat ++ ".parquet"

/-- `flush` leaves its changes to the sink behind when it fails: the count of files has gone up
before the put. -/
def flush (P : Parquet Row) (now : DateTime) (sink : ParquetSink Row) :
    Program (Object Row) (ParquetSink Row × Except String Unit) :=
  match sink.buffer with
  | [] => return (sink, .ok ())
  | first :: _ =>
    match P.encode first.schema (sink.buffer.map (·.rows)) with
    | .error e => return (sink, .error ("Parquet write batch: " ++ e))
    | .ok length =>
      let filesWritten := sink.filesWritten + 1
      let fileName := datedFile sink.sinkPrefix now.datePart (batchName now filesWritten)
      .put (Path.ofText fileName) (.parquet (sink.buffer.flatMap (·.rows)) length) fun
        | .error e => return ({ sink with filesWritten },
            .error ("S3 PUT failed for '" ++ fileName ++ "': " ++ e))
        | .ok () => return ({ sink with
            filesWritten
            totalRowsWritten := sink.totalRowsWritten + sink.bufferRows
            dataFiles := sink.dataFiles ++ [{
              filePath := fileName
              fileSize := UInt64.ofNat length
              rowCount := sink.bufferRows }]
            lastSchema := some first.schema
            buffer := []
            bufferRows := 0 }, .ok ())

def writeBatch (P : Parquet Row) (now : DateTime) (batch : RecordBatch Row)
    (sink : ParquetSink Row) : Program (Object Row) (ParquetSink Row × Except String Unit) :=
  let sink := { sink with
    buffer := sink.buffer ++ [batch]
    bufferRows := sink.bufferRows + UInt64.ofNat batch.rows.length }
  if sink.flushThreshold ≤ sink.bufferRows then sink.flush P now
  else return (sink, .ok ())

def finalizeIcebergIncremental (sink : ParquetSink Row) (existingState : Option IcebergTableState)
    (tableUuid : String) (nowMs : Int64) : Program (Object Row) String :=
  if sink.dataFiles.isEmpty then
    .fail (.error "No data files to create Iceberg metadata for")
  else match sink.lastSchema with
    | none => .fail (.error "No schema available for Iceberg metadata")
    | some schema => match existingState with
      | some state => appendSnapshot state sink.dataFiles schema "append" nowMs
      | none =>
        writeIcebergMetadata sink.sinkPrefix schema sink.dataFiles tableUuid sink.bucket nowMs

end ParquetSink

section Runs
variable (size : Object Row → ℕ) (P : Parquet Row)

/-- A sink after any calls, whatever others do to the store in between, and the keys under which
it has put its files. -/
inductive Reaches : ParquetSink Row → List Path → Prop
  | new (sinkPrefix bucket : String) (flushThreshold : UInt64) :
      Reaches (.new sinkPrefix bucket flushThreshold) []
  | flush {sink sink' : ParquetSink Row} {stored : List Path} {now : DateTime}
      {result : Except String Unit} {faults faults' : Faults} {s s' : Store (Object Row)} :
      Reaches sink stored →
      run size (sink.flush P now) faults s = ⟨.ok (sink', result), s', faults'⟩ →
      Reaches sink' (stored ++ (putLog size (sink.flush P now) faults s).map Prod.fst)
  | writeBatch {sink sink' : ParquetSink Row} {stored : List Path} {now : DateTime}
      {batch : RecordBatch Row} {result : Except String Unit} {faults faults' : Faults}
      {s s' : Store (Object Row)} : Reaches sink stored →
      run size (sink.writeBatch P now batch) faults s = ⟨.ok (sink', result), s', faults'⟩ →
      Reaches sink' (stored ++ (putLog size (sink.writeBatch P now batch) faults s).map Prod.fst)

end Runs

/-- The file lies in the directory of a day below the prefix. -/
def Dated (pfx filePath : String) : Prop :=
  ∃ (t : DateTime) (name : String), IsSegment name ∧ filePath = datedFile pfx t.datePart name

theorem isSegment_batchName (now : DateTime) (filesWritten : UInt64) :
    IsSegment (ParquetSink.batchName now filesWritten) := by
  have hbatch : Plain "batch-" := plain_of_all (by decide)
  have hdash : Plain "-" := plain_of_all (by decide)
  have hend : Plain ".parquet" := plain_of_all (by decide)
  have hplain : Plain (ParquetSink.batchName now filesWritten) :=
    (((hbatch.append (plain_timePart now)).append hdash).append (plain_padded _ _)).append hend
  have hmem : 'b' ∈ (ParquetSink.batchName now filesWritten).toList := by
    simp [ParquetSink.batchName, String.toList_append]
  exact hplain.isSegment hmem (by decide)

section Spec
variable {size : Object Row → ℕ} {P : Parquet Row} {sink sink' : ParquetSink Row}
  {stored : List Path} {now : DateTime} {result : Except String Unit} {faults faults' : Faults}
  {s s' : Store (Object Row)}

/-- What a call does to the files of a sink: it puts nothing, or it puts and remembers one. -/
structure Flushes (sink sink' : ParquetSink Row) (log : List (Path × Object Row)) : Prop where
  sinkPrefix : sink'.sinkPrefix = sink.sinkPrefix
  files : (log = [] ∧ sink'.dataFiles = sink.dataFiles) ∨
    ∃ df object, Dated sink.sinkPrefix df.filePath ∧ log = [(Path.ofText df.filePath, object)] ∧
      sink'.dataFiles = sink.dataFiles ++ [df]

theorem flush_spec
    (hrun : run size (sink.flush P now) faults s = ⟨.ok (sink', result), s', faults'⟩) :
    Flushes sink sink' (putLog size (sink.flush P now) faults s) := by
  unfold ParquetSink.flush at hrun ⊢
  cases hbuffer : sink.buffer with
  | nil =>
    simp only [hbuffer] at hrun ⊢
    cases hrun
    exact ⟨rfl, Or.inl ⟨rfl, rfl⟩⟩
  | cons first rest =>
    simp only [hbuffer] at hrun ⊢
    cases hencode : P.encode first.schema ((first :: rest).map (·.rows)) with
    | error e =>
      simp only [hencode] at hrun ⊢
      cases hrun
      exact ⟨rfl, Or.inl ⟨rfl, rfl⟩⟩
    | ok length =>
      simp only [hencode, run_put] at hrun ⊢
      cases h0 : faults 0 with
      | some e =>
        rw [answer_of_some h0] at hrun
        rw [putLog_put_of_some size h0]
        cases hrun
        exact ⟨rfl, Or.inl ⟨rfl, rfl⟩⟩
      | none =>
        rw [answer_of_none h0] at hrun
        rw [putLog_put_of_none size h0]
        cases hrun
        have hdated : Dated sink.sinkPrefix (datedFile sink.sinkPrefix now.datePart
            (ParquetSink.batchName now (sink.filesWritten + 1))) :=
          ⟨now, _, isSegment_batchName now _, rfl⟩
        exact ⟨rfl, Or.inr ⟨⟨_, _, _⟩, _, hdated, rfl, rfl⟩⟩

theorem writeBatch_spec {batch : RecordBatch Row}
    (hrun : run size (sink.writeBatch P now batch) faults s = ⟨.ok (sink', result), s', faults'⟩) :
    Flushes sink sink' (putLog size (sink.writeBatch P now batch) faults s) := by
  unfold ParquetSink.writeBatch at hrun ⊢
  dsimp only at hrun ⊢
  split
  · rename_i hfull
    rw [if_pos hfull] at hrun
    obtain ⟨hsink, hfiles⟩ := flush_spec hrun
    exact ⟨hsink, hfiles⟩
  · rename_i hroom
    rw [if_neg hroom] at hrun
    cases hrun
    exact ⟨rfl, Or.inl ⟨rfl, rfl⟩⟩

/-- The sink remembers the files that it has put, under their keys. -/
structure Remembers (sink : ParquetSink Row) (stored : List Path) : Prop where
  keys : sink.dataFiles.map (fun df => Path.ofText df.filePath) = stored
  dated : ∀ df ∈ sink.dataFiles, Dated sink.sinkPrefix df.filePath

theorem Remembers.flushes {log : List (Path × Object Row)} (h : Remembers sink stored)
    (hflush : Flushes sink sink' log) : Remembers sink' (stored ++ log.map Prod.fst) := by
  obtain ⟨hsink, ⟨rfl, hfiles⟩ | ⟨df, object, hdated, rfl, hfiles⟩⟩ := hflush
  · refine ⟨?_, fun df hdf => ?_⟩
    · rw [hfiles, h.keys, List.map_nil, List.append_nil]
    · rw [hfiles] at hdf
      rw [hsink]
      exact h.dated df hdf
  · refine ⟨?_, fun df' hdf' => ?_⟩
    · rw [hfiles, List.map_append, h.keys]
      rfl
    · rw [hfiles] at hdf'
      rw [hsink]
      rcases List.mem_append.mp hdf' with hold | hnew
      · exact h.dated df' hold
      · rw [List.mem_singleton.mp hnew]
        exact hdated

theorem Reaches.remembers (h : Reaches size P sink stored) : Remembers sink stored := by
  induction h with
  | new => exact ⟨rfl, fun df hdf => absurd hdf List.not_mem_nil⟩
  | flush _ hrun ih => exact ih.flushes (flush_spec hrun)
  | writeBatch _ hrun ih => exact ih.flushes (writeBatch_spec hrun)

end Spec
end RustLake.Sink
