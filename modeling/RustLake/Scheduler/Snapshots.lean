import RustLake.Scheduler.Outputs
import RustLake.Sink.Finalizes

/-! The write of an execution's result: data files below the prefix of the version, then a snapshot of
the Iceberg table there, and the id which the execution takes for that snapshot. -/
namespace RustLake.Scheduler
open ObjectStore Iceberg Sink Text

/-- A bucket, which has no slash in its name. -/
structure Bucket where
  name : String
  plain : '/' ∉ name.toList

/-- Where the executions of a version write. -/
def versionTarget (bucket : Bucket) (table : String) (version : UInt32) : SinkTarget :=
  ⟨bucket.name, dataPrefix table version, bucket.plain⟩

variable {Row : Type}

/-- The batches of a result with the times at which they are written, the readings of the clock by the
snapshot's writer and, after it, by the handler, and what fails of the calls for the data files, of the
search for a table, of loading it, and of the commit. -/
structure OutputWrite (Row : Type) where
  batches : List (DateTime × RecordBatch Row)
  flushedAt : DateTime
  tableUuid : String
  nowMs : Int64
  handlerMs : Int64
  dataFaults : Faults
  findFaults : Faults
  loadFaults : Faults
  commitFaults : Faults

/-- The batches that have rows are written, and at last the sink is flushed. -/
def storeBatches (P : Parquet Row) (flushedAt : DateTime) :
    List (DateTime × RecordBatch Row) → ParquetSink Row →
      Program (Object Row) (ParquetSink Row × Except String Unit)
  | [], sink => sink.flush P flushedAt
  | (now, batch) :: rest, sink =>
    if batch.rows.isEmpty then storeBatches P flushedAt rest sink
    else do
      let (sink, result) ← sink.writeBatch P now batch
      match result with
      | .ok () => storeBatches P flushedAt rest sink
      | .error e => return (sink, .error e)

section Write
variable (size : Object Row → ℕ) (P : Parquet Row) (target : SinkTarget)

/-- The table to append to, where one is found and loaded. -/
def OutputWrite.existing (w : OutputWrite Row) (s : Store (Object Row)) :
    Option IcebergTableState :=
  match (run size (findLatestMetadata target.sinkPrefix) w.findFaults s).result with
  | .ok (some path) =>
    match (run size (loadTableState path) w.loadFaults s).result with
    | .ok state => some state
    | .error _ => none
  | _ => none

/-- The data files. -/
def OutputWrite.stored (w : OutputWrite Row) (s : Store (Object Row)) :
    Outcome (Object Row) (ParquetSink Row × Except String Unit) :=
  run size (storeBatches P w.flushedAt w.batches (.new target.sinkPrefix target.bucket 500))
    w.dataFaults s

/-- The id that the execution records and the store. There is no id where it has panicked. -/
def OutputWrite.run (w : OutputWrite Row) (s : Store (Object Row)) :
    Option Int64 × Store (Object Row) :=
  if w.batches.all fun batch => batch.2.rows.isEmpty then (some 0, s)
  else match w.stored size P target s with
    | ⟨.ok (sink, .ok ()), stored, _⟩ =>
      match ObjectStore.run size (sink.finalizeIcebergIncremental (w.existing size target stored)
          w.tableUuid w.nowMs) w.commitFaults stored with
      | ⟨.ok _, after, _⟩ => (some w.handlerMs, after)
      | ⟨.error (.error _), after, _⟩ => (some 0, after)
      | ⟨.error .panic, after, _⟩ => (none, after)
    | ⟨.ok (_, .error _), stored, _⟩ => (some 0, stored)
    | ⟨.error _, stored, _⟩ => (none, stored)

/-- The ids of the snapshots that readers see. -/
def snapshotIds (s : Store (Object Row)) : List Int64 :=
  ((visible size target s).map fun state => state.snapshots.map (·.snapshotId)).getD []

/-- Finding and loading the newest metadata meets no fault. -/
def OutputWrite.Reads (w : OutputWrite Row) : Prop :=
  w.findFaults 0 = none ∧ w.loadFaults 0 = none ∧ w.loadFaults 1 = none

/-- The metadata that a search without faults finds. -/
def newestMetadata (s : Store (Object Row)) : Option Path :=
  latestOf (s.listing (metadataPrefix target.sinkPrefix))

/-- The snapshot that is committed can be linked to the version: the handler reads the clock in the same
millisecond, there is a number for the next file of the table, the version is stored, and no other version
has the id. -/
structure OutputWrite.Fits (w : OutputWrite Row) (versions : List TransformVersion)
    (version : UInt32) (s : Store (Object Row)) : Prop where
  clock : w.handlerMs = w.nowMs ∧ w.nowMs ≠ 0
  room : newestMetadata target s ≠ some (versionKey target.sinkPrefix (2 ^ 31 - 1))
  stored : ∃ v ∈ versions, v.version = version
  fresh : ∀ v ∈ versions.eraseP fun v => v.version = version, w.nowMs ∉ v.snapshotIds

/-- A write that puts metadata does so where readers can open the table, not over the metadata of a table
that it could not read; a new table comes with its manifest list, and a snapshot that is committed can be
linked. -/
structure OutputWrite.Links (w : OutputWrite Row) (versions : List TransformVersion)
    (version : UInt32) (s : Store (Object Row)) : Prop where
  spells : w.commitFaults 0 = none → SpellsItself target.sinkPrefix
  reads : newestMetadata target s ≠ none → w.commitFaults 0 = none → w.Reads
  creates : newestMetadata target s = none → w.commitFaults 0 = none → w.commitFaults 1 = none
  fits : w.commitFaults 0 = none → w.commitFaults 1 = none → w.Fits target versions version s

end Write

end RustLake.Scheduler
