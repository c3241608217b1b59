import RustLake.Iceberg.Commit

/-! Table maintenance: compaction, snapshot expiry and orphan file cleanup, and the
parent-chain reader of `iceberg_metadata`. -/
namespace RustLake.Iceberg
open RustLake.Json RustLake.ObjectStore RustLake.Text

/-- The Parquet library: writing batches gives a file of some length or an error, and
reading a file gives its rows back in batches of the library's choosing. -/
structure Parquet (Row : Type) where
  encode : ArrowSchema → List (List Row) → Except String ℕ
  batches : List Row → List (List Row)
  flatten_batches : ∀ rows, (batches rows).flatten = rows
  invalid : String

variable {Row : Type}

/-- The data file paths of a list, each at its first place. -/
def uniquePaths (paths : List String) : List String :=
  paths.foldl (fun seen p => if p ∈ seen then seen else seen ++ [p]) []

def allFilePaths (state : IcebergTableState) : List String :=
  uniquePaths (state.snapshots.flatMap fun s => s.dataFiles.map (·.filePath))

/-- `ParquetRecordBatchReaderBuilder` over an object read in full. -/
def Parquet.read (P : Parquet Row) (filePath : String) : Object Row → Except String (List (List Row))
  | .parquet rows _ => .ok (P.batches rows)
  | _ => .error ("Parquet reader error for " ++ filePath ++ ": " ++ P.invalid)

/-- Read all files and collect their batches. -/
def readBatches (P : Parquet Row) : List String → Program (Object Row) (List (List Row))
  | [] => return []
  | filePath :: rest =>
    .get (Path.ofText filePath) fun response => do
      let found ← Program.orFail
        (fun e => "Failed to read " ++ filePath ++ ": " ++ e) response
      .bytes found fun read => do
        let data ← Program.orFail
          (fun e => "Failed to read bytes from " ++ filePath ++ ": " ++ e) read
        let batches ← Program.orFail id (P.read filePath data)
        let later ← readBatches P rest
        return batches ++ later

/-- `batch.num_rows() as u64`, summed over batches. -/
def numRows (batches : List (List Row)) : UInt64 :=
  (batches.map fun b => UInt64.ofNat b.length).sum

/-- `{:04}`. -/
def padFour (n : UInt32) : String :=
  let digits := (toString n).toList
  String.ofList (List.replicate (4 - digits.length) '0' ++ digits)

def writeCompactedFile (P : Parquet Row) (filePrefix datePart : String) (fileCounter : UInt32)
    (batches : List (List Row)) (schema : ArrowSchema) : Program (Object Row) DataFileInfo := do
  let length ← Program.orFail (fun e => "Parquet write: " ++ e) (P.encode schema batches)
  let fileName :=
    filePrefix ++ "/" ++ datePart ++ "/compacted-" ++ padFour fileCounter ++ ".parquet"
  .put (Path.ofText fileName) (.parquet batches.flatten length) fun response => do
    Program.orFail (fun e => "S3 PUT compacted file: " ++ e) response
    return { filePath := fileName, fileSize := UInt64.ofNat length, rowCount := numRows batches }

/-- The write loop of `compact_table`. A batch joins the buffer, and the buffer is written
out when 100 bytes a row reach the target; what is left over makes a last file. -/
def writeCompacted (P : Parquet Row) (filePrefix datePart : String) (schema : ArrowSchema)
    (targetBytes : UInt64) : List (List Row) → List (List Row) → UInt64 → UInt32 →
    Program (Object Row) (List DataFileInfo)
  | [], buf, _, counter =>
    if buf.isEmpty then return []
    else do
      let df ← writeCompactedFile P filePrefix datePart (counter + 1) buf schema
      return [df]
  | batch :: rest, buf, currentRows, counter =>
    let buf := buf ++ [batch]
    let currentRows := currentRows + UInt64.ofNat batch.length
    if targetBytes ≤ currentRows * 100 then do
      let df ← writeCompactedFile P filePrefix datePart (counter + 1) buf schema
      let later ← writeCompacted P filePrefix datePart schema targetBytes rest [] 0 (counter + 1)
      return df :: later
    else writeCompacted P filePrefix datePart schema targetBytes rest buf currentRows counter

structure CompactionResult where
  inputFiles : ℕ
  outputFiles : ℕ
  rowsRewritten : UInt64
  metadataPath : String
deriving DecidableEq, Repr

def compactTable (P : Parquet Row) (state : IcebergTableState) (targetFileSizeMb : UInt64)
    (schema : ArrowSchema) (datePart : String) (nowMs : Int64) :
    Program (Object Row) CompactionResult :=
  let targetBytes := targetFileSizeMb * 1024 * 1024
  let paths := allFilePaths state
  if paths.isEmpty then .fail (.error "No data files to compact")
  else do
    let allBatches ← readBatches P paths
    if allBatches.isEmpty then .fail (.error "No data found in files to compact")
    else do
      let newDataFiles ←
        writeCompacted P (stripS3Prefix state.location) datePart schema targetBytes allBatches [] 0 0
      let metadataPath ← appendSnapshot state newDataFiles schema "replace" nowMs
      return {
        inputFiles := paths.length
        outputFiles := newDataFiles.length
        rowsRewritten := numRows allBatches
        metadataPath }

/-- `get_data_files_for_snapshot`: the walk along the parent chain, `none` while it has not
come to an end within `fuel` snapshots. -/
def getDataFilesForSnapshot (state : IcebergTableState) :
    ℕ → Option Int64 → Option (List String)
  | _, none => some []
  | 0, some _ => none
  | fuel + 1, some id =>
    match state.snapshot? id with
    | none => some []
    | some snap => (getDataFilesForSnapshot state fuel snap.parentSnapshotId).map
        (snap.dataFiles.map (·.filePath) ++ ·)

structure ExpireResult where
  expiredCount : ℕ
  expiredIds : List Int64
  manifestsDeleted : ℕ
  metadataPath : String
deriving DecidableEq, Repr

/-- The snapshots that `expire_snapshots` removes: of all but the last `retainLastN` in time
order, those older than the bound. -/
def expiredSnapshots (state : IcebergTableState) (olderThanMs : Int64) (retainLastN : ℕ) :
    List SnapshotInfo :=
  let sortedSnaps := state.snapshots.insertionSort (·.timestampMs ≤ ·.timestampMs)
  (sortedSnaps.take (sortedSnaps.length - retainLastN)).filter (·.timestampMs < olderThanMs)

/-- The key under which `expire_snapshots` looks for a snapshot's manifest list. -/
def manifestListKey (location : String) (snap : SnapshotInfo) : Path :=
  let manifestPath := match snap.manifestListPath.toList.dropPrefix? location.toList with
    | some rest => String.ofList rest
    | none => snap.manifestListPath
  Path.ofText (stripS3Prefix (location ++ manifestPath))

/-- Try to delete each manifest list; a failure is only not counted. -/
def deleteManifests (location : String) : List SnapshotInfo → Program (Object Row) ℕ
  | [] => return 0
  | snap :: rest =>
    .delete (manifestListKey location snap) fun response => do
      let later ← deleteManifests location rest
      return (if response.isOk then 1 else 0) + later

def withoutIds (expiredIds : List Int64) (entries : List Value) : List Value :=
  entries.filter fun e => !expiredIds.contains (i64At e "snapshot-id")

/-- The `new_metadata` of `expire_snapshots`. -/
def expiredMetadata (state : IcebergTableState) (expiredIds : List Int64) (nowMs : Int64) :
    Option Value := do
  let doc := state.metadata.mapArray "snapshots" (withoutIds expiredIds)
  let doc := doc.mapArray "snapshot-log" (withoutIds expiredIds)
  let doc ← doc.set "last-updated-ms" (.ofI64 nowMs)
  return logPreviousVersion state nowMs doc

/-- `expire_snapshots` deletes the manifest lists first and puts the metadata last. -/
def expireSnapshots (state : IcebergTableState) (olderThanMs : Int64) (retainLastN : ℕ)
    (nowMs : Int64) : Program (Object Row) ExpireResult :=
  let expired := expiredSnapshots state olderThanMs retainLastN
  let expiredIds := expired.map (·.snapshotId)
  if expired.isEmpty then
    return { expiredCount := 0, expiredIds := [], manifestsDeleted := 0, metadataPath := "" }
  else do
    let manifestsDeleted ← deleteManifests state.location expired
    let doc ← Program.orPanic (expiredMetadata state expiredIds nowMs)
    let metadataPath ← putVersion state.location (state.metadataVersion + 1) doc
    return { expiredCount := expiredIds.length, expiredIds, manifestsDeleted, metadataPath }

structure OrphanCleanupResult where
  orphanFilesFound : ℕ
  orphanFilesDeleted : ℕ
  bytesReclaimed : ℕ
deriving DecidableEq, Repr

/-- The data file paths and the nonempty manifest list paths of all snapshots. -/
def referencedPaths (state : IcebergTableState) : List String :=
  state.snapshots.flatMap fun s => s.dataFiles.map (·.filePath) ++
    (if s.manifestListPath = "" then [] else [s.manifestListPath])

/-- A listed key that `remove_orphan_files` looks at: a `.parquet` object, not metadata. -/
def isDataKey (key : Path) : Bool :=
  !decide ("/metadata/".toList <:+: key.toList) && decide (".parquet".toList <:+ key.toList)

def isOrphan (state : IcebergTableState) (key : Path) : Bool :=
  isDataKey key && !(referencedPaths state).contains key

/-- Delete each orphan of a listing. -/
def deleteOrphans : List ObjectMeta → Program (Object Row) OrphanCleanupResult
  | [] => return ⟨0, 0, 0⟩
  | item :: rest =>
    .delete item.location fun response => do
      let later ← deleteOrphans rest
      return {
        orphanFilesFound := 1 + later.orphanFilesFound
        orphanFilesDeleted := (if response.isOk then 1 else 0) + later.orphanFilesDeleted
        bytesReclaimed := (if response.isOk then item.size else 0) + later.bytesReclaimed }

def removeOrphanFiles (state : IcebergTableState) (dataPrefix : String) :
    Program (Object Row) OrphanCleanupResult :=
  .list (Path.ofText dataPrefix) fun response => do
    let items ← Program.orFail
      (fun e => "Failed to list files under " ++ dataPrefix ++ ": " ++ e) response
    deleteOrphans (items.filter fun item => isOrphan state item.location)

end RustLake.Iceberg
