import RustLake.Iceberg.State

/-! The commits that make a new metadata version: creating a table, appending a snapshot,
evolving the schema and evolving the partition spec. Clock readings are arguments. -/
namespace RustLake.Iceberg
open RustLake.Json RustLake.ObjectStore RustLake.Text

/-- The Arrow types that `arrow_to_iceberg_type` tells apart. -/
inductive DataType where
  | boolean | int8 | int16 | int32 | int64 | uint8 | uint16 | uint32 | uint64
  | float16 | float32 | float64 | utf8 | largeUtf8 | binary | largeBinary
  | date32 | date64 | timestamp (tz : Option String) | time32 | time64
  | decimal128 (precision : UInt8) (scale : Int8) | nested (name : String)
deriving DecidableEq, Repr

def arrowToIcebergType : DataType → String
  | .boolean => "boolean"
  | .int8 | .int16 | .int32 => "int"
  | .int64 => "long"
  | .uint8 | .uint16 | .uint32 => "int"
  | .uint64 => "long"
  | .float16 | .float32 => "float"
  | .float64 => "double"
  | .utf8 | .largeUtf8 => "string"
  | .binary | .largeBinary => "binary"
  | .date32 | .date64 => "date"
  | .timestamp (some _) => "timestamptz"
  | .timestamp none => "timestamp"
  | .time32 | .time64 => "time"
  | .decimal128 _ _ => "decimal(38,10)"
  | .nested _ => "string"

structure ArrowField where
  name : String
  dataType : DataType
  nullable : Bool
deriving DecidableEq, Repr

abbrev ArrowSchema := List ArrowField

/-- The `iceberg_fields` of an Arrow schema, with ids counted from 1. -/
def icebergFields (schema : ArrowSchema) : List Value :=
  schema.zipIdx.map fun e => .obj [
    ("id", .num (e.2 + 1)),
    ("name", .str e.1.name),
    ("required", .bool !e.1.nullable),
    ("type", .str (arrowToIcebergType e.1.dataType))]

def totalRecords (files : List DataFileInfo) : UInt64 := (files.map (·.rowCount)).sum

def totalSize (files : List DataFileInfo) : UInt64 := (files.map (·.fileSize)).sum

def fileCount (files : List DataFileInfo) : UInt64 := UInt64.ofNat files.length

def manifestListName (snapshotId : Int64) : String :=
  "snap-" ++ toString snapshotId ++ "-manifest-list.json"

def manifestList (location : String) (files : List DataFileInfo) (snapshotId : Int64) : Value :=
  .obj [
    ("format-version", .num 2),
    ("manifests", .arr (files.map fun df => .obj [
      ("manifest_path", .str (location ++ "/" ++ df.filePath)),
      ("manifest_length", .ofU64 df.fileSize),
      ("partition_spec_id", .num 0),
      ("added_snapshot_id", .ofI64 snapshotId),
      ("added_data_files_count", .num 1),
      ("added_rows_count", .ofU64 df.rowCount),
      ("existing_data_files_count", .num 0),
      ("existing_rows_count", .num 0),
      ("deleted_data_files_count", .num 0),
      ("deleted_rows_count", .num 0)]))]

/-- The summary of a snapshot from the totals before it and the files it adds. -/
def snapshotSummary (operation : String) (prevRecords prevFiles prevSize : UInt64)
    (files : List DataFileInfo) : Value :=
  .obj [
    ("operation", .str operation),
    ("total-records", .str (toString (prevRecords + totalRecords files))),
    ("total-data-files", .str (toString (prevFiles + fileCount files))),
    ("total-files-size", .str (toString (prevSize + totalSize files))),
    ("added-records", .str (toString (totalRecords files))),
    ("added-data-files", .str (toString files.length)),
    ("added-files-size", .str (toString (totalSize files)))]

/-- The v1 document of `write_iceberg_metadata`. -/
def initialMetadata (location : String) (schema : ArrowSchema) (files : List DataFileInfo)
    (tableUuid : String) (nowMs : Int64) : Value :=
  .obj [
    ("format-version", .num 2),
    ("table-uuid", .str tableUuid),
    ("location", .str location),
    ("last-sequence-number", .num files.length),
    ("last-updated-ms", .ofI64 nowMs),
    ("last-column-id", .num schema.length),
    ("current-schema-id", .num 0),
    ("schemas", .arr [.obj [
      ("type", .str "struct"),
      ("schema-id", .num 0),
      ("fields", .arr (icebergFields schema))]]),
    ("default-spec-id", .num 0),
    ("partition-specs", .arr [.obj [("spec-id", .num 0), ("fields", .arr [])]]),
    ("last-partition-id", .num 0),
    ("default-sort-order-id", .num 0),
    ("sort-orders", .arr [.obj [("order-id", .num 0), ("fields", .arr [])]]),
    ("properties", .obj [
      ("write.format.default", .str "parquet"),
      ("write.parquet.compression-codec", .str "snappy"),
      ("created-by", .str "RustLake CDC Pipeline")]),
    ("current-snapshot-id", .ofI64 nowMs),
    ("snapshots", .arr [.obj [
      ("snapshot-id", .ofI64 nowMs),
      ("sequence-number", .num 1),
      ("timestamp-ms", .ofI64 nowMs),
      ("summary", snapshotSummary "append" 0 0 0 files),
      ("manifest-list", .str (location ++ "/metadata/" ++ manifestListName nowMs))]]),
    ("snapshot-log", .arr [.obj [
      ("timestamp-ms", .ofI64 nowMs), ("snapshot-id", .ofI64 nowMs)]]),
    ("metadata-log", .arr []),
    ("refs", .obj [("main", .obj [
      ("snapshot-id", .ofI64 nowMs), ("type", .str "branch")])])]

variable {Row : Type}

/-- `write_iceberg_metadata` puts the metadata first and the manifest list second. -/
def writeIcebergMetadata (tablePrefix : String) (schema : ArrowSchema)
    (dataFiles : List DataFileInfo) (tableUuid bucket : String) (nowMs : Int64) :
    Program (Object Row) String :=
  if dataFiles.isEmpty then
    .fail (.error "No data files to create Iceberg metadata for")
  else
    let location := "s3://" ++ bucket ++ "/" ++ tablePrefix
    let metadataPath := tablePrefix ++ "/metadata/v1.metadata.json"
    let manifestPath := tablePrefix ++ "/metadata/" ++ manifestListName nowMs
    .put (Path.ofText metadataPath)
        (.json (initialMetadata location schema dataFiles tableUuid nowMs)) fun response => do
      Program.orFail (fun e => "S3 PUT metadata: " ++ e) response
      .put (Path.ofText manifestPath) (.json (manifestList location dataFiles nowMs))
          fun response => do
        Program.orFail (fun e => "S3 PUT manifest: " ++ e) response
        return metadataPath

/-- The path of the metadata file of a version below a location. -/
def versionPath (location : String) (version : Int32) : String :=
  stripS3Prefix location ++ "/metadata/v" ++ toString version ++ ".metadata.json"

/-- The put that ends every commit on an existing table. -/
def putVersion (location : String) (version : Int32) (doc : Value) :
    Program (Object Row) String :=
  .put (Path.ofText (versionPath location version)) (.json doc) fun response => do
    Program.orFail (fun e => "S3 PUT metadata: " ++ e) response
    return versionPath location version

/-- The entry each commit adds to `metadata-log` for the version it starts from. -/
def logPreviousVersion (state : IcebergTableState) (nowMs : Int64) (doc : Value) : Value :=
  doc.mapArray "metadata-log" (· ++ [.obj [
    ("timestamp-ms", .ofI64 (((state.metadata.get "last-updated-ms").bind Value.asI64).getD nowMs)),
    ("metadata-file", .str (state.location ++ "/metadata/v" ++ toString state.metadataVersion ++
      ".metadata.json"))]])

/-- A total of the current snapshot's summary, 0 where it is missing or no number. -/
def prevTotal (state : IcebergTableState) (key : String) : UInt64 :=
  (do
    let id ← state.currentSnapshotId
    let snap ← state.snapshot? id
    let text ← snap.summary.lookup key
    parseU64 text.toList).getD 0

/-- The `new_snapshot` of `append_snapshot`. -/
def snapshotEntry (state : IcebergTableState) (newDataFiles : List DataFileInfo)
    (operation : String) (nowMs : Int64) : Value :=
  .obj [
    ("snapshot-id", .ofI64 nowMs),
    ("parent-snapshot-id", match state.currentSnapshotId with
      | some id => .ofI64 id
      | none => .null),
    ("sequence-number", .num (state.snapshots.length + 1)),
    ("timestamp-ms", .ofI64 nowMs),
    ("summary", snapshotSummary operation (prevTotal state "total-records")
      (prevTotal state "total-data-files") (prevTotal state "total-files-size") newDataFiles),
    ("manifest-list", .str (state.location ++ "/metadata/" ++ manifestListName nowMs))]

/-- `refs["main"]["snapshot-id"] = id` where the document has `refs`. -/
def setMainRef (doc : Value) (id : Int64) : Option Value :=
  match doc.get "refs" with
  | none => some doc
  | some refs => do
    let main ← ((refs.get "main").getD .null).set "snapshot-id" (.ofI64 id)
    let refs ← refs.set "main" main
    doc.set "refs" refs

/-- The number of fields of the current schema version. -/
def currentFields (state : IcebergTableState) : ℕ :=
  ((state.schemas.find? (·.schemaId = state.currentSchemaId)).map (·.fields.length)).getD 0

/-- A new schema version where the number of columns differs from the current one. -/
def ensureSchema (state : IcebergTableState) (schema : ArrowSchema) (doc : Value) :
    Option Value :=
  if schema.length = currentFields state then some doc
  else do
    let newSchemaId := state.currentSchemaId + 1
    let doc := doc.mapArray "schemas" (· ++ [.obj [
      ("type", .str "struct"),
      ("schema-id", .ofI32 newSchemaId),
      ("fields", .arr (icebergFields schema))]])
    let doc ← doc.set "current-schema-id" (.ofI32 newSchemaId)
    doc.set "last-column-id" (.num schema.length)

/-- The `new_metadata` of `append_snapshot`; `none` where indexing it panics. -/
def appendedMetadata (state : IcebergTableState) (newDataFiles : List DataFileInfo)
    (schema : ArrowSchema) (operation : String) (nowMs : Int64) : Option Value := do
  let doc := state.metadata.mapArray "snapshots"
    (· ++ [snapshotEntry state newDataFiles operation nowMs])
  let doc := doc.mapArray "snapshot-log"
    (· ++ [.obj [("timestamp-ms", .ofI64 nowMs), ("snapshot-id", .ofI64 nowMs)]])
  let doc := logPreviousVersion state nowMs doc
  let doc ← doc.set "current-snapshot-id" (.ofI64 nowMs)
  let doc ← doc.set "last-updated-ms" (.ofI64 nowMs)
  let doc ← doc.set "last-sequence-number" (.num (state.snapshots.length + newDataFiles.length))
  let doc ← setMainRef doc nowMs
  ensureSchema state schema doc

def manifestKey (state : IcebergTableState) (nowMs : Int64) : Path :=
  Path.ofText (stripS3Prefix state.location ++ "/metadata/" ++ manifestListName nowMs)

/-- `append_snapshot` puts the manifest list first and the metadata last. -/
def appendSnapshot (state : IcebergTableState) (newDataFiles : List DataFileInfo)
    (schema : ArrowSchema) (operation : String) (nowMs : Int64) : Program (Object Row) String :=
  if newDataFiles.isEmpty then
    .fail (.error "No data files for new snapshot")
  else
    .put (manifestKey state nowMs) (.json (manifestList state.location newDataFiles nowMs))
        fun response => do
      Program.orFail (fun e => "S3 PUT manifest: " ++ e) response
      let doc ← Program.orPanic (appendedMetadata state newDataFiles schema operation nowMs)
      putVersion state.location (state.metadataVersion + 1) doc

def createTable (tablePrefix : String) (schema : ArrowSchema) (dataFiles : List DataFileInfo)
    (tableUuid bucket : String) (nowMs : Int64) :
    Program (Object Row) (String × IcebergTableState) := do
  let metadataPath ←
    writeIcebergMetadata tablePrefix schema dataFiles tableUuid bucket nowMs
  let state ← loadTableState metadataPath
  return (metadataPath, state)

inductive SchemaChange where
  | addColumn (name typeStr : String) (nullable : Bool)
  | dropColumn (name : String)
  | renameColumn (oldName newName : String)
deriving DecidableEq, Repr

/-- Rename the first field that has the old name. -/
def renameField (oldName newName : String) : List IcebergField → Option (List IcebergField)
  | [] => none
  | f :: fs =>
    if f.name = oldName then some ({ f with name := newName } :: fs)
    else (renameField oldName newName fs).map (f :: ·)

/-- One change to the fields and the greatest column id so far. -/
def applyChange (new : List IcebergField × Int32) :
    SchemaChange → Except String (List IcebergField × Int32)
  | .addColumn name typeStr nullable =>
    if new.1.any (·.name = name) then .error ("Column '" ++ name ++ "' already exists")
    else
      let maxId := new.2 + 1
      .ok (new.1 ++ [{ id := maxId, name, required := !nullable, typeStr }], maxId)
  | .dropColumn name =>
    let kept := new.1.filter (·.name ≠ name)
    if kept.length = new.1.length then .error ("Column '" ++ name ++ "' not found")
    else .ok (kept, new.2)
  | .renameColumn oldName newName =>
    match renameField oldName newName new.1 with
    | some fields => .ok (fields, new.2)
    | none => .error ("Column '" ++ oldName ++ "' not found")

def fieldValue (f : IcebergField) : Value :=
  .obj [
    ("id", .ofI32 f.id), ("name", .str f.name), ("required", .bool f.required),
    ("type", .str f.typeStr)]

/-- The `new_metadata` of `evolve_schema`. -/
def evolvedMetadata (state : IcebergTableState) (newFields : List IcebergField)
    (maxId : Int32) (nowMs : Int64) : Option Value := do
  let newSchemaId := state.currentSchemaId + 1
  let doc := state.metadata.mapArray "schemas" (· ++ [.obj [
    ("type", .str "struct"),
    ("schema-id", .ofI32 newSchemaId),
    ("fields", .arr (newFields.map fieldValue))]])
  let doc ← doc.set "current-schema-id" (.ofI32 newSchemaId)
  let doc ← doc.set "last-column-id" (.ofI32 maxId)
  let doc ← doc.set "last-updated-ms" (.ofI64 nowMs)
  return logPreviousVersion state nowMs doc

def evolveSchema (state : IcebergTableState) (changes : List SchemaChange) (nowMs : Int64) :
    Program (Object Row) String :=
  if changes.isEmpty then
    .fail (.error "No schema changes provided")
  else match state.schemas.find? (·.schemaId = state.currentSchemaId) with
    | none => .fail (.error "Current schema not found")
    | some current => do
      let maxId := ((current.fields.map (·.id)).max?).getD 0
      let new ← Program.orFail id (changes.foldlM applyChange (current.fields, maxId))
      let doc ← Program.orPanic (evolvedMetadata state new.1 new.2 nowMs)
      putVersion state.location (state.metadataVersion + 1) doc

def specFieldValue (f : PartitionField) : Value :=
  .obj [
    ("source-id", .ofI32 f.sourceId), ("field-id", .ofI32 f.fieldId), ("name", .str f.name),
    ("transform", .str f.transform)]

/-- The `new_metadata` of `evolve_partition`. -/
def repartitionedMetadata (state : IcebergTableState) (newFields : List PartitionField)
    (nowMs : Int64) : Option Value := do
  let newSpecId := ((state.partitionSpecs.map (·.specId)).max?).getD 0 + 1
  let doc := state.metadata.mapArray "partition-specs" (· ++ [.obj [
    ("spec-id", .ofI32 newSpecId), ("fields", .arr (newFields.map specFieldValue))]])
  let doc ← doc.set "default-spec-id" (.ofI32 newSpecId)
  let doc ← doc.set "last-partition-id"
    (.ofI32 (((newFields.map (·.fieldId)).max?).getD newSpecId))
  let doc ← doc.set "last-updated-ms" (.ofI64 nowMs)
  return logPreviousVersion state nowMs doc

def evolvePartition (state : IcebergTableState) (newFields : List PartitionField)
    (nowMs : Int64) : Program (Object Row) String := do
  let doc ← Program.orPanic (repartitionedMetadata state newFields nowMs)
  putVersion state.location (state.metadataVersion + 1) doc

end RustLake.Iceberg
