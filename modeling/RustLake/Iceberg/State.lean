import RustLake.Json.Value
import RustLake.ObjectStore.Program

/-! Table state in memory, what the store holds, and loading the one from the other. -/
namespace RustLake.Iceberg
open RustLake.Json RustLake.ObjectStore RustLake.Text

/-- An object of a table's bucket: a JSON document, a Parquet file with its rows and
its length in bytes, or bytes that are neither. -/
inductive Object (Row : Type) where
  | json (doc : Value)
  | parquet (rows : List Row) (length : ℕ)
  | other (length : ℕ)

structure DataFileInfo where
  filePath : String
  fileSize : UInt64
  rowCount : UInt64
deriving DecidableEq, Repr

structure SnapshotInfo where
  snapshotId : Int64
  parentSnapshotId : Option Int64
  timestampMs : Int64
  operation : String
  summary : List (String × String)
  manifestListPath : String
  dataFiles : List DataFileInfo
deriving DecidableEq, Repr

structure IcebergField where
  id : Int32
  name : String
  required : Bool
  typeStr : String
deriving DecidableEq, Repr

structure SchemaVersion where
  schemaId : Int32
  fields : List IcebergField
deriving DecidableEq, Repr

structure PartitionField where
  sourceId : Int32
  fieldId : Int32
  name : String
  transform : String
deriving DecidableEq, Repr

structure PartitionSpecInfo where
  specId : Int32
  fields : List PartitionField
deriving DecidableEq, Repr

structure IcebergTableState where
  metadata : Value
  tableUuid : String
  location : String
  snapshots : List SnapshotInfo
  schemas : List SchemaVersion
  partitionSpecs : List PartitionSpecInfo
  currentSnapshotId : Option Int64
  currentSchemaId : Int32
  metadataVersion : Int32

def IcebergTableState.snapshot? (state : IcebergTableState) (id : Int64) :
    Option SnapshotInfo := state.snapshots.find? (·.snapshotId = id)

/-- `v.get(key).and_then(|v| v.as_i64()).unwrap_or(0)`. -/
def i64At (v : Value) (key : String) : Int64 := ((v.get key).bind Value.asI64).getD 0

def i32At (v : Value) (key : String) : Int32 := asI32 (i64At v key)

/-- `v.get(key).and_then(|v| v.as_str()).unwrap_or(default)`. -/
def strAt (v : Value) (key default : String) : String :=
  ((v.get key).bind Value.asStr).getD default

/-- `v.get(key).and_then(|v| v.as_array())`, empty when there is none. -/
def arrayAt (v : Value) (key : String) : List Value := ((v.get key).bind Value.asArray).getD []

def parseSummary (s : Value) : List (String × String) :=
  (((s.get "summary").bind Value.asObject).map
    (List.map fun e => (e.1, e.2.asStr.getD ""))).getD []

/-- One entry of `parse_snapshots`. The data files are not read back: the vector of a
loaded snapshot is always empty. -/
def parseSnapshot (s : Value) : SnapshotInfo where
  snapshotId := i64At s "snapshot-id"
  parentSnapshotId := (s.get "parent-snapshot-id").bind Value.asI64
  timestampMs := i64At s "timestamp-ms"
  operation := ((parseSummary s).lookup "operation").getD "append"
  summary := parseSummary s
  manifestListPath := strAt s "manifest-list" ""
  dataFiles := []

def parseSnapshots (metadata : Value) : List SnapshotInfo :=
  (arrayAt metadata "snapshots").map parseSnapshot

def parseField (f : Value) : IcebergField where
  id := i32At f "id"
  name := strAt f "name" ""
  required := ((f.get "required").bind Value.asBool).getD false
  typeStr := strAt f "type" "string"

def parseSchemas (metadata : Value) : List SchemaVersion :=
  (arrayAt metadata "schemas").map fun s =>
    { schemaId := i32At s "schema-id", fields := (arrayAt s "fields").map parseField }

def parsePartitionField (f : Value) : PartitionField where
  sourceId := i32At f "source-id"
  fieldId := i32At f "field-id"
  name := strAt f "name" ""
  transform := strAt f "transform" "identity"

def parsePartitionSpecs (metadata : Value) : List PartitionSpecInfo :=
  (arrayAt metadata "partition-specs").map fun s =>
    { specId := i32At s "spec-id", fields := (arrayAt s "fields").map parsePartitionField }

/-- The number N of a file name `vN.metadata.json`. -/
def fileVersion (name : List Char) : Option Int32 := do
  let rest ← name.dropPrefix? ['v']
  let digits ← rest.dropSuffix? ".metadata.json".toList
  parseI32 digits

/-- The state that a metadata document stands for, read from a given path. -/
def stateOf (metadata : Value) (metadataPath : String) : IcebergTableState where
  metadata := metadata
  tableUuid := strAt metadata "table-uuid" ""
  location := strAt metadata "location" ""
  snapshots := parseSnapshots metadata
  schemas := parseSchemas metadata
  partitionSpecs := parsePartitionSpecs metadata
  currentSnapshotId := (metadata.get "current-snapshot-id").bind Value.asI64
  currentSchemaId := i32At metadata "current-schema-id"
  metadataVersion := (fileVersion (fileName metadataPath)).getD 1

variable {Row : Type}

/-- `serde_json::from_slice`. -/
def Object.parseJson : Object Row → Except String Value
  | .json doc => .ok doc
  | _ => .error "expected value at line 1 column 1"

def loadTableState (metadataPath : String) : Program (Object Row) IcebergTableState :=
  .get (Path.ofText metadataPath) fun response => do
    let found ← Program.orFail
      (fun e => "Failed to read metadata at " ++ metadataPath ++ ": " ++ e) response
    .bytes found fun read => do
      let bytes ← Program.orFail (fun e => "Failed to read metadata bytes: " ++ e) read
      let metadata ← Program.orFail (fun e => "Invalid metadata JSON: " ++ e) bytes.parseJson
      return stateOf metadata metadataPath

/-- One item of the listing in `find_latest_metadata`: `best` holds the greatest version
so far, at first 0, and its path. -/
def keepLatest (best : Int32 × Option Path) (key : Path) : Int32 × Option Path :=
  match fileVersion (fileName key) with
  | some ver => if best.1 < ver then (ver, some key) else best
  | none => best

def latestOf (keys : List Path) : Option Path := (keys.foldl keepLatest (0, none)).2

def metadataPrefix (tablePrefix : String) : Path := Path.ofText (tablePrefix ++ "/metadata/")

def findLatestMetadata (tablePrefix : String) : Program (Object Row) (Option Path) :=
  .list (metadataPrefix tablePrefix) fun response => do
    let items ← Program.orFail (fun e => "Failed to list metadata: " ++ e) response
    return latestOf (items.map ObjectMeta.location)

/-- `strip_s3_prefix`: the key part of an `s3://bucket/key` location. -/
def stripS3Prefix (location : String) : String :=
  match location.toList.dropPrefix? "s3://".toList with
  | some rest => match afterFirst? '/' rest with
    | some key => String.ofList key
    | none => location
  | none => location

example : stripS3Prefix "s3://mybucket/tables/orders" = "tables/orders" ∧
    stripS3Prefix "s3://mybucket/" = "" ∧ stripS3Prefix "tables/orders" = "tables/orders" := by
  decide

/-- The table under a prefix as readers see it: the newest metadata file and its state. -/
def openTable (tablePrefix : String) :
    Program (Object Row) (Option (Path × IcebergTableState)) := do
  match ← findLatestMetadata tablePrefix with
  | some path => do
    let state ← loadTableState path
    return some (path, state)
  | none => return none

section View
variable (size : Object Row → ℕ)

def tableView (tablePrefix : String) (s : Store (Object Row)) :
    Except Failure (Option (Path × IcebergTableState)) :=
  (run size (openTable tablePrefix) noFaults s).result

/-- What `load_table_state` makes of the object found at its path. -/
def loadedFrom (path : String) (found : Except String (Object Row)) :
    Except Failure IcebergTableState :=
  match found with
  | .error e => .error (.error ("Failed to read metadata at " ++ path ++ ": " ++ e))
  | .ok object => match object.parseJson with
    | .error e => .error (.error ("Invalid metadata JSON: " ++ e))
    | .ok metadata => .ok (stateOf metadata path)

/-- A run of `load_table_state` that meets no fault. -/
theorem run_loadTableState (path : String) (s : Store (Object Row)) :
    run size (loadTableState path) noFaults s =
      ⟨loadedFrom path (s.found (Path.ofText path)), s, noFaults⟩ := by
  unfold loadTableState loadedFrom
  cases hfound : s.found (Path.ofText path) with
  | error e => simp [hfound]
  | ok object => cases hparse : object.parseJson <;> simp [hfound, hparse]

end View

end RustLake.Iceberg
