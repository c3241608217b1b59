import RustLake.Iceberg.Maintenance

/-! The routes that change a table: each looks up the table's state in the S3 configurations,
builds a store for the table, and runs one operation on the two. -/
namespace RustLake.Routes
open RustLake.Json RustLake.ObjectStore RustLake.Text RustLake.Iceberg

structure S3Config where
  endpoint : String
  accessKey : String
  secretKey : String
  bucket : String
  region : String
  tables : List String
deriving DecidableEq, Repr

/-- What is set on an `AmazonS3Builder` before it builds. -/
structure AmazonS3Builder where
  bucketName : String
  region : String
  accessKeyId : String
  secretAccessKey : String
  allowHttp : Bool
  endpoint : Option String
  virtualHostedStyleRequest : Option Bool
deriving DecidableEq, Repr

/-- The S3 client library and the stores it reaches: what a builder makes, what is in a store,
and the faults of the calls that look for a table's state there under a prefix. -/
structure S3 (S Row : Type) where
  build : AmazonS3Builder → Option S
  objects : S → Store (Object Row)
  faults : S → String → Faults
  size : Object Row → ℕ

variable {S Row : Type}

def buildS3Store (s3 : S3 S Row) (config : S3Config) : Option S :=
  let builder : AmazonS3Builder := {
    bucketName := config.bucket
    region := config.region
    accessKeyId := config.accessKey
    secretAccessKey := config.secretKey
    allowHttp := true
    endpoint := none
    virtualHostedStyleRequest := none }
  s3.build <|
    if config.endpoint = "" then builder
    else { builder with
      endpoint := some config.endpoint
      virtualHostedStyleRequest := some false }

/-- A configuration lists a table by its name or by a name that ends in it after a dot. -/
def S3Config.hasTable (config : S3Config) (tableName : String) : Bool :=
  config.tables.any fun t =>
    decide (t = tableName) || decide (("." ++ tableName).toList <:+ t.toList)

def tablePrefixes (tableName : String) : List String :=
  [tableName, "cdc/" ++ tableName, "warehouse/" ++ tableName]

/-- The state under a prefix, if its newest metadata is found and loads. -/
def stateUnder (s3 : S3 S Row) (store : S) (tablePrefix : String) : Option IcebergTableState :=
  match (run s3.size (openTable tablePrefix) (s3.faults store tablePrefix)
      (s3.objects store)).result with
  | .ok (some (_, state)) => some state
  | _ => none

def loadFrom (s3 : S3 S Row) (tableName : String) (store : S) : Option IcebergTableState :=
  (tablePrefixes tableName).findSome? (stateUnder s3 store)

/-- The search of `find_iceberg_table_state`, with the store it loads the state from. -/
def searchTableState (s3 : S3 S Row) (tableName : String) :
    List S3Config → Option (S × IcebergTableState)
  | [] => none
  | config :: configs =>
    if config.hasTable tableName then do
      let store ← buildS3Store s3 config
      match loadFrom s3 tableName store with
      | some state => return (store, state)
      | none => searchTableState s3 tableName configs
    else searchTableState s3 tableName configs

def findIcebergTableState (s3 : S3 S Row) (configs : List S3Config) (tableName : String) :
    Option IcebergTableState := (searchTableState s3 tableName configs).map (·.2)

/-- The first configuration that lists the table decides. -/
def buildStoreForTable (s3 : S3 S Row) (configs : List S3Config) (tableName : String) :
    Option S := (configs.find? (·.hasTable tableName)).bind (buildS3Store s3)

def lowercase (s : List Char) : List Char := s.map Char.toLower

/-- `decimal(precision, scale)`, 38 and 10 where one is missing or no number. -/
def decimalType (icebergType : List Char) : DataType :=
  match (icebergType.splitOn '(')[1]? with
  | none => .decimal128 38 10
  | some params =>
    let parts := (params.rdropWhile (· = ')')).splitOn ','
    .decimal128 ((parts[0]?.bind fun p => parseU8 (trim p)).getD 38)
      ((parts[1]?.bind fun s => parseI8 (trim s)).getD 10)

/-- No character outside ASCII has a lower case that occurs in these names. -/
def icebergTypeToArrow (icebergType : String) : DataType :=
  let lower := lowercase icebergType.toList
  match String.ofList (trim (((lower.splitOn '(').head?).getD lower)) with
  | "boolean" => .boolean
  | "int" | "integer" => .int32
  | "long" | "bigint" => .int64
  | "float" => .float32
  | "double" => .float64
  | "string" => .utf8
  | "binary" | "fixed" => .binary
  | "date" => .date32
  | "time" => .time64
  | "timestamp" => .timestamp none
  | "timestamptz" | "timestamp_ltz" => .timestamp (some "UTC")
  | "decimal" => decimalType icebergType.toList
  | _ => .utf8

example : icebergTypeToArrow "Decimal( 10 , 2)" = .decimal128 10 2 ∧
    icebergTypeToArrow "LONG" = .int64 ∧ icebergTypeToArrow "fixed[16]" = .utf8 := by
  decide +kernel

def getSchemaForTable (state : IcebergTableState) : ArrowSchema :=
  match state.schemas.find? (·.schemaId = state.currentSchemaId) with
  | some schema => schema.fields.map fun f => ⟨f.name, icebergTypeToArrow f.typeStr, !f.required⟩
  | none => []

/-- An answer before any operation: a status code and the text of its error. -/
structure Refusal where
  status : ℕ
  error : String
deriving DecidableEq, Repr

def orRefuse {α : Type} (status : ℕ) (error : String) : Option α → Except Refusal α
  | some a => .ok a
  | none => .error ⟨status, error⟩

/-- What a route does once nothing is refused: an operation that it runs on a store, from a
table state, to the document it answers with. -/
structure Call (S Row : Type) where
  store : S
  state : IcebergTableState
  operation : Program (Object Row) Value

structure Response where
  status : ℕ
  body : Value

/-- The answer to an operation; none where it panics. -/
def respond : Except Failure Value → Option Response
  | .ok body => some ⟨200, body⟩
  | .error (.error e) => some ⟨500, .obj [("error", .str e)]⟩
  | .error .panic => none

/-- Clock readings of one request: as it arrives, and in the operation with the date part of
compacted file names. -/
structure Clock where
  arrivedMs : Int64
  nowMs : Int64
  datePart : String

def parseChange (c : Value) : Except Refusal SchemaChange :=
  let changeType := strAt c "type" ""
  match changeType with
  | "add" => .ok (.addColumn (strAt c "name" "") (strAt c "data_type" "string")
      (((c.get "nullable").bind Value.asBool).getD true))
  | "drop" => .ok (.dropColumn (strAt c "name" ""))
  | "rename" => .ok (.renameColumn (strAt c "old_name" "") (strAt c "new_name" ""))
  | _ => .error ⟨400, "Unknown change type: " ++ changeType⟩

def parseSpecField (f : Value) : PartitionField where
  sourceId := asI32 (((f.get "source_id").bind Value.asI64).getD 0)
  fieldId := asI32 (((f.get "field_id").bind Value.asI64).getD 1000)
  name := strAt f "name" ""
  transform := strAt f "transform" "identity"

/-- `body.get(key).and_then(|v| v.as_u64()).unwrap_or(default)`. -/
def u64At (body : Value) (key : String) (default : UInt64) : UInt64 :=
  ((body.get key).bind Value.asU64).getD default

section Handlers
variable (s3 : S3 S Row) (configs : List S3Config) (name : String) (clock : Clock)

def evolveTableSchema (body : Value) : Except Refusal (Call S Row) := do
  let ts ← orRefuse 404 "Iceberg table not found" (findIcebergTableState s3 configs name)
  let changesArr ←
    orRefuse 400 "Missing 'changes' array" ((body.get "changes").bind Value.asArray)
  let changes ← changesArr.mapM parseChange
  let store ← orRefuse 500 "Could not build S3 store" (buildStoreForTable s3 configs name)
  let operation := do
    let path ← evolveSchema ts changes clock.nowMs
    return .obj [
      ("status", .str "ok"),
      ("metadata_path", .str path),
      ("new_schema_id", .ofI32 (ts.currentSchemaId + 1))]
  return ⟨store, ts, operation⟩

def evolveTablePartitions (body : Value) : Except Refusal (Call S Row) := do
  let ts ← orRefuse 404 "Iceberg table not found" (findIcebergTableState s3 configs name)
  let fieldsArr ←
    orRefuse 400 "Missing 'fields' array" ((body.get "fields").bind Value.asArray)
  let store ← orRefuse 500 "Could not build S3 store" (buildStoreForTable s3 configs name)
  let operation := do
    let path ← evolvePartition ts (fieldsArr.map parseSpecField) clock.nowMs
    return .obj [("status", .str "ok"), ("metadata_path", .str path)]
  return ⟨store, ts, operation⟩

def compactTable (P : Parquet Row) (body : Value) : Except Refusal (Call S Row) := do
  let targetMb := u64At body "target_file_size_mb" 128
  let ts ← orRefuse 404 "Iceberg table not found" (findIcebergTableState s3 configs name)
  let store ← orRefuse 500 "Could not build S3 store" (buildStoreForTable s3 configs name)
  let operation := do
    let result ← Iceberg.compactTable P ts targetMb (getSchemaForTable ts) clock.datePart clock.nowMs
    return .obj [
      ("status", .str "ok"),
      ("input_files", .num result.inputFiles),
      ("output_files", .num result.outputFiles),
      ("rows_rewritten", .ofU64 result.rowsRewritten),
      ("metadata_path", .str result.metadataPath)]
  return ⟨store, ts, operation⟩

/-- The hours become milliseconds in the wrapping arithmetic of `i64`. -/
def expireTableSnapshots (body : Value) : Except Refusal (Call S Row) := do
  let retainLast := (u64At body "retain_last" 3).toNat
  let olderThanHours := u64At body "older_than_hours" 168
  let olderThanMs := clock.arrivedMs - olderThanHours.toInt64 * 3600 * 1000
  let ts ← orRefuse 404 "Iceberg table not found" (findIcebergTableState s3 configs name)
  let store ← orRefuse 500 "Could not build S3 store" (buildStoreForTable s3 configs name)
  let operation := do
    let result ← expireSnapshots ts olderThanMs retainLast clock.nowMs
    return .obj [
      ("status", .str "ok"),
      ("expired_count", .num result.expiredCount),
      ("expired_ids", .arr (result.expiredIds.map Value.ofI64)),
      ("manifests_deleted", .num result.manifestsDeleted)]
  return ⟨store, ts, operation⟩

def removeTableOrphans : Except Refusal (Call S Row) := do
  let ts ← orRefuse 404 "Iceberg table not found" (findIcebergTableState s3 configs name)
  let store ← orRefuse 500 "Could not build S3 store" (buildStoreForTable s3 configs name)
  let operation := do
    let result ← removeOrphanFiles ts (stripS3Prefix ts.location)
    return .obj [
      ("status", .str "ok"),
      ("orphan_files_found", .num result.orphanFilesFound),
      ("orphan_files_deleted", .num result.orphanFilesDeleted),
      ("bytes_reclaimed", .num result.bytesReclaimed)]
  return ⟨store, ts, operation⟩

end Handlers

/-- The requests that change a table, with their bodies. -/
inductive MaintenanceRequest where
  | evolveTableSchema (body : Value)
  | evolveTablePartitions (body : Value)
  | compactTable (body : Value)
  | expireTableSnapshots (body : Value)
  | removeTableOrphans

def MaintenanceRequest.handle (s3 : S3 S Row) (configs : List S3Config) (name : String)
    (clock : Clock) (P : Parquet Row) : MaintenanceRequest → Except Refusal (Call S Row)
  | .evolveTableSchema body => Routes.evolveTableSchema s3 configs name clock body
  | .evolveTablePartitions body => Routes.evolveTablePartitions s3 configs name clock body
  | .compactTable body => Routes.compactTable s3 configs name clock P body
  | .expireTableSnapshots body => Routes.expireTableSnapshots s3 configs name clock body
  | .removeTableOrphans => Routes.removeTableOrphans s3 configs name

/-- A request in full: the answer, and what the store holds after it. A refused request
reaches no store. -/
def Call.perform (call : Call S Row) (s3 : S3 S Row) (faults : Faults) :
    Option Response × Store (Object Row) :=
  let outcome := run s3.size call.operation faults (s3.objects call.store)
  (respond outcome.result, outcome.store)

theorem orRefuse_bind_ok {α β : Type} {status : ℕ} {error : String} {o : Option α}
    {f : α → Except Refusal β} {b : β} (h : (orRefuse status error o >>= f) = .ok b) :
    ∃ a, o = some a ∧ f a = .ok b := by
  cases o with
  | none => cases h
  | some a => exact ⟨a, rfl, h⟩

section Search
variable {s3 : S3 S Row} {name : String}

theorem searchTableState_cons (config : S3Config) (configs : List S3Config) :
    searchTableState s3 name (config :: configs) =
      if config.hasTable name then
        (buildS3Store s3 config).bind fun store => match loadFrom s3 name store with
          | some state => some (store, state)
          | none => searchTableState s3 name configs
      else searchTableState s3 name configs := rfl

/-- The store that the search returns is one the state loads from. -/
theorem loadFrom_of_search {configs : List S3Config} {store : S} {state : IcebergTableState}
    (h : searchTableState s3 name configs = some (store, state)) :
    loadFrom s3 name store = some state := by
  induction configs with
  | nil => cases h
  | cons config configs ih =>
    rw [searchTableState_cons] at h
    split_ifs at h with hlists
    · obtain ⟨built, -, hrest⟩ := Option.bind_eq_some_iff.mp h
      cases hload : loadFrom s3 name built with
      | none => exact ih (by simpa only [hload] using hrest)
      | some loaded =>
        simp only [hload, Option.some.injEq, Prod.mk.injEq] at hrest
        obtain ⟨rfl, rfl⟩ := hrest
        exact hload
    · exact ih h

/-- Where the store for the table has the state, the search ends there. -/
theorem search_of_loadFrom {configs : List S3Config} {store : S} {state : IcebergTableState}
    (hstore : buildStoreForTable s3 configs name = some store)
    (hload : loadFrom s3 name store = some state) :
    searchTableState s3 name configs = some (store, state) := by
  induction configs with
  | nil => cases hstore
  | cons config configs ih =>
    rw [searchTableState_cons]
    unfold buildStoreForTable at hstore
    rw [List.find?_cons] at hstore
    cases hlists : config.hasTable name with
    | true =>
      rw [hlists] at hstore
      have hbuild : buildS3Store s3 config = some store := hstore
      simp [hbuild, hload]
    | false =>
      rw [hlists] at hstore
      exact ih hstore

/-- Each route takes its state from the one search and its store from the other. -/
theorem MaintenanceRequest.handle_ok {configs : List S3Config} {clock : Clock}
    {P : Parquet Row} {request : MaintenanceRequest} {call : Call S Row}
    (h : request.handle s3 configs name clock P = .ok call) :
    findIcebergTableState s3 configs name = some call.state ∧
      buildStoreForTable s3 configs name = some call.store := by
  cases request with
  | evolveTableSchema body =>
    obtain ⟨ts, hts, h⟩ := orRefuse_bind_ok h
    obtain ⟨arr, -, h⟩ := orRefuse_bind_ok h
    cases hchanges : arr.mapM parseChange with
    | error refusal => simp only [hchanges] at h; cases h
    | ok changes =>
      simp only [hchanges] at h
      obtain ⟨store, hstore, h⟩ := orRefuse_bind_ok h
      cases h
      exact ⟨hts, hstore⟩
  | evolveTablePartitions body =>
    obtain ⟨ts, hts, h⟩ := orRefuse_bind_ok h
    obtain ⟨arr, -, h⟩ := orRefuse_bind_ok h
    obtain ⟨store, hstore, h⟩ := orRefuse_bind_ok h
    cases h
    exact ⟨hts, hstore⟩
  | compactTable body =>
    obtain ⟨ts, hts, h⟩ := orRefuse_bind_ok h
    obtain ⟨store, hstore, h⟩ := orRefuse_bind_ok h
    cases h
    exact ⟨hts, hstore⟩
  | expireTableSnapshots body =>
    obtain ⟨ts, hts, h⟩ := orRefuse_bind_ok h
    obtain ⟨store, hstore, h⟩ := orRefuse_bind_ok h
    cases h
    exact ⟨hts, hstore⟩
  | removeTableOrphans =>
    obtain ⟨ts, hts, h⟩ := orRefuse_bind_ok h
    obtain ⟨store, hstore, h⟩ := orRefuse_bind_ok h
    cases h
    exact ⟨hts, hstore⟩

end Search

/-- A call acts on the store that its table state was loaded from. -/
def Call.ActsOnSource (call : Call S Row) (s3 : S3 S Row) (configs : List S3Config)
    (name : String) : Prop :=
  searchTableState s3 name configs = some (call.store, call.state)

/-- The first configuration that lists the table leads to metadata of it that loads. -/
def FirstHasMetadata (s3 : S3 S Row) (configs : List S3Config) (name : String) : Prop :=
  ∃ config, configs.find? (·.hasTable name) = some config ∧
    ∃ store, buildS3Store s3 config = some store ∧ (loadFrom s3 name store).isSome

/-- An operation acts where the metadata came from exactly when the first configuration that
lists the table has that metadata: the search for the state goes on past it, the search for
the store does not. -/
theorem actsOnSource_iff {s3 : S3 S Row} {configs : List S3Config} {name : String}
    {clock : Clock} {P : Parquet Row} {request : MaintenanceRequest} {call : Call S Row}
    (h : request.handle s3 configs name clock P = .ok call) :
    call.ActsOnSource s3 configs name ↔ FirstHasMetadata s3 configs name := by
  obtain ⟨hstate, hstore⟩ := MaintenanceRequest.handle_ok h
  obtain ⟨config, hfirst, hbuild⟩ := Option.bind_eq_some_iff.mp hstore
  constructor
  · intro hacts
    have hload := loadFrom_of_search hacts
    exact ⟨config, hfirst, call.store, hbuild, by rw [hload]; rfl⟩
  · rintro ⟨first, hfirst', store, hbuild', hsome⟩
    obtain ⟨state, hload⟩ := Option.isSome_iff_exists.mp hsome
    have hconfig : config = first := Option.some.inj (hfirst.symm.trans hfirst')
    have hsame : call.store = store :=
      Option.some.inj (hbuild.symm.trans (hconfig ▸ hbuild'))
    have hsearch := search_of_loadFrom hstore (hsame ▸ hload)
    have hfound : some state = some call.state := by
      rw [← hstate, findIcebergTableState, hsearch]
      rfl
    exact hsearch.trans (by rw [Option.some.inj hfound])

section Orders

def ordersDoc : Value := .obj [("location", .str "s3://lake/orders")]

/-- Two buckets, of which only `lake` holds metadata of the table. -/
def ordersS3 : S3 String ℕ where
  build builder := some builder.bucketName
  objects bucket :=
    if bucket = "lake" then
      (∅ : Store (Object ℕ)).insert "orders/metadata/v1.metadata.json" (.json ordersDoc)
    else ∅
  faults _ _ := noFaults
  size _ := 0

def lakeConfig : S3Config := ⟨"", "AKIA", "s3cr3t", "lake", "us-east-1", ["orders"]⟩

def archiveConfig : S3Config := ⟨"", "AKIA", "s3cr3t", "archive", "us-east-1", ["shop.orders"]⟩

def ordersParquet : Parquet ℕ :=
  ⟨fun _ _ => .ok 0, fun rows => [rows], fun _ => List.flatten_singleton, ""⟩

def ordersClock : Clock := ⟨1000, 1001, "2024-01-01"⟩

def ordersState : IcebergTableState := stateOf ordersDoc "orders/metadata/v1.metadata.json"

/-- Orphan removal for the table on a store. -/
def ordersCall (bucket : String) : Call String ℕ where
  store := bucket
  state := ordersState
  operation := do
    let result ← removeOrphanFiles ordersState "orders"
    return .obj [
      ("status", .str "ok"),
      ("orphan_files_found", .num result.orphanFilesFound),
      ("orphan_files_deleted", .num result.orphanFilesDeleted),
      ("bytes_reclaimed", .num result.bytesReclaimed)]

theorem actsOnSource_iff_orders :
    (ordersCall "lake").ActsOnSource ordersS3 [lakeConfig, archiveConfig] "orders" ↔
      FirstHasMetadata ordersS3 [lakeConfig, archiveConfig] "orders" := by
  have hhandle : MaintenanceRequest.removeTableOrphans.handle ordersS3
      [lakeConfig, archiveConfig] "orders" ordersClock ordersParquet =
        .ok (ordersCall "lake") := rfl
  exact actsOnSource_iff hhandle

/-- With the configurations the other way round, orphans are removed from the bucket that
has no metadata of the table. -/
theorem not_actsOnSource_orders :
    MaintenanceRequest.removeTableOrphans.handle ordersS3 [archiveConfig, lakeConfig] "orders"
        ordersClock ordersParquet = .ok (ordersCall "archive") ∧
      ¬ (ordersCall "archive").ActsOnSource ordersS3 [archiveConfig, lakeConfig] "orders" := by
  have hload : (ordersCall "archive").store = "archive" ∧
      loadFrom ordersS3 "orders" "archive" = none := ⟨rfl, rfl⟩
  refine ⟨rfl, fun hacts => ?_⟩
  have hsource := loadFrom_of_search hacts
  rw [hload.1, hload.2] at hsource
  cases hsource

end Orders

end RustLake.Routes
