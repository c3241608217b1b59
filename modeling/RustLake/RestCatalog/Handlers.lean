import RustLake.Json.Value
import Mathlib.Data.List.AList
import RustLake.Text.Separator

/-! The Iceberg REST catalog: its state in memory and the handlers of its requests. -/
namespace RustLake.RestCatalog

abbrev Name := List Char

structure NamespaceMetadata where
  levels : List Name
  properties : List (String × String)
deriving DecidableEq

structure TableEntry where
  metadataLocation : Name
  metadata : Json.Value
  lastUpdatedMs : Int64

structure CatalogState where
  namespaces : AList fun _ : Name => NamespaceMetadata
  tables : AList fun _ : Name => TableEntry
  nextSnapshotId : Int64

/-- A catalog with a default namespace. -/
def CatalogState.new : CatalogState where
  namespaces := (∅ : AList fun _ : Name => NamespaceMetadata).insert "default".toList
    ⟨["default".toList], [("owner", "rustlake")]⟩
  tables := ∅
  nextSnapshotId := 1

structure SchemaField where
  id : Int32
  name : String
  fieldType : Json.Value
  required : Bool
  doc : Option String

structure IcebergSchema where
  schemaId : Int32
  fields : List SchemaField
  identifierFieldIds : List Int32

structure PartitionField where
  sourceId : Int32
  fieldId : Int32
  name : String
  transform : String

structure PartitionSpec where
  specId : Int32
  fields : List PartitionField

structure SortField where
  sourceId : Int32
  transform : String
  direction : String
  nullOrder : String

structure SortOrder where
  orderId : Int32
  fields : List SortField

structure CreateTableRequest where
  name : Name
  schema : IcebergSchema
  partitionSpec : Option PartitionSpec
  writeOrder : Option SortOrder
  properties : List (String × String)
  location : Option String

structure TableIdentifier where
  levels : List Name
  name : Name
deriving DecidableEq

structure LoadTableResponse where
  metadataLocation : Name
  metadata : Json.Value

structure ErrorResponse where
  message : Name
  errorType : String
  code : UInt16
deriving DecidableEq

namespace ErrorResponse

def notFound (message : Name) : ErrorResponse := ⟨message, "NoSuchNamespaceException", 404⟩

def tableNotFound (message : Name) : ErrorResponse := ⟨message, "NoSuchTableException", 404⟩

def conflict (message : Name) : ErrorResponse := ⟨message, "AlreadyExistsException", 409⟩

def badRequest (message : Name) : ErrorResponse := ⟨message, "BadRequestException", 400⟩

def notEmpty (message : Name) : ErrorResponse := ⟨message, "NamespaceNotEmptyException", 409⟩

end ErrorResponse

/-- `levels.join(".")`. -/
def joinLevels (levels : List Name) : Name := ['.'].intercalate levels

def TableIdentifier.toKey (id : TableIdentifier) : Name :=
  joinLevels id.levels ++ "::".toList ++ id.name

/-- `Display` of a table identifier. -/
def TableIdentifier.display (id : TableIdentifier) : Name :=
  joinLevels id.levels ++ ['.'] ++ id.name

/-- The key of a table in the namespace of a key. -/
def tableKey (nsKey table : Name) : Name := nsKey ++ "::".toList ++ table

/-- Unit separators of a path segment, also those that are still encoded, become dots. -/
def decodeNamespacePath (raw : Name) : Name :=
  let decoded := Text.replaceAll "%1f".toList ['\x1f']
    (Text.replaceAll "%1F".toList ['\x1f'] raw)
  decoded.map fun c => if c = '\x1f' then '.' else c

def namespaceMissing (nsKey : Name) : ErrorResponse :=
  .notFound ("Namespace does not exist: ".toList ++ nsKey)

def tableMissing (nsKey table : Name) : ErrorResponse :=
  .tableNotFound ("Table does not exist: ".toList ++ nsKey ++ ['.'] ++ table)

section Read
variable (state : CatalogState)

/-- `GET /v1/namespaces`. -/
def listNamespaces (parent : Option Name) : List (List Name) :=
  let all := state.namespaces.entries.map fun entry => entry.2.levels
  match parent with
  | some parent =>
    let parentLevels := parent.splitOn '.'
    all.filter fun levels =>
      parentLevels.length < levels.length ∧ levels.take parentLevels.length = parentLevels
  | none => all

/-- `GET /v1/namespaces/{ns}`. -/
def getNamespace (ns : Name) : Except ErrorResponse NamespaceMetadata :=
  let key := decodeNamespacePath ns
  match state.namespaces.lookup key with
  | some meta' => .ok meta'
  | none => .error (namespaceMissing key)

/-- `GET /v1/namespaces/{ns}/tables`. -/
def listTables (ns : Name) : Except ErrorResponse (List TableIdentifier) :=
  let key := decodeNamespacePath ns
  if key ∈ state.namespaces then
    let nsPrefix := key ++ "::".toList
    let nsLevels := key.splitOn '.'
    .ok ((state.tables.keys.filter fun k => nsPrefix <+: k).map fun k =>
      ⟨nsLevels, k.drop nsPrefix.length⟩)
  else .error (namespaceMissing key)

/-- `GET /v1/namespaces/{ns}/tables/{table}`. -/
def loadTable (ns table : Name) : Except ErrorResponse LoadTableResponse :=
  let nsKey := decodeNamespacePath ns
  if nsKey ∈ state.namespaces then
    match state.tables.lookup (tableKey nsKey table) with
    | some entry => .ok ⟨entry.metadataLocation, entry.metadata⟩
    | none => .error (tableMissing nsKey table)
  else .error (namespaceMissing nsKey)

/-- `HEAD /v1/namespaces/{ns}/tables/{table}`. -/
def tableExists (ns table : Name) : UInt16 :=
  if tableKey (decodeNamespacePath ns) table ∈ state.tables then 200 else 404

/-- `HEAD /v1/namespaces/{ns}`. -/
def namespaceExists (ns : Name) : UInt16 :=
  if decodeNamespacePath ns ∈ state.namespaces then 200 else 404

end Read

section Metadata

def partitionSpecJson : Option PartitionSpec → Json.Value
  | some ps => .obj [("spec-id", .ofI32 ps.specId), ("fields", .arr (ps.fields.map fun f =>
      .obj [("source-id", .ofI32 f.sourceId), ("field-id", .ofI32 f.fieldId), ("name", .str f.name),
        ("transform", .str f.transform)]))]
  | none => .obj [("spec-id", .num 0), ("fields", .arr [])]

def sortOrderJson : Option SortOrder → Json.Value
  | some so => .obj [("order-id", .ofI32 so.orderId), ("fields", .arr (so.fields.map fun f =>
      .obj [("source-id", .ofI32 f.sourceId), ("transform", .str f.transform),
        ("direction", .str f.direction), ("null-order", .str f.nullOrder)]))]
  | none => .obj [("order-id", .num 0), ("fields", .arr [])]

def fieldJson (f : SchemaField) : Json.Value :=
  .obj ([("id", .ofI32 f.id), ("name", .str f.name), ("type", f.fieldType),
    ("required", .bool f.required)] ++ (f.doc.map fun doc => ("doc", Json.Value.str doc)).toList)

def schemaJson (schema : IcebergSchema) : Json.Value :=
  .obj [("type", .str "struct"), ("schema-id", .ofI32 schema.schemaId),
    ("fields", .arr (schema.fields.map fieldJson)),
    ("identifier-field-ids", .arr (schema.identifierFieldIds.map .ofI32))]

def propertiesJson (properties : List (String × String)) : Json.Value :=
  let properties := if (properties.lookup "format-version").isSome then properties
    else properties ++ [("format-version", "2")]
  .obj (properties.map fun p => (p.1, .str p.2))

/-- The Iceberg v2 metadata of a new table. -/
def newMetadata (location uuid : String) (nowMs : Int64) (req : CreateTableRequest) : Json.Value :=
  let partitionSpec := partitionSpecJson req.partitionSpec
  let sortOrder := sortOrderJson req.writeOrder
  .obj [("format-version", .num 2), ("table-uuid", .str uuid), ("location", .str location),
    ("last-sequence-number", .num 0), ("last-updated-ms", .ofI64 nowMs),
    ("last-column-id", .ofI32 ((req.schema.fields.map (·.id)).max?.getD 0)),
    ("current-schema-id", .ofI32 req.schema.schemaId), ("schemas", .arr [schemaJson req.schema]),
    ("default-spec-id", .ofI64 (((partitionSpec.get "spec-id").bind Json.Value.asI64).getD 0)),
    ("partition-specs", .arr [partitionSpec]), ("last-partition-id", .num 999),
    ("default-sort-order-id", .ofI64 (((sortOrder.get "order-id").bind Json.Value.asI64).getD 0)),
    ("sort-orders", .arr [sortOrder]), ("properties", propertiesJson req.properties),
    ("current-snapshot-id", .num (-1)), ("refs", .obj []), ("snapshots", .arr []),
    ("snapshot-log", .arr []), ("metadata-log", .arr []), ("statistics", .arr []),
    ("partition-statistics", .arr [])]

/-- The entry of a new table, whose files lie in a folder of its namespace. -/
def newEntry (nowMs : Int64) (uuid : String) (nsKey : Name) (req : CreateTableRequest) :
    TableEntry :=
  let folder := "s3://rustlake-warehouse/".toList ++
    nsKey.map (fun c => if c = '.' then '/' else c) ++ ['/'] ++ req.name
  let location := req.location.getD (String.ofList (folder ++ "/data".toList))
  ⟨folder ++ "/metadata/v1.metadata.json".toList, newMetadata location uuid nowMs req, nowMs⟩

end Metadata

section Write

/-- `POST /v1/namespaces`. -/
def createNamespace (levels : List Name) (properties : List (String × String))
    (state : CatalogState) : Except ErrorResponse NamespaceMetadata × CatalogState :=
  if levels.isEmpty then (.error (.badRequest "Namespace must not be empty".toList), state)
  else
    let key := joinLevels levels
    if key ∈ state.namespaces then
      (.error (.conflict ("Namespace already exists: ".toList ++ key)), state)
    else
      (.ok ⟨levels, properties⟩,
        { state with namespaces := state.namespaces.insert key ⟨levels, properties⟩ })

/-- `DELETE /v1/namespaces/{ns}`. -/
def dropNamespace (ns : Name) (state : CatalogState) :
    Except ErrorResponse Unit × CatalogState :=
  let key := decodeNamespacePath ns
  if key ∈ state.namespaces then
    if state.tables.keys.any fun k => key ++ "::".toList <+: k then
      (.error (.notEmpty ("Namespace is not empty: ".toList ++ key)), state)
    else (.ok (), { state with namespaces := state.namespaces.erase key })
  else (.error (namespaceMissing key), state)

/-- `POST /v1/namespaces/{ns}/tables`, at a time and with a new table id. -/
def createTable (nowMs : Int64) (uuid : String) (ns : Name) (req : CreateTableRequest)
    (state : CatalogState) : Except ErrorResponse LoadTableResponse × CatalogState :=
  let nsKey := decodeNamespacePath ns
  if req.name.isEmpty then (.error (.badRequest "Table name must not be empty".toList), state)
  else if nsKey ∈ state.namespaces then
    let tableId : TableIdentifier := ⟨nsKey.splitOn '.', req.name⟩
    if tableId.toKey ∈ state.tables then
      (.error (.conflict ("Table already exists: ".toList ++ tableId.display)), state)
    else
      let entry := newEntry nowMs uuid nsKey req
      (.ok ⟨entry.metadataLocation, entry.metadata⟩,
        { state with
          tables := state.tables.insert tableId.toKey entry
          nextSnapshotId := state.nextSnapshotId + 1 })
  else (.error (namespaceMissing nsKey), state)

/-- `DELETE /v1/namespaces/{ns}/tables/{table}`. -/
def dropTable (ns table : Name) (state : CatalogState) :
    Except ErrorResponse Unit × CatalogState :=
  let nsKey := decodeNamespacePath ns
  if nsKey ∈ state.namespaces then
    if tableKey nsKey table ∈ state.tables then
      (.ok (), { state with tables := state.tables.erase (tableKey nsKey table) })
    else (.error (tableMissing nsKey table), state)
  else (.error (namespaceMissing nsKey), state)

/-- A table of the CDC pipeline, whose namespace is created when it is missing. -/
def registerTableInCatalog (nowMs : Int64) (ns table metadataLocation : Name)
    (metadata : Json.Value) (state : CatalogState) : CatalogState :=
  { state with
    namespaces := if ns ∈ state.namespaces then state.namespaces
      else state.namespaces.insert ns ⟨ns.splitOn '.',
        [("owner", "rustlake-cdc"), ("created-by", "auto-register")]⟩
    tables := state.tables.insert (tableKey ns table) ⟨metadataLocation, metadata, nowMs⟩ }

def updateTableMetadata (nowMs : Int64) (ns table metadataLocation : Name)
    (metadata : Json.Value) (state : CatalogState) : Except Name Unit × CatalogState :=
  let key := tableKey ns table
  if key ∈ state.tables then
    (.ok (), { state with tables := state.tables.insert key ⟨metadataLocation, metadata, nowMs⟩ })
  else (.error ("Table not found in catalog: ".toList ++ key), state)

end Write

/-- The calls that change the catalog. -/
inductive Mutation where
  | createNamespace (levels : List Name) (properties : List (String × String))
  | dropNamespace (ns : Name)
  | createTable (nowMs : Int64) (uuid : String) (ns : Name) (req : CreateTableRequest)
  | dropTable (ns table : Name)
  | registerTable (nowMs : Int64) (ns table metadataLocation : Name) (metadata : Json.Value)
  | updateTable (nowMs : Int64) (ns table metadataLocation : Name) (metadata : Json.Value)

def Mutation.apply (state : CatalogState) : Mutation → CatalogState
  | .createNamespace levels properties => (RestCatalog.createNamespace levels properties state).2
  | .dropNamespace ns => (RestCatalog.dropNamespace ns state).2
  | .createTable nowMs uuid ns req => (RestCatalog.createTable nowMs uuid ns req state).2
  | .dropTable ns table => (RestCatalog.dropTable ns table state).2
  | .registerTable nowMs ns table metadataLocation metadata =>
    registerTableInCatalog nowMs ns table metadataLocation metadata state
  | .updateTable nowMs ns table metadataLocation metadata =>
    (updateTableMetadata nowMs ns table metadataLocation metadata state).2

/-- The catalog after a sequence of calls. -/
def afterCalls (calls : List Mutation) : CatalogState := calls.foldl Mutation.apply .new

end RustLake.RestCatalog

/-! Which identifiers keep apart when they are put together into keys. -/
namespace RustLake.RestCatalog

/-- The path segment of a namespace: its levels between unit separators. -/
def pathOf (levels : List Name) : Name := ['\x1f'].intercalate levels

/-- A level that stays as it is in a key and in a path. -/
structure CleanLevel (level : Name) : Prop where
  noDot : '.' ∉ level
  noSeparator : '\x1f' ∉ level
  noUpper : ¬ "%1F".toList <:+: level
  noLower : ¬ "%1f".toList <:+: level

/-- A namespace whose key ends where the separator of a table key begins. -/
def CleanKey (nsKey : Name) : Prop := ¬ "::".toList <:+: nsKey ++ [':']

instance (nsKey : Name) : Decidable (CleanKey nsKey) := inferInstanceAs (Decidable (¬ _))

/-- A namespace that keeps apart from others. -/
structure Clean (levels : List Name) : Prop where
  nonempty : levels ≠ []
  each : ∀ level ∈ levels, CleanLevel level
  key : CleanKey (joinLevels levels)

theorem joinLevels_splitOn (key : Name) : joinLevels (key.splitOn '.') = key :=
  List.intercalate_splitOn '.'

@[simp] theorem toKey_splitOn (key table : Name) :
    (⟨key.splitOn '.', table⟩ : TableIdentifier).toKey = tableKey key table := by
  unfold TableIdentifier.toKey
  rw [joinLevels_splitOn]
  rfl

section Clean
variable {levels levels' : List Name}

theorem Clean.splitOn (h : Clean levels) : (joinLevels levels).splitOn '.' = levels :=
  List.splitOn_intercalate '.' (fun level hlevel => (h.each level hlevel).noDot) h.nonempty

theorem Clean.eq_of_joinLevels (h : Clean levels) (h' : Clean levels')
    (hkey : joinLevels levels = joinLevels levels') : levels = levels' := by
  rw [← h.splitOn, ← h'.splitOn, hkey]

/-- The path of a clean namespace is read as its key. -/
theorem Clean.decode (h : Clean levels) : decodeNamespacePath (pathOf levels) = joinLevels levels := by
  have hupper : ¬ "%1F".toList <:+: pathOf levels := by
    intro hin
    obtain ⟨level, hlevel, hlevelIn⟩ := Text.infix_intercalate (by decide) (by decide) hin
    exact (h.each level hlevel).noUpper hlevelIn
  have hlower : ¬ "%1f".toList <:+: pathOf levels := by
    intro hin
    obtain ⟨level, hlevel, hlevelIn⟩ := Text.infix_intercalate (by decide) (by decide) hin
    exact (h.each level hlevel).noLower hlevelIn
  unfold decodeNamespacePath
  rw [Text.replaceAll_of_not_infix hupper, Text.replaceAll_of_not_infix hlower]
  exact Text.map_intercalate fun level hlevel => (h.each level hlevel).noSeparator

end Clean

theorem tableKey_eq {nsKey nsKey' table table' : Name} (h : CleanKey nsKey) (h' : CleanKey nsKey')
    (hkey : tableKey nsKey table = tableKey nsKey' table') : nsKey = nsKey' ∧ table = table' := by
  have hns : nsKey = nsKey' := by
    apply Text.eq_of_append_sep h h'
    exact hkey
  subst hns
  exact ⟨rfl, List.append_cancel_left hkey⟩

/-- The keys of the tables of a namespace are those with its prefix. -/
theorem prefix_iff (nsKey key : Name) :
    nsKey ++ "::".toList <+: key ↔ ∃ table, key = tableKey nsKey table :=
  ⟨fun ⟨table, h⟩ => ⟨table, h.symm⟩, fun ⟨table, h⟩ => ⟨table, h.symm⟩⟩

section Calls
variable (state : CatalogState)

theorem createNamespace_state (levels : List Name) (properties : List (String × String)) :
    (createNamespace levels properties state).2 =
      if levels ≠ [] ∧ joinLevels levels ∉ state.namespaces then
        { state with
          namespaces := state.namespaces.insert (joinLevels levels) ⟨levels, properties⟩ }
      else state := by
  unfold createNamespace
  dsimp only
  by_cases hlevels : levels = []
  · simp [hlevels]
  · by_cases hmem : joinLevels levels ∈ state.namespaces
    · simp [hlevels, hmem]
    · simp [hlevels, hmem]

/-- The test for tables of a namespace. -/
theorem any_isPrefix (nsKey : Name) :
    (state.tables.keys.any fun k => nsKey ++ "::".toList <+: k) = true ↔
      ∃ table, tableKey nsKey table ∈ state.tables := by
  rw [List.any_eq_true]
  constructor
  · rintro ⟨key, hkey, hbegins⟩
    obtain ⟨table, rfl⟩ := (prefix_iff _ _).mp (of_decide_eq_true hbegins)
    exact ⟨table, hkey⟩
  · rintro ⟨table, htable⟩
    exact ⟨_, htable, decide_eq_true ((prefix_iff _ _).mpr ⟨table, rfl⟩)⟩

theorem dropNamespace_state {ns nsKey : Name} (hkey : decodeNamespacePath ns = nsKey) :
    (dropNamespace ns state).2 =
      if nsKey ∈ state.namespaces ∧
          ¬ (state.tables.keys.any fun k => nsKey ++ "::".toList <+: k) = true then
        { state with namespaces := state.namespaces.erase nsKey }
      else state := by
  subst hkey
  unfold dropNamespace
  dsimp only
  by_cases hmem : decodeNamespacePath ns ∈ state.namespaces
  · by_cases htables :
        (state.tables.keys.any fun k => decodeNamespacePath ns ++ "::".toList <+: k) = true
    · rw [if_pos hmem, if_pos htables, if_neg fun h => h.2 htables]
    · rw [if_pos hmem, if_neg htables, if_pos ⟨hmem, htables⟩]
  · rw [if_neg hmem, if_neg fun h => hmem h.1]

theorem createTable_state (nowMs : Int64) (uuid : String) {ns nsKey : Name}
    (hkey : decodeNamespacePath ns = nsKey) (req : CreateTableRequest) :
    (createTable nowMs uuid ns req state).2 =
      if req.name ≠ [] ∧ nsKey ∈ state.namespaces ∧ tableKey nsKey req.name ∉ state.tables then
        { state with
          tables := state.tables.insert (tableKey nsKey req.name) (newEntry nowMs uuid nsKey req)
          nextSnapshotId := state.nextSnapshotId + 1 }
      else state := by
  subst hkey
  unfold createTable
  dsimp only
  rw [toKey_splitOn]
  by_cases hname : req.name = []
  · rw [if_pos (List.isEmpty_iff.mpr hname), if_neg fun h => h.1 hname]
  · rw [if_neg fun h => hname (List.isEmpty_iff.mp h)]
    by_cases hns : decodeNamespacePath ns ∈ state.namespaces
    · rw [if_pos hns]
      by_cases htable : tableKey (decodeNamespacePath ns) req.name ∈ state.tables
      · rw [if_pos htable, if_neg fun h => h.2.2 htable]
      · rw [if_neg htable, if_pos ⟨hname, hns, htable⟩]
    · rw [if_neg hns, if_neg fun h => hns h.2.1]

theorem dropTable_state {ns nsKey : Name} (hkey : decodeNamespacePath ns = nsKey) (table : Name) :
    (dropTable ns table state).2 =
      if nsKey ∈ state.namespaces then
        { state with tables := state.tables.erase (tableKey nsKey table) }
      else state := by
  subst hkey
  unfold dropTable
  dsimp only
  by_cases hns : decodeNamespacePath ns ∈ state.namespaces
  · rw [if_pos hns, if_pos hns]
    by_cases htable : tableKey (decodeNamespacePath ns) table ∈ state.tables
    · rw [if_pos htable]
    · have herase : state.tables.erase (tableKey (decodeNamespacePath ns) table) = state.tables :=
        AList.ext (List.kerase_of_notMem_keys htable)
      rw [if_neg htable, herase]
  · rw [if_neg hns, if_neg hns]

theorem updateTable_state (nowMs : Int64) (ns table metadataLocation : Name)
    (metadata : Json.Value) :
    (updateTableMetadata nowMs ns table metadataLocation metadata state).2 =
      if tableKey ns table ∈ state.tables then
        { state with
          tables := state.tables.insert (tableKey ns table) ⟨metadataLocation, metadata, nowMs⟩ }
      else state := by
  unfold updateTableMetadata
  dsimp only
  split <;> rfl

end Calls
end RustLake.RestCatalog
