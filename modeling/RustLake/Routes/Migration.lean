import RustLake.Json.Value
import RustLake.Routes.Engines

/-! `migration_register`: discovered Iceberg tables become tables of DataFusion that are marked
read-only. -/
namespace RustLake.Routes
open RustLake.Engine RustLake.Json RustLake.Text

/-- A discovered table, with what registering it reads and writes. -/
structure MigrationTable where
  connId : List Char
  catalog : List Char
  schemaName : List Char
  tableName : List Char
  format : List Char
  location : Option (List Char)
  registeredInRake : Bool
  rakeTableName : Option (List Char)
  status : String
  error : Option String
deriving DecidableEq

/-- Dots and dashes become underscores. -/
def underscored (name : List Char) : List Char := replaceAll ['-'] ['_'] (replaceAll ['.'] ['_'] name)

def rakeName (catalog schemaName tableName : List Char) : List Char :=
  "iceberg_".toList ++ underscored catalog ++ '_' :: underscored schemaName ++
    '_' :: underscored tableName

/-- The names that are marked read-only; only `migration_register` marks any. -/
structure ReadOnlyTables where
  names : List (List Char)
  migrated : ∀ name ∈ names, ∃ catalog schemaName tableName,
    name = rakeName catalog schemaName tableName

def ReadOnlyTables.empty : ReadOnlyTables := ⟨[], by simp⟩

def ReadOnlyTables.insert (tables : ReadOnlyTables) (catalog schemaName tableName : List Char) :
    ReadOnlyTables where
  names := tables.names.insert (rakeName catalog schemaName tableName)
  migrated name hname := by
    rcases List.mem_insert_iff.mp hname with rfl | hold
    · exact ⟨catalog, schemaName, tableName, rfl⟩
    · exact tables.migrated name hold

structure AppState (Key Rows Copies : Type) where
  lake : Lake Key Rows Copies
  readOnlyTables : ReadOnlyTables
  migrationTables : List MigrationTable

def MigrationTable.fqn (mt : MigrationTable) : List Char :=
  mt.catalog ++ '.' :: mt.schemaName ++ '.' :: mt.tableName

def MigrationTable.rakeName (mt : MigrationTable) : List Char :=
  Routes.rakeName mt.catalog mt.schemaName mt.tableName

/-- The tables that a request registers. -/
def MigrationTable.selected (connId : List Char) (tables : Option (List (List Char)))
    (mt : MigrationTable) : Bool :=
  mt.connId = connId && !mt.registeredInRake && match tables with
    | some wanted => wanted.any fun f => f = mt.fqn || f = mt.tableName
    | none => mt.format = "iceberg".toList && mt.location.isSome

def MigrationTable.failed (message : String) (mt : MigrationTable) : MigrationTable :=
  { mt with status := "error", error := some message }

def MigrationTable.registered (name : List Char) (mt : MigrationTable) : MigrationTable :=
  { mt with
    registeredInRake := true
    rakeTableName := some name
    status := "registered"
    error := none }

/-- The first entry of the same catalog, schema and name changes. -/
def updateEntry (mt : MigrationTable) (update : MigrationTable → MigrationTable) :
    List MigrationTable → List MigrationTable
  | [] => []
  | t :: rest =>
    if t.catalog = mt.catalog ∧ t.schemaName = mt.schemaName ∧ t.tableName = mt.tableName then
      update t :: rest
    else t :: updateEntry mt update rest

/-- What the reply tells of the tables so far. -/
structure Registration where
  registeredNames : List (List Char)
  skippedCount : ℕ
  errors : List Value

section
variable {Key Rows Copies Batch : Type} [DecidableEq Key]
  (engines : Engines Key Rows Copies Batch)

/-- `SessionContext::register_parquet`. -/
def registerParquet (name path : List Char) (lake : Lake Key Rows Copies) :
    Except String (Lake Key Rows Copies) :=
  match engines.dataFusion.register .parquet path with
  | .error e => .error e
  | .ok () => registerTable engines name (.file .parquet path) lake

/-- One round of the loop over the selected tables. -/
def registerOne (done : AppState Key Rows Copies × Registration) (mt : MigrationTable) :
    AppState Key Rows Copies × Registration :=
  let (state, report) := done
  match mt.location with
  | none =>
    let tables := updateEntry mt (MigrationTable.failed "No S3 location") state.migrationTables
    let entry : Value := .obj [("table", .str (String.ofList mt.fqn)),
      ("error", .str "No S3 location available — cannot register without data location")]
    ({ state with migrationTables := tables },
      { report with skippedCount := report.skippedCount + 1, errors := report.errors ++ [entry] })
  | some s3Location => match registerParquet engines mt.rakeName s3Location state.lake with
    | .ok lake =>
      let tables := updateEntry mt (MigrationTable.registered mt.rakeName) state.migrationTables
      ({ lake := lake
         readOnlyTables := state.readOnlyTables.insert mt.catalog mt.schemaName mt.tableName
         migrationTables := tables },
        { report with registeredNames := report.registeredNames ++ [mt.rakeName] })
    | .error e =>
      let errMsg := "DataFusion registration failed: " ++ e
      let tables := updateEntry mt (MigrationTable.failed errMsg) state.migrationTables
      let entry : Value := .obj [("table", .str (String.ofList mt.fqn)),
        ("location", .str (String.ofList s3Location)), ("error", .str errMsg)]
      ({ state with migrationTables := tables },
        { report with errors := report.errors ++ [entry] })

/-- The rows that the other engines get of new tables, at most 10000 of each. -/
def firstRows : List (List Char) → Lake Key Rows Copies →
    Lake Key Rows Copies × List (List Char × List Batch)
  | [], lake => (lake, [])
  | tableName :: rest, lake =>
    let sql := "SELECT * FROM ".toList ++ tableName ++ " LIMIT 10000".toList
    match engines.run sql lake with
    | (lake', .ok batches) =>
      let (lake'', others) := firstRows rest lake'
      (lake'', if batches.isEmpty then others else (flatName tableName, batches) :: others)
    | (lake', .error _) => firstRows rest lake'

/-- `sync_trino_tables_to_engines`. -/
def syncTrinoTablesToEngines (tableNames : List (List Char)) (lake : Lake Key Rows Copies) :
    Lake Key Rows Copies :=
  let (lake', syncData) := firstRows engines tableNames lake
  let duckdbSynced := match engines.duckdb with
    | some engine => engine.syncTables syncData lake'
    | none => lake'
  match engines.polars with
  | some engine => engine.syncTables syncData duckdbSynced
  | none => duckdbSynced

def migrationRegister (connId : List Char) (tables : Option (List (List Char)))
    (state : AppState Key Rows Copies) : AppState Key Rows Copies × Value :=
  let tablesToRegister := state.migrationTables.filter (MigrationTable.selected connId tables)
  let (registered, report) :=
    tablesToRegister.foldl (registerOne engines) (state, ⟨[], 0, []⟩)
  let synced := if report.registeredNames.isEmpty then registered
    else { registered with
      lake := syncTrinoTablesToEngines engines report.registeredNames registered.lake }
  (synced, .obj
    [("status", .str "complete"), ("conn_id", .str (String.ofList connId)),
     ("registered", .num report.registeredNames.length), ("skipped", .num report.skippedCount),
     ("total", .num tablesToRegister.length),
     ("registered_tables", .arr (report.registeredNames.map fun name => .str (String.ofList name))),
     ("errors", .arr report.errors)])

/-- A table that is registered is marked, under the name it was registered with. -/
theorem registerOne_marks (done : AppState Key Rows Copies × Registration) (mt : MigrationTable)
    {name : List Char} (h : name ∈ (registerOne engines done mt).2.registeredNames) :
    name ∈ done.2.registeredNames ∨
      name ∈ (registerOne engines done mt).1.readOnlyTables.names := by
  unfold registerOne at h ⊢
  dsimp only at h ⊢
  split at h
  · exact Or.inl h
  · split at h
    · rename_i lake hregistered
      rcases List.mem_append.mp h with hold | hnew
      · exact Or.inl hold
      · right
        rw [List.mem_singleton.mp hnew]
        exact List.mem_insert_self
    · exact Or.inl h

/-- No table loses its mark. -/
theorem registerOne_keeps (done : AppState Key Rows Copies × Registration) (mt : MigrationTable)
    {name : List Char} (h : name ∈ done.1.readOnlyTables.names) :
    name ∈ (registerOne engines done mt).1.readOnlyTables.names := by
  unfold registerOne
  dsimp only
  split
  · exact h
  · split
    · exact List.mem_insert_of_mem h
    · exact h

/-- After the loop every registered table is marked. -/
theorem registerAll_marks (mts : List MigrationTable)
    (done : AppState Key Rows Copies × Registration)
    (hdone : ∀ name ∈ done.2.registeredNames, name ∈ done.1.readOnlyTables.names) :
    ∀ name ∈ (mts.foldl (registerOne engines) done).2.registeredNames,
      name ∈ (mts.foldl (registerOne engines) done).1.readOnlyTables.names := by
  induction mts generalizing done with
  | nil => exact hdone
  | cons mt mts ih =>
    apply ih
    intro name hname
    rcases registerOne_marks engines done mt hname with hold | hmarked
    · exact registerOne_keeps engines done mt (hdone name hold)
    · exact hmarked

end

theorem ReadOnlyTables.startsWith (tables : ReadOnlyTables) {name : List Char}
    (h : name ∈ tables.names) : "iceberg_".toList <+: name := by
  obtain ⟨catalog, schemaName, tableName, rfl⟩ := tables.migrated name h
  have hcatalog : "iceberg_".toList <+: "iceberg_".toList ++ underscored catalog :=
    List.prefix_append _ _
  exact (hcatalog.trans (List.prefix_append _ _)).trans (List.prefix_append _ _)

end RustLake.Routes
