import RustLake.Engine.Context
import RustLake.Router.Classifier

/-! The engines behind the query handlers: DataFusion with its catalog, and DuckDB and Polars with
the tables that DataFusion gives them before a query. -/
namespace RustLake.Routes
open RustLake.Engine RustLake.Router RustLake.Text

/-- The catalog of DataFusion, what the sources of its tables hold, the tables of the other
engines, and the names of those that DuckDB was given. -/
structure Lake (Key Rows Copies : Type) where
  catalog : Catalog Key
  rows : Source → Rows
  copies : Copies
  duckdbSyncedTables : List (List Char)

/-- DuckDB or Polars: a table of its own from record batches, and a statement. -/
structure AlternativeEngine (Key Rows Copies Batch : Type) where
  registerArrowTable : List Char → List Batch → Copies → Copies
  sql : List Char → Lake Key Rows Copies → Lake Key Rows Copies × Except String (List Batch)

/-- Where a statement fails in DataFusion. -/
inductive RunError where
  | planning (message : String)
  | collecting (message : String)
deriving DecidableEq

/-- The names and readers of DataFusion, what one statement makes of the lake (of the catalog and
the rows at once, so that `DataFusion.execute` is not used), the tables of each schema, what a new
table over batches reads, whether a schema takes a table of a name and what is said when the name
is in use; the parts of a record batch; and the other engines, where there are any. -/
structure Engines (Key Rows Copies Batch : Type) where
  dataFusion : DataFusion Key
  run : List Char → Lake Key Rows Copies → Lake Key Rows Copies × Except RunError (List Batch)
  schemas : Catalog Key → List (List Char × List (List Char))
  memTable : List Batch → Lake Key Rows Copies → Except String (Source × Rows)
  accepts : List Char → Except String Unit
  nameInUse : List Char → String
  columns : Batch → List String
  numRows : Batch → ℕ
  duckdb : Option (AlternativeEngine Key Rows Copies Batch)
  polars : Option (AlternativeEngine Key Rows Copies Batch)

section
variable {Key Rows Copies Batch : Type} [DecidableEq Key]
  (engines : Engines Key Rows Copies Batch)

/-- What is registered under a name, with what it holds. -/
def Engines.registered (lake : Lake Key Rows Copies) (name : List Char) : Option (Source × Rows) :=
  (lake.catalog.lookup (engines.dataFusion.tableReference name)).map fun source =>
    (source, lake.rows source)

def RunError.display : RunError → String
  | .planning e => "Query error: SQL execution failed: " ++ e
  | .collecting e => "Query error: Failed to collect results: " ++ e

/-- `RustLakeContext::sql`. -/
def contextSql (query : List Char) (lake : Lake Key Rows Copies) :
    Lake Key Rows Copies × Except String (List Batch) :=
  match effectiveSql engines.dataFusion query lake.catalog with
  | (catalog, .error (.catalog message)) =>
    ({ lake with catalog := catalog }, .error ("Catalog error: " ++ message))
  | (catalog, .ok statement) =>
    let (lake', answer) := engines.run statement { lake with catalog := catalog }
    (lake', answer.mapError RunError.display)

/-- Register a table that reads a source. -/
def registerTable (name : List Char) (source : Source) (lake : Lake Key Rows Copies) :
    Except String (Lake Key Rows Copies) :=
  let key := engines.dataFusion.tableReference name
  if key ∈ lake.catalog then .error (engines.nameInUse name)
  else (engines.accepts name).map fun _ =>
    { lake with catalog := lake.catalog.insert key source }

/-- `RustLakeContext::list_tables`. -/
def listTables (lake : Lake Key Rows Copies) : List (List Char) :=
  let allTables := (engines.schemas lake.catalog).flatMap fun (schemaName, tableNames) =>
    if schemaName = "information_schema".toList then []
    else tableNames.map fun tableName =>
      if schemaName = "public".toList then tableName else schemaName ++ '.' :: tableName
  allTables.mergeSort fun a b => decide (a ≤ b)

/-- A table name without dots, for the other engines. -/
def flatName (tableName : List Char) : List Char := replaceAll ['.'] ['_'] tableName

/-- Whether an upper-cased statement holds the name of a table. -/
def mentions (unicode : Unicode) (sqlUpper tableName : List Char) : Bool :=
  unicode.upper.text (flatName tableName) <:+: sqlUpper ∨ unicode.upper.text tableName <:+: sqlUpper

/-- The rows of a table that are given to another engine; none where there are none. -/
def fetchTable (tableName : List Char) (lake : Lake Key Rows Copies) :
    Lake Key Rows Copies × List (List Char × List Batch) :=
  match engines.run ("SELECT * FROM ".toList ++ tableName) lake with
  | (lake', .ok batches) =>
    (lake', if batches.any fun b => engines.numRows b > 0 then [(flatName tableName, batches)] else [])
  | (lake', .error _) => (lake', [])

def fetchTables : List (List Char) → Lake Key Rows Copies →
    Lake Key Rows Copies × List (List Char × List Batch)
  | [], lake => (lake, [])
  | tableName :: rest, lake =>
    let (lake', fetched) := fetchTable engines tableName lake
    let (lake'', others) := fetchTables rest lake'
    (lake'', fetched ++ others)

/-- `sync_tables`: a table that fails is passed over. -/
def AlternativeEngine.syncTables (engine : AlternativeEngine Key Rows Copies Batch)
    (tables : List (List Char × List Batch)) (lake : Lake Key Rows Copies) :
    Lake Key Rows Copies :=
  { lake with copies := tables.foldl (fun copies (name, batches) =>
      engine.registerArrowTable name batches copies) lake.copies }

/-- The statement with the names of the other engine. -/
def flattenNames (tableNames : List (List Char)) (sql : List Char) : List Char :=
  tableNames.foldl (fun s name => if '.' ∈ name then replaceAll name (flatName name) s else s) sql

/-- What an engine gives: record batches and how it came by them, or its error. -/
abbrev ExecResult (Batch : Type) := Except String (List Batch × String)

def executeViaDuckdbWithMode (unicode : Unicode) (sql : List Char) (lake : Lake Key Rows Copies) :
    Lake Key Rows Copies × ExecResult Batch :=
  match engines.duckdb with
  | none => (lake, .error "DuckDB engine not available")
  | some engine =>
    let tableNames := listTables engines lake
    let referenced := tableNames.filter (mentions unicode (unicode.upper.text sql))
    let stale := referenced.filter fun name => flatName name ∉ lake.duckdbSyncedTables
    let (fetchedLake, tablesToSync) := fetchTables engines stale lake
    let executionMode :=
      if referenced.isEmpty then "direct"
      else if tablesToSync.isEmpty ∧ stale.isEmpty then "cached"
      else "synced"
    let syncedLake := engine.syncTables tablesToSync fetchedLake
    let cachedLake := { syncedLake with
      duckdbSyncedTables := tablesToSync.map Prod.fst ∪ syncedLake.duckdbSyncedTables }
    let (lake', answer) := engine.sql (flattenNames tableNames sql) cachedLake
    (lake', answer.map fun batches => (batches, executionMode))

def executeViaPolarsWithMode (unicode : Unicode) (sql : List Char) (lake : Lake Key Rows Copies) :
    Lake Key Rows Copies × ExecResult Batch :=
  match engines.polars with
  | none => (lake, .error "Polars engine not available")
  | some engine =>
    let tableNames := listTables engines lake
    let referenced := tableNames.filter (mentions unicode (unicode.upper.text sql))
    let (fetchedLake, tablesToSync) := fetchTables engines referenced lake
    let executionMode := if tablesToSync.isEmpty then "direct" else "synced"
    let (lake', answer) :=
      engine.sql (flattenNames tableNames sql) (engine.syncTables tablesToSync fetchedLake)
    (lake', answer.map fun batches => (batches, executionMode))

def determineEngine (unicode : Unicode) (engineChoice : List Char) (recommended : EngineTarget) :
    String :=
  let choice := unicode.lower.text engineChoice
  if choice = "duckdb".toList ∧ engines.duckdb.isSome then "DuckDB"
  else if choice = "polars".toList ∧ engines.polars.isSome then "Polars"
  else if choice = "datafusion".toList then "DataFusion"
  else if engines.duckdb.isSome ∧ recommended = .duckDb then "DuckDB"
  else "DataFusion"

/-- DataFusion reads from the sources themselves. -/
def executeViaDataFusion (sql : List Char) (lake : Lake Key Rows Copies) :
    Lake Key Rows Copies × ExecResult Batch :=
  let (lake', answer) := contextSql engines sql lake
  (lake', answer.map fun batches => (batches, "direct"))

def executeVia (unicode : Unicode) (engineName : String) (sql : List Char)
    (lake : Lake Key Rows Copies) : Lake Key Rows Copies × ExecResult Batch :=
  if engineName = "DuckDB" then executeViaDuckdbWithMode engines unicode sql lake
  else if engineName = "Polars" then executeViaPolarsWithMode engines unicode sql lake
  else executeViaDataFusion engines sql lake

/-- What came of a statement: batches, how and by which engine, or an error and its engine. -/
abbrev Executed (Batch : Type) := Except (String × String) (List Batch × String × String)

/-- A statement on the engine that was chosen; where another engine fails, DataFusion is tried. -/
def executeOn (unicode : Unicode) (engineName : String) (sql : List Char)
    (lake : Lake Key Rows Copies) : Lake Key Rows Copies × Executed Batch :=
  match executeVia engines unicode engineName sql lake with
  | (lake', .ok (batches, mode)) => (lake', .ok (batches, mode, engineName))
  | (lake', .error e) =>
    if engineName = "DataFusion" then (lake', .error (e, engineName))
    else match executeViaDataFusion engines sql lake' with
      | (lake'', .ok (batches, mode)) => (lake'', .ok (batches, mode, "DataFusion"))
      | (lake'', .error fallback) => (lake'', .error (fallback, "DataFusion"))

end
end RustLake.Routes
