import RustLake.Routes.Migration
import RustLake.Sql.AsOf
import RustLake.Sql.SparkCompat

/-! `execute_sql` and the queries of the WebSocket: the guard of the read-only tables, and what is
executed behind it. -/
namespace RustLake.Routes
open RustLake.Engine RustLake.Iceberg RustLake.Json RustLake.Router RustLake.Sql RustLake.Text

/-- What the handlers stand on: letters, sqlparser, dates, the engines, the table states that the
object stores give for a name, and the JSON rows of record batches. -/
structure Platform (Key Rows Copies Batch : Type) where
  unicode : Unicode
  parse : Parser
  chrono : Chrono
  engines : Engines Key Rows Copies Batch
  findIcebergTableState : List Char → Option IcebergTableState
  batchesToJson : List Batch → Except String (List Value)

structure SqlRequest where
  sql : List Char
  engine : List Char
deriving DecidableEq

structure SqlResponse where
  columns : List String
  rows : List Value
  rowCount : ℕ
  queryType : String
  engine : String
  executionMode : Option String

/-- The reply to a request: a response, a status with an error text, or none after a panic. -/
inductive Reply where
  | ok (response : SqlResponse)
  | error (status : ℕ) (message : String)
  | panicked

/-- What a WebSocket query ends with; the rows are sent in chunks. -/
inductive QueryReply where
  | complete (columns : List String) (rows : List Value) (engine queryType : String)
  | queryError (error engine : String)

def patterns : List String :=
  ["INSERT INTO ", "UPDATE ", "DELETE FROM ", "DROP TABLE IF EXISTS ", "DROP TABLE ",
   "ALTER TABLE ", "TRUNCATE TABLE ", "TRUNCATE "]

/-- The letters of a table name. -/
def isNameChar (unicode : Unicode) (c : Char) : Bool :=
  unicode.isAlphanumeric c || c = '_' || c = '.'

/-- The name behind a pattern, unless it is empty. -/
def nameAfter (unicode : Unicode) (sqlUpper pat : List Char) : Option (List Char) :=
  (sqlUpper.dropPrefix? pat).bind fun rest =>
    let table := rest.takeWhile (isNameChar unicode)
    if table.isEmpty then none else some table

def extractTargetTable (unicode : Unicode) (sqlUpper : List Char) : Option (List Char) :=
  patterns.findSome? fun pat => nameAfter unicode sqlUpper pat.toList

/-- The table for which a statement is refused. The two handlers compare names in their own way. -/
def refusedTable (unicode : Unicode) (parse : Parser) (same : List Char → List Char → Bool)
    (readOnly : ReadOnlyTables) (sql : List Char) : Option (List Char) :=
  let queryType := (classified unicode parse sql).queryType
  if queryType = .ddl ∨ queryType = .dml then
    if readOnly.names.isEmpty then none
    else match extractTargetTable unicode (unicode.upper.text (trim sql)) with
      | some table =>
        if readOnly.names.any fun ro => same (unicode.lower.text table) (unicode.lower.text ro) then
          some table
        else none
      | none => none
  else none

/-- The comparison of `execute_sql`: a schema may stand before the name. -/
def sameOrQualified (tableLower roLower : List Char) : Bool :=
  tableLower = roLower || '.' :: roLower <:+ tableLower

/-- The comparison of the WebSocket queries. -/
def sameName (tableLower roLower : List Char) : Bool := tableLower = roLower

section
variable {Key Rows Copies Batch : Type} [DecidableEq Key]
  (platform : Platform Key Rows Copies Batch)

def ctasSyntax : String :=
  "Invalid CTAS syntax. Expected: CREATE TABLE <name> AS SELECT ..."

/-- The table and the query of a `CREATE TABLE ... AS`; the outer option is none where slicing
panics. -/
def parseCtas (sql : List Char) : Option (Option (List Char × List Char)) :=
  let trimmed := trim sql
  match find " AS ".toList (platform.unicode.upper.text trimmed) with
  | none => some none
  | some asPos => do
    let (beforeAs, _) ← splitAtByte? asPos trimmed
    let (_, afterAs) ← splitAtByte? (asPos + 4) trimmed
    let named := ((beforeAs.dropPrefix? "CREATE TABLE".toList).or
      (beforeAs.dropPrefix? "create table".toList)).getD beforeAs
    return some (trimMatches '\x60' (trimMatches '"' (trim named)), trim afterAs)

/-- The batches of a query become a table of DataFusion. -/
def createTableAs (tableName : List Char) (batches : List Batch) (lake : Lake Key Rows Copies) :
    Lake Key Rows Copies × Reply :=
  match platform.engines.memTable batches lake with
  | .error e => (lake, .error 500 ("Failed to create table: " ++ e))
  | .ok (source, rows) =>
    match registerTable platform.engines tableName source
        { lake with rows := Function.update lake.rows source rows } with
    | .error e => (lake, .error 500
        ("Failed to register table '" ++ String.ofList tableName ++ "': " ++ e))
    | .ok lake' =>
      let rowCount := (batches.map platform.engines.numRows).sum
      let message := "Table '" ++ String.ofList tableName ++ "' created with " ++
        toString rowCount ++ " rows"
      (lake', .ok
        { columns := ["result"]
          rows := [.obj [("result", .str message)]]
          rowCount := 1
          queryType := "DDL"
          engine := "DataFusion"
          executionMode := none })

def handleCtas (sql : List Char) (lake : Lake Key Rows Copies) : Lake Key Rows Copies × Reply :=
  match parseCtas platform sql with
  | none => (lake, .panicked)
  | some none => (lake, .error 400 ctasSyntax)
  | some (some (tableName, selectSql)) =>
    if tableName.isEmpty || selectSql.isEmpty then (lake, .error 400 ctasSyntax)
    else match contextSql platform.engines selectSql lake with
      | (lake', .error e) => (lake', .error 400 ("CTAS SELECT failed: " ++ e))
      | (lake', .ok batches) =>
        if batches.isEmpty then (lake', .error 400 "CTAS SELECT returned no data")
        else createTableAs platform tableName batches lake'

/-- The text after time travel. The snapshot is only resolved: the text is then executed without
its clause. -/
def timeTravelled (sql : List Char) : Except Reply (List Char) :=
  match parseTimeTravel platform.unicode platform.chrono sql with
  | none => .error .panicked
  | some none => .ok sql
  | some (some tt) => match platform.findIcebergTableState tt.table with
    | none => .ok sql
    | some ts => match resolveSnapshot ts tt.snapshotRef with
      | .ok _ => .ok tt.rewrittenSql
      | .error e => .error (.error 400 ("Time travel resolution failed: " ++ e))

def sparkTranslated (sql : List Char) : Except Reply (List Char) :=
  if looksLikeSparkSql platform.unicode sql then
    match translateSparkSql platform.unicode sql with
    | none => .error .panicked
    | some result => .ok result.translated
  else .ok sql

def columnsOf (batches : List Batch) : List String :=
  (batches.head?.map platform.engines.columns).getD []

def finishSqlResponse (queryType : QueryType) (batches : List Batch) (mode engine : String) :
    Reply :=
  match platform.batchesToJson batches with
  | .error e => .error 500 ("Failed to serialize results: " ++ e)
  | .ok rows => .ok
    { columns := columnsOf platform batches
      rows := rows
      rowCount := rows.length
      queryType := queryType.display
      engine := engine
      executionMode := some mode }

/-- What `execute_sql` executes when the guard has let a request pass. -/
def execute (req : SqlRequest) (lake : Lake Key Rows Copies) : Lake Key Rows Copies × Reply :=
  let classification := classified platform.unicode platform.parse req.sql
  let sqlUpper := platform.unicode.upper.text (trim req.sql)
  if "CREATE TABLE".toList <+: sqlUpper ∧ " AS ".toList <:+: sqlUpper then
    handleCtas platform req.sql lake
  else match (timeTravelled platform req.sql).bind (sparkTranslated platform) with
    | .error reply => (lake, reply)
    | .ok sqlToExecute =>
      let engineName := determineEngine platform.engines platform.unicode req.engine
        classification.engine
      match executeOn platform.engines platform.unicode engineName sqlToExecute lake with
      | (lake', .ok (batches, mode, engine)) =>
        (lake', finishSqlResponse platform classification.queryType batches mode engine)
      | (lake', .error (e, _)) => (lake', .error 400 e)

def readOnlyError (table : List Char) : String :=
  "Table '" ++ String.ofList table ++
    "' is read-only (migrated from Iceberg catalog). Write operations are blocked to protect source data during migration comparison."

def executeSql (req : SqlRequest) (readOnly : ReadOnlyTables) (lake : Lake Key Rows Copies) :
    Lake Key Rows Copies × Reply :=
  match refusedTable platform.unicode platform.parse sameOrQualified readOnly req.sql with
  | some table => (lake, .error 403 (readOnlyError table))
  | none => execute platform req lake

/-- What a WebSocket query executes when its guard has let it pass, unless it is cancelled. -/
def executeUnguarded (req : SqlRequest) (lake : Lake Key Rows Copies) :
    Lake Key Rows Copies × QueryReply :=
  let classification := classified platform.unicode platform.parse req.sql
  let engineName := determineEngine platform.engines platform.unicode req.engine
    classification.engine
  match executeOn platform.engines platform.unicode engineName req.sql lake with
  | (lake', .error (e, engine)) => (lake', .queryError e engine)
  | (lake', .ok (batches, _, engine)) => match platform.batchesToJson batches with
    | .error e => (lake', .queryError ("Serialization failed: " ++ e) engine)
    | .ok rows => (lake', .complete (columnsOf platform batches) rows engine
        classification.queryType.display)

/-- `execute_query` of the WebSocket. -/
def executeQuery (req : SqlRequest) (readOnly : ReadOnlyTables) (lake : Lake Key Rows Copies) :
    Lake Key Rows Copies × QueryReply :=
  match refusedTable platform.unicode platform.parse sameName readOnly req.sql with
  | some table => (lake, .queryError ("Table '" ++ String.ofList table ++ "' is read-only") "")
  | none => executeUnguarded platform req lake

end
end RustLake.Routes
