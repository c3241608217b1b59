import RustLake.Rust.Unicode

/-! `QueryClassifier`: the kind of a query, read off its first statement, and the engine that the
kind recommends. -/
namespace RustLake.Router

inductive QueryType where
  | olap | streaming | interactive | machineLearning | ddl | dml | utility
deriving DecidableEq, Repr

def QueryType.display : QueryType → String
  | .olap => "OLAP"
  | .streaming => "Streaming"
  | .interactive => "Interactive"
  | .machineLearning => "ML"
  | .ddl => "DDL"
  | .dml => "DML"
  | .utility => "Utility"

inductive EngineTarget where
  | dataFusion | duckDb | either
deriving DecidableEq, Repr

structure ClassificationResult where
  queryType : QueryType
  engine : EngineTarget
deriving DecidableEq, Repr

/-- A query as sqlparser prints it, and whether it has a limit clause. -/
structure Query where
  text : List Char
  limitClause : Bool
deriving DecidableEq, Repr

/-- The statements of sqlparser that the classifier tells apart. -/
inductive Statement where
  | createTable | createView | createIndex | alterTable | drop
  | insert | update | delete
  | showTables | showColumns | explain
  | query (query : Query)
  | other
deriving DecidableEq, Repr

/-- The statements of DataFusion's own parser. -/
inductive DFStatement where
  | statement (s : Statement)
  | createExternalTable
  | other
deriving DecidableEq, Repr

/-- `DFParser::parse_sql`. -/
abbrev Parser := List Char → Except String (List DFStatement)

def classifyQuery (unicode : Unicode) (query : Query) : QueryType :=
  let sqlStr := unicode.upper.text query.text
  if "STREAM".toList <:+: sqlStr ∨ "EMIT".toList <:+: sqlStr then .streaming
  else if "PREDICT".toList <:+: sqlStr ∨ "EMBEDDING".toList <:+: sqlStr ∨
      "VECTOR_SEARCH".toList <:+: sqlStr then .machineLearning
  else if "GROUP BY".toList <:+: sqlStr ∨ "JOIN".toList <:+: sqlStr then .olap
  else if query.limitClause then .interactive
  else .interactive

def classifyStatement (unicode : Unicode) : Statement → QueryType
  | .createTable | .createView | .createIndex | .alterTable | .drop => .ddl
  | .insert | .update | .delete => .dml
  | .showTables | .showColumns | .explain => .utility
  | .query query => classifyQuery unicode query
  | .other => .olap

def classify (unicode : Unicode) (parse : Parser) (sql : List Char) : Except String QueryType :=
  match parse sql with
  | .error e => .error ("Query error: Failed to parse SQL: " ++ e)
  | .ok [] => .error "Query error: Empty SQL statement"
  | .ok (.statement s :: _) => .ok (classifyStatement unicode s)
  | .ok (.createExternalTable :: _) => .ok .ddl
  | .ok (.other :: _) => .ok .utility

def QueryType.engine : QueryType → EngineTarget
  | .olap => .duckDb
  | .ddl | .dml => .dataFusion
  | .streaming | .machineLearning => .dataFusion
  | .interactive | .utility => .either

def classifyWithEngine (unicode : Unicode) (parse : Parser) (sql : List Char) :
    Except String ClassificationResult :=
  (classify unicode parse sql).map fun queryType => ⟨queryType, queryType.engine⟩

/-- What the handlers take a text for; one that does not parse passes for an analytical query. -/
def classified (unicode : Unicode) (parse : Parser) (sql : List Char) : ClassificationResult :=
  match classifyWithEngine unicode parse sql with
  | .ok result => result
  | .error _ => ⟨.olap, .either⟩

/-- The statements that define or change tables, as far as the classifier knows them. -/
def DFStatement.Changes : DFStatement → Prop
  | .statement .createTable | .statement .createView | .statement .createIndex
  | .statement .alterTable | .statement .drop => True
  | .statement .insert | .statement .update | .statement .delete => True
  | .createExternalTable => True
  | _ => False

theorem classifyQuery_reads (unicode : Unicode) (query : Query) :
    classifyQuery unicode query ≠ .ddl ∧ classifyQuery unicode query ≠ .dml := by
  unfold classifyQuery
  dsimp only
  split_ifs <;> simp

theorem classifyStatement_changes (unicode : Unicode) (s : Statement) :
    classifyStatement unicode s = .ddl ∨ classifyStatement unicode s = .dml ↔
      (DFStatement.statement s).Changes := by
  cases s with
  | query query =>
    have hreads := classifyQuery_reads unicode query
    simp [classifyStatement, DFStatement.Changes, hreads]
  | _ => simp [classifyStatement, DFStatement.Changes]

/-- A text is a change to the classifier if it parses and the first statement is one. -/
theorem classified_changes (unicode : Unicode) (parse : Parser) (sql : List Char) :
    (classified unicode parse sql).queryType = .ddl ∨
      (classified unicode parse sql).queryType = .dml ↔
    ∃ first rest, parse sql = .ok (first :: rest) ∧ first.Changes := by
  unfold classified classifyWithEngine classify
  cases hparse : parse sql with
  | error e => simp [Except.map]
  | ok statements =>
    cases statements with
    | nil => simp [Except.map]
    | cons first rest =>
      cases first with
      | statement s => simpa [Except.map] using classifyStatement_changes unicode s
      | createExternalTable => simp [Except.map, DFStatement.Changes]
      | other => simp [Except.map, DFStatement.Changes]

end RustLake.Router
