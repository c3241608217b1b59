import RustLake.Text.Replace
import RustLake.Rust.Basic
import Mathlib.Data.List.AList

/-! Queries as `RustLakeContext::sql` runs them: quoted file paths are registered as tables and
the text of the query is rewritten to name those tables. -/
namespace RustLake.Engine
open RustLake.Text

/-- `str::trim_end_matches` of a nonempty pattern; each round takes one match off. -/
def trimEndMatches (pat s : List Char) : List Char :=
  s.length.repeat (fun s => (s.dropSuffix? pat).getD s) s

inductive Format where
  | csv | parquet | json
deriving DecidableEq, Repr

/-- What a table reads: a file, or something else than one file. -/
inductive Source where
  | file (format : Format) (path : List Char)
  | other (id : ℕ)
deriving DecidableEq, Repr

abbrev Catalog (Key : Type) := AList fun _ : Key => Source

/-- DataFusion: the key under which it keeps a table of a name, the table that a text stands
for where a statement names one, whether it can register a file, and what running a statement
makes of the catalog. -/
structure DataFusion (Key : Type) where
  tableReference : List Char → Key
  fromItem : List Char → Option Key
  register : Format → List Char → Except String Unit
  execute : List Char → Catalog Key → Catalog Key

inductive RustLakeError where
  | catalog (message : String)
deriving DecidableEq, Repr

def fileSuffixes : List (List Char) :=
  [".csv".toList, ".parquet".toList, ".parq".toList, ".json".toList, ".ndjson".toList]

def isFilePath (current : List Char) : Bool := fileSuffixes.any fun suffix => suffix <:+ current

/-- The table name that stands for a path. -/
def tableName (path : List Char) : List Char :=
  let name := path.map fun c => if c ∈ ['/', '\\', '.', '-'] then '_' else c
  let name := trimEndMatches "_csv".toList name
  let name := trimEndMatches "_parquet".toList name
  let name := trimEndMatches "_parq".toList name
  let name := trimEndMatches "_json".toList name
  let name := trimEndMatches "_ndjson".toList name
  name.dropWhile (· = '_')

example : tableName "benchmarks/data/sf0.01/orders.csv".toList =
    "benchmarks_data_sf0_01_orders".toList := by decide +kernel

/-- The state of the quote scanner. -/
structure Scan where
  inQuote : Bool
  current : List Char
  replacements : List (List Char × List Char)
deriving DecidableEq, Repr

def Scan.step (scan : Scan) (ch : Char) : Scan :=
  if ch = '\'' ∧ scan.inQuote = false then { scan with inQuote := true, current := [] }
  else if ch = '\'' ∧ scan.inQuote = true then
    { scan with
      inQuote := false
      replacements :=
        if isFilePath scan.current then
          scan.replacements ++ [(scan.current, tableName scan.current)]
        else scan.replacements }
  else if scan.inQuote then { scan with current := scan.current ++ [ch] }
  else scan

/-- The quoted texts of a query that look like file paths, with their table names. -/
def replacements (query : List Char) : List (List Char × List Char) :=
  (query.foldl Scan.step ⟨false, [], []⟩).replacements

/-- The format that a path is registered with. -/
def formatOf (path : List Char) : Option Format :=
  if ".csv".toList <:+ path then some .csv
  else if ".parquet".toList <:+ path ∨ ".parq".toList <:+ path then some .parquet
  else if ".json".toList <:+ path ∨ ".ndjson".toList <:+ path then some .json
  else none

section
variable {Key : Type} [DecidableEq Key] (df : DataFusion Key)

/-- Register a file under its table name unless there is such a table. -/
def registerFile (path name : List Char) (catalog : Catalog Key) :
    Except RustLakeError (Catalog Key) :=
  if df.tableReference name ∈ catalog then .ok catalog
  else match formatOf path with
    | none => .ok catalog
    | some format => match df.register format path with
      | .ok () => .ok (catalog.insert (df.tableReference name) (.file format path))
      | .error e => .error (.catalog
          ("Failed to auto-register '" ++ String.ofList path ++ "': " ++ e))

/-- The second loop of `auto_register_files`. What is registered stays registered when a later
file fails. -/
def rewriteAll : List (List Char × List Char) → Catalog Key → List Char →
    Catalog Key × Except RustLakeError (List Char)
  | [], catalog, rewritten => (catalog, .ok rewritten)
  | (path, name) :: rest, catalog, rewritten =>
    match registerFile df path name catalog with
    | .error e => (catalog, .error e)
    | .ok catalog' => rewriteAll rest catalog' (replaceAll (marked '\'' path) name rewritten)

def autoRegisterFiles (query : List Char) (catalog : Catalog Key) :
    Catalog Key × Except RustLakeError (Option (List Char)) :=
  let found := replacements query
  if found.isEmpty then (catalog, .ok none)
  else
    let (catalog', rewritten) := rewriteAll df found catalog query
    (catalog', rewritten.map some)

/-- The statement that `sql` executes and the catalog it is executed in, or the error before
that; and the catalog either way. -/
def effectiveSql (query : List Char) (catalog : Catalog Key) :
    Catalog Key × Except RustLakeError (List Char) :=
  let (catalog', rewritten) := autoRegisterFiles df query catalog
  (catalog', rewritten.map fun r => r.getD query)

/-- What happens to a context: a query, a file registered under a name of the client's own, a
table of another kind registered, a table dropped. -/
inductive Event where
  | sql (query : List Char)
  | registerFile (name : List Char) (format : Format) (path : List Char)
  | registerOther (name : List Char) (id : ℕ)
  | deregister (name : List Char)

/-- Registering under a name in use fails. -/
def Event.apply (catalog : Catalog Key) : Event → Catalog Key
  | .sql query => match effectiveSql df query catalog with
    | (catalog', .ok statement) => df.execute statement catalog'
    | (catalog', .error _) => catalog'
  | .registerFile name format path =>
    if df.tableReference name ∈ catalog then catalog
    else match df.register format path with
      | .ok () => catalog.insert (df.tableReference name) (.file format path)
      | .error _ => catalog
  | .registerOther name id =>
    if df.tableReference name ∈ catalog then catalog
    else catalog.insert (df.tableReference name) (.other id)
  | .deregister name => catalog.erase (df.tableReference name)

/-- The catalog after a history of queries and registrations. -/
def catalogAfter (history : List Event) : Catalog Key :=
  history.foldl (Event.apply df) ∅

end
end RustLake.Engine
