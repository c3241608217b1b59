import Mathlib.Data.String.Basic
import RustLake.Persistence.Transactions
import RustLake.Rust.Basic

/-! The cache of a Trino connection's schemas and tables in DuckDB: how a discovery replaces what is
cached, and the tree that is read from it. -/
namespace RustLake.Trino
open Persistence

structure TrinoColumnInfo where
  name : String
  dataType : String
  nullable : Bool
  ordinal : Int32

structure TrinoSchemaEntry where
  name : String
  tables : List String

structure TrinoCatalogEntry where
  name : String
  schemas : List TrinoSchemaEntry

structure TrinoCatalogTree where
  catalogs : List TrinoCatalogEntry
  totalTables : ℕ

structure SchemaRow where
  connId : String
  catalogName : String
  schemaName : String

structure TableRow where
  connId : String
  catalogName : String
  schemaName : String
  tableName : String

structure ColumnRow where
  connId : String
  catalogName : String
  schemaName : String
  tableName : String
  column : TrinoColumnInfo

structure CacheDb where
  schemas : List SchemaRow
  tables : List TableRow
  columns : List ColumnRow

/-- The schemas cached for a connection. -/
def CacheDb.schemasOf (db : CacheDb) (connId : String) : List (String × String) :=
  (db.schemas.filter fun row => row.connId = connId).map fun row => (row.catalogName, row.schemaName)

/-- The tables cached for a connection. -/
def CacheDb.tablesOf (db : CacheDb) (connId : String) : List (String × String × String) :=
  (db.tables.filter fun row => row.connId = connId).map fun row =>
    (row.catalogName, row.schemaName, row.tableName)

section Reads

def pairLe (a b : String × String) : Prop := a.1 < b.1 ∨ a.1 = b.1 ∧ a.2 ≤ b.2

def rowLe (a b : String × String × String) : Prop := a.1 < b.1 ∨ a.1 = b.1 ∧ pairLe a.2 b.2

instance (a b : String × String) : Decidable (pairLe a b) := inferInstanceAs (Decidable (_ ∨ _))

instance (a b : String × String × String) : Decidable (rowLe a b) :=
  inferInstanceAs (Decidable (_ ∨ _))

/-- The loop over the schemas in their order, with the catalog that is being gathered. -/
structure TreeBuilder where
  catalogs : List TrinoCatalogEntry
  currentCatalog : Option String
  currentSchemas : List TrinoSchemaEntry

def TreeBuilder.finish (b : TreeBuilder) : List TrinoCatalogEntry :=
  match b.currentCatalog with
  | some cat => b.catalogs ++ [⟨cat, b.currentSchemas⟩]
  | none => b.catalogs

def TreeBuilder.add (tableRows : List (String × String × String)) (b : TreeBuilder)
    (row : String × String) : TreeBuilder :=
  let b := if b.currentCatalog = some row.1 then b
    else ⟨b.finish, some row.1, if b.currentCatalog.isSome then [] else b.currentSchemas⟩
  let tables := (tableRows.filter fun t => t.1 = row.1 ∧ t.2.1 = row.2).map fun t => t.2.2
  { b with currentSchemas := b.currentSchemas ++ [⟨row.2, tables⟩] }

def CacheDb.tree (db : CacheDb) (connId : String) : Option TrinoCatalogTree :=
  let schemaRows := (db.schemasOf connId).dedup.insertionSort pairLe
  let tableRows := (db.tablesOf connId).insertionSort rowLe
  if schemaRows = [] then none
  else some ⟨(schemaRows.foldl (TreeBuilder.add tableRows) ⟨[], none, []⟩).finish, tableRows.length⟩

def getCatalogTree (engine : Engine) (conn : Connection CacheDb) (connId : String) :
    Option TrinoCatalogTree :=
  match conn.view engine with
  | .ok db => db.tree connId
  | .error _ => none

end Reads

section Writes

/-- The catalogs of a connection, their schemas, and the tables of these. -/
abbrev Discovery := List (String × List (String × List String))

inductive CacheRow where
  | schema (catalog schema : String)
  | table (catalog schema table : String)
deriving DecidableEq

/-- The rows in the order in which the nested loops insert them. -/
def cacheRows (discovery : Discovery) : List CacheRow :=
  discovery.flatMap fun (catalog, schemas) => schemas.flatMap fun (schema, tables) =>
    .schema catalog schema :: tables.map fun table => .table catalog schema table

def deleteSchemas (connId : String) : Statement CacheDb := fun db =>
  .ok { db with schemas := db.schemas.filter fun row => row.connId ≠ connId }

def deleteTables (connId : String) : Statement CacheDb := fun db =>
  .ok { db with tables := db.tables.filter fun row => row.connId ≠ connId }

/-- An insertion, which fails where the primary key is taken. -/
def insertRow (duplicateKey : String) (connId : String) : CacheRow → Statement CacheDb
  | .schema catalog schema => fun db =>
    if (catalog, schema) ∈ db.schemasOf connId then .error duplicateKey
    else .ok { db with schemas := db.schemas ++ [⟨connId, catalog, schema⟩] }
  | .table catalog schema table => fun db =>
    if (catalog, schema, table) ∈ db.tablesOf connId then .error duplicateKey
    else .ok { db with tables := db.tables ++ [⟨connId, catalog, schema, table⟩] }

/-- The failures of the statements that are not their own, and the text for a second row with one
key. -/
structure CacheFaults where
  begins : Option String
  deletes : Option String
  deletesTables : Option String
  prepares : Option String
  preparesTables : Option String
  inserts : ℕ → Option String
  commits : Option String
  duplicateKey : String

def insertStatements (faults : CacheFaults) (connId : String) :
    ℕ → List CacheRow → List (Statement CacheDb)
  | _, [] => []
  | n, row :: rest => guarded (faults.inserts n) (insertRow faults.duplicateKey connId row) ::
    insertStatements faults connId (n + 1) rest

def refreshStatements (faults : CacheFaults) (connId : String) (discovery : Discovery) :
    List (Statement CacheDb) :=
  [guarded faults.deletes (deleteSchemas connId), guarded faults.deletesTables (deleteTables connId),
    guarded faults.prepares .ok, guarded faults.preparesTables .ok] ++
    insertStatements faults connId 0 (cacheRows discovery)

def batchCacheDiscovery (engine : Engine) (faults : CacheFaults) (connId : String)
    (discovery : Discovery) : Session (Connection CacheDb) Unit :=
  transaction engine faults.begins faults.commits (refreshStatements faults connId discovery)

def ColumnRow.isOf (row : ColumnRow) (connId catalog schema table : String) : Prop :=
  row.connId = connId ∧ row.catalogName = catalog ∧ row.schemaName = schema ∧ row.tableName = table

instance (row : ColumnRow) (connId catalog schema table : String) :
    Decidable (row.isOf connId catalog schema table) := inferInstanceAs (Decidable (_ ∧ _))

def deleteColumns (connId catalog schema table : String) : Statement CacheDb := fun db =>
  .ok { db with columns := db.columns.filter fun row => ¬ row.isOf connId catalog schema table }

def insertColumn (duplicateKey connId catalog schema table : String) (c : TrinoColumnInfo) :
    Statement CacheDb := fun db =>
  if ∃ row ∈ db.columns, row.isOf connId catalog schema table ∧ row.column.name = c.name then
    .error duplicateKey
  else .ok { db with columns := db.columns ++ [⟨connId, catalog, schema, table, c⟩] }

def columnStatements (faults : CacheFaults) (connId catalog schema table : String)
    (columns : List TrinoColumnInfo) : List (Statement CacheDb) :=
  [guarded faults.deletes (deleteColumns connId catalog schema table), guarded faults.prepares .ok] ++
    columns.zipIdx.map fun (c, n) =>
      guarded (faults.inserts n) (insertColumn faults.duplicateKey connId catalog schema table c)

/-- Each statement by itself. -/
def setColumns (engine : Engine) (faults : CacheFaults) (connId catalog schema table : String)
    (columns : List TrinoColumnInfo) : Session (Connection CacheDb) Unit :=
  executeAllIn engine (columnStatements faults connId catalog schema table columns)

end Writes
end RustLake.Trino
