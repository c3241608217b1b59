import RustLake.Persistence.Statements
import RustLake.Rust.Basic
import Mathlib.Data.List.AList
import Mathlib.Data.String.Basic

/-! The state database and the migration of JSONL files into it. -/
namespace RustLake.Persistence

structure ConnectionEntry where
  id : String
  name : String
  connType : String
  host : String
  port : UInt16
  database : String
  username : String
  status : String
  tables : List String
  source : String
  authMethod : String
  connectionString : Option String
deriving DecidableEq

/-- A row of the table `connections`. -/
structure CachedConnection where
  name : String
  connType : String
  host : String
  port : UInt16
  database : String
  username : String
  status : String
  source : String
  authMethod : String
  connectionString : String
deriving DecidableEq

def ConnectionEntry.row (conn : ConnectionEntry) : CachedConnection where
  name := conn.name
  connType := conn.connType
  host := conn.host
  port := conn.port
  database := conn.database
  username := conn.username
  status := conn.status
  source := conn.source
  authMethod := conn.authMethod
  connectionString := conn.connectionString.getD ""

/-- The lists that have a JSONL file. -/
inductive Source where
  | connections | scheduledJobs | userTransforms
deriving DecidableEq

def Source.key : Source → String
  | .connections => "connections"
  | .scheduledJobs => "scheduled_jobs"
  | .userTransforms => "user_transforms"

theorem Source.key_injective : Function.Injective Source.key := by
  intro a b h
  cases a <;> cases b <;> first | rfl | exact absurd h (by decide)

/-- The calls that can fail, with the positions of their entries in the lists. -/
inductive Call where
  | readToString (source : Source)
  | load (source : Source)
  | loadTables (connection : ℕ)
  | cachedTables (connection : ℕ)
  | isMigrated (source : Source)
  | prepare (source : Source)
  | insert (source : Source) (entry : ℕ)
  | deleteTables (connection : ℕ)
  | prepareTables (connection : ℕ)
  | insertTable (connection table : ℕ)
  | markMigrated (source : Source)
  | removeFile (source : Source)
deriving DecidableEq

/-- The errors of calls, and the error of a second row with one primary key. -/
structure Faults where
  error : Call → Option String
  duplicateKey : String → String → String

/-- How the entries of a list are stored as JSON texts, and under which ids. -/
structure Codec (Entry : Type) where
  id : Entry → String
  toJson : Entry → Option String
  fromJson : String → Option Entry

structure Database where
  connections : AList fun _ : String => CachedConnection
  connectionTables : List (String × String)
  scheduledJobs : AList fun _ : String => String
  userTransforms : AList fun _ : String => String
  migrations : List String

namespace Database

def putConnection (conn : ConnectionEntry) (db : Database) : Database :=
  { db with connections := db.connections.insert conn.id conn.row }

def dropTables (connId : String) (db : Database) : Database :=
  { db with connectionTables := db.connectionTables.filter fun row => row.1 ≠ connId }

def putTable (connId table : String) (db : Database) : Database :=
  { db with connectionTables := db.connectionTables ++ [(connId, table)] }

def putJob (id data : String) (db : Database) : Database :=
  { db with scheduledJobs := db.scheduledJobs.insert id data }

def putTransform (id data : String) (db : Database) : Database :=
  { db with userTransforms := db.userTransforms.insert id data }

def mark (source : Source) (db : Database) : Database :=
  { db with migrations := if source.key ∈ db.migrations then db.migrations
      else db.migrations ++ [source.key] }

end Database

section Load
variable (faults : Faults)

def passes (call : Call) : Bool := (faults.error call).isNone

/-- The connections in the database, with none of their tables. -/
def loadConnections (db : Database) : List ConnectionEntry :=
  if passes faults (.load .connections) then
    db.connections.entries.map fun row => {
      id := row.1
      name := row.2.name
      connType := row.2.connType
      host := row.2.host
      port := row.2.port
      database := row.2.database
      username := row.2.username
      status := row.2.status
      tables := []
      source := row.2.source
      authMethod := row.2.authMethod
      connectionString := if row.2.connectionString = "" then none else some row.2.connectionString }
  else []

def loadTables (call : Call) (connId : String) (db : Database) : List String :=
  if passes faults call then
    ((db.connectionTables.filter fun row => row.1 = connId).map Prod.snd).insertionSort (· ≤ ·)
  else []

def loadEntries {Entry : Type} (source : Source) (codec : Codec Entry)
    (rows : AList fun _ : String => String) : List Entry :=
  if passes faults (.load source) then rows.entries.filterMap fun row => codec.fromJson row.2
  else []

def loadJobs {Job : Type} (codec : Codec Job) (db : Database) : List Job :=
  loadEntries faults .scheduledJobs codec db.scheduledJobs

def loadTransforms {Transform : Type} (codec : Codec Transform) (db : Database) : List Transform :=
  loadEntries faults .userTransforms codec db.userTransforms

end Load

section Migrate
variable (faults : Faults)

/-- A statement that fails when its call does, with the error after a text. -/
def statement (call : Call) (context : String) (f : Database → Database) : Statement Database :=
  fun db =>
    match faults.error call with
    | some e => .error (context ++ e)
    | none => .ok (f db)

def isMigrated (source : Source) : Session Database Bool := fun db =>
  (.ok (passes faults (.isMigrated source) && decide (source.key ∈ db.migrations)), db)

def markMigrated (source : Source) : Session Database Unit :=
  execute (statement faults (.markMigrated source) ("Mark migration '" ++ source.key ++ "': ")
    (Database.mark source))

def upsertConnection (n : ℕ) (conn : ConnectionEntry) : Session Database Unit :=
  execute (statement faults (.insert .connections n) ("Upsert connection '" ++ conn.id ++ "': ")
    (Database.putConnection conn))

/-- The insertion of a row, which fails on a row that is there. -/
def insertTable (n m : ℕ) (connId table : String) : Statement Database := fun db =>
  if passes faults (.insertTable n m) ∧ (connId, table) ∈ db.connectionTables then
    .error (faults.duplicateKey connId table)
  else statement faults (.insertTable n m) "" (Database.putTable connId table) db

def insertTables (n : ℕ) (connId : String) : ℕ → List String → Session Database Unit
  | _, [] => pure ()
  | m, table :: rest => do
    execute (insertTable faults n m connId table)
    insertTables n connId (m + 1) rest

def cacheTables (n : ℕ) (connId : String) (tables : List String) : Session Database Unit := do
  execute (statement faults (.deleteTables n) "" (Database.dropTables connId))
  execute (statement faults (.prepareTables n) "" id)
  insertTables faults n connId 0 tables

/-- The rest of the loop over the connections, after so many of them. -/
def upsertConnections : ℕ → List ConnectionEntry → Session Database ℕ
  | count, [] => pure count
  | count, conn :: rest => do
    upsertConnection faults count conn
    (if conn.tables.isEmpty then pure () else cacheTables faults count conn.id conn.tables)
    upsertConnections (count + 1) rest

def migrateConnections (connections : List ConnectionEntry) : Session Database ℕ := do
  let migrated ← isMigrated faults .connections
  if migrated then pure 0
  else do
    let count ← upsertConnections faults 0 connections
    markMigrated faults .connections
    pure count

variable {Entry Job Transform : Type}

/-- The rest of the loop over the entries, after so many of them. -/
def insertEntries (source : Source) (codec : Codec Entry)
    (put : String → String → Database → Database) : ℕ → List Entry → Session Database ℕ
  | count, [] => pure count
  | count, entry :: rest => do
    execute (statement faults (.insert source count) ""
      (put (codec.id entry) ((codec.toJson entry).getD "")))
    insertEntries source codec put (count + 1) rest

/-- The migration of a list whose entries are stored as JSON texts. -/
def migrateEntries (source : Source) (codec : Codec Entry)
    (put : String → String → Database → Database) (entries : List Entry) :
    Session Database ℕ := do
  let migrated ← isMigrated faults source
  if migrated then pure 0
  else do
    execute (statement faults (.prepare source) "" id)
    let count ← insertEntries faults source codec put 0 entries
    markMigrated faults source
    pure count

def migrateJobs (codec : Codec Job) (jobs : List Job) : Session Database ℕ :=
  migrateEntries faults .scheduledJobs codec Database.putJob jobs

def migrateTransforms (codec : Codec Transform) (transforms : List Transform) :
    Session Database ℕ :=
  migrateEntries faults .userTransforms codec Database.putTransform transforms

end Migrate
end RustLake.Persistence
