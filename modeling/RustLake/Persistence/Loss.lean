import RustLake.Persistence.StateDb
import RustLake.Persistence.JsonLines

/-! The migration of the JSONL files at startup, and when it loses entries. -/
namespace RustLake.Persistence

/-- The contents of the JSONL files that exist. -/
abbrev Files := Source → Option String

structure AppState (Job Transform : Type) where
  connections : List ConnectionEntry
  scheduledJobs : List Job
  userTransforms : List Transform

structure Formats (Job Transform : Type) where
  connection : String → Option ConnectionEntry
  job : Codec Job
  transform : Codec Transform

variable {Job Transform : Type} (faults : Faults) (formats : Formats Job Transform)

section Startup

def readToString (files : Files) (source : Source) : Option String :=
  if passes faults (.readToString source) then files source else none

def loadConnectionsFromFile (files : Files) : List ConnectionEntry :=
  loadFromFile formats.connection (readToString faults files .connections)

def loadScheduledJobsFromFile (files : Files) : List Job :=
  loadFromFile formats.job.fromJson (readToString faults files .scheduledJobs)

def loadUserTransformsFromFile (files : Files) : List Transform :=
  loadFromFile formats.transform.fromJson (readToString faults files .userTransforms)

/-- The connections of the database, with their tables. -/
def restoredConnections (db : Database) : List ConnectionEntry :=
  (loadConnections faults db).mapIdx fun n conn =>
    { conn with tables := loadTables faults (.loadTables n) conn.id db }

/-- The cached table lists, for connections that have none. -/
def restoreTables (db : Database) (connections : List ConnectionEntry) : List ConnectionEntry :=
  connections.mapIdx fun n conn =>
    if conn.tables.isEmpty then
      { conn with tables := loadTables faults (.cachedTables n) conn.id db }
    else conn

/-- The lists as they are before the migration: from the files, or else from the database. -/
def loadState (files : Files) (db : Database) : AppState Job Transform where
  connections :=
    let connections := loadConnectionsFromFile faults formats files
    restoreTables faults db
      (if connections.isEmpty then restoredConnections faults db else connections)
  scheduledJobs :=
    let jobs := loadScheduledJobsFromFile faults formats files
    if jobs.isEmpty then loadJobs faults formats.job db else jobs
  userTransforms :=
    let transforms := loadUserTransformsFromFile faults formats files
    if transforms.isEmpty then loadTransforms faults formats.transform db else transforms

/-- The migration of a list that has entries, and whether it reports any. -/
def attempt {Entry : Type} (entries : List Entry) (migration : Session Database ℕ) :
    StateM Database Bool := fun db =>
  if entries.isEmpty then (false, db)
  else
    match run migration db with
    | (.ok n, db') => (decide (0 < n), db')
    | (.error _, db') => (false, db')

/-- The three migrations, and whether any reports entries. -/
def migrate (state : AppState Job Transform) : StateM Database Bool := do
  let connections ← attempt state.connections (migrateConnections faults state.connections)
  let jobs ← attempt state.scheduledJobs (migrateJobs faults formats.job state.scheduledJobs)
  let transforms ← attempt state.userTransforms
    (migrateTransforms faults formats.transform state.userTransforms)
  pure (connections || jobs || transforms)

def removeFiles (files : Files) : Files := fun source =>
  if (files source).isSome ∧ passes faults (.removeFile source) then none else files source

/-- What startup leaves of the files, and the database after it. -/
def startup (files : Files) (db : Database) : Files × Database :=
  let (migratedAny, db') := migrate faults formats (loadState faults formats files db) db
  (if migratedAny then removeFiles faults files else files, db')

end Startup
end RustLake.Persistence

/-! When the migration of the JSONL files at startup loses entries. -/
namespace RustLake.Persistence

variable {Job Transform : Type} (faults : Faults) (formats : Formats Job Transform)

section Statements

def markStatement (source : Source) : Statement Database :=
  statement faults (.markMigrated source) ("Mark migration '" ++ source.key ++ "': ")
    (Database.mark source)

def insertStatements {Entry : Type} (source : Source) (codec : Codec Entry)
    (put : String → String → Database → Database) : ℕ → List Entry → List (Statement Database)
  | _, [] => []
  | n, entry :: rest =>
    statement faults (.insert source n) "" (put (codec.id entry) ((codec.toJson entry).getD "")) ::
      insertStatements source codec put (n + 1) rest

def tableStatements (n : ℕ) (connId : String) : ℕ → List String → List (Statement Database)
  | _, [] => []
  | m, table :: rest => insertTable faults n m connId table :: tableStatements n connId (m + 1) rest

def cacheStatements (n : ℕ) (connId : String) (tables : List String) : List (Statement Database) :=
  [statement faults (.deleteTables n) "" (Database.dropTables connId),
    statement faults (.prepareTables n) "" id] ++ tableStatements faults n connId 0 tables

def connectionStatements : ℕ → List ConnectionEntry → List (Statement Database)
  | _, [] => []
  | n, conn :: rest =>
    statement faults (.insert .connections n) ("Upsert connection '" ++ conn.id ++ "': ")
        (Database.putConnection conn) ::
      (if conn.tables.isEmpty then [] else cacheStatements faults n conn.id conn.tables) ++
      connectionStatements (n + 1) rest

theorem insertEntries_eq {Entry : Type} (source : Source) (codec : Codec Entry)
    (put : String → String → Database → Database) (n : ℕ) (entries : List Entry) :
    insertEntries faults source codec put n entries =
      executeAll (insertStatements faults source codec put n entries) >>= fun _ =>
        pure (n + entries.length) := by
  induction entries generalizing n with
  | nil => exact (pure_bind _ _).symm
  | cons entry rest ih =>
    rw [insertEntries, insertStatements, executeAll_cons, ih, bind_assoc, List.length_cons]
    have hlength : n + 1 + rest.length = n + (rest.length + 1) := by omega
    rw [hlength]

theorem insertTables_eq (n : ℕ) (connId : String) (m : ℕ) (tables : List String) :
    insertTables faults n connId m tables =
      executeAll (tableStatements faults n connId m tables) := by
  induction tables generalizing m with
  | nil => rfl
  | cons table rest ih => rw [insertTables, tableStatements, executeAll_cons, ih]

theorem cacheTables_eq (n : ℕ) (connId : String) (tables : List String) :
    cacheTables faults n connId tables = executeAll (cacheStatements faults n connId tables) := by
  rw [cacheTables, insertTables_eq]
  rfl

theorem upsertConnections_eq (n : ℕ) (connections : List ConnectionEntry) :
    upsertConnections faults n connections =
      executeAll (connectionStatements faults n connections) >>= fun _ =>
        pure (n + connections.length) := by
  induction connections generalizing n with
  | nil => exact (pure_bind _ _).symm
  | cons conn rest ih =>
    have hcache : (if conn.tables.isEmpty then pure ()
          else cacheTables faults n conn.id conn.tables) =
        executeAll (if conn.tables.isEmpty then []
          else cacheStatements faults n conn.id conn.tables) := by
      split
      · rfl
      · exact cacheTables_eq faults n conn.id conn.tables
    rw [upsertConnections, connectionStatements, List.cons_append, executeAll_cons,
      executeAll_append, hcache, ih, bind_assoc, bind_assoc, List.length_cons]
    have hlength : n + 1 + rest.length = n + (rest.length + 1) := by omega
    rw [hlength]
    rfl

end Statements

section Plan
variable (state : AppState Job Transform)

def AppState.size : Source → ℕ
  | .connections => state.connections.length
  | .scheduledJobs => state.scheduledJobs.length
  | .userTransforms => state.userTransforms.length

/-- The statements that store the list of a source and mark its migration. -/
def statements : Source → List (Statement Database)
  | .connections =>
    connectionStatements faults 0 state.connections ++ [markStatement faults .connections]
  | .scheduledJobs =>
    statement faults (.prepare .scheduledJobs) "" id ::
      insertStatements faults .scheduledJobs formats.job Database.putJob 0 state.scheduledJobs ++
      [markStatement faults .scheduledJobs]
  | .userTransforms =>
    statement faults (.prepare .userTransforms) "" id ::
      insertStatements faults .userTransforms formats.transform Database.putTransform 0
        state.userTransforms ++
      [markStatement faults .userTransforms]

def migration : Source → Session Database ℕ
  | .connections => migrateConnections faults state.connections
  | .scheduledJobs => migrateJobs faults formats.job state.scheduledJobs
  | .userTransforms => migrateTransforms faults formats.transform state.userTransforms

def attemptSource : Source → StateM Database Bool
  | .connections => attempt state.connections (migration faults formats state .connections)
  | .scheduledJobs => attempt state.scheduledJobs (migration faults formats state .scheduledJobs)
  | .userTransforms =>
    attempt state.userTransforms (migration faults formats state .userTransforms)

/-- The database is seen to have the list of a source. -/
def Migrated (source : Source) (db : Database) : Prop :=
  passes faults (.isMigrated source) = true ∧ source.key ∈ db.migrations

instance (source : Source) (db : Database) : Decidable (Migrated faults source db) :=
  inferInstanceAs (Decidable (_ ∧ _))

/-- The migration of a source has something to store and stores all of it. -/
def Reports (source : Source) (db : Database) : Prop :=
  state.size source ≠ 0 ∧ ¬ Migrated faults source db ∧
    AllPass (statements faults formats state source) db

/-- The database once a source has been migrated, up to the first statement that fails. -/
def after (source : Source) (db : Database) : Database :=
  if state.size source = 0 ∨ Migrated faults source db then db
  else afterAll (statements faults formats state source) db

theorem run_isMigrated (source : Source) (db : Database) :
    run (isMigrated faults source) db = (.ok (decide (Migrated faults source db)), db) := by
  have hseen : (passes faults (.isMigrated source) && decide (source.key ∈ db.migrations)) =
      decide (Migrated faults source db) := by
    rw [Bool.eq_iff_iff, Bool.and_eq_true, decide_eq_true_iff, decide_eq_true_iff]
    rfl
  unfold run isMigrated
  rw [hseen]

theorem migrateEntries_eq {Entry : Type} (source : Source) (codec : Codec Entry)
    (put : String → String → Database → Database) (entries : List Entry) :
    migrateEntries faults source codec put entries = isMigrated faults source >>= fun migrated =>
      if migrated then pure 0
      else executeAll (statement faults (.prepare source) "" id ::
        insertStatements faults source codec put 0 entries ++ [markStatement faults source]) >>=
          fun _ => pure entries.length := by
  rw [migrateEntries]
  congr 1
  funext migrated
  split
  · rfl
  · rw [insertEntries_eq, List.cons_append, executeAll_cons, executeAll_append,
      executeAll_singleton, Nat.zero_add, bind_assoc, bind_assoc, bind_assoc]
    rfl

theorem migration_eq (source : Source) : migration faults formats state source =
    isMigrated faults source >>= fun migrated =>
      if migrated then pure 0
      else executeAll (statements faults formats state source) >>=
        fun _ => pure (state.size source) := by
  cases source with
  | connections =>
    rw [migration, migrateConnections]
    congr 1
    funext migrated
    split
    · rfl
    · rw [upsertConnections_eq, statements, executeAll_append, executeAll_singleton, Nat.zero_add,
        bind_assoc, bind_assoc]
      rfl
  | scheduledJobs => exact migrateEntries_eq faults _ _ _ _
  | userTransforms => exact migrateEntries_eq faults _ _ _ _

theorem attempt_migration {Entry : Type} {source : Source} {entries : List Entry}
    (hsize : state.size source = entries.length) (db : Database) :
    (attempt entries (migration faults formats state source) db).2 =
        after faults formats state source db ∧
      ((attempt entries (migration faults formats state source) db).1 = true ↔
        Reports faults formats state source db) := by
  unfold attempt
  by_cases hempty : entries = []
  · subst hempty
    have hzero : state.size source = 0 := hsize
    refine ⟨(if_pos (Or.inl hzero)).symm, iff_of_false (by simp) fun h => h.1 hzero⟩
  · have hne : state.size source ≠ 0 := by
      rw [hsize]
      exact fun h => hempty (List.length_eq_zero_iff.mp h)
    have hisEmpty : ¬ entries.isEmpty = true := fun h => hempty (List.isEmpty_iff.mp h)
    rw [if_neg hisEmpty, migration_eq, run_bind, run_isMigrated, after, Reports]
    by_cases hmigrated : Migrated faults source db
    · simp [hmigrated]
    · obtain ⟨hafter, hpass, hvalue⟩ := run_executeAll_pure
        (statements faults formats state source) (state.size source) db
      simp only [hmigrated, hne, decide_false, or_self, ↓reduceIte, not_false_eq_true, ne_eq,
        true_and, Bool.false_eq_true]
      rw [← hpass, ← hafter]
      rcases hrun : run (executeAll (statements faults formats state source) >>= fun _ =>
        pure (state.size source)) db with ⟨e | n, db'⟩
      · exact ⟨rfl, iff_of_false (by simp) (by simp)⟩
      · have hn : n = state.size source := hvalue n (by rw [hrun])
        refine ⟨rfl, iff_of_true ?_ ⟨n, rfl⟩⟩
        simpa [hn] using Nat.pos_of_ne_zero hne

theorem attemptSource_spec (source : Source) (db : Database) :
    (attemptSource faults formats state source db).2 = after faults formats state source db ∧
      ((attemptSource faults formats state source db).1 = true ↔
        Reports faults formats state source db) := by
  cases source with
  | connections => exact attempt_migration faults formats state rfl db
  | scheduledJobs => exact attempt_migration faults formats state rfl db
  | userTransforms => exact attempt_migration faults formats state rfl db

end Plan

section Frame

/-- Two databases hold the same entries of a source. -/
def SameFor (source : Source) (a b : Database) : Prop :=
  (match source with
    | .connections => a.connections = b.connections ∧ a.connectionTables = b.connectionTables
    | .scheduledJobs => a.scheduledJobs = b.scheduledJobs
    | .userTransforms => a.userTransforms = b.userTransforms) ∧
  (source.key ∈ a.migrations ↔ source.key ∈ b.migrations)

theorem SameFor.refl (source : Source) (a : Database) : SameFor source a a := by
  cases source <;> simp [SameFor]

theorem SameFor.trans {source : Source} {a b c : Database} (hab : SameFor source a b)
    (hbc : SameFor source b c) : SameFor source a c := by
  cases source <;> simp_all [SameFor]

/-- A change of the entries of one source alone. -/
structure ChangeOf (source : Source) (f : Database → Database) : Prop where
  same : ∀ a b, SameFor source a b → SameFor source (f a) (f b)
  others : ∀ other, other ≠ source → ∀ db, SameFor other db (f db)

theorem changeOf_id (source : Source) : ChangeOf source id :=
  ⟨fun _ _ h => h, fun other _ db => SameFor.refl other db⟩

theorem changeOf_putConnection (conn : ConnectionEntry) :
    ChangeOf .connections (Database.putConnection conn) := by
  constructor
  · intro a b h
    simp_all [SameFor, Database.putConnection]
  · intro other hother db
    cases other <;> simp_all [SameFor, Database.putConnection]

theorem changeOf_dropTables (connId : String) :
    ChangeOf .connections (Database.dropTables connId) := by
  constructor
  · intro a b h
    simp_all [SameFor, Database.dropTables]
  · intro other hother db
    cases other <;> simp_all [SameFor, Database.dropTables]

theorem changeOf_putTable (connId table : String) :
    ChangeOf .connections (Database.putTable connId table) := by
  constructor
  · intro a b h
    simp_all [SameFor, Database.putTable]
  · intro other hother db
    cases other <;> simp_all [SameFor, Database.putTable]

theorem changeOf_putJob (id data : String) : ChangeOf .scheduledJobs (Database.putJob id data) := by
  constructor
  · intro a b h
    simp_all [SameFor, Database.putJob]
  · intro other hother db
    cases other <;> simp_all [SameFor, Database.putJob]

theorem changeOf_putTransform (id data : String) :
    ChangeOf .userTransforms (Database.putTransform id data) := by
  constructor
  · intro a b h
    simp_all [SameFor, Database.putTransform]
  · intro other hother db
    cases other <;> simp_all [SameFor, Database.putTransform]

theorem mem_mark {source other : Source} {db : Database} :
    other.key ∈ (db.mark source).migrations ↔ other = source ∨ other.key ∈ db.migrations := by
  have hkey : other.key = source.key ↔ other = source := Source.key_injective.eq_iff
  unfold Database.mark
  dsimp only
  split
  · rename_i hmem
    constructor
    · exact Or.inr
    · rintro (rfl | h)
      · exact hmem
      · exact h
  · simp [hkey, or_comm]

theorem changeOf_mark (source : Source) : ChangeOf source (Database.mark source) := by
  constructor
  · intro a b h
    refine ⟨?_, by simp [mem_mark]⟩
    cases source <;> exact h.1
  · intro other hother db
    refine ⟨?_, by simp [mem_mark, hother]⟩
    cases other <;> simp [Database.mark]

/-- A statement about the entries of one source alone. -/
structure StatementOf (source : Source) (stmt : Statement Database) : Prop where
  agree : ∀ a b, SameFor source a b → Agree (SameFor source) (stmt a) (stmt b)
  others : ∀ other, other ≠ source → ∀ db db', stmt db = .ok db' → SameFor other db db'

theorem ChangeOf.statementOf {source : Source} {f : Database → Database} (hf : ChangeOf source f)
    (call : Call) (context : String) : StatementOf source (statement faults call context f) := by
  unfold statement
  cases faults.error call with
  | some e => exact ⟨fun _ _ _ => trivial, fun _ _ _ _ h => by cases h⟩
  | none =>
    refine ⟨hf.same, fun other hother db db' h => ?_⟩
    cases h
    exact hf.others other hother db

theorem statementOf_insertTable (n m : ℕ) (connId table : String) :
    StatementOf .connections (insertTable faults n m connId table) := by
  have hput := (changeOf_putTable connId table).statementOf faults (.insertTable n m) ""
  constructor
  · intro a b h
    have htables : a.connectionTables = b.connectionTables := h.1.2
    unfold insertTable
    rw [htables]
    split
    · trivial
    · exact hput.agree a b h
  · intro other hother db db' h
    unfold insertTable at h
    split at h
    · cases h
    · exact hput.others other hother db db' h

theorem statementOf_tableStatements (n : ℕ) (connId : String) (m : ℕ) (tables : List String) :
    ∀ stmt ∈ tableStatements faults n connId m tables, StatementOf .connections stmt := by
  induction tables generalizing m with
  | nil => exact List.forall_mem_nil _
  | cons table rest ih =>
    exact List.forall_mem_cons.mpr ⟨statementOf_insertTable faults n m connId table, ih (m + 1)⟩

theorem statementOf_connectionStatements (n : ℕ) (connections : List ConnectionEntry) :
    ∀ stmt ∈ connectionStatements faults n connections, StatementOf .connections stmt := by
  induction connections generalizing n with
  | nil => exact List.forall_mem_nil _
  | cons conn rest ih =>
    have hupsert := (changeOf_putConnection conn).statementOf faults (.insert .connections n)
      ("Upsert connection '" ++ conn.id ++ "': ")
    have hcache : ∀ stmt ∈ (if conn.tables.isEmpty then []
        else cacheStatements faults n conn.id conn.tables), StatementOf .connections stmt := by
      split
      · exact List.forall_mem_nil _
      · have hdrop := (changeOf_dropTables conn.id).statementOf faults (.deleteTables n) ""
        have hprepare := (changeOf_id .connections).statementOf faults (.prepareTables n) ""
        have htables := statementOf_tableStatements faults n conn.id 0 conn.tables
        exact List.forall_mem_cons.mpr ⟨hdrop, List.forall_mem_cons.mpr ⟨hprepare, htables⟩⟩
    rw [connectionStatements]
    exact List.forall_mem_append.mpr
      ⟨List.forall_mem_cons.mpr ⟨hupsert, hcache⟩, ih (n + 1)⟩

theorem statementOf_insertStatements {Entry : Type} {source : Source} (codec : Codec Entry)
    {put : String → String → Database → Database} (hput : ∀ id data, ChangeOf source (put id data))
    (n : ℕ) (entries : List Entry) :
    ∀ stmt ∈ insertStatements faults source codec put n entries, StatementOf source stmt := by
  induction entries generalizing n with
  | nil => exact List.forall_mem_nil _
  | cons entry rest ih =>
    exact List.forall_mem_cons.mpr ⟨(hput _ _).statementOf faults _ _, ih (n + 1)⟩

theorem statementOf_statements (state : AppState Job Transform) (source : Source) :
    ∀ stmt ∈ statements faults formats state source, StatementOf source stmt := by
  have hprepare := fun source => (changeOf_id source).statementOf faults (.prepare source) ""
  have hmark : ∀ source, ∀ stmt ∈ [markStatement faults source], StatementOf source stmt :=
    fun source => List.forall_mem_singleton.mpr ((changeOf_mark source).statementOf faults _ _)
  cases source with
  | connections =>
    exact List.forall_mem_append.mpr
      ⟨statementOf_connectionStatements faults 0 state.connections, hmark _⟩
  | scheduledJobs =>
    have hinsert := statementOf_insertStatements faults formats.job changeOf_putJob 0
      state.scheduledJobs
    exact List.forall_mem_append.mpr ⟨List.forall_mem_cons.mpr ⟨hprepare _, hinsert⟩, hmark _⟩
  | userTransforms =>
    have hinsert := statementOf_insertStatements faults formats.transform changeOf_putTransform 0
      state.userTransforms
    exact List.forall_mem_append.mpr ⟨List.forall_mem_cons.mpr ⟨hprepare _, hinsert⟩, hmark _⟩

variable (state : AppState Job Transform)

theorem SameFor.migrated_iff {source : Source} {a b : Database} (h : SameFor source a b) :
    Migrated faults source a ↔ Migrated faults source b := and_congr_right fun _ => h.2

/-- What a migration does depends on the entries of its own source. -/
theorem SameFor.after {source : Source} {a b : Database} (h : SameFor source a b) :
    SameFor source (after faults formats state source a) (after faults formats state source b) ∧
      (Reports faults formats state source a ↔ Reports faults formats state source b) := by
  have hagree := afterAll_agree (R := SameFor source)
    (fun stmt hstmt => (statementOf_statements faults formats state source stmt hstmt).agree) h
  have hmigrated := h.migrated_iff faults
  constructor
  · unfold Persistence.after
    simp only [hmigrated]
    split
    · exact h
    · exact hagree.1
  · unfold Reports
    rw [hmigrated, hagree.2]

/-- The migration of a source keeps the entries of the others. -/
theorem sameFor_after {source other : Source} (hne : other ≠ source) (db : Database) :
    SameFor other db (after faults formats state source db) := by
  unfold after
  split
  · exact SameFor.refl other db
  · refine afterAll_induction (P := SameFor other db) (fun stmt hstmt a b hab h => ?_)
      (SameFor.refl other db)
    exact h.trans ((statementOf_statements faults formats state source stmt hstmt).others other hne
      a b hab)

/-- The three migrations together: what each source holds afterwards, and what is reported. -/
theorem migrate_spec (db : Database) :
    (∀ source, SameFor source (after faults formats state source db)
        (migrate faults formats state db).2) ∧
      ((migrate faults formats state db).1 = true ↔
        ∃ source, Reports faults formats state source db) := by
  have hmigrate : migrate faults formats state db =
      let first := attemptSource faults formats state .connections db
      let second := attemptSource faults formats state .scheduledJobs first.2
      let third := attemptSource faults formats state .userTransforms second.2
      (first.1 || second.1 || third.1, third.2) := rfl
  rw [hmigrate]
  dsimp only
  obtain ⟨hdb₁, hfirst⟩ := attemptSource_spec faults formats state .connections db
  rw [hdb₁]
  set db₁ := after faults formats state .connections db with hdb₁'
  obtain ⟨hdb₂, hsecond⟩ := attemptSource_spec faults formats state .scheduledJobs db₁
  rw [hdb₂]
  set db₂ := after faults formats state .scheduledJobs db₁ with hdb₂'
  obtain ⟨hdb₃, hthird⟩ := attemptSource_spec faults formats state .userTransforms db₂
  rw [hdb₃]
  -- a migration finds the entries of its source as they were at the start
  have hjobs : SameFor .scheduledJobs db db₁ := sameFor_after faults formats state (by decide) db
  have htransforms : SameFor .userTransforms db db₂ :=
    (sameFor_after faults formats state (by decide) db).trans
      (sameFor_after faults formats state (by decide) db₁)
  obtain ⟨hjobsAfter, hjobsReports⟩ := hjobs.after faults formats state
  obtain ⟨htransformsAfter, htransformsReports⟩ := htransforms.after faults formats state
  constructor
  · intro source
    cases source with
    | connections =>
      exact (sameFor_after faults formats state (by decide) db₁).trans
        (sameFor_after faults formats state (by decide) db₂)
    | scheduledJobs =>
      exact hjobsAfter.trans (sameFor_after faults formats state (by decide) db₂)
    | userTransforms => exact htransformsAfter
  · rw [Bool.or_eq_true, Bool.or_eq_true, hfirst, hsecond, hthird, ← hjobsReports,
      ← htransformsReports]
    constructor
    · rintro ((h | h) | h)
      · exact ⟨_, h⟩
      · exact ⟨_, h⟩
      · exact ⟨_, h⟩
    · rintro ⟨source, h⟩
      cases source with
      | connections => exact Or.inl (Or.inl h)
      | scheduledJobs => exact Or.inl (Or.inr h)
      | userTransforms => exact Or.inr h

end Frame

section Loss
variable (files : Files)

/-- Every entry loaded from the file of a source is in the database. -/
def Kept (db : Database) : Source → Prop
  | .connections => ∀ conn ∈ loadConnectionsFromFile faults formats files,
    db.connections.lookup conn.id = some conn.row ∧
      ∀ table ∈ conn.tables, (conn.id, table) ∈ db.connectionTables
  | .scheduledJobs => ∀ job ∈ loadScheduledJobsFromFile faults formats files,
    ∃ data, formats.job.toJson job = some data ∧
      db.scheduledJobs.lookup (formats.job.id job) = some data
  | .userTransforms => ∀ transform ∈ loadUserTransformsFromFile faults formats files,
    ∃ data, formats.transform.toJson transform = some data ∧
      db.userTransforms.lookup (formats.transform.id transform) = some data

theorem SameFor.kept_iff {source : Source} {a b : Database} (h : SameFor source a b) :
    Kept faults formats files a source ↔ Kept faults formats files b source := by
  cases source with
  | connections =>
    have hconnections : a.connections = b.connections := h.1.1
    have htables : a.connectionTables = b.connectionTables := h.1.2
    rw [Kept, Kept, hconnections, htables]
  | scheduledJobs =>
    have hjobs : a.scheduledJobs = b.scheduledJobs := h.1
    rw [Kept, Kept, hjobs]
  | userTransforms =>
    have htransforms : a.userTransforms = b.userTransforms := h.1
    rw [Kept, Kept, htransforms]

/-- The file of a source can be deleted. -/
def Removable (source : Source) : Prop :=
  (files source).isSome = true ∧ passes faults (.removeFile source) = true

/-- Startup deletes the file of a source. -/
def Deletes (db : Database) (source : Source) : Prop :=
  (files source).isSome = true ∧ (startup faults formats files db).1 source = none

theorem deletes_iff (db : Database) (source : Source) :
    Deletes faults formats files db source ↔ Removable faults files source ∧
      ∃ other, Reports faults formats (loadState faults formats files db) other db := by
  obtain ⟨-, hreports⟩ := migrate_spec faults formats (loadState faults formats files db) db
  have hstartup : (startup faults formats files db).1 =
      if (migrate faults formats (loadState faults formats files db) db).1 = true then
        removeFiles faults files
      else files := rfl
  unfold Deletes Removable
  rw [← hreports, hstartup]
  unfold removeFiles
  by_cases hmigrated : (migrate faults formats (loadState faults formats files db) db).1 = true
  · rw [hmigrated, if_pos rfl]
    constructor
    · rintro ⟨hfile, hnone⟩
      split at hnone
      · rename_i hremovable
        exact ⟨hremovable, rfl⟩
      · rw [hnone] at hfile
        cases hfile
    · rintro ⟨hremovable, -⟩
      exact ⟨hremovable.1, if_pos hremovable⟩
  · rw [if_neg hmigrated]
    constructor
    · rintro ⟨hfile, hnone⟩
      rw [hnone] at hfile
      cases hfile
    · rintro ⟨-, h⟩
      exact absurd h hmigrated

/-- Startup deletes only files whose entries are in the database exactly when no migration reports
entries or every file that can be deleted has its entries in the database after the statements of
its own migration. -/
theorem startup_lossless_iff (db : Database) :
    (∀ source, Deletes faults formats files db source →
        Kept faults formats files (startup faults formats files db).2 source) ↔
      (∀ source, ¬ Reports faults formats (loadState faults formats files db) source db) ∨
      ∀ source, Removable faults files source →
        Kept faults formats files
          (after faults formats (loadState faults formats files db) source db) source := by
  obtain ⟨hsame, -⟩ := migrate_spec faults formats (loadState faults formats files db) db
  have hkept : ∀ source, Kept faults formats files (startup faults formats files db).2 source ↔
      Kept faults formats files
        (after faults formats (loadState faults formats files db) source db) source :=
    fun source => ((hsame source).kept_iff faults formats files).symm
  simp only [deletes_iff, hkept]
  constructor
  · intro h
    by_cases hreports :
        ∃ other, Reports faults formats (loadState faults formats files db) other db
    · exact Or.inr fun source hremovable => h source ⟨hremovable, hreports⟩
    · exact Or.inl (not_exists.mp hreports)
  · rintro (hnone | hall) source ⟨hremovable, hreports⟩
    · exact absurd hreports (not_exists.mpr hnone)
    · exact hall source hremovable

end Loss

section WarehouseConnection

def warehouse : ConnectionEntry where
  id := "bootstrap-postgres"
  name := "warehouse"
  connType := "postgres"
  host := "localhost"
  port := 5432
  database := "warehouse"
  username := "rustlake"
  status := "connected"
  tables := ["orders", "customers"]
  source := "bootstrap"
  authMethod := "scram"
  connectionString := none

/-- One connection, one job, named by its id, and no transforms. -/
def warehouseFormats : Formats String String where
  connection line := if line = "\x7b\"id\":\"bootstrap-postgres\"\x7d" then some warehouse else none
  job := {
    id := fun job => job
    toJson := fun job => if job = "nightly" then some "\x7b\"id\":\"nightly\"\x7d" else none
    fromJson := fun line => if line = "\x7b\"id\":\"nightly\"\x7d" then some "nightly" else none }
  transform := ⟨fun name => name, fun _ => none, fun _ => none⟩

def warehouseFiles : Files
  | .connections => some "\x7b\"id\":\"bootstrap-postgres\"\x7d\n"
  | .scheduledJobs => some "\x7b\"id\":\"nightly\"\x7d\n"
  | .userTransforms => none

def noSpace : Faults where
  error call := if call = .insert .connections 0 then some "No space left on device" else none
  duplicateKey _ _ := "Constraint Error"

def emptyDatabase : Database where
  connections := ∅
  connectionTables := []
  scheduledJobs := ∅
  userTransforms := ∅
  migrations := []

/-- The migration of the job lets startup delete the file of the connection, which is not stored. -/
theorem warehouse_lost :
    (startup noSpace warehouseFormats warehouseFiles emptyDatabase).1 .connections = none ∧
      ¬ ∀ source, Deletes noSpace warehouseFormats warehouseFiles emptyDatabase source →
        Kept noSpace warehouseFormats warehouseFiles
          (startup noSpace warehouseFormats warehouseFiles emptyDatabase).2 source := by
  have hdeleted :
      (startup noSpace warehouseFormats warehouseFiles emptyDatabase).1 .connections = none := by
    decide
  have hloaded : warehouse ∈
      loadConnectionsFromFile noSpace warehouseFormats warehouseFiles := by decide
  have hmissing : (startup noSpace warehouseFormats warehouseFiles emptyDatabase).2.connections.lookup
      warehouse.id = none := by decide
  refine ⟨hdeleted, fun h => ?_⟩
  have hrow := (h .connections ⟨rfl, hdeleted⟩ warehouse hloaded).1
  rw [hmissing] at hrow
  cases hrow

end WarehouseConnection
end RustLake.Persistence
