import RustLake.Order.Keyed
import RustLake.Persistence.Loss

/-! Calls that change the lists in memory while there is a state database, and what a restart makes of
them. -/
namespace RustLake.Persistence
open Members

variable {Job Transform : Type}

/-- The server between two starts: its JSONL files and database, and the lists in memory. -/
structure Server (Job Transform : Type) where
  files : Files
  db : Database
  memory : AppState Job Transform

/-- The calls of the state that add, change and remove entries. An entry that is changed keeps its id. -/
inductive Mutation (formats : Formats Job Transform) where
  | addConnectionEntry (entry : ConnectionEntry)
  | updateConnectionEntry (id : String) (f : ConnectionEntry → ConnectionEntry)
      (keepsId : ∀ c, (f c).id = c.id)
  | removeConnectionEntry (id : String)
  | addScheduledJob (job : Job)
  | updateScheduledJob (id : String) (f : Job → Job)
      (keepsId : ∀ job, formats.job.id (f job) = formats.job.id job)
  | removeScheduledJob (id : String)
  | addUserTransform (transform : Transform)
  | removeUserTransform (name : String)

def Database.deleteConnection (connId : String) (db : Database) : Database :=
  { db.dropTables connId with connections := db.connections.erase connId }

section Step
variable (faults : Faults) (formats : Formats Job Transform)

/-- What a changed connection stores in the database: its row, and its tables when it has any. -/
def storeConnection (entry : ConnectionEntry) (db : Database) : Database :=
  if entry.tables.isEmpty then db.putConnection entry
  else (run (cacheTables faults 0 entry.id entry.tables) (db.putConnection entry)).2

/-- A call, while there is a state database: no JSONL file is written, and of the three lists only the
connections are stored. -/
def mutate (s : Server Job Transform) : Mutation formats → Server Job Transform
  | .addConnectionEntry entry => { s with
      db := s.db.putConnection entry
      memory := { s.memory with connections := s.memory.connections ++ [entry] } }
  | .updateConnectionEntry id f _ =>
    match s.memory.connections.find? fun c => c.id = id with
    | some entry => { s with
        db := storeConnection faults (f entry) s.db
        memory := { s.memory with connections :=
          s.memory.connections.replaceF fun c => if c.id = id then some (f c) else none } }
    | none => s
  | .removeConnectionEntry id =>
    if s.memory.connections.any fun c => c.id = id then { s with
      db := s.db.deleteConnection id
      memory := { s.memory with connections := s.memory.connections.filter fun c => c.id ≠ id } }
    else s
  | .addScheduledJob job => { s with
      memory := { s.memory with scheduledJobs := s.memory.scheduledJobs ++ [job] } }
  | .updateScheduledJob id f _ => { s with
      memory := { s.memory with scheduledJobs :=
        s.memory.scheduledJobs.replaceF fun j => if formats.job.id j = id then some (f j) else none } }
  | .removeScheduledJob id => { s with
      memory := { s.memory with scheduledJobs :=
        s.memory.scheduledJobs.filter fun j => formats.job.id j ≠ id } }
  | .addUserTransform transform => { s with
      memory := { s.memory with userTransforms := s.memory.userTransforms ++ [transform] } }
  | .removeUserTransform name => { s with
      memory := { s.memory with userTransforms :=
        s.memory.userTransforms.filter fun t => formats.transform.id t ≠ name } }

def mutateAll (s : Server Job Transform) (calls : List (Mutation formats)) : Server Job Transform :=
  calls.foldl (mutate faults formats) s

/-- The ids of the entries of a list; the id of a transform is its name. -/
def AppState.ids (state : AppState Job Transform) : Source → List String
  | .connections => state.connections.map (·.id)
  | .scheduledJobs => state.scheduledJobs.map formats.job.id
  | .userTransforms => state.userTransforms.map formats.transform.id

/-- The lists that a start builds from the files and the database. -/
def rebuilt (s : Server Job Transform) : AppState Job Transform :=
  loadState faults formats s.files s.db

/-- After a restart the lists hold the ids that they held in memory. -/
def Durable (s : Server Job Transform) : Prop :=
  ∀ source id, id ∈ (rebuilt faults formats s).ids formats source ↔ id ∈ s.memory.ids formats source

/-- What a call puts into a list or drops from it. -/
def Mutation.edit (source : Source) : Mutation formats → Option (Edit String)
  | .addConnectionEntry entry => if source = .connections then some (.put entry.id) else none
  | .removeConnectionEntry id => if source = .connections then some (.drop id) else none
  | .addScheduledJob job => if source = .scheduledJobs then some (.put (formats.job.id job)) else none
  | .removeScheduledJob id => if source = .scheduledJobs then some (.drop id) else none
  | .addUserTransform transform =>
    if source = .userTransforms then some (.put (formats.transform.id transform)) else none
  | .removeUserTransform name => if source = .userTransforms then some (.drop name) else none
  | _ => none

def edits (source : Source) (calls : List (Mutation formats)) : List (Edit String) :=
  calls.filterMap (Mutation.edit formats source)

/-- A call stores or deletes a connection in the database: it adds it, or changes or removes one that is
in memory. -/
def Mutation.Stores (id : String) (known : Prop) : Mutation formats → Prop
  | .addConnectionEntry entry => entry.id = id
  | .updateConnectionEntry id' _ _ => id' = id ∧ known
  | .removeConnectionEntry id' => id' = id ∧ known
  | _ => False

/-- The ids that the calls leave are those that are stored without them. Connections that are not in a
JSONL file may be stored by the calls instead. -/
structure Lasting (s : Server Job Transform) (calls : List (Mutation formats)) : Prop where
  unwritten : ∀ source, (source = .connections → loadConnectionsFromFile faults formats s.files ≠ []) →
    ∀ id, id ∈ (rebuilt faults formats s).ids formats source ↔
      Leaves id (id ∈ s.memory.ids formats source) (edits formats source calls)
  written : loadConnectionsFromFile faults formats s.files = [] →
    ∀ id, (id ∈ s.db.connections ↔ id ∈ s.memory.ids formats .connections) ∨
      ∃ call ∈ calls, call.Stores formats id (id ∈ s.memory.ids formats .connections)

end Step

section Memory
variable {faults : Faults} {formats : Formats Job Transform} {s : Server Job Transform}

theorem mutate_files (call : Mutation formats) : (mutate faults formats s call).files = s.files := by
  cases call with
  | updateConnectionEntry id f keepsId =>
    simp only [mutate]
    split <;> rfl
  | removeConnectionEntry id =>
    simp only [mutate]
    split <;> rfl
  | _ => rfl

theorem mutateAll_files (calls : List (Mutation formats)) :
    (mutateAll faults formats s calls).files = s.files := by
  induction calls generalizing s with
  | nil => rfl
  | cons call rest ih => exact ih.trans (mutate_files call)

/-- What one call does to the ids in memory. -/
theorem mem_ids_mutate (call : Mutation formats) (source : Source) (id : String) :
    id ∈ (mutate faults formats s call).memory.ids formats source ↔
      Leaves id (id ∈ s.memory.ids formats source) (call.edit formats source).toList := by
  cases call with
  | addConnectionEntry entry =>
    cases source with
    | connections => exact mem_put
    | scheduledJobs | userTransforms => exact Iff.rfl
  | updateConnectionEntry id' f keepsId =>
    simp only [mutate]
    split
    · cases source with
      | connections =>
        have hkey : ∀ c c', (if c.id = id' then some (f c) else none) = some c' → c'.id = c.id := by
          intro c c' h
          split at h
          · rw [← Option.some.inj h, keepsId]
          · cases h
        have hids := map_replace ConnectionEntry.id hkey s.memory.connections
        exact iff_of_eq (congrArg (id ∈ ·) hids)
      | scheduledJobs | userTransforms => exact Iff.rfl
    · exact Iff.rfl
  | removeConnectionEntry id' =>
    simp only [mutate]
    split
    · cases source with
      | connections => exact mem_drop
      | scheduledJobs | userTransforms => exact Iff.rfl
    · rename_i hnone
      cases source with
      | connections =>
        refine (and_iff_right_of_imp fun hmem heq => hnone ?_).symm
        obtain ⟨c, hc, hid⟩ := List.mem_map.mp hmem
        exact List.any_eq_true.mpr ⟨c, hc, by simp [hid, heq]⟩
      | scheduledJobs | userTransforms => exact Iff.rfl
  | addScheduledJob job =>
    cases source with
    | scheduledJobs => exact mem_put
    | connections | userTransforms => exact Iff.rfl
  | updateScheduledJob id' f keepsId =>
    cases source with
    | scheduledJobs =>
      have hkey : ∀ j j', (if formats.job.id j = id' then some (f j) else none) = some j' →
          formats.job.id j' = formats.job.id j := by
        intro j j' h
        split at h
        · rw [← Option.some.inj h, keepsId]
        · cases h
      exact iff_of_eq (congrArg (id ∈ ·) (map_replace _ hkey s.memory.scheduledJobs))
    | connections | userTransforms => exact Iff.rfl
  | removeScheduledJob id' =>
    cases source with
    | scheduledJobs => exact mem_drop
    | connections | userTransforms => exact Iff.rfl
  | addUserTransform transform =>
    cases source with
    | userTransforms => exact mem_put
    | connections | scheduledJobs => exact Iff.rfl
  | removeUserTransform name =>
    cases source with
    | userTransforms => exact mem_drop
    | connections | scheduledJobs => exact Iff.rfl

/-- What the calls leave in memory. -/
theorem mem_ids_mutateAll (calls : List (Mutation formats)) (source : Source) (id : String) :
    id ∈ (mutateAll faults formats s calls).memory.ids formats source ↔
      Leaves id (id ∈ s.memory.ids formats source) (edits formats source calls) := by
  induction calls generalizing s with
  | nil => exact Iff.rfl
  | cons call rest ih =>
    have hsplit : edits formats source (call :: rest) =
        (call.edit formats source).toList ++ edits formats source rest := by
      unfold edits
      rw [List.filterMap_cons]
      cases call.edit formats source <;> rfl
    rw [hsplit, leaves_append]
    have hlater := ih (s := mutate faults formats s call)
    exact hlater.trans (Leaves.congr (mem_ids_mutate call source id) _)

end Memory

section Stored
variable {faults : Faults} {formats : Formats Job Transform} {s : Server Job Transform}

/-- A statement that leaves the rows of the three lists alone. -/
def KeepsRows (stmt : Statement Database) : Prop :=
  ∀ db db', stmt db = .ok db' → db'.connections = db.connections ∧
    db'.scheduledJobs = db.scheduledJobs ∧ db'.userTransforms = db.userTransforms

theorem KeepsRows.afterAll {stmts : List (Statement Database)} (h : ∀ stmt ∈ stmts, KeepsRows stmt)
    (db : Database) : (afterAll stmts db).connections = db.connections ∧
      (afterAll stmts db).scheduledJobs = db.scheduledJobs ∧
      (afterAll stmts db).userTransforms = db.userTransforms := by
  induction stmts generalizing db with
  | nil => exact ⟨rfl, rfl, rfl⟩
  | cons stmt rest ih =>
    obtain ⟨hstmt, hrest⟩ := List.forall_mem_cons.mp h
    unfold Persistence.afterAll
    cases hresult : stmt db with
    | ok db' =>
      obtain ⟨hconnections, hjobs, htransforms⟩ := hstmt db db' hresult
      obtain ⟨hconnections', hjobs', htransforms'⟩ := ih hrest db'
      exact ⟨hconnections'.trans hconnections, hjobs'.trans hjobs, htransforms'.trans htransforms⟩
    | error e => exact ⟨rfl, rfl, rfl⟩

theorem keepsRows_statement (call : Call) (context : String) {f : Database → Database}
    (hf : ∀ db, (f db).connections = db.connections ∧ (f db).scheduledJobs = db.scheduledJobs ∧
      (f db).userTransforms = db.userTransforms) : KeepsRows (statement faults call context f) := by
  intro db db' h
  unfold statement at h
  split at h
  · cases h
  · cases h
    exact hf db

theorem keepsRows_tableStatements (n : ℕ) (connId : String) (m : ℕ) (tables : List String) :
    ∀ stmt ∈ tableStatements faults n connId m tables, KeepsRows stmt := by
  induction tables generalizing m with
  | nil => exact List.forall_mem_nil _
  | cons table rest ih =>
    refine List.forall_mem_cons.mpr ⟨fun db db' h => ?_, ih (m + 1)⟩
    unfold insertTable at h
    split at h
    · cases h
    · have hkeeps : KeepsRows (statement faults (.insertTable n m) "" (Database.putTable connId table)) :=
        keepsRows_statement _ _ fun _ => ⟨rfl, rfl, rfl⟩
      exact hkeeps db db' h

/-- A changed connection is stored in its own row. -/
theorem storeConnection_rows (entry : ConnectionEntry) (db : Database) :
    (storeConnection faults entry db).connections = db.connections.insert entry.id entry.row ∧
      (storeConnection faults entry db).scheduledJobs = db.scheduledJobs ∧
      (storeConnection faults entry db).userTransforms = db.userTransforms := by
  unfold storeConnection
  split
  · exact ⟨rfl, rfl, rfl⟩
  · rw [cacheTables_eq, (run_executeAll _ _).1]
    apply KeepsRows.afterAll
    intro stmt hstmt
    rcases List.mem_append.mp hstmt with hfirst | htables
    · simp only [List.mem_cons, List.not_mem_nil, or_false] at hfirst
      rcases hfirst with rfl | rfl
      · exact keepsRows_statement _ _ fun _ => ⟨rfl, rfl, rfl⟩
      · exact keepsRows_statement _ _ fun _ => ⟨rfl, rfl, rfl⟩
    · exact keepsRows_tableStatements _ _ _ _ stmt htables

/-- No call stores a job or a transform. -/
theorem mutate_rows (call : Mutation formats) :
    (mutate faults formats s call).db.scheduledJobs = s.db.scheduledJobs ∧
      (mutate faults formats s call).db.userTransforms = s.db.userTransforms := by
  cases call with
  | updateConnectionEntry id f keepsId =>
    simp only [mutate]
    split
    · exact (storeConnection_rows _ _).2
    · exact ⟨rfl, rfl⟩
  | removeConnectionEntry id =>
    simp only [mutate]
    split <;> exact ⟨rfl, rfl⟩
  | _ => exact ⟨rfl, rfl⟩

theorem mutateAll_rows (calls : List (Mutation formats)) :
    (mutateAll faults formats s calls).db.scheduledJobs = s.db.scheduledJobs ∧
      (mutateAll faults formats s calls).db.userTransforms = s.db.userTransforms := by
  induction calls generalizing s with
  | nil => exact ⟨rfl, rfl⟩
  | cons call rest ih =>
    obtain ⟨hjobs, htransforms⟩ := ih (s := mutate faults formats s call)
    exact ⟨hjobs.trans (mutate_rows call).1, htransforms.trans (mutate_rows call).2⟩

end Stored

section Connections
variable {faults : Faults} {formats : Formats Job Transform} {s : Server Job Transform} {id : String}

/-- The id of a connection is in memory and in the database, or in neither. -/
def Agrees (formats : Formats Job Transform) (id : String) (s : Server Job Transform) : Prop :=
  id ∈ s.db.connections ↔ id ∈ s.memory.ids formats .connections

theorem find?_isSome_iff {connections : List ConnectionEntry} :
    (∃ c, connections.find? (fun c => c.id = id) = some c) ↔ id ∈ connections.map (·.id) := by
  rw [← Option.isSome_iff_exists, List.find?_isSome]
  simp [List.mem_map]

/-- A call that stores or deletes a connection makes its id agree. -/
theorem agrees_of_stores {call : Mutation formats}
    (h : call.Stores formats id (id ∈ s.memory.ids formats .connections)) :
    Agrees formats id (mutate faults formats s call) := by
  unfold Agrees
  rw [mem_ids_mutate]
  cases call with
  | addConnectionEntry entry =>
    obtain rfl : entry.id = id := h
    exact ⟨fun _ => Or.inl rfl, fun _ => AList.mem_insert _ |>.mpr (Or.inl rfl)⟩
  | updateConnectionEntry id' f keepsId =>
    obtain ⟨rfl, hknown⟩ := h
    obtain ⟨c, hc⟩ := find?_isSome_iff.mpr hknown
    have hid : (f c).id = id' := by
      rw [keepsId]
      simpa using List.find?_some hc
    simp only [mutate, hc]
    rw [(storeConnection_rows _ _).1, hid]
    exact ⟨fun _ => hknown, fun _ => AList.mem_insert _ |>.mpr (Or.inl rfl)⟩
  | removeConnectionEntry id' =>
    obtain ⟨rfl, hknown⟩ := h
    have hany : s.memory.connections.any (fun c => c.id = id') = true := by
      obtain ⟨c, hc, hid⟩ := List.mem_map.mp hknown
      exact List.any_eq_true.mpr ⟨c, hc, by simpa using hid⟩
    simp only [mutate, hany, if_true]
    constructor
    · intro hmem
      exact absurd rfl (AList.mem_erase.mp hmem).1
    · intro hmem
      exact absurd rfl hmem.1
  | _ => exact h.elim

variable (faults) in
/-- Other calls leave it where it is. -/
theorem mem_of_not_stores {call : Mutation formats}
    (h : ¬ call.Stores formats id (id ∈ s.memory.ids formats .connections)) :
    (id ∈ (mutate faults formats s call).db.connections ↔ id ∈ s.db.connections) ∧
      (id ∈ (mutate faults formats s call).memory.ids formats .connections ↔
        id ∈ s.memory.ids formats .connections) := by
  rw [mem_ids_mutate]
  cases call with
  | addConnectionEntry entry =>
    have hne : entry.id ≠ id := h
    constructor
    · refine (AList.mem_insert _).trans (or_iff_right hne.symm)
    · exact or_iff_right hne
  | updateConnectionEntry id' f keepsId =>
    refine ⟨?_, Iff.rfl⟩
    simp only [mutate]
    split
    · rename_i c hc
      have hid : (f c).id = id' := by
        rw [keepsId]
        simpa using List.find?_some hc
      have hne : id ≠ id' := by
        rintro rfl
        exact h ⟨rfl, find?_isSome_iff.mp ⟨c, hc⟩⟩
      rw [(storeConnection_rows _ _).1, hid, AList.mem_insert]
      exact or_iff_right hne
    · exact Iff.rfl
  | removeConnectionEntry id' =>
    have hmem : (id' ≠ id ∧ id ∈ s.memory.ids formats .connections) ↔
        id ∈ s.memory.ids formats .connections :=
      and_iff_right_of_imp fun hknown heq => h ⟨heq, hknown⟩
    refine ⟨?_, hmem⟩
    simp only [mutate]
    split
    · rename_i hany
      have hne : id ≠ id' := by
        rintro rfl
        obtain ⟨c, hc, hid⟩ := List.any_eq_true.mp hany
        exact h ⟨rfl, List.mem_map.mpr ⟨c, hc, by simpa using hid⟩⟩
      exact AList.mem_erase.trans (and_iff_right hne)
    · exact Iff.rfl
  | _ => exact ⟨Iff.rfl, Iff.rfl⟩

/-- After the calls an id agrees when it did before or a call has stored or deleted its connection. -/
theorem agrees_mutateAll (calls : List (Mutation formats)) :
    Agrees formats id (mutateAll faults formats s calls) ↔ Agrees formats id s ∨
      ∃ call ∈ calls, call.Stores formats id (id ∈ s.memory.ids formats .connections) := by
  induction calls generalizing s with
  | nil => simp [mutateAll]
  | cons call rest ih =>
    have hlater := ih (s := mutate faults formats s call)
    refine hlater.trans ?_
    rw [List.exists_mem_cons_iff]
    by_cases hstores : call.Stores formats id (id ∈ s.memory.ids formats .connections)
    · exact ⟨fun _ => Or.inr (Or.inl hstores), fun _ => Or.inl (agrees_of_stores hstores)⟩
    · obtain ⟨hdb, hmemory⟩ := mem_of_not_stores faults hstores
      unfold Agrees
      rw [hdb, or_iff_right hstores, propext hmemory]

end Connections

section Rebuilt
variable {faults : Faults} {formats : Formats Job Transform} {s : Server Job Transform}

/-- A start reads the jobs and the transforms as the calls have found them. -/
theorem rebuilt_ids_congr {a b : Server Job Transform} (hfiles : a.files = b.files)
    (hjobs : a.db.scheduledJobs = b.db.scheduledJobs)
    (htransforms : a.db.userTransforms = b.db.userTransforms) {source : Source}
    (hsource : source ≠ .connections) :
    (rebuilt faults formats a).ids formats source = (rebuilt faults formats b).ids formats source := by
  unfold rebuilt loadState AppState.ids loadJobs loadTransforms
  rw [hfiles, hjobs, htransforms]
  cases source with
  | connections => exact absurd rfl hsource
  | scheduledJobs | userTransforms => rfl

theorem map_mapIdx_id {f : ℕ → ConnectionEntry → ConnectionEntry} (hf : ∀ n c, (f n c).id = c.id)
    (connections : List ConnectionEntry) :
    (connections.mapIdx f).map (·.id) = connections.map (·.id) := by
  apply List.ext_getElem
  · simp
  · intro n _ _
    simp [hf]

theorem map_id_restoreTables (db : Database) (connections : List ConnectionEntry) :
    (restoreTables faults db connections).map (·.id) = connections.map (·.id) := by
  apply map_mapIdx_id
  intro n c
  split <;> rfl

/-- Connections of a JSONL file are read from it. -/
theorem rebuilt_connections_of_file (h : loadConnectionsFromFile faults formats s.files ≠ []) :
    (rebuilt faults formats s).ids formats .connections =
      (loadConnectionsFromFile faults formats s.files).map (·.id) := by
  have hsome : (loadConnectionsFromFile faults formats s.files).isEmpty = false := by
    rw [Bool.eq_false_iff, Ne, List.isEmpty_iff]
    exact h
  unfold rebuilt loadState AppState.ids
  dsimp only
  rw [map_id_restoreTables, hsome]
  rfl

/-- Without one they are those of the database. -/
theorem rebuilt_connections_of_db (hload : faults.error (.load .connections) = none)
    (h : loadConnectionsFromFile faults formats s.files = []) (id : String) :
    id ∈ (rebuilt faults formats s).ids formats .connections ↔ id ∈ s.db.connections := by
  have hpasses : passes faults (.load .connections) = true := by
    rw [passes, hload]
    rfl
  have hrestored : (restoredConnections faults s.db).map (·.id) =
      (loadConnections faults s.db).map (·.id) := by
    apply map_mapIdx_id
    intro n c
    rfl
  have hids : (rebuilt faults formats s).ids formats .connections = s.db.connections.keys := by
    unfold rebuilt loadState AppState.ids
    dsimp only
    rw [map_id_restoreTables, h, List.isEmpty_nil, if_pos rfl, hrestored, loadConnections,
      if_pos hpasses, List.map_map]
    rfl
  rw [hids]
  exact Iff.rfl

/-- After a restart the lists hold the ids that they held in memory exactly when the ids that the calls
leave are those that are stored without them, or the calls themselves have stored them. -/
theorem durable_iff_lasting (hload : faults.error (.load .connections) = none)
    (calls : List (Mutation formats)) :
    Durable faults formats (mutateAll faults formats s calls) ↔ Lasting faults formats s calls := by
  have hfiles : (mutateAll faults formats s calls).files = s.files := mutateAll_files calls
  have hfile : ∀ source,
      (source = .connections → loadConnectionsFromFile faults formats s.files ≠ []) →
      (rebuilt faults formats (mutateAll faults formats s calls)).ids formats source =
        (rebuilt faults formats s).ids formats source := by
    intro source hsource
    by_cases hconnections : source = .connections
    · subst hconnections
      have hread := hsource rfl
      rw [rebuilt_connections_of_file hread, rebuilt_connections_of_file (by rwa [hfiles]), hfiles]
    · exact rebuilt_ids_congr hfiles (mutateAll_rows calls).1 (mutateAll_rows calls).2 hconnections
  have hagrees : loadConnectionsFromFile faults formats s.files = [] → ∀ id,
      (id ∈ (rebuilt faults formats (mutateAll faults formats s calls)).ids formats .connections ↔
        id ∈ (mutateAll faults formats s calls).memory.ids formats .connections) ↔
      Agrees formats id (mutateAll faults formats s calls) := by
    intro hempty id
    rw [rebuilt_connections_of_db hload (by rwa [hfiles])]
    exact Iff.rfl
  constructor
  · intro h
    constructor
    · intro source hsource id
      rw [← hfile source hsource, h source id, mem_ids_mutateAll]
    · intro hempty id
      exact (agrees_mutateAll calls).mp ((hagrees hempty id).mp (h .connections id))
  · intro h source id
    by_cases hsource : source = .connections → loadConnectionsFromFile faults formats s.files ≠ []
    · rw [hfile source hsource, h.unwritten source hsource id, mem_ids_mutateAll]
    · obtain ⟨rfl, hread⟩ := Classical.not_imp.mp hsource
      have hempty := not_not.mp hread
      exact (hagrees hempty id).mpr ((agrees_mutateAll calls).mpr (h.written hempty id))

end Rebuilt

section WarehouseServer

/-- A server that has just been set up, without files and with an empty database. -/
def freshServer : Server String String where
  files _ := none
  db := emptyDatabase
  memory := ⟨[], [], []⟩

def noFaults : Faults where
  error _ := none
  duplicateKey _ _ := "Constraint Error"

/-- A connection that is added and one that is removed again. -/
theorem durable_iff_lasting_warehouse :
    Durable noFaults warehouseFormats (mutateAll noFaults warehouseFormats freshServer
        [.addConnectionEntry warehouse, .removeConnectionEntry "bootstrap-postgres"]) ↔
      Lasting noFaults warehouseFormats freshServer
        [.addConnectionEntry warehouse, .removeConnectionEntry "bootstrap-postgres"] :=
  durable_iff_lasting rfl _

/-- A job that is added is not there after a restart. -/
theorem not_durable_warehouse : ¬ Durable noFaults warehouseFormats
    (mutateAll noFaults warehouseFormats freshServer [.addScheduledJob "nightly"]) := by
  intro h
  have hmemory : "nightly" ∈ (mutateAll noFaults warehouseFormats freshServer
      [.addScheduledJob "nightly"]).memory.ids warehouseFormats .scheduledJobs := by decide
  have hrebuilt := (h .scheduledJobs "nightly").mpr hmemory
  exact absurd hrebuilt (by decide)

end WarehouseServer

end RustLake.Persistence
