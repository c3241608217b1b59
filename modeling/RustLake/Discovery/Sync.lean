import RustLake.Order.Run
import Mathlib.Data.String.Basic

/-! The discovery of a Trino connection's tables: a foreground task that starts the scan and returns an
empty list, and the scan beside it, both of which write the entry of the connection. -/
namespace RustLake.Discovery

/-- The fields of a connection that the discovery writes, behind its id. -/
structure ConnectionEntry where
  id : String
  status : String
  tables : List String
  syncStatus : String
  syncError : Option String
  syncProgress : Option String
deriving DecidableEq

structure TrinoSchemaEntry where
  name : String
  tables : List String

structure TrinoCatalogEntry where
  name : String
  schemas : List TrinoSchemaEntry

abbrev TrinoCatalogTree := List TrinoCatalogEntry

def TrinoCatalogTree.tables (tree : TrinoCatalogTree) : List String :=
  tree.flatMap fun c => c.schemas.flatMap fun s => s.tables.map fun t => "trino." ++ s.name ++ "_" ++ t

/-- Whether there is a cache, and what Trino answers: to the look whether it can be reached, to the scan
of its catalogs, and to the request for the tree. -/
structure Trino where
  cacheReady : Bool
  reach : Except String Unit
  refreshCache : Except String ℕ
  browse : Except String TrinoCatalogTree

/-- The requests that start a discovery. -/
inductive Caller where
  | addConnection | updateConnection | reauth | importConnections
deriving DecidableEq

inductive Foreground where
  | starting | unreachable (error : String) | reached | spawned | returned | failed
deriving DecidableEq

inductive Scan where
  | none | spawned | discovering | refreshed | registering | browsing | finished
deriving DecidableEq

structure SyncState where
  connections : List ConnectionEntry
  foreground : Foreground
  scan : Scan

inductive Who where
  | foreground | scan
deriving DecidableEq

/-- `find` and change the first entry with the id. -/
def updateConnectionEntry (id : String) (f : ConnectionEntry → ConnectionEntry)
    (connections : List ConnectionEntry) : List ConnectionEntry :=
  connections.replaceF fun c => if c.id = id then some (f c) else none

def findEntry (id : String) (connections : List ConnectionEntry) : Option ConnectionEntry :=
  connections.find? fun c => c.id = id

/-- What the foreground task writes when the discovery has returned. -/
def returnedTables (caller : Caller) (tables : List String) (entry : ConnectionEntry) : ConnectionEntry :=
  { entry with
    tables := tables
    syncStatus := "ready"
    status := if caller = .reauth then "connected" else entry.status
    syncError := none }

def discoveryFailed (caller : Caller) (error : String) (entry : ConnectionEntry) : ConnectionEntry :=
  { entry with
    syncStatus := "error"
    status := if caller = .reauth then "error" else entry.status
    syncError := some error }

def progress (text : String) (entry : ConnectionEntry) : ConnectionEntry :=
  { entry with syncProgress := some text }

def refreshFailed (error : String) (entry : ConnectionEntry) : ConnectionEntry :=
  { entry with
    syncStatus := "error"
    syncError := some ("Cache refresh failed: " ++ error)
    syncProgress := none }

def scanComplete (tables : List String) (entry : ConnectionEntry) : ConnectionEntry :=
  { entry with
    syncStatus := "ready"
    syncError := none
    syncProgress := some ("Scan complete: " ++ toString tables.length ++ " tables")
    tables := tables }

/-- The tables of the tree, which is empty when it cannot be read. -/
def Trino.treeTables (trino : Trino) : List String :=
  match trino.browse with
  | .ok tree => TrinoCatalogTree.tables tree
  | .error _ => []

section Step
variable (trino : Trino) (caller : Caller) (id : String)

def foregroundStep (s : SyncState) : Option SyncState :=
  match s.foreground with
  | .starting =>
    if trino.cacheReady then
      match trino.reach with
      | .ok () => some { s with
          connections := updateConnectionEntry id (progress "Connecting to Trino...") s.connections
          foreground := .reached }
      | .error e => some { s with foreground := .unreachable ("Cannot reach Trino: " ++ e) }
    else some { s with foreground := .unreachable "Trino cache not initialized" }
  | .unreachable e => some { s with
      connections := updateConnectionEntry id (discoveryFailed caller e) s.connections
      foreground := .failed }
  | .reached => some { s with foreground := .spawned, scan := .spawned }
  | .spawned => some { s with
      connections := updateConnectionEntry id (returnedTables caller []) s.connections
      foreground := .returned }
  | _ => none

def scanStep (s : SyncState) : Option SyncState :=
  match s.scan with
  | .spawned => some { s with
      connections := updateConnectionEntry id (progress "Discovering catalogs...") s.connections
      scan := .discovering }
  | .discovering =>
    match trino.refreshCache with
    | .ok tableCount => some { s with
        connections := updateConnectionEntry id (progress ("Found " ++ toString tableCount ++
          " tables, registering providers...")) s.connections
        scan := .refreshed }
    | .error e => some { s with
        connections := updateConnectionEntry id (refreshFailed e) s.connections
        scan := .finished }
  | .refreshed => some { s with
      connections := updateConnectionEntry id (progress "Registering table providers...") s.connections
      scan := .registering }
  | .registering => some { s with
      connections := updateConnectionEntry id (progress "Building catalog tree...") s.connections
      scan := .browsing }
  | .browsing => some { s with
      connections := updateConnectionEntry id (scanComplete trino.treeTables) s.connections
      scan := .finished }
  | _ => none

def syncStep (s : SyncState) : Who → Option SyncState
  | .foreground => foregroundStep trino caller id s
  | .scan => scanStep trino id s

end Step

/-- What a scan has found, or why it failed. -/
def Trino.scanned (trino : Trino) : Except String (List String) :=
  match trino.refreshCache with
  | .ok _ => trino.browse.map TrinoCatalogTree.tables
  | .error e => .error ("Cache refresh failed: " ++ e)

/-- The entry says what the scan has found. -/
def Reports (trino : Trino) (entry : ConnectionEntry) : Prop :=
  match trino.scanned with
  | .ok tables => entry.syncStatus = "ready" ∧ entry.tables = tables
  | .error e => entry.syncStatus = "error" ∧ entry.syncError = some e

/-- The state in which a request leaves the connection when it spawns the foreground task. -/
structure Begun (id : String) (s : SyncState) : Prop where
  foreground : s.foreground = .starting
  scan : s.scan = .none
  syncing : ∃ entry, findEntry id s.connections = some entry ∧ entry.syncStatus = "syncing"

/-- The entry is not ready before the scan has finished, and once both tasks have it says what the scan
has found. -/
structure Honest (trino : Trino) (caller : Caller) (id : String) (s : SyncState) (turns : List Who) :
    Prop where
  notEarly : ∀ earlier later s' entry, turns = earlier ++ later →
    Run.run (syncStep trino caller id) s earlier = some s' → s'.scan ≠ .finished →
      findEntry id s'.connections = some entry → entry.syncStatus ≠ "ready"
  reports : ∀ s' entry, Run.run (syncStep trino caller id) s turns = some s' →
    findEntry id s'.connections = some entry → Reports trino entry

section Entries
variable {id : String} {f : ConnectionEntry → ConnectionEntry} {connections : List ConnectionEntry}
  {entry : ConnectionEntry}

theorem findEntry_update (hid : ∀ c, (f c).id = c.id) (h : findEntry id connections = some entry) :
    findEntry id (updateConnectionEntry id f connections) = some (f entry) := by
  unfold findEntry updateConnectionEntry at *
  induction connections with
  | nil => cases h
  | cons c rest ih =>
    by_cases hc : c.id = id
    · rw [List.find?_cons_of_pos (by simpa using hc)] at h
      obtain rfl := Option.some.inj h
      simp [List.replaceF, hc, hid]
    · rw [List.find?_cons_of_neg (by simpa using hc)] at h
      have hrest := ih h
      simpa [List.replaceF, hc] using hrest

end Entries

section Runs
variable {trino : Trino} {caller : Caller} {id : String} {s s' : SyncState} {turns : List Who}

/-- The tasks that have not started the scan. -/
def Foreground.before : Foreground → Prop
  | .spawned | .returned => False
  | _ => True

/-- What holds of the entry while the two tasks go on. -/
structure Tracked (id : String) (s : SyncState) : Prop where
  scan : s.foreground.before ↔ s.scan = .none
  entry : ∃ entry, findEntry id s.connections = some entry ∧
    (s.scan ≠ .finished → s.foreground ≠ .failed →
      entry.syncStatus = if s.foreground = .returned then "ready" else "syncing")

theorem Begun.tracked (h : Begun id s) : Tracked id s := by
  obtain ⟨hforeground, hscan, entry, hentry, hsyncing⟩ := h
  constructor
  · rw [hforeground, hscan]
    exact ⟨fun _ => rfl, fun _ => trivial⟩
  · refine ⟨entry, hentry, fun _ _ => ?_⟩
    rw [hforeground]
    exact hsyncing

/-- A step that writes the entry keeps track of it. -/
theorem Tracked.write {f : ConnectionEntry → ConnectionEntry} {foreground : Foreground} {scan : Scan}
    (h : Tracked id s) (hid : ∀ c, (f c).id = c.id) (hscan : foreground.before ↔ scan = .none)
    (hstatus : ∀ entry, (s.scan ≠ .finished → s.foreground ≠ .failed →
        entry.syncStatus = if s.foreground = .returned then "ready" else "syncing") →
      scan ≠ .finished → foreground ≠ .failed →
        (f entry).syncStatus = if foreground = .returned then "ready" else "syncing") :
    Tracked id ⟨updateConnectionEntry id f s.connections, foreground, scan⟩ := by
  obtain ⟨entry, hentry, hsyncing⟩ := h.entry
  exact ⟨hscan, f entry, findEntry_update hid hentry, hstatus entry hsyncing⟩

theorem Tracked.foregroundStep (h : Tracked id s) (hstep : foregroundStep trino caller id s = some s') :
    Tracked id s' := by
  have hscan := h.scan
  unfold Discovery.foregroundStep at hstep
  cases hforeground : s.foreground with
  | starting =>
    rw [hforeground] at hstep hscan
    have hnone : s.scan = .none := hscan.mp trivial
    dsimp only at hstep
    split at hstep
    · split at hstep
      · cases hstep
        refine h.write (fun _ => rfl) ⟨fun _ => hnone, fun _ => trivial⟩ fun entry hentry hscan _ => ?_
        rw [hforeground] at hentry
        exact hentry hscan Foreground.noConfusion
      · cases hstep
        obtain ⟨entry, hentry, hsyncing⟩ := h.entry
        refine ⟨⟨fun _ => hnone, fun _ => trivial⟩, entry, hentry, fun hscan _ => ?_⟩
        rw [hforeground] at hsyncing
        exact hsyncing hscan Foreground.noConfusion
    · cases hstep
      obtain ⟨entry, hentry, hsyncing⟩ := h.entry
      refine ⟨⟨fun _ => hnone, fun _ => trivial⟩, entry, hentry, fun hscan _ => ?_⟩
      rw [hforeground] at hsyncing
      exact hsyncing hscan Foreground.noConfusion
  | unreachable e =>
    rw [hforeground] at hstep hscan
    have hnone : s.scan = .none := hscan.mp trivial
    cases hstep
    exact h.write (fun _ => rfl) ⟨fun _ => hnone, fun _ => trivial⟩ fun _ _ _ hfailed =>
      absurd rfl hfailed
  | reached =>
    rw [hforeground] at hstep
    cases hstep
    obtain ⟨entry, hentry, hsyncing⟩ := h.entry
    rw [hforeground] at hscan hsyncing
    have hnone : s.scan = .none := hscan.mp trivial
    refine ⟨⟨fun hbefore => hbefore.elim, fun hspawned => by cases hspawned⟩, entry, hentry,
      fun _ _ => ?_⟩
    exact hsyncing (by rw [hnone]; exact Scan.noConfusion) Foreground.noConfusion
  | spawned =>
    rw [hforeground] at hstep hscan
    cases hstep
    refine h.write (fun _ => rfl) ⟨fun hbefore => hbefore.elim, fun hnone => ?_⟩ fun _ _ _ _ => rfl
    exact (hscan.mpr hnone).elim
  | returned =>
    rw [hforeground] at hstep
    cases hstep
  | failed =>
    rw [hforeground] at hstep
    cases hstep

theorem Tracked.scanStep (h : Tracked id s) (hstep : scanStep trino id s = some s') :
    Tracked id s' := by
  have hgoing (hne : s.scan ≠ .none) {scan : Scan} (hscan : scan ≠ .none) :
      s.foreground.before ↔ scan = .none :=
    ⟨fun hbefore => absurd (h.scan.mp hbefore) hne, fun hnone => absurd hnone hscan⟩
  unfold Discovery.scanStep at hstep
  cases hscan : s.scan with
  | none =>
    rw [hscan] at hstep
    cases hstep
  | spawned =>
    rw [hscan] at hstep
    cases hstep
    refine h.write (fun _ => rfl) (hgoing (by simp [hscan]) (by simp)) fun entry hentry _ hfailed => ?_
    exact hentry (by simp [hscan]) hfailed
  | discovering =>
    rw [hscan] at hstep
    dsimp only at hstep
    split at hstep
    · cases hstep
      refine h.write (fun _ => rfl) (hgoing (by simp [hscan]) (by simp)) fun entry hentry _ hfailed => ?_
      exact hentry (by simp [hscan]) hfailed
    · cases hstep
      exact h.write (fun _ => rfl) (hgoing (by simp [hscan]) (by simp)) fun _ _ hfinished =>
        absurd rfl hfinished
  | refreshed =>
    rw [hscan] at hstep
    cases hstep
    refine h.write (fun _ => rfl) (hgoing (by simp [hscan]) (by simp)) fun entry hentry _ hfailed => ?_
    exact hentry (by simp [hscan]) hfailed
  | registering =>
    rw [hscan] at hstep
    cases hstep
    refine h.write (fun _ => rfl) (hgoing (by simp [hscan]) (by simp)) fun entry hentry _ hfailed => ?_
    exact hentry (by simp [hscan]) hfailed
  | browsing =>
    rw [hscan] at hstep
    cases hstep
    exact h.write (fun _ => rfl) (hgoing (by simp [hscan]) (by simp)) fun _ _ hfinished =>
      absurd rfl hfinished
  | finished =>
    rw [hscan] at hstep
    cases hstep

theorem Tracked.step {who : Who} (h : Tracked id s) (hstep : syncStep trino caller id s who = some s') :
    Tracked id s' := by
  cases who with
  | foreground => exact h.foregroundStep hstep
  | scan => exact h.scanStep hstep

theorem Tracked.run (h : Tracked id s) (hrun : Run.run (syncStep trino caller id) s turns = some s') :
    Tracked id s' :=
  Run.invariant (fun _ _ _ htracked _ hstep => Tracked.step htracked hstep) h
    (Run.along_of_forall fun _ _ => trivial) hrun

theorem scanStep_eq (hstep : scanStep trino id s = some s') :
    s'.foreground = s.foreground ∧ s.scan ≠ .finished := by
  unfold scanStep at hstep
  cases hscan : s.scan with
  | discovering =>
    rw [hscan] at hstep
    dsimp only at hstep
    split at hstep
    · cases hstep
      exact ⟨rfl, Scan.noConfusion⟩
    · cases hstep
      exact ⟨rfl, Scan.noConfusion⟩
  | none | finished =>
    rw [hscan] at hstep
    cases hstep
  | spawned | refreshed | registering | browsing =>
    rw [hscan] at hstep
    cases hstep
    exact ⟨rfl, Scan.noConfusion⟩

/-- A foreground task that has ended stays so. -/
theorem ended_run (hended : s.foreground = .returned ∨ s.foreground = .failed)
    (hrun : Run.run (syncStep trino caller id) s turns = some s') : s'.foreground = s.foreground := by
  refine Run.invariant (I := fun s₁ : SyncState => s₁.foreground = s.foreground)
    (fun s₁ who s₂ hsame _ hstep => ?_) rfl (Run.along_of_forall fun _ _ => trivial) hrun
  cases who with
  | scan => rw [(scanStep_eq hstep).1, hsame]
  | foreground =>
    have hnone : foregroundStep trino caller id s₁ = none := by
      unfold foregroundStep
      rw [hsame]
      rcases hended with hreturned | hfailed
      · rw [hreturned]
      · rw [hfailed]
    have hsome : foregroundStep trino caller id s₁ = some s₂ := hstep
    rw [hnone] at hsome
    cases hsome

/-- The last step of the foreground task leaves an empty list. -/
theorem foregroundStep_returned (hstep : foregroundStep trino caller id s = some s')
    (hreturned : s'.foreground = .returned) : s.foreground = .spawned ∧ s'.scan = s.scan ∧
      s'.connections = updateConnectionEntry id (returnedTables caller []) s.connections := by
  unfold foregroundStep at hstep
  cases hforeground : s.foreground with
  | starting =>
    rw [hforeground] at hstep
    dsimp only at hstep
    split at hstep
    · split at hstep
      · cases hstep
        cases hreturned
      · cases hstep
        cases hreturned
    · cases hstep
      cases hreturned
  | spawned =>
    rw [hforeground] at hstep
    cases hstep
    exact ⟨rfl, rfl, rfl⟩
  | unreachable e | reached =>
    rw [hforeground] at hstep
    cases hstep
    cases hreturned
  | returned | failed =>
    rw [hforeground] at hstep
    cases hstep

/-- An empty list that is ready says what the scan has found when it has found nothing. -/
theorem reports_returnedTables (entry : ConnectionEntry) :
    Reports trino (returnedTables caller [] entry) ↔ trino.scanned = .ok [] := by
  unfold Reports
  cases hscanned : trino.scanned with
  | ok tables =>
    constructor
    · rintro ⟨-, htables⟩
      exact congrArg Except.ok htables.symm
    · intro hempty
      cases hempty
      exact ⟨rfl, rfl⟩
  | error e =>
    constructor
    · rintro ⟨hready, -⟩
      exact absurd hready (by simp [returnedTables])
    · intro hok
      cases hok

/-- When both tasks have finished, the entry was never ready early and says what the scan has found
exactly when the foreground task was the last to write and the scan has found no tables. -/
theorem honest_iff (hbegun : Begun id s) (hrun : Run.run (syncStep trino caller id) s turns = some s')
    (hreturned : s'.foreground = .returned) (hfinished : s'.scan = .finished) :
    Honest trino caller id s turns ↔
      turns.getLast? = some .foreground ∧ trino.scanned = .ok [] := by
  have hne : turns ≠ [] := by
    rintro rfl
    cases hrun
    rw [hbegun.foreground] at hreturned
    cases hreturned
  obtain ⟨init, who, rfl⟩ := List.eq_nil_or_concat' turns |>.resolve_left hne
  rw [Run.run_append] at hrun
  obtain ⟨s₁, hinit, hlast⟩ := Option.bind_eq_some_iff.mp hrun
  have hstep : syncStep trino caller id s₁ who = some s' := by
    rw [Run.run] at hlast
    split at hlast
    · rename_i next hnext
      cases hlast
      exact hnext
    · cases hlast
  have htracked := hbegun.tracked.run hinit
  obtain ⟨entry, hentry, hsyncing⟩ := htracked.entry
  rw [List.getLast?_concat, Option.some.injEq]
  cases who with
  | foreground =>
    obtain ⟨hspawned, hscan, hconnections⟩ := foregroundStep_returned hstep hreturned
    have hfinal : findEntry id s'.connections = some (returnedTables caller [] entry) := by
      rw [hconnections]
      exact findEntry_update (fun _ => rfl) hentry
    have hall : Run.run (syncStep trino caller id) s (init ++ [.foreground]) = some s' := by
      rw [Run.run_append, hinit]
      exact hlast
    constructor
    · intro h
      exact ⟨rfl, (reports_returnedTables entry).mp (h.reports s' _ hall hfinal)⟩
    · rintro ⟨-, hempty⟩
      constructor
      · intro earlier later s₂ entry₂ hsplit hearlier hgoing hentry₂
        obtain ⟨entry', hentry', hsyncing'⟩ := (hbegun.tracked.run hearlier).entry
        obtain rfl := Option.some.inj (hentry'.symm.trans hentry₂)
        rcases List.eq_nil_or_concat' later with rfl | ⟨middle, last, rfl⟩
        · rw [List.append_nil] at hsplit
          rw [← hsplit, hall] at hearlier
          cases hearlier
          exact absurd hfinished hgoing
        · rw [← List.append_assoc] at hsplit
          have hbefore : init = earlier ++ middle := (List.append_inj' hsplit rfl).1
          rw [hbefore, Run.run_append, hearlier] at hinit
          have hended : ¬ (s₂.foreground = .returned ∨ s₂.foreground = .failed) := by
            intro hended
            have hsame := ended_run hended hinit
            rw [hspawned] at hsame
            rw [← hsame] at hended
            rcases hended with hended | hended <;> cases hended
          obtain ⟨hnot, hfailed⟩ := not_or.mp hended
          rw [hsyncing' hgoing hfailed, if_neg hnot]
          decide
      · intro s₂ entry₂ hrun₂ hentry₂
        obtain rfl := Option.some.inj (hall.symm.trans hrun₂)
        obtain rfl := Option.some.inj (hfinal.symm.trans hentry₂)
        exact (reports_returnedTables entry).mpr hempty
  | scan =>
    obtain ⟨hsame, hgoing⟩ := scanStep_eq hstep
    rw [hreturned] at hsame
    rw [← hsame] at hsyncing
    have hready : entry.syncStatus = "ready" := hsyncing hgoing Foreground.noConfusion
    constructor
    · intro h
      exact absurd hready (h.notEarly init [.scan] s₁ entry rfl hinit hgoing hentry)
    · rintro ⟨hwho, -⟩
      cases hwho

end Runs

section Lake

/-- A connection that is being synced. -/
def lakeEntry : ConnectionEntry := ⟨"lake", "connected", [], "syncing", none, none⟩

def lakeState : SyncState := ⟨[lakeEntry], .starting, .none⟩

def lakeTrino (tables : List String) : Trino :=
  ⟨true, .ok (), .ok 1, .ok [⟨"iceberg", [⟨"sales", tables⟩]⟩]⟩

theorem begun_lake : Begun "lake" lakeState := ⟨rfl, rfl, lakeEntry, rfl, rfl⟩

/-- The foreground task starts the scan, waits for it and writes. -/
def foregroundLast : List Who :=
  [.foreground, .foreground, .scan, .scan, .scan, .scan, .scan, .foreground]

/-- The scan of an empty catalog before the foreground task ends. -/
theorem honest_iff_lake : Honest (lakeTrino []) .addConnection "lake" lakeState foregroundLast ↔
    foregroundLast.getLast? = some .foreground ∧ (lakeTrino []).scanned = .ok [] := by
  have hrun : ∃ s', Run.run (syncStep (lakeTrino []) .addConnection "lake") lakeState foregroundLast =
      some s' ∧ s'.foreground = .returned ∧ s'.scan = .finished := ⟨_, rfl, rfl, rfl⟩
  obtain ⟨s', hrun, hreturned, hfinished⟩ := hrun
  exact honest_iff begun_lake hrun hreturned hfinished

/-- A table that the scan has found is lost when the foreground task writes last, and the connection is
ready before the scan has finished when it writes first. -/
theorem not_honest_lake :
    ¬ Honest (lakeTrino ["orders"]) .addConnection "lake" lakeState foregroundLast ∧
    ¬ Honest (lakeTrino ["orders"]) .addConnection "lake" lakeState
      [.foreground, .foreground, .foreground, .scan, .scan, .scan, .scan, .scan] := by
  constructor
  · intro h
    obtain ⟨-, htables⟩ := h.reports _ _ rfl rfl
    cases htables
  · intro h
    exact h.notEarly [.foreground, .foreground, .foreground] _ _ _ rfl rfl Scan.noConfusion rfl rfl

end Lake

end RustLake.Discovery
