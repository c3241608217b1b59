import RustLake.Trino.Cache

/-! When a refresh of a connection's cache is all or nothing: an early return leaves its transaction
open. -/
namespace RustLake.Trino
open Persistence

section Property

def schemaKeys (discovery : Discovery) : List (String × String) :=
  discovery.flatMap fun (catalog, schemas) => schemas.map fun (schema, _) => (catalog, schema)

def tableKeys (discovery : Discovery) : List (String × String × String) :=
  discovery.flatMap fun (catalog, schemas) => schemas.flatMap fun (schema, tables) =>
    tables.map fun table => (catalog, schema, table)

/-- The schemas of a tree in its order, with their catalogs. -/
def entriesOf (catalogs : List TrinoCatalogEntry) : List (String × TrinoSchemaEntry) :=
  catalogs.flatMap fun c => c.schemas.map fun s => (c.name, s)

def TrinoCatalogTree.schemas (tree : TrinoCatalogTree) : List (String × String) :=
  (entriesOf tree.catalogs).map fun e => (e.1, e.2.name)

def TrinoCatalogTree.tables (tree : TrinoCatalogTree) : List (String × String × String) :=
  (entriesOf tree.catalogs).flatMap fun e => e.2.tables.map fun table => (e.1, e.2.name, table)

/-- A tree has the schemas and the tables of a list, each of them once. There is none where the list
has no schema. -/
def Shows (discovery : Discovery) : Option TrinoCatalogTree → Prop
  | none => schemaKeys discovery = []
  | some tree => tree.schemas.Perm (schemaKeys discovery) ∧ tree.tables.Perm (tableKeys discovery) ∧
    tree.totalTables = (tableKeys discovery).length

/-- What is done with a cache after a refresh. -/
inductive Call where
  | refresh (connId : String) (discovery : Discovery) (faults : CacheFaults)
  | setColumns (connId catalog schema table : String) (columns : List TrinoColumnInfo)
      (faults : CacheFaults)

def Call.session (engine : Engine) : Call → Session (Connection CacheDb) Unit
  | .refresh connId discovery faults => batchCacheDiscovery engine faults connId discovery
  | .setColumns connId catalog schema table columns faults =>
    Trino.setColumns engine faults connId catalog schema table columns

/-- How calls end, and what can be read after each of them. -/
def outcomes (engine : Engine) : Connection CacheDb → List Call →
    List (Except String Unit × Except String CacheDb)
  | _, [] => []
  | conn, call :: rest =>
    let (result, conn') := run (call.session engine) conn
    (result, conn'.view engine) :: outcomes engine conn' rest

/-- A refresh shows its list, or it shows what was there before and later calls do not notice it. -/
structure AllOrNothing (engine : Engine) (conn : Connection CacheDb) (connId : String)
    (discovery : Discovery) (faults : CacheFaults) : Prop where
  all : (run (batchCacheDiscovery engine faults connId discovery) conn).1 = .ok () →
    Shows discovery (getCatalogTree engine
      (run (batchCacheDiscovery engine faults connId discovery) conn).2 connId)
  nothing : ∀ e, (run (batchCacheDiscovery engine faults connId discovery) conn).1 = .error e →
    (∀ id, getCatalogTree engine (run (batchCacheDiscovery engine faults connId discovery) conn).2 id =
      getCatalogTree engine conn id) ∧
    ∀ calls, outcomes engine (run (batchCacheDiscovery engine faults connId discovery) conn).2 calls =
      outcomes engine conn calls

/-- The transaction does not begin, or nothing in it fails: no statement by itself, and no row has the
key of an earlier one. A COMMIT may fail where that ends the transaction. -/
def Refreshable (engine : Engine) (discovery : Discovery) (faults : CacheFaults) : Prop :=
  faults.begins ≠ none ∨
    (faults.deletes = none ∧ faults.deletesTables = none ∧ faults.prepares = none ∧
      faults.preparesTables = none) ∧
    (∀ n < (cacheRows discovery).length, faults.inserts n = none) ∧
    (schemaKeys discovery).Nodup ∧ (tableKeys discovery).Nodup ∧
    (faults.commits = none ∨ engine.rollsBack = true)

end Property

section Rows
variable {connId duplicateKey : String} {db : CacheDb} {discovery : Discovery}

def CacheRow.schemaKey : CacheRow → Option (String × String)
  | .schema c s => some (c, s)
  | .table .. => none

def CacheRow.tableKey : CacheRow → Option (String × String × String)
  | .schema .. => none
  | .table c s t => some (c, s, t)

theorem schemaKeys_eq : (cacheRows discovery).filterMap CacheRow.schemaKey = schemaKeys discovery := by
  have htables : ∀ (catalog schema : String) (tables : List String),
      (tables.map (CacheRow.table catalog schema)).filterMap CacheRow.schemaKey = [] := by
    intro catalog schema tables
    rw [List.filterMap_map]
    exact List.filterMap_eq_nil_iff.mpr fun _ _ => rfl
  have hschemas : ∀ (catalog : String) (schemas : List (String × List String)),
      (schemas.flatMap fun s => CacheRow.schema catalog s.1 :: s.2.map (CacheRow.table catalog s.1)).filterMap
        CacheRow.schemaKey = schemas.map fun s => (catalog, s.1) := by
    intro catalog schemas
    induction schemas with
    | nil => rfl
    | cons s rest ih =>
      rw [List.flatMap_cons, List.filterMap_append, ih, List.map_cons]
      change (catalog, s.1) :: List.filterMap CacheRow.schemaKey _ ++ _ = _
      rw [htables]
      rfl
  unfold cacheRows schemaKeys
  rw [List.filterMap_flatMap]
  exact List.flatMap_congr fun c _ => hschemas c.1 c.2

theorem tableKeys_eq : (cacheRows discovery).filterMap CacheRow.tableKey = tableKeys discovery := by
  have hschemas : ∀ (catalog : String) (schemas : List (String × List String)),
      (schemas.flatMap fun s => CacheRow.schema catalog s.1 :: s.2.map (CacheRow.table catalog s.1)).filterMap
        CacheRow.tableKey = schemas.flatMap fun s => s.2.map fun table => (catalog, s.1, table) := by
    intro catalog schemas
    rw [List.filterMap_flatMap]
    refine List.flatMap_congr fun s _ => ?_
    change List.filterMap CacheRow.tableKey (s.2.map _) = _
    rw [List.filterMap_map]
    exact congrFun List.filterMap_eq_map s.2
  unfold cacheRows tableKeys
  rw [List.filterMap_flatMap]
  exact List.flatMap_congr fun c _ => hschemas c.1 c.2

/-- Every table stands behind its schema. -/
theorem schemaKey_of_tableKey {t : String × String × String} (ht : t ∈ tableKeys discovery) :
    (t.1, t.2.1) ∈ schemaKeys discovery := by
  unfold tableKeys at ht
  obtain ⟨⟨catalog, schemas⟩, hcatalog, ht⟩ := List.mem_flatMap.mp ht
  obtain ⟨⟨schema, tables⟩, hschema, ht⟩ := List.mem_flatMap.mp ht
  obtain ⟨table, -, rfl⟩ := List.mem_map.mp ht
  exact List.mem_flatMap.mpr ⟨(catalog, schemas), hcatalog,
    List.mem_map.mpr ⟨(schema, tables), hschema, rfl⟩⟩

theorem mem_filterMap_iff {α β : Type} {f : α → Option β} {a : α} {b : β} {l : List α}
    (hab : f a = some b) (hunique : ∀ a', f a' = some b → a' = a) : b ∈ l.filterMap f ↔ a ∈ l := by
  rw [List.mem_filterMap]
  constructor
  · rintro ⟨a', ha', heq⟩
    exact hunique a' heq ▸ ha'
  · exact fun ha => ⟨a, ha, hab⟩

theorem CacheRow.eq_of_schemaKey {c s : String} {row : CacheRow} (h : row.schemaKey = some (c, s)) :
    row = .schema c s := by
  cases row with
  | schema c' s' =>
    obtain ⟨rfl, rfl⟩ := Prod.mk.inj (Option.some.inj h)
    rfl
  | table c' s' t' => cases h

theorem CacheRow.eq_of_tableKey {c s t : String} {row : CacheRow}
    (h : row.tableKey = some (c, s, t)) : row = .table c s t := by
  cases row with
  | schema c' s' => cases h
  | table c' s' t' =>
    obtain ⟨rfl, hkey⟩ := Prod.mk.inj (Option.some.inj h)
    obtain ⟨rfl, rfl⟩ := Prod.mk.inj hkey
    rfl

theorem nodup_cacheRows : (cacheRows discovery).Nodup ↔
    (schemaKeys discovery).Nodup ∧ (tableKeys discovery).Nodup := by
  rw [← schemaKeys_eq, ← tableKeys_eq]
  induction cacheRows discovery with
  | nil => simp
  | cons row rest ih =>
    cases row with
    | schema c s =>
      have hmem : (c, s) ∈ rest.filterMap CacheRow.schemaKey ↔ CacheRow.schema c s ∈ rest :=
        mem_filterMap_iff rfl fun _ => CacheRow.eq_of_schemaKey
      change (CacheRow.schema c s :: rest).Nodup ↔
        ((c, s) :: rest.filterMap CacheRow.schemaKey).Nodup ∧ _
      rw [List.nodup_cons, List.nodup_cons, ih, hmem, and_assoc]
      rfl
    | table c s t =>
      have hmem : (c, s, t) ∈ rest.filterMap CacheRow.tableKey ↔ CacheRow.table c s t ∈ rest :=
        mem_filterMap_iff rfl fun _ => CacheRow.eq_of_tableKey
      change (CacheRow.table c s t :: rest).Nodup ↔
        _ ∧ ((c, s, t) :: rest.filterMap CacheRow.tableKey).Nodup
      rw [List.nodup_cons, List.nodup_cons, ih, hmem, and_left_comm]
      rfl

end Rows

section Inserts
variable {connId : String} {db : CacheDb} {faults : CacheFaults} {discovery : Discovery}

/-- The primary key of a row is taken. -/
def CacheRow.Taken (connId : String) (db : CacheDb) : CacheRow → Prop
  | .schema c s => (c, s) ∈ db.schemasOf connId
  | .table c s t => (c, s, t) ∈ db.tablesOf connId

theorem schemasOf_append (rows : List SchemaRow) : { db with schemas := db.schemas ++ rows }.schemasOf connId =
    db.schemasOf connId ++ { db with schemas := rows }.schemasOf connId := by
  unfold CacheDb.schemasOf
  rw [List.filter_append, List.map_append]

theorem tablesOf_append (rows : List TableRow) : { db with tables := db.tables ++ rows }.tablesOf connId =
    db.tablesOf connId ++ { db with tables := rows }.tablesOf connId := by
  unfold CacheDb.tablesOf
  rw [List.filter_append, List.map_append]

theorem insertRow_of_taken {row : CacheRow} (duplicateKey : String) (h : row.Taken connId db) :
    insertRow duplicateKey connId row db = .error duplicateKey := by
  cases row with
  | schema c s => exact if_pos h
  | table c s t => exact if_pos h

theorem insertRow_of_not_taken {row : CacheRow} (duplicateKey : String)
    (h : ¬ row.Taken connId db) : ∃ db', insertRow duplicateKey connId row db = .ok db' ∧
      db'.schemasOf connId = db.schemasOf connId ++ row.schemaKey.toList ∧
      db'.tablesOf connId = db.tablesOf connId ++ row.tableKey.toList := by
  cases row with
  | schema c s =>
    refine ⟨_, if_neg h, ?_, (List.append_nil _).symm⟩
    rw [schemasOf_append]
    simp [CacheDb.schemasOf, CacheRow.schemaKey]
  | table c s t =>
    refine ⟨_, if_neg h, (List.append_nil _).symm, ?_⟩
    rw [tablesOf_append]
    simp [CacheDb.tablesOf, CacheRow.tableKey]

theorem taken_iff {row other : CacheRow} {db' : CacheDb}
    (hschemas : db'.schemasOf connId = db.schemasOf connId ++ row.schemaKey.toList)
    (htables : db'.tablesOf connId = db.tablesOf connId ++ row.tableKey.toList) :
    other.Taken connId db' ↔ other.Taken connId db ∨ other = row := by
  cases other with
  | schema c s =>
    change (c, s) ∈ db'.schemasOf connId ↔ (c, s) ∈ db.schemasOf connId ∨ _
    rw [hschemas, List.mem_append]
    cases row <;> simp [CacheRow.schemaKey]
  | table c s t =>
    change (c, s, t) ∈ db'.tablesOf connId ↔ (c, s, t) ∈ db.tablesOf connId ∨ _
    rw [htables, List.mem_append]
    cases row <;> simp [CacheRow.tableKey]

/-- All rows are inserted exactly when none fails by itself or by its key. -/
theorem allPass_insertStatements (n : ℕ) (rows : List CacheRow) (db : CacheDb) :
    AllPass (insertStatements faults connId n rows) db ↔
      (∀ m < rows.length, faults.inserts (n + m) = none) ∧ rows.Nodup ∧
        ∀ row ∈ rows, ¬ row.Taken connId db := by
  induction rows generalizing n db with
  | nil => simp [insertStatements, AllPass]
  | cons row rest ih =>
    have hfaults : (∀ m < (row :: rest).length, faults.inserts (n + m) = none) ↔
        faults.inserts n = none ∧ ∀ m < rest.length, faults.inserts (n + 1 + m) = none := by
      constructor
      · intro h
        refine ⟨h 0 (Nat.zero_lt_succ _), fun m hm => ?_⟩
        rw [Nat.add_assoc, Nat.add_comm 1]
        exact h (m + 1) (Nat.succ_lt_succ hm)
      · rintro ⟨hfirst, hrest⟩ (_ | m) hm
        · exact hfirst
        · rw [Nat.add_comm m, ← Nat.add_assoc]
          exact hrest m (Nat.lt_of_succ_lt_succ hm)
    rw [insertStatements, AllPass, hfaults]
    cases hfault : faults.inserts n with
    | some e =>
      refine iff_of_false ?_ (fun h => by cases h.1.1)
      rintro ⟨db', heq, -⟩
      cases heq
    | none =>
      by_cases htaken : row.Taken connId db
      · refine iff_of_false ?_ fun h => h.2.2 row List.mem_cons_self htaken
        rintro ⟨db', heq, -⟩
        have herror := insertRow_of_taken faults.duplicateKey htaken
        cases herror.symm.trans heq
      · obtain ⟨db', hok, hschemas, htables⟩ := insertRow_of_not_taken faults.duplicateKey htaken
        have hpass : (∃ db'', guarded none (insertRow faults.duplicateKey connId row) db = .ok db'' ∧
            AllPass (insertStatements faults connId (n + 1) rest) db'') ↔
            AllPass (insertStatements faults connId (n + 1) rest) db' := by
          constructor
          · rintro ⟨db'', heq, h⟩
            obtain rfl := Except.ok.inj (hok.symm.trans heq)
            exact h
          · exact fun h => ⟨db', hok, h⟩
        rw [hpass, ih, List.nodup_cons]
        simp only [taken_iff hschemas htables, List.forall_mem_cons, not_or, true_and]
        constructor
        · rintro ⟨hinserts, hnodup, hrest⟩
          exact ⟨hinserts, ⟨fun hmem => (hrest row hmem).2 rfl, hnodup⟩, htaken,
            fun other hother => (hrest other hother).1⟩
        · rintro ⟨hinserts, ⟨hnew, hnodup⟩, -, hrest⟩
          exact ⟨hinserts, hnodup, fun other hother =>
            ⟨hrest other hother, fun heq => hnew (heq ▸ hother)⟩⟩

theorem afterAll_insertStatements (n : ℕ) (rows : List CacheRow) (db : CacheDb)
    (h : AllPass (insertStatements faults connId n rows) db) :
    (afterAll (insertStatements faults connId n rows) db).schemasOf connId =
        db.schemasOf connId ++ rows.filterMap CacheRow.schemaKey ∧
      (afterAll (insertStatements faults connId n rows) db).tablesOf connId =
        db.tablesOf connId ++ rows.filterMap CacheRow.tableKey := by
  induction rows generalizing n db with
  | nil => simp [insertStatements, afterAll]
  | cons row rest ih =>
    have hfirst := (allPass_insertStatements n (row :: rest) db).mp h
    obtain ⟨db', hok, hschemas, htables⟩ :=
      insertRow_of_not_taken faults.duplicateKey (hfirst.2.2 row List.mem_cons_self)
    have hstmt : guarded (faults.inserts n) (insertRow faults.duplicateKey connId row) db = .ok db' := by
      have hnone : faults.inserts n = none := hfirst.1 0 (Nat.zero_lt_succ _)
      rw [hnone]
      exact hok
    obtain ⟨db'', heq, hpass⟩ := h
    obtain rfl := Except.ok.inj (hstmt.symm.trans heq)
    obtain ⟨hrest, hrest'⟩ := ih (n + 1) db' hpass
    rw [insertStatements, afterAll, hstmt]
    dsimp only
    rw [hrest, hrest', hschemas, htables, List.append_assoc, List.append_assoc]
    cases row <;> exact ⟨rfl, rfl⟩

theorem none_of_guarded {error : Option String} {stmt : Statement CacheDb} {db' : CacheDb}
    (h : guarded error stmt db = .ok db') : error = none := by
  cases error with
  | none => rfl
  | some e => cases h

/-- What the deletions of a refresh leave. -/
def CacheDb.cleared (db : CacheDb) (connId : String) : CacheDb :=
  { db with
    schemas := db.schemas.filter fun row => row.connId ≠ connId
    tables := db.tables.filter fun row => row.connId ≠ connId }

theorem schemasOf_cleared : (db.cleared connId).schemasOf connId = [] := by
  simp [CacheDb.schemasOf, CacheDb.cleared]

theorem tablesOf_cleared : (db.cleared connId).tablesOf connId = [] := by
  simp [CacheDb.tablesOf, CacheDb.cleared]

variable (connId db discovery) in
theorem refreshStatements_pass (hdeletes : faults.deletes = none)
    (hdeletes' : faults.deletesTables = none) (hprepares : faults.prepares = none)
    (hprepares' : faults.preparesTables = none) :
    (AllPass (refreshStatements faults connId discovery) db ↔
      AllPass (insertStatements faults connId 0 (cacheRows discovery)) (db.cleared connId)) ∧
    afterAll (refreshStatements faults connId discovery) db =
      afterAll (insertStatements faults connId 0 (cacheRows discovery)) (db.cleared connId) := by
  unfold refreshStatements
  rw [hdeletes, hdeletes', hprepares, hprepares']
  refine ⟨?_, rfl⟩
  simp [AllPass, guarded, deleteSchemas, deleteTables, CacheDb.cleared]

/-- The statements of a refresh all pass exactly when none fails by itself and no key is repeated. -/
theorem allPass_refreshStatements : AllPass (refreshStatements faults connId discovery) db ↔
    (faults.deletes = none ∧ faults.deletesTables = none ∧ faults.prepares = none ∧
      faults.preparesTables = none) ∧
    (∀ n < (cacheRows discovery).length, faults.inserts n = none) ∧
    (schemaKeys discovery).Nodup ∧ (tableKeys discovery).Nodup := by
  constructor
  · intro h
    have hnone : faults.deletes = none ∧ faults.deletesTables = none ∧ faults.prepares = none ∧
        faults.preparesTables = none := by
      obtain ⟨db₁, h₁, db₂, h₂, db₃, h₃, db₄, h₄, -⟩ := h
      refine ⟨?_, ?_, ?_, ?_⟩
      · exact none_of_guarded h₁
      · exact none_of_guarded h₂
      · exact none_of_guarded h₃
      · exact none_of_guarded h₄
    obtain ⟨hdeletes, hdeletes', hprepares, hprepares'⟩ := hnone
    have hinserts := (refreshStatements_pass connId db discovery hdeletes hdeletes' hprepares hprepares').1.mp h
    rw [allPass_insertStatements, nodup_cacheRows] at hinserts
    obtain ⟨hfaults, hnodup, -⟩ := hinserts
    simp only [Nat.zero_add] at hfaults
    exact ⟨⟨hdeletes, hdeletes', hprepares, hprepares'⟩, hfaults, hnodup⟩
  · rintro ⟨⟨hdeletes, hdeletes', hprepares, hprepares'⟩, hfaults, hnodup⟩
    rw [(refreshStatements_pass connId db discovery hdeletes hdeletes' hprepares hprepares').1, allPass_insertStatements,
      nodup_cacheRows]
    refine ⟨by simpa only [Nat.zero_add] using hfaults, hnodup, fun row _ => ?_⟩
    cases row with
    | schema c s =>
      change (c, s) ∉ (db.cleared connId).schemasOf connId
      rw [schemasOf_cleared]
      exact List.not_mem_nil
    | table c s t =>
      change (c, s, t) ∉ (db.cleared connId).tablesOf connId
      rw [tablesOf_cleared]
      exact List.not_mem_nil

theorem afterAll_refreshStatements (h : AllPass (refreshStatements faults connId discovery) db) :
    (afterAll (refreshStatements faults connId discovery) db).schemasOf connId =
        schemaKeys discovery ∧
      (afterAll (refreshStatements faults connId discovery) db).tablesOf connId =
        tableKeys discovery := by
  obtain ⟨⟨hdeletes, hdeletes', hprepares, hprepares'⟩, -⟩ := allPass_refreshStatements.mp h
  obtain ⟨hpass, hafter⟩ := refreshStatements_pass connId db discovery hdeletes hdeletes'
    hprepares hprepares'
  obtain ⟨hschemas, htables⟩ := afterAll_insertStatements 0 (cacheRows discovery) _ (hpass.mp h)
  rw [hafter, hschemas, htables, schemasOf_cleared, tablesOf_cleared, schemaKeys_eq, tableKeys_eq]
  exact ⟨List.nil_append _, List.nil_append _⟩

end Inserts

section Tree
variable {tableRows : List (String × String × String)} {connId : String} {db : CacheDb}
  {discovery : Discovery}

/-- No schemas are gathered before there is a catalog. -/
def TreeBuilder.Sound (b : TreeBuilder) : Prop := b.currentCatalog = none → b.currentSchemas = []

/-- The schema that a row of a schema becomes. -/
def entryFor (tableRows : List (String × String × String)) (row : String × String) :
    String × TrinoSchemaEntry :=
  (row.1, ⟨row.2, (tableRows.filter fun t => t.1 = row.1 ∧ t.2.1 = row.2).map fun t => t.2.2⟩)

theorem entriesOf_concat (catalogs : List TrinoCatalogEntry) (c : TrinoCatalogEntry) :
    entriesOf (catalogs ++ [c]) = entriesOf catalogs ++ c.schemas.map fun s => (c.name, s) := by
  unfold entriesOf
  rw [List.flatMap_append, List.flatMap_singleton]

variable (tableRows) in
theorem TreeBuilder.Sound.add {b : TreeBuilder} (h : b.Sound) (row : String × String) :
    (b.add tableRows row).Sound ∧ entriesOf (b.add tableRows row).finish =
      entriesOf b.finish ++ [entryFor tableRows row] := by
  obtain ⟨catalogs, currentCatalog, currentSchemas⟩ := b
  unfold TreeBuilder.add
  by_cases hsame : currentCatalog = some row.1
  · subst hsame
    rw [if_pos rfl]
    refine ⟨fun hnone => (by cases hnone), ?_⟩
    simp only [TreeBuilder.finish, entriesOf_concat, List.map_append, List.append_assoc]
    rfl
  · rw [if_neg hsame]
    refine ⟨fun hnone => (by cases hnone), ?_⟩
    cases currentCatalog with
    | none =>
      have hnil : currentSchemas = [] := h rfl
      simp only [TreeBuilder.finish, entriesOf_concat, hnil, List.map_append]
      rfl
    | some cat =>
      simp only [TreeBuilder.finish, entriesOf_concat, List.map_append]
      rfl

variable (tableRows) in
theorem TreeBuilder.Sound.foldl (rows : List (String × String)) {b : TreeBuilder} (h : b.Sound) :
    entriesOf (rows.foldl (TreeBuilder.add tableRows) b).finish =
      entriesOf b.finish ++ rows.map (entryFor tableRows) := by
  induction rows generalizing b with
  | nil => simp
  | cons row rest ih =>
    obtain ⟨hsound, hentries⟩ := h.add tableRows row
    rw [List.foldl_cons, ih hsound, hentries, List.append_assoc]
    rfl

/-- Elements put together by their keys. -/
theorem flatMap_filter_perm {α K : Type} [DecidableEq K] (key : α → K) {keys : List K} {l : List α}
    (hkeys : keys.Nodup) (h : ∀ a ∈ l, key a ∈ keys) :
    (keys.flatMap fun k => l.filter fun a => key a = k).Perm l := by
  induction keys generalizing l with
  | nil =>
    have hnil : l = [] := List.eq_nil_iff_forall_not_mem.mpr fun a ha => List.not_mem_nil (h a ha)
    rw [hnil, List.flatMap_nil]
  | cons k keys ih =>
    obtain ⟨hnew, hkeys⟩ := List.nodup_cons.mp hkeys
    let others := l.filter fun a => !decide (key a = k)
    have hothers : (keys.flatMap fun k' => others.filter fun a => key a = k').Perm others := by
      refine ih hkeys fun a ha => ?_
      obtain ⟨ha, hne⟩ := List.mem_filter.mp ha
      exact (List.mem_cons.mp (h a ha)).resolve_left (by simpa using hne)
    have hsame : (keys.flatMap fun k' => others.filter fun a => key a = k') =
        keys.flatMap fun k' => l.filter fun a => key a = k' := by
      refine List.flatMap_congr fun k' hk' => ?_
      rw [List.filter_filter]
      refine List.filter_congr fun a _ => ?_
      by_cases heq : key a = k'
      · have hne : key a ≠ k := fun hk => hnew (hk ▸ heq ▸ hk')
        simp [heq, heq ▸ hne]
      · simp [heq]
    rw [List.flatMap_cons, ← hsame]
    exact (hothers.append_left _).trans (List.filter_append_perm _ l)

/-- The tree shows a discovery whose rows are cached. -/
theorem shows_tree (hschemas : db.schemasOf connId = schemaKeys discovery)
    (htables : db.tablesOf connId = tableKeys discovery) (hnodup : (schemaKeys discovery).Nodup) :
    Shows discovery (db.tree connId) := by
  have hperm : ((db.schemasOf connId).dedup.insertionSort pairLe).Perm (schemaKeys discovery) := by
    rw [hschemas, hnodup.dedup]
    exact List.perm_insertionSort _ _
  have hperm' : ((db.tablesOf connId).insertionSort rowLe).Perm (tableKeys discovery) := by
    rw [htables]
    exact List.perm_insertionSort _ _
  unfold CacheDb.tree
  generalize (db.schemasOf connId).dedup.insertionSort pairLe = schemaRows at hperm
  generalize (db.tablesOf connId).insertionSort rowLe = tableRows at hperm'
  by_cases hnil : schemaRows = []
  · rw [if_pos hnil]
    rw [hnil] at hperm
    exact hperm.nil_eq.symm
  · rw [if_neg hnil]
    have hentries := TreeBuilder.Sound.foldl tableRows schemaRows
      (b := ⟨[], none, []⟩) fun _ => rfl
    refine ⟨?_, ?_, hperm'.length_eq⟩
    · unfold TrinoCatalogTree.schemas
      rw [hentries, List.map_append, List.map_map]
      exact (List.map_id' schemaRows).symm ▸ hperm
    · have htables' : (schemaRows.map (entryFor tableRows)).flatMap
          (fun e => e.2.tables.map fun table => (e.1, e.2.name, table)) =
            schemaRows.flatMap fun row => tableRows.filter fun t => (t.1, t.2.1) = row := by
        rw [List.flatMap_map]
        refine List.flatMap_congr fun row _ => ?_
        have hkeep : (tableRows.filter fun t => t.1 = row.1 ∧ t.2.1 = row.2) =
            tableRows.filter fun t => (t.1, t.2.1) = row :=
          List.filter_congr fun t _ => by simp [Prod.ext_iff]
        unfold entryFor
        rw [List.map_map, hkeep]
        refine (List.map_congr_left fun t ht => ?_).trans (List.map_id _)
        have hkey : (t.1, t.2.1) = row := by simpa using (List.mem_filter.mp ht).2
        rw [← hkey]
        rfl
      unfold TrinoCatalogTree.tables
      rw [hentries]
      change (([] ++ schemaRows.map (entryFor tableRows)).flatMap _).Perm _
      rw [List.nil_append, htables']
      refine (flatMap_filter_perm _ (hperm.nodup_iff.mpr hnodup) fun t ht => ?_).trans hperm'
      exact hperm.mem_iff.mpr (schemaKey_of_tableKey (hperm'.mem_iff.mp ht))

end Tree

section Refreshes
variable {engine : Engine} {faults : CacheFaults} {connId : String} {discovery : Discovery}
  {db : CacheDb}

/-- A refresh that the engine lets be. -/
def noFaults : CacheFaults where
  begins := none
  deletes := none
  deletesTables := none
  prepares := none
  preparesTables := none
  inserts _ := none
  commits := none
  duplicateKey := ""

theorem allOrNothing_of_unchanged {conn : Connection CacheDb} {e : String}
    (hrun : run (batchCacheDiscovery engine faults connId discovery) conn = (.error e, conn)) :
    AllOrNothing engine conn connId discovery faults where
  all hok := by
    rw [hrun] at hok
    cases hok
  nothing _ _ := by
    rw [hrun]
    exact ⟨fun _ => rfl, fun _ => rfl⟩

/-- A refreshable refresh leaves no transaction open. -/
theorem Refreshable.allOrNothing (h : Refreshable engine discovery faults) :
    AllOrNothing engine (.closed db) connId discovery faults ∧
      ∃ db', (run (batchCacheDiscovery engine faults connId discovery) (.closed db)).2 =
        .closed db' := by
  rcases run_transaction engine faults.begins faults.commits
      (refreshStatements faults connId discovery) db with
    ⟨e, -, hrun⟩ | ⟨-, hpass, -, hrun⟩ | ⟨e, -, -, -, -, hrun⟩ | ⟨hbegins, hopen, -⟩
  · exact ⟨allOrNothing_of_unchanged hrun, db, congrArg Prod.snd hrun⟩
  · obtain ⟨hschemas, htables⟩ := afterAll_refreshStatements hpass
    have hnodup := (allPass_refreshStatements.mp hpass).2.2.1
    refine ⟨⟨fun _ => ?_, fun e he => ?_⟩, _, congrArg Prod.snd hrun⟩
    · rw [batchCacheDiscovery, hrun]
      exact shows_tree hschemas htables hnodup
    · rw [batchCacheDiscovery, hrun] at he
      cases he
  · exact ⟨allOrNothing_of_unchanged hrun, db, congrArg Prod.snd hrun⟩
  · exfalso
    obtain ⟨hnone, hinserts, hschemas, htables, hcommits⟩ := h.resolve_left (not_not.mpr hbegins)
    obtain ⟨hsome, hkeeps⟩ :=
      hopen (allPass_refreshStatements.mpr ⟨hnone, hinserts, hschemas, htables⟩)
    rcases hcommits with hcommits | hrolls
    · exact hsome hcommits
    · rw [hrolls] at hkeeps
      cases hkeeps

/-- A later refresh tells whether a transaction has been left open. -/
theorem outcomes_noFaults_ne (t : Transaction CacheDb) :
    outcomes engine ⟨db, some t⟩ [.refresh connId [] noFaults] ≠
      outcomes engine (.closed db) [.refresh connId [] noFaults] := by
  have hpass : AllPass (refreshStatements noFaults connId []) db :=
    allPass_refreshStatements.mpr ⟨⟨rfl, rfl, rfl, rfl⟩, fun _ _ => rfl, List.nodup_nil, List.nodup_nil⟩
  have hok : (run (batchCacheDiscovery engine noFaults connId []) (.closed db)).1 = .ok () := by
    rcases run_transaction engine none none (refreshStatements noFaults connId []) db with
      ⟨e, hnone, -⟩ | ⟨-, -, -, hrun⟩ | ⟨e, -, -, hnone, -⟩ | ⟨-, hopen, -⟩
    · cases hnone
    · exact congrArg Prod.fst hrun
    · cases hnone
    · exact absurd rfl (hopen hpass).1
  intro heq
  have hresult := congrArg Prod.fst (List.cons.inj heq).1
  change Except.error engine.alreadyOpen =
    (run (batchCacheDiscovery engine noFaults connId []) (.closed db)).1 at hresult
  rw [hok] at hresult
  cases hresult

theorem AllOrNothing.refreshable (h : AllOrNothing engine (.closed db) connId discovery faults) :
    Refreshable engine discovery faults := by
  rcases run_transaction engine faults.begins faults.commits
      (refreshStatements faults connId discovery) db with
    ⟨e, hbegins, -⟩ | ⟨-, hpass, hcommits, -⟩ | ⟨e, -, hpass, -, hrolls, -⟩ | ⟨-, -, e, t, hrun⟩
  · exact Or.inl (by simp [hbegins])
  · obtain ⟨hnone, hinserts, hschemas, htables⟩ := allPass_refreshStatements.mp hpass
    exact Or.inr ⟨hnone, hinserts, hschemas, htables, Or.inl hcommits⟩
  · obtain ⟨hnone, hinserts, hschemas, htables⟩ := allPass_refreshStatements.mp hpass
    exact Or.inr ⟨hnone, hinserts, hschemas, htables, Or.inr hrolls⟩
  · exfalso
    have hcalls := (h.nothing e (congrArg Prod.fst hrun)).2 [.refresh connId [] noFaults]
    rw [batchCacheDiscovery, hrun] at hcalls
    exact outcomes_noFaults_ne t hcalls

/-- A refresh on any content of the cache is all or nothing exactly where it is refreshable. -/
theorem allOrNothing_iff (engine : Engine) (db : CacheDb) (connId : String) (discovery : Discovery)
    (faults : CacheFaults) :
    AllOrNothing engine (.closed db) connId discovery faults ↔
      Refreshable engine discovery faults :=
  ⟨AllOrNothing.refreshable, fun h => h.allOrNothing.1⟩

end Refreshes

section Runs
variable {engine : Engine}

/-- The connection after calls. -/
def after (engine : Engine) (conn : Connection CacheDb) (calls : List Call) : Connection CacheDb :=
  calls.foldl (fun conn call => (run (call.session engine) conn).2) conn

def Call.Suits (engine : Engine) : Call → Prop
  | .refresh _ discovery faults => Refreshable engine discovery faults
  | .setColumns .. => True

theorem Call.Suits.closed {call : Call} (h : call.Suits engine) (db : CacheDb) :
    ∃ db', (run (call.session engine) (.closed db)).2 = .closed db' := by
  cases call with
  | refresh connId discovery faults => exact Refreshable.allOrNothing h |>.2
  | setColumns connId catalog schema table columns faults =>
    exact run_executeAllIn_closed _ db

/-- Refreshes that are all refreshable leave every later one its choice. -/
theorem allOrNothing_in_run {calls : List Call} (h : ∀ call ∈ calls, call.Suits engine)
    (db : CacheDb) (connId : String) (discovery : Discovery) (faults : CacheFaults) :
    AllOrNothing engine (after engine (.closed db) calls) connId discovery faults ↔
      Refreshable engine discovery faults := by
  have hclosed : ∃ db', after engine (.closed db) calls = .closed db' := by
    induction calls generalizing db with
    | nil => exact ⟨db, rfl⟩
    | cons call rest ih =>
      obtain ⟨hcall, hrest⟩ := List.forall_mem_cons.mp h
      obtain ⟨db', hdb'⟩ := hcall.closed db
      obtain ⟨db'', hdb''⟩ := ih hrest db'
      refine ⟨db'', ?_⟩
      rw [after, List.foldl_cons, hdb']
      exact hdb''
  obtain ⟨db', hdb'⟩ := hclosed
  rw [hdb']
  exact ⟨AllOrNothing.refreshable, fun hrefreshable => hrefreshable.allOrNothing.1⟩

end Runs

section Examples

def duckDb : Engine where
  aborts := true
  rollsBack := true
  alreadyOpen := "cannot start a transaction within a transaction"
  notOpen := "cannot commit - no transaction is active"
  aborted := "Current transaction is aborted (please ROLLBACK)"

/-- One table is named twice. -/
def repeatedOrders : Discovery := [("lake", [("sales", ["orders", "orders"])])]

theorem not_allOrNothing_repeatedOrders :
    ¬ AllOrNothing duckDb (.closed ⟨[], [], []⟩) "trino-1" repeatedOrders noFaults := by
  intro h
  rcases h.refreshable with hbegins | ⟨-, -, -, htables, -⟩
  · exact hbegins rfl
  · exact absurd htables (by decide)

end Examples
end RustLake.Trino
