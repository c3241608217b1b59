import RustLake.RestCatalog.Handlers

/-! The REST catalog as a map from namespaces and table names to metadata: calls for one table do
not change what is reported about others. -/
namespace RustLake.RestCatalog

/-- What the catalog is for: which namespaces there are, and the entries of their tables. -/
structure Spec where
  namespaces : List Name → Prop
  tables : List Name → Name → Option TableEntry

/-- The calls that change the catalog, by the levels of their namespaces. -/
inductive Operation where
  | createNamespace (levels : List Name) (properties : List (String × String))
  | dropNamespace (levels : List Name)
  | createTable (nowMs : Int64) (uuid : String) (levels : List Name) (req : CreateTableRequest)
  | dropTable (levels : List Name) (table : Name)
  | registerTable (nowMs : Int64) (levels : List Name) (table metadataLocation : Name)
      (metadata : Json.Value)
  | updateTable (nowMs : Int64) (levels : List Name) (table metadataLocation : Name)
      (metadata : Json.Value)

namespace Operation

def levels : Operation → List Name
  | createNamespace levels _ | dropNamespace levels | createTable _ _ levels _ | dropTable levels _
  | registerTable _ levels _ _ _ | updateTable _ levels _ _ _ => levels

/-- The table of a call, unless it is about a namespace as a whole. -/
def table : Operation → Option Name
  | createNamespace _ _ | dropNamespace _ => none
  | createTable _ _ _ req => some req.name
  | dropTable _ table | registerTable _ _ table _ _ | updateTable _ _ table _ _ => some table

/-- The call as the catalog gets it. -/
def call : Operation → Mutation
  | createNamespace levels properties => .createNamespace levels properties
  | dropNamespace levels => .dropNamespace (pathOf levels)
  | createTable nowMs uuid levels req => .createTable nowMs uuid (pathOf levels) req
  | dropTable levels table => .dropTable (pathOf levels) table
  | registerTable nowMs levels table metadataLocation metadata =>
    .registerTable nowMs (joinLevels levels) table metadataLocation metadata
  | updateTable nowMs levels table metadataLocation metadata =>
    .updateTable nowMs (joinLevels levels) table metadataLocation metadata

end Operation

namespace Spec

def new : Spec where
  namespaces levels := levels = ["default".toList]
  tables _ _ := none

/-- The map with a table set or taken away. -/
def setTable (a : Spec) (levels : List Name) (table : Name) (entry : Option TableEntry) : Spec :=
  { a with tables := fun levels' table' =>
      if levels' = levels ∧ table' = table then entry else a.tables levels' table' }

def addNamespace (a : Spec) (levels : List Name) : Spec :=
  { a with namespaces := fun levels' => levels' = levels ∨ a.namespaces levels' }

def removeNamespace (a : Spec) (levels : List Name) : Spec :=
  { a with namespaces := fun levels' => levels' ≠ levels ∧ a.namespaces levels' }

open Classical in
noncomputable def step (a : Spec) : Operation → Spec
  | .createNamespace levels _ => a.addNamespace levels
  | .dropNamespace levels =>
    if ∃ table, a.tables levels table ≠ none then a else a.removeNamespace levels
  | .createTable nowMs uuid levels req =>
    if req.name ≠ [] ∧ a.namespaces levels ∧ a.tables levels req.name = none then
      a.setTable levels req.name (newEntry nowMs uuid (joinLevels levels) req)
    else a
  | .dropTable levels table => if a.namespaces levels then a.setTable levels table none else a
  | .registerTable nowMs levels table metadataLocation metadata =>
    (a.addNamespace levels).setTable levels table (some ⟨metadataLocation, metadata, nowMs⟩)
  | .updateTable nowMs levels table metadataLocation metadata =>
    if a.tables levels table ≠ none then
      a.setTable levels table (some ⟨metadataLocation, metadata, nowMs⟩)
    else a

end Spec

/-- The catalog holds the map, under the keys of clean namespaces. -/
structure Represents (s : CatalogState) (a : Spec) : Prop where
  namespaces : ∀ levels, Clean levels → (joinLevels levels ∈ s.namespaces ↔ a.namespaces levels)
  tables : ∀ levels, Clean levels → ∀ table,
    s.tables.lookup (tableKey (joinLevels levels) table) = a.tables levels table

namespace Represents
variable {s : CatalogState} {a : Spec} {levels : List Name}

theorem mem_tables (h : Represents s a) (hclean : Clean levels) (table : Name) :
    tableKey (joinLevels levels) table ∈ s.tables ↔ a.tables levels table ≠ none := by
  rw [← h.tables levels hclean, ← AList.lookup_isSome, Option.isSome_iff_ne_none]

/-- Setting an entry under the key of a table sets that table alone. -/
theorem insert (h : Represents s a) (hclean : Clean levels) (table : Name) (entry : TableEntry)
    (nextSnapshotId : Int64) :
    Represents ⟨s.namespaces, s.tables.insert (tableKey (joinLevels levels) table) entry,
      nextSnapshotId⟩ (a.setTable levels table (some entry)) := by
  refine ⟨h.namespaces, fun levels' hclean' table' => ?_⟩
  unfold Spec.setTable
  dsimp only
  split
  · rename_i heq
    obtain ⟨rfl, rfl⟩ := heq
    exact AList.lookup_insert _
  · rename_i hne
    rw [AList.lookup_insert_ne, h.tables levels' hclean']
    intro hkey
    obtain ⟨hlevels, htable⟩ := tableKey_eq hclean'.key hclean.key hkey
    exact hne ⟨hclean'.eq_of_joinLevels hclean hlevels, htable⟩

theorem erase (h : Represents s a) (hclean : Clean levels) (table : Name) :
    Represents { s with tables := s.tables.erase (tableKey (joinLevels levels) table) }
      (a.setTable levels table none) := by
  refine ⟨h.namespaces, fun levels' hclean' table' => ?_⟩
  unfold Spec.setTable
  dsimp only
  split
  · rename_i heq
    obtain ⟨rfl, rfl⟩ := heq
    exact AList.lookup_erase _ _
  · rename_i hne
    rw [AList.lookup_erase_ne, h.tables levels' hclean']
    intro hkey
    obtain ⟨hlevels, htable⟩ := tableKey_eq hclean'.key hclean.key hkey
    exact hne ⟨hclean'.eq_of_joinLevels hclean hlevels, htable⟩

theorem addNamespace (h : Represents s a) (hclean : Clean levels) (meta' : NamespaceMetadata) :
    Represents { s with namespaces := s.namespaces.insert (joinLevels levels) meta' }
      (a.addNamespace levels) := by
  refine ⟨fun levels' hclean' => ?_, h.tables⟩
  rw [AList.mem_insert, h.namespaces levels' hclean']
  apply or_congr_left
  exact ⟨hclean'.eq_of_joinLevels hclean, fun heq => by rw [heq]⟩

/-- A namespace that is there is there also once it is added. -/
theorem addNamespace_of_mem (h : Represents s a) (hclean : Clean levels)
    (hmem : joinLevels levels ∈ s.namespaces) : Represents s (a.addNamespace levels) := by
  refine ⟨fun levels' hclean' => ?_, h.tables⟩
  rw [h.namespaces levels' hclean']
  constructor
  · exact Or.inr
  · rintro (rfl | hns)
    · exact (h.namespaces _ hclean).mp hmem
    · exact hns

theorem removeNamespace (h : Represents s a) (hclean : Clean levels) :
    Represents { s with namespaces := s.namespaces.erase (joinLevels levels) }
      (a.removeNamespace levels) := by
  refine ⟨fun levels' hclean' => ?_, h.tables⟩
  rw [AList.mem_erase, h.namespaces levels' hclean']
  apply and_congr_left'
  exact not_congr ⟨hclean'.eq_of_joinLevels hclean, fun heq => by rw [heq]⟩

/-- A call does in the catalog what it does in the map. -/
theorem apply (h : Represents s a) (op : Operation) (hclean : Clean op.levels) :
    Represents (op.call.apply s) (a.step op) := by
  cases op with
  | createNamespace levels properties =>
    have hclean : Clean levels := hclean
    simp only [Operation.call, Mutation.apply, createNamespace_state, Spec.step]
    by_cases hmem : joinLevels levels ∈ s.namespaces
    · rw [if_neg fun h => h.2 hmem]
      exact h.addNamespace_of_mem hclean hmem
    · rw [if_pos ⟨hclean.nonempty, hmem⟩]
      exact h.addNamespace hclean _
  | dropNamespace levels =>
    have hclean : Clean levels := hclean
    have htables : (s.tables.keys.any fun k => joinLevels levels ++ "::".toList <+: k) = true ↔
        ∃ table, a.tables levels table ≠ none := by
      simp only [any_isPrefix, h.mem_tables hclean]
    rw [Operation.call, Mutation.apply, dropNamespace_state s hclean.decode, Spec.step]
    by_cases htable : ∃ table, a.tables levels table ≠ none
    · rw [if_pos htable, if_neg fun hnone => hnone.2 (htables.mpr htable)]
      exact h
    · have hnone := mt htables.mp htable
      rw [if_neg htable]
      by_cases hmem : joinLevels levels ∈ s.namespaces
      · rw [if_pos ⟨hmem, hnone⟩]
        exact h.removeNamespace hclean
      · have herase : s.namespaces.erase (joinLevels levels) = s.namespaces :=
          AList.ext (List.kerase_of_notMem_keys hmem)
        have hgone := h.removeNamespace hclean
        rw [herase] at hgone
        rw [if_neg fun hboth => hmem hboth.1]
        exact hgone
  | createTable nowMs uuid levels req =>
    have hclean : Clean levels := hclean
    have hfree : tableKey (joinLevels levels) req.name ∉ s.tables ↔
        a.tables levels req.name = none := (not_congr (h.mem_tables hclean req.name)).trans not_not
    have hcond : (req.name ≠ [] ∧ joinLevels levels ∈ s.namespaces ∧
        tableKey (joinLevels levels) req.name ∉ s.tables) ↔
        req.name ≠ [] ∧ a.namespaces levels ∧ a.tables levels req.name = none := by
      rw [hfree, h.namespaces levels hclean]
    rw [Operation.call, Mutation.apply, createTable_state s nowMs uuid hclean.decode, Spec.step]
    by_cases hcreate : req.name ≠ [] ∧ a.namespaces levels ∧ a.tables levels req.name = none
    · rw [if_pos hcreate, if_pos (hcond.mpr hcreate)]
      exact h.insert hclean req.name _ _
    · rw [if_neg hcreate, if_neg (mt hcond.mp hcreate)]
      exact h
  | dropTable levels table =>
    have hclean : Clean levels := hclean
    have hcond := h.namespaces levels hclean
    rw [Operation.call, Mutation.apply, dropTable_state s hclean.decode, Spec.step]
    by_cases hns : a.namespaces levels
    · rw [if_pos hns, if_pos (hcond.mpr hns)]
      exact h.erase hclean table
    · rw [if_neg hns, if_neg (mt hcond.mp hns)]
      exact h
  | registerTable nowMs levels table metadataLocation metadata =>
    have hclean : Clean levels := hclean
    simp only [Operation.call, Mutation.apply, registerTableInCatalog, Spec.step]
    by_cases hmem : joinLevels levels ∈ s.namespaces
    · rw [if_pos hmem]
      exact (h.addNamespace_of_mem hclean hmem).insert hclean table _ _
    · rw [if_neg hmem]
      exact (h.addNamespace hclean _).insert hclean table _ _
  | updateTable nowMs levels table metadataLocation metadata =>
    have hclean : Clean levels := hclean
    have hcond := h.mem_tables hclean table
    rw [Operation.call, Mutation.apply, updateTable_state, Spec.step]
    by_cases htable : a.tables levels table ≠ none
    · rw [if_pos htable, if_pos (hcond.mpr htable)]
      exact h.insert hclean table _ _
    · rw [if_neg htable, if_neg (mt hcond.mp htable)]
      exact h

theorem new : Represents .new Spec.new := by
  constructor
  · intro levels hclean
    have hmem : joinLevels levels ∈ CatalogState.new.namespaces ↔
        joinLevels levels = "default".toList := by
      unfold CatalogState.new
      rw [AList.mem_insert]
      exact or_iff_left (AList.notMem_empty _)
    rw [hmem]
    constructor
    · intro hkey
      have hlevels := hclean.splitOn
      rw [hkey] at hlevels
      exact hlevels.symm
    · rintro rfl
      rfl
  · intro levels _ table
    rfl

/-- After any clean calls the catalog is the map after them. -/
theorem afterCalls (ops : List Operation) (hclean : ∀ op ∈ ops, Clean op.levels) :
    Represents (afterCalls (ops.map Operation.call)) (ops.foldl Spec.step Spec.new) := by
  induction ops using List.reverseRecOn with
  | nil => exact new
  | append_singleton ops op ih =>
    have hops := ih fun op' hop' => hclean op' (List.mem_append_left _ hop')
    have hlast := hops.apply op (hclean op (List.mem_append_right _ List.mem_cons_self))
    simpa [RestCatalog.afterCalls] using hlast

end Represents
/-- What the catalog reports about a table and its namespace. -/
structure Report where
  namespaceExists : UInt16
  tableExists : UInt16
  load : Except ErrorResponse LoadTableResponse
  listed : Option (Set TableIdentifier)

def report (s : CatalogState) (levels : List Name) (table : Name) : Report where
  namespaceExists := namespaceExists s (pathOf levels)
  tableExists := tableExists s (pathOf levels) table
  load := loadTable s (pathOf levels) table
  listed := (listTables s (pathOf levels)).toOption.map fun ids => {id | id ∈ ids}

/-- The table is in the list of its namespace. -/
def Report.Lists (r : Report) (id : TableIdentifier) : Prop := ∃ ids, r.listed = some ids ∧ id ∈ ids

/-- The same is reported about a table, other than why it cannot be loaded. -/
structure Report.SameTable (r r' : Report) (id : TableIdentifier) : Prop where
  tableExists : r.tableExists = r'.tableExists
  load : r.load.toOption = r'.load.toOption
  listed : r.Lists id ↔ r'.Lists id

namespace Spec

open Classical in
noncomputable def report (a : Spec) (levels : List Name) (table : Name) : Report where
  namespaceExists := if a.namespaces levels then 200 else 404
  tableExists := if a.tables levels table ≠ none then 200 else 404
  load :=
    if a.namespaces levels then
      match a.tables levels table with
      | some entry => .ok ⟨entry.metadataLocation, entry.metadata⟩
      | none => .error (tableMissing (joinLevels levels) table)
    else .error (namespaceMissing (joinLevels levels))
  listed :=
    if a.namespaces levels then
      some {id | id.levels = levels ∧ a.tables levels id.name ≠ none}
    else none

/-- Every table is in a namespace that is there. -/
def Housed (a : Spec) : Prop := ∀ levels table, a.tables levels table ≠ none → a.namespaces levels

/-- Both maps hold the same about a namespace. -/
def SameIn (a b : Spec) (levels : List Name) : Prop :=
  (a.namespaces levels ↔ b.namespaces levels) ∧ a.tables levels = b.tables levels

theorem SameIn.refl (a : Spec) (levels : List Name) : SameIn a a levels := ⟨Iff.rfl, rfl⟩

section Other
variable (a : Spec) {levels other : List Name} (hne : levels ≠ other)
include hne

theorem setTable_sameIn (table : Name) (entry : Option TableEntry) :
    SameIn (a.setTable other table entry) a levels := by
  refine ⟨Iff.rfl, funext fun table' => ?_⟩
  exact if_neg fun heq => hne heq.1

theorem addNamespace_sameIn : SameIn (a.addNamespace other) a levels :=
  ⟨or_iff_right hne, rfl⟩

theorem removeNamespace_sameIn : SameIn (a.removeNamespace other) a levels :=
  ⟨and_iff_right hne, rfl⟩

end Other

theorem setTable_of_ne (a : Spec) {table other : Name} (hne : table ≠ other)
    (levels levels' : List Name) (entry : Option TableEntry) :
    (a.setTable levels' other entry).tables levels table = a.tables levels table :=
  if_neg fun heq => hne heq.2

/-- A call leaves the other namespaces and their tables. -/
theorem step_other (a : Spec) {op : Operation} {levels : List Name} (hne : op.levels ≠ levels) :
    SameIn (a.step op) a levels := by
  cases op with
  | createNamespace other properties => exact a.addNamespace_sameIn hne.symm
  | dropNamespace other =>
    unfold step
    dsimp only
    split
    · exact SameIn.refl a levels
    · exact a.removeNamespace_sameIn hne.symm
  | createTable nowMs uuid other req =>
    unfold step
    dsimp only
    split
    · exact a.setTable_sameIn hne.symm _ _
    · exact SameIn.refl a levels
  | dropTable other table =>
    unfold step
    dsimp only
    split
    · exact a.setTable_sameIn hne.symm _ _
    · exact SameIn.refl a levels
  | registerTable nowMs other table metadataLocation metadata =>
    obtain ⟨hset, htables⟩ := (a.addNamespace other).setTable_sameIn hne.symm table
      (some ⟨metadataLocation, metadata, nowMs⟩)
    obtain ⟨hadd, htables'⟩ := a.addNamespace_sameIn hne.symm
    exact ⟨hset.trans hadd, htables.trans htables'⟩
  | updateTable nowMs other table metadataLocation metadata =>
    unfold step
    dsimp only
    split
    · exact a.setTable_sameIn hne.symm _ _
    · exact SameIn.refl a levels

/-- A call for a table leaves the other tables, also those of its namespace. -/
theorem step_otherTable (a : Spec) {op : Operation} {table other : Name}
    (htable : op.table = some other) (hne : other ≠ table) (levels : List Name) :
    (a.step op).tables levels table = a.tables levels table := by
  cases op with
  | createNamespace levels' properties => cases htable
  | dropNamespace levels' => cases htable
  | createTable nowMs uuid levels' req =>
    cases htable
    unfold step
    dsimp only
    split
    · exact a.setTable_of_ne hne.symm levels levels' _
    · rfl
  | dropTable levels' table' =>
    cases htable
    unfold step
    dsimp only
    split
    · exact a.setTable_of_ne hne.symm levels levels' _
    · rfl
  | registerTable nowMs levels' table' metadataLocation metadata =>
    cases htable
    exact (a.addNamespace levels').setTable_of_ne hne.symm levels levels' _
  | updateTable nowMs levels' table' metadataLocation metadata =>
    cases htable
    unfold step
    dsimp only
    split
    · exact a.setTable_of_ne hne.symm levels levels' _
    · rfl

theorem Housed.setTable {a : Spec} (h : a.Housed) {levels : List Name} (table : Name)
    {entry : Option TableEntry} (hns : entry ≠ none → a.namespaces levels) :
    (a.setTable levels table entry).Housed := by
  intro levels' table' hsome
  unfold Spec.setTable at hsome ⊢
  dsimp only at hsome ⊢
  split at hsome
  · rename_i heq
    rw [heq.1]
    exact hns hsome
  · exact h levels' table' hsome

theorem Housed.addNamespace {a : Spec} (h : a.Housed) (levels : List Name) :
    (a.addNamespace levels).Housed := fun levels' table' hsome => Or.inr (h levels' table' hsome)

theorem Housed.step {a : Spec} (h : a.Housed) (op : Operation) : (a.step op).Housed := by
  cases op with
  | createNamespace levels properties => exact h.addNamespace levels
  | dropNamespace levels =>
    unfold Spec.step
    dsimp only
    split
    · exact h
    · rename_i hempty
      intro levels' table hsome
      refine ⟨?_, h levels' table hsome⟩
      rintro rfl
      exact hempty ⟨table, hsome⟩
  | createTable nowMs uuid levels req =>
    unfold Spec.step
    dsimp only
    split
    · rename_i hcreate
      exact h.setTable req.name fun _ => hcreate.2.1
    · exact h
  | dropTable levels table =>
    unfold Spec.step
    dsimp only
    split
    · exact h.setTable table fun hnone => absurd rfl hnone
    · exact h
  | registerTable nowMs levels table metadataLocation metadata =>
    exact (h.addNamespace levels).setTable table fun _ => Or.inl rfl
  | updateTable nowMs levels table metadataLocation metadata =>
    unfold Spec.step
    dsimp only
    split
    · rename_i hsome
      exact h.setTable table fun _ => h levels table hsome
    · exact h

theorem housed_foldl (ops : List Operation) : (ops.foldl step new).Housed := by
  induction ops using List.reverseRecOn with
  | nil => exact fun _ _ hsome => absurd rfl hsome
  | append_singleton ops op ih =>
    rw [List.foldl_append]
    exact ih.step op

end Spec

namespace Spec

open Classical in
theorem report_load (a : Spec) (h : a.Housed) (levels : List Name) (table : Name) :
    (a.report levels table).load.toOption =
      (a.tables levels table).map fun entry => ⟨entry.metadataLocation, entry.metadata⟩ := by
  unfold report
  dsimp only
  cases htable : a.tables levels table with
  | none => split <;> rfl
  | some entry =>
    have hns : a.namespaces levels := h levels table (by simp [htable])
    rw [if_pos hns]
    rfl

theorem report_lists (a : Spec) (h : a.Housed) (levels : List Name) (table : Name) :
    (a.report levels table).Lists ⟨levels, table⟩ ↔ a.tables levels table ≠ none := by
  unfold Report.Lists report
  dsimp only
  constructor
  · rintro ⟨ids, hids, hmem⟩
    split at hids
    · cases hids
      exact hmem.2
    · cases hids
  · intro hsome
    rw [if_pos (h levels table hsome)]
    exact ⟨_, rfl, rfl, hsome⟩

/-- What is reported about a table is determined by its entry. -/
theorem report_sameTable {a b : Spec} (ha : a.Housed) (hb : b.Housed) {levels : List Name}
    {table : Name} (h : a.tables levels table = b.tables levels table) :
    (a.report levels table).SameTable (b.report levels table) ⟨levels, table⟩ := by
  constructor
  · unfold report
    rw [h]
  · rw [report_load a ha, report_load b hb, h]
  · rw [report_lists a ha, report_lists b hb, h]

theorem report_sameIn {a b : Spec} {levels : List Name} (h : SameIn a b levels) (table : Name) :
    a.report levels table = b.report levels table := by
  have hns : a.namespaces levels = b.namespaces levels := propext h.1
  unfold report
  rw [hns, h.2]

end Spec

section Reports
variable {s : CatalogState} {a : Spec} {levels : List Name}
open Classical

theorem Represents.namespaceExists (h : Represents s a) (hclean : Clean levels) :
    namespaceExists s (pathOf levels) = if a.namespaces levels then 200 else 404 := by
  have hns := h.namespaces levels hclean
  unfold RestCatalog.namespaceExists
  rw [hclean.decode]
  by_cases hpresent : a.namespaces levels
  · rw [if_pos hpresent, if_pos (hns.mpr hpresent)]
  · rw [if_neg hpresent, if_neg (mt hns.mp hpresent)]

theorem Represents.tableExists (h : Represents s a) (hclean : Clean levels) (table : Name) :
    tableExists s (pathOf levels) table = if a.tables levels table ≠ none then 200 else 404 := by
  have htable := h.mem_tables hclean table
  unfold RestCatalog.tableExists
  rw [hclean.decode]
  by_cases hsome : a.tables levels table ≠ none
  · rw [if_pos hsome, if_pos (htable.mpr hsome)]
  · rw [if_neg hsome, if_neg (mt htable.mp hsome)]

theorem Represents.loadTable (h : Represents s a) (hclean : Clean levels) (table : Name) :
    loadTable s (pathOf levels) table = (a.report levels table).load := by
  have hns := h.namespaces levels hclean
  unfold RestCatalog.loadTable Spec.report
  dsimp only
  rw [hclean.decode, h.tables levels hclean]
  by_cases hpresent : a.namespaces levels
  · cases a.tables levels table <;> rw [if_pos hpresent, if_pos (hns.mpr hpresent)]
  · rw [if_neg hpresent, if_neg (mt hns.mp hpresent)]

theorem Represents.mem_listed (h : Represents s a) (hclean : Clean levels) (id : TableIdentifier) :
    id ∈ ((s.tables.keys.filter fun k => joinLevels levels ++ "::".toList <+: k).map fun k =>
        (⟨(joinLevels levels).splitOn '.',
          k.drop (joinLevels levels ++ "::".toList).length⟩ : TableIdentifier)) ↔
      id.levels = levels ∧ a.tables levels id.name ≠ none := by
  have hname : ∀ name, (tableKey (joinLevels levels) name).drop
      (joinLevels levels ++ "::".toList).length = name := fun name => List.drop_left
  rw [hclean.splitOn, List.mem_map]
  constructor
  · rintro ⟨key, hkey, rfl⟩
    obtain ⟨hmem, hbegins⟩ := List.mem_filter.mp hkey
    obtain ⟨name, rfl⟩ := (prefix_iff _ _).mp (of_decide_eq_true hbegins)
    refine ⟨rfl, ?_⟩
    rw [hname]
    exact (h.mem_tables hclean name).mp hmem
  · rintro ⟨hlevels, hsome⟩
    have hmem := (h.mem_tables hclean id.name).mpr hsome
    refine ⟨_, List.mem_filter.mpr ⟨hmem, decide_eq_true ((prefix_iff _ _).mpr ⟨_, rfl⟩)⟩, ?_⟩
    rw [hname, ← hlevels]

theorem Represents.listTables (h : Represents s a) (hclean : Clean levels) (table : Name) :
    ((listTables s (pathOf levels)).toOption.map fun ids => {id | id ∈ ids}) =
      (a.report levels table).listed := by
  have hns := h.namespaces levels hclean
  unfold RestCatalog.listTables Spec.report
  dsimp only
  rw [hclean.decode]
  by_cases hpresent : a.namespaces levels
  · rw [if_pos hpresent, if_pos (hns.mpr hpresent)]
    exact congrArg some (Set.ext fun id => h.mem_listed hclean id)
  · rw [if_neg hpresent, if_neg (mt hns.mp hpresent)]
    rfl

/-- The reports of the catalog are those of the map. -/
theorem Represents.report (h : Represents s a) (hclean : Clean levels) (table : Name) :
    report s levels table = a.report levels table := by
  unfold RestCatalog.report
  rw [h.namespaceExists hclean, h.tableExists hclean, h.loadTable hclean, h.listTables hclean table]
  rfl

theorem createNamespace_result (levels : List Name) (properties : List (String × String))
    (state : CatalogState) (hne : levels ≠ []) (hfree : joinLevels levels ∉ state.namespaces) :
    createNamespace levels properties state = (.ok ⟨levels, properties⟩,
      { state with
        namespaces := state.namespaces.insert (joinLevels levels) ⟨levels, properties⟩ }) := by
  unfold createNamespace
  rw [if_neg fun h => hne (List.isEmpty_iff.mp h)]
  exact if_neg hfree

end Reports

/-- After any calls for clean namespaces the catalog reports what the map holds; a further call
changes nothing that is reported about other namespaces and other tables, and two namespaces that
are not there can both be created. -/
theorem catalog_isolates (ops : List Operation) (hops : ∀ op ∈ ops, Clean op.levels) :
    let s := afterCalls (ops.map Operation.call)
    (∀ levels table, Clean levels →
      report s levels table = (ops.foldl Spec.step Spec.new).report levels table) ∧
    (∀ (op : Operation) levels table, Clean op.levels → Clean levels →
      (op.levels ≠ levels → report (op.call.apply s) levels table = report s levels table) ∧
      ∀ other, op.table = some other → other ≠ table →
        (report (op.call.apply s) levels table).SameTable (report s levels table)
          ⟨levels, table⟩) ∧
    ∀ levels levels' properties properties', Clean levels → Clean levels' → levels ≠ levels' →
      namespaceExists s (pathOf levels) = 404 → namespaceExists s (pathOf levels') = 404 →
      (createNamespace levels properties s).1 = .ok ⟨levels, properties⟩ ∧
        (createNamespace levels' properties' (createNamespace levels properties s).2).1 =
          .ok ⟨levels', properties'⟩ := by
  intro s
  have hs : Represents s (ops.foldl Spec.step Spec.new) := Represents.afterCalls ops hops
  have hhoused := Spec.housed_foldl ops
  refine ⟨fun levels table hclean => hs.report hclean table, ?_, ?_⟩
  · intro op levels table hop hclean
    have hnext := hs.apply op hop
    rw [hnext.report hclean, hs.report hclean]
    constructor
    · intro hne
      exact Spec.report_sameIn (Spec.step_other _ hne) table
    · intro other hother hne
      apply Spec.report_sameTable (hhoused.step op) hhoused
      exact Spec.step_otherTable _ hother hne levels
  · intro levels levels' properties properties' hclean hclean' hne hfree hfree'
    have habsent : ∀ {levels}, Clean levels → namespaceExists s (pathOf levels) = 404 →
        joinLevels levels ∉ s.namespaces := by
      intro levels hclean hstatus hmem
      unfold namespaceExists at hstatus
      rw [hclean.decode, if_pos hmem] at hstatus
      cases hstatus
    rw [createNamespace_result levels properties s hclean.nonempty (habsent hclean hfree)]
    refine ⟨rfl, ?_⟩
    rw [createNamespace_result levels' properties' _ hclean'.nonempty]
    rw [AList.mem_insert]
    rintro (hkey | hmem)
    · exact hne (hclean'.eq_of_joinLevels hclean hkey).symm
    · exact habsent hclean' hfree' hmem

section SalesEurope

def salesEurope : List Name := ["sales".toList, "europe".toList]

/-- One level, whose name has a dot. -/
def salesDotEurope : List Name := ["sales.europe".toList]

theorem clean_salesEurope : Clean salesEurope where
  nonempty := by decide
  each := List.forall_mem_cons.mpr ⟨⟨by decide, by decide, by decide, by decide⟩,
    List.forall_mem_singleton.mpr ⟨by decide, by decide, by decide, by decide⟩⟩
  key := by decide

/-- Nothing is reported about `sales.europe` before it is there. -/
theorem isolated_salesEurope :
    report (afterCalls [.createNamespace salesEurope [], .dropNamespace (pathOf salesEurope)])
      salesEurope "orders".toList =
    (([.createNamespace salesEurope [], .dropNamespace salesEurope] : List Operation).foldl
      Spec.step Spec.new).report salesEurope "orders".toList :=
  (catalog_isolates [.createNamespace salesEurope [], .dropNamespace salesEurope]
    (List.forall_mem_cons.mpr
      ⟨clean_salesEurope, List.forall_mem_singleton.mpr clean_salesEurope⟩)).1
    salesEurope "orders".toList clean_salesEurope

/-- Two namespaces with one key: creating the first makes the second exist, and it cannot be
created. -/
theorem colliding_namespaces :
    salesEurope ≠ salesDotEurope ∧
      namespaceExists .new (pathOf salesDotEurope) = 404 ∧
      namespaceExists (afterCalls [.createNamespace salesEurope []]) (pathOf salesDotEurope) = 200 ∧
      (createNamespace salesDotEurope [] .new).1 = .ok ⟨salesDotEurope, []⟩ ∧
      (createNamespace salesDotEurope [] (afterCalls [.createNamespace salesEurope []])).1 =
        .error (.conflict "Namespace already exists: sales.europe".toList) := by
  decide

end SalesEurope
end RustLake.RestCatalog
