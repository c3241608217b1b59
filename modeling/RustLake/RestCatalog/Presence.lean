import RustLake.RestCatalog.Handlers

/-! Tables of the REST catalog and the namespaces under which they were stored. -/
namespace RustLake.RestCatalog

/-- The key that a call stores a table under, and the key of its namespace. -/
def Mutation.stores (state : CatalogState) : Mutation → Option (Name × Name)
  | .createTable _ _ ns req =>
    let nsKey := decodeNamespacePath ns
    if req.name ≠ [] ∧ nsKey ∈ state.namespaces ∧ tableKey nsKey req.name ∉ state.tables then
      some (tableKey nsKey req.name, nsKey)
    else none
  | .registerTable _ ns table _ _ => some (tableKey ns table, ns)
  | _ => none

/-- A catalog, and for each key the namespace under which it was last stored. -/
structure Traced where
  state : CatalogState
  owner : Name → Option Name

def Traced.apply (t : Traced) (call : Mutation) : Traced where
  state := call.apply t.state
  owner key := match call.stores t.state with
    | some (stored, nsKey) => if key = stored then some nsKey else t.owner key
    | none => t.owner key

def traced (calls : List Mutation) : Traced := calls.foldl Traced.apply ⟨.new, fun _ => none⟩

/-- Every table was stored under a namespace that is there. -/
def Traced.Housed (t : Traced) : Prop :=
  ∀ key ∈ t.state.tables, ∃ nsKey table, t.owner key = some nsKey ∧ key = tableKey nsKey table ∧
    nsKey ∈ t.state.namespaces

/-- The table key can be cut at one place only. -/
def Unambiguous (nsKey table : Name) : Prop :=
  CleanKey nsKey ∧ ¬ "::".toList <:+: ':' :: table

instance (nsKey table : Name) : Decidable (Unambiguous nsKey table) :=
  inferInstanceAs (Decidable (_ ∧ _))

/-- The call stores a table, if any, under a key that can be cut at one place only. -/
def Mutation.Unambiguous : Mutation → Prop
  | .createTable _ _ ns req => RestCatalog.Unambiguous (decodeNamespacePath ns) req.name
  | .registerTable _ ns table _ _ => RestCatalog.Unambiguous ns table
  | _ => True

theorem Unambiguous.eq {nsKey table nsKey' table' : Name} (h : Unambiguous nsKey table)
    (hkey : tableKey nsKey' table' = tableKey nsKey table) : nsKey' = nsKey := by
  apply Text.eq_of_single_sep h.1 h.2
  exact hkey

section Apply
variable {t : Traced}

theorem traced_state (calls : List Mutation) : (traced calls).state = afterCalls calls := by
  induction calls using List.reverseRecOn with
  | nil => rfl
  | append_singleton calls call ih =>
    unfold traced afterCalls at ih ⊢
    rw [List.foldl_append, List.foldl_append, List.foldl_cons, List.foldl_cons, List.foldl_nil,
      List.foldl_nil, ← ih]
    rfl

/-- Storing a table under a namespace that is there. -/
theorem Traced.Housed.store (h : t.Housed) {nsKey table : Name} {entry : TableEntry}
    {namespaces : AList fun _ : Name => NamespaceMetadata} {nextSnapshotId : Int64}
    (hsub : ∀ ns ∈ t.state.namespaces, ns ∈ namespaces) (hmem : nsKey ∈ namespaces) :
    Traced.Housed ⟨⟨namespaces, t.state.tables.insert (tableKey nsKey table) entry, nextSnapshotId⟩,
      fun key => if key = tableKey nsKey table then some nsKey else t.owner key⟩ := by
  intro key hkey
  dsimp only at hkey ⊢
  by_cases heq : key = tableKey nsKey table
  · exact ⟨nsKey, table, if_pos heq, heq, hmem⟩
  · have hold := (AList.mem_insert _).mp hkey |>.resolve_left heq
    obtain ⟨owner, name, howner, hname, hns⟩ := h key hold
    refine ⟨owner, name, ?_, hname, hsub owner hns⟩
    rw [if_neg heq, howner]

/-- Every call keeps the tables in namespaces that are there. -/
theorem Traced.Housed.apply (h : t.Housed) (call : Mutation) : (t.apply call).Housed := by
  cases call with
  | createNamespace levels properties =>
    intro key hkey
    unfold Traced.apply Mutation.apply at hkey ⊢
    dsimp only [Mutation.stores] at hkey ⊢
    rw [createNamespace_state] at hkey ⊢
    split at hkey
    · rename_i hnew
      rw [if_pos hnew]
      obtain ⟨owner, name, howner, hname, hns⟩ := h key hkey
      exact ⟨owner, name, howner, hname, (AList.mem_insert _).mpr (Or.inr hns)⟩
    · rename_i hold
      rw [if_neg hold]
      exact h key hkey
  | dropNamespace ns =>
    intro key hkey
    unfold Traced.apply Mutation.apply at hkey ⊢
    dsimp only [Mutation.stores] at hkey ⊢
    rw [dropNamespace_state t.state rfl] at hkey ⊢
    split at hkey
    · rename_i hempty
      rw [if_pos hempty]
      obtain ⟨owner, name, howner, rfl, hns⟩ := h key hkey
      refine ⟨owner, name, howner, rfl, AList.mem_erase.mpr ⟨?_, hns⟩⟩
      rintro rfl
      exact hempty.2 ((any_isPrefix t.state _).mpr ⟨name, hkey⟩)
    · rename_i hstays
      rw [if_neg hstays]
      exact h key hkey
  | createTable nowMs uuid ns req =>
    unfold Traced.apply Mutation.apply
    dsimp only [Mutation.stores]
    rw [createTable_state t.state nowMs uuid rfl]
    split
    · rename_i hnew
      exact h.store (fun _ hns => hns) hnew.2.1
    · exact h
  | dropTable ns table =>
    intro key hkey
    unfold Traced.apply Mutation.apply at hkey ⊢
    dsimp only [Mutation.stores] at hkey ⊢
    rw [dropTable_state t.state rfl] at hkey ⊢
    split at hkey
    · rename_i hpresent
      rw [if_pos hpresent]
      exact h key (AList.mem_erase.mp hkey).2
    · rename_i hstays
      rw [if_neg hstays]
      exact h key hkey
  | registerTable nowMs ns table metadataLocation metadata =>
    unfold Traced.apply Mutation.apply registerTableInCatalog
    dsimp only [Mutation.stores]
    by_cases hmem : ns ∈ t.state.namespaces
    · rw [if_pos hmem]
      exact h.store (fun _ hns => hns) hmem
    · rw [if_neg hmem]
      exact h.store (fun _ hns => (AList.mem_insert _).mpr (Or.inr hns))
        ((AList.mem_insert _).mpr (Or.inl rfl))
  | updateTable nowMs ns table metadataLocation metadata =>
    intro key hkey
    unfold Traced.apply Mutation.apply at hkey ⊢
    dsimp only [Mutation.stores] at hkey ⊢
    rw [updateTable_state] at hkey ⊢
    split at hkey
    · rename_i hpresent
      rw [if_pos hpresent]
      rcases (AList.mem_insert _).mp hkey with rfl | hold
      · exact h _ hpresent
      · exact h key hold
    · rename_i hstays
      rw [if_neg hstays]
      exact h key hkey

end Apply
theorem housed_traced (calls : List Mutation) : (traced calls).Housed := by
  induction calls using List.reverseRecOn with
  | nil => exact fun key hkey => absurd hkey (AList.notMem_empty key)
  | append_singleton calls call ih =>
    unfold traced
    rw [List.foldl_append]
    exact ih.apply call

/-- What an unambiguous call stores can be cut at one place only. -/
theorem Mutation.Unambiguous.of_stores {call : Mutation} (h : call.Unambiguous)
    {state : CatalogState} {key nsKey : Name} (hstores : call.stores state = some (key, nsKey)) :
    ∃ table, key = tableKey nsKey table ∧ RestCatalog.Unambiguous nsKey table := by
  cases call with
  | createTable nowMs uuid ns req =>
    unfold Mutation.stores at hstores
    dsimp only at hstores
    split at hstores
    · cases hstores
      exact ⟨req.name, rfl, h⟩
    · cases hstores
  | registerTable nowMs ns table metadataLocation metadata =>
    cases hstores
    exact ⟨table, rfl, h⟩
  | createNamespace levels properties => cases hstores
  | dropNamespace ns => cases hstores
  | dropTable ns table => cases hstores
  | updateTable nowMs ns table metadataLocation metadata => cases hstores

theorem unambiguous_traced {calls : List Mutation} (h : ∀ call ∈ calls, call.Unambiguous)
    {key nsKey : Name} (howner : (traced calls).owner key = some nsKey) :
    ∃ table, key = tableKey nsKey table ∧ Unambiguous nsKey table := by
  induction calls using List.reverseRecOn with
  | nil => cases howner
  | append_singleton calls call ih =>
    have hcalls := fun call' hcall' => h call' (List.mem_append_left _ hcall')
    have hcall := h call (List.mem_append_right _ List.mem_cons_self)
    unfold traced at howner
    rw [List.foldl_append, List.foldl_cons, List.foldl_nil, ← traced] at howner
    unfold Traced.apply at howner
    dsimp only at howner
    split at howner
    · rename_i stored nsKey' hstores
      by_cases heq : key = stored
      · rw [if_pos heq] at howner
        cases howner
        rw [heq]
        exact hcall.of_stores hstores
      · rw [if_neg heq] at howner
        exact ih hcalls howner
    · exact ih hcalls howner

/-- After any calls every table is in the namespace under which it was stored; when the keys that
are stored can be cut at one place only, a table exists exactly when it can be loaded. -/
theorem exists_iff_loads (calls : List Mutation) :
    (traced calls).Housed ∧ ((∀ call ∈ calls, call.Unambiguous) →
      ∀ ns table, tableExists (afterCalls calls) ns table = 200 ↔
        ∃ response, loadTable (afterCalls calls) ns table = .ok response) := by
  have hhoused := housed_traced calls
  refine ⟨hhoused, fun hcalls ns table => ?_⟩
  have hns : tableKey (decodeNamespacePath ns) table ∈ (afterCalls calls).tables →
      decodeNamespacePath ns ∈ (afterCalls calls).namespaces := by
    intro hmem
    rw [← traced_state] at hmem ⊢
    obtain ⟨nsKey, name, howner, hkey, hpresent⟩ := hhoused _ hmem
    obtain ⟨stored, hstored, hunambiguous⟩ := unambiguous_traced hcalls howner
    rw [hunambiguous.eq hstored]
    exact hpresent
  unfold tableExists loadTable
  dsimp only
  by_cases htable : tableKey (decodeNamespacePath ns) table ∈ (afterCalls calls).tables
  · obtain ⟨entry, hentry⟩ := Option.isSome_iff_exists.mp (AList.lookup_isSome.mpr htable)
    rw [if_pos htable, if_pos (hns htable), hentry]
    exact iff_of_true rfl ⟨_, rfl⟩
  · rw [if_neg htable, AList.lookup_eq_none.mpr htable]
    refine iff_of_false (by decide) ?_
    rintro ⟨response, hload⟩
    split at hload <;> cases hload

section ColonTable

def colonRequest : CreateTableRequest where
  name := "b::c".toList
  schema := ⟨0, [], []⟩
  partitionSpec := none
  writeOrder := none
  properties := []
  location := none

/-- A table `b::c` in the namespace `a`. -/
def colonCalls : List Mutation :=
  [.createNamespace ["a".toList] [], .createTable 1714547289000 "9f2c" "a".toList colonRequest]

/-- A table `c` in the namespace `a`. -/
def plainCalls : List Mutation :=
  [.createNamespace ["a".toList] [],
    .createTable 1714547289000 "9f2c" "a".toList { colonRequest with name := "c".toList }]

theorem plain_exists_iff_loads :
    tableExists (afterCalls plainCalls) "a".toList "c".toList = 200 ↔
      ∃ response, loadTable (afterCalls plainCalls) "a".toList "c".toList = .ok response :=
  (exists_iff_loads plainCalls).2
    (List.forall_mem_cons.mpr ⟨trivial, List.forall_mem_singleton.mpr ⟨by decide, by decide⟩⟩)
    "a".toList "c".toList

/-- The table `c` of the namespace `a::b`, which is not there, exists and cannot be loaded. -/
theorem colon_exists_unloadable :
    tableExists (afterCalls colonCalls) "a::b".toList "c".toList = 200 ∧
      loadTable (afterCalls colonCalls) "a::b".toList "c".toList =
        .error (namespaceMissing "a::b".toList) := by
  constructor
  · decide
  · rfl

end ColonTable
end RustLake.RestCatalog
