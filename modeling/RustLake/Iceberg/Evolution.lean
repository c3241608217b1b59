import RustLake.Iceberg.Columns

/-! What a call of `evolve_schema` makes of the current schema, and which schema versions are found
by their ids after it. -/
namespace RustLake.Iceberg
open RustLake.Json RustLake.ObjectStore

/-- The fields of a schema after one change: a column is added under a name that no other has, one is
dropped, or one gets a name that no other has. The others stay. -/
inductive Changed : List IcebergField → SchemaChange → List IcebergField → Prop
  | add {fields : List IcebergField} {name typeStr : String} {nullable : Bool} (id : Int32) :
      name ∉ fields.map (·.name) →
      Changed fields (.addColumn name typeStr nullable) (fields ++ [⟨id, name, !nullable, typeStr⟩])
  | drop {before after : List IcebergField} {f : IcebergField} :
      Changed (before ++ f :: after) (.dropColumn f.name) (before ++ after)
  | rename {before after : List IcebergField} {f : IcebergField} {newName : String} :
      newName ∉ (before ++ after).map (·.name) →
      Changed (before ++ f :: after) (.renameColumn f.name newName)
        (before ++ { f with name := newName } :: after)

/-- The fields of a schema after changes one after the other. -/
inductive Applied : List IcebergField → List SchemaChange → List IcebergField → Prop
  | nil {fields : List IcebergField} : Applied fields [] fields
  | cons {fields mid last : List IcebergField} {change : SchemaChange} {rest : List SchemaChange} :
      Changed fields change mid → Applied mid rest last → Applied fields (change :: rest) last

def schemaById (state : IcebergTableState) (id : Int32) : Option SchemaVersion :=
  state.schemas.find? (·.schemaId = id)

/-- The current schema of the evolved table is the one before with the changes applied, its columns
have different names, and the versions from before are found by their ids. -/
structure Evolves (state : IcebergTableState) (changes : List SchemaChange) (made : IcebergTableState) :
    Prop where
  current : ∃ old new, schemaById state state.currentSchemaId = some old ∧
    schemaById made made.currentSchemaId = some new ∧ Applied old.fields changes new.fields
  distinct : ∀ new, schemaById made made.currentSchemaId = some new →
    (new.fields.map (·.name)).Nodup
  earlier : ∀ version ∈ state.schemas, schemaById made version.schemaId = some version

/-- No column gets the name of another one, where changes go on from columns with these names. -/
def RenamesFree : List String → List SchemaChange → Prop
  | _, [] => True
  | names, .addColumn name _ _ :: rest => RenamesFree (names ++ [name]) rest
  | names, .dropColumn name :: rest => RenamesFree (names.filter (· ≠ name)) rest
  | names, .renameColumn oldName newName :: rest => (newName = oldName ∨ newName ∉ names) ∧
      RenamesFree (names.map fun name => if name = oldName then newName else name) rest

section Changes
variable {fields fields' : List IcebergField} {change : SchemaChange} {changes : List SchemaChange}

theorem filter_name_split {before after : List IcebergField} {f : IcebergField}
    (h : ((before ++ f :: after).map (·.name)).Nodup) :
    (before ++ f :: after).filter (·.name ≠ f.name) = before ++ after := by
  rw [List.map_append, List.map_cons, List.nodup_middle, List.nodup_cons, List.mem_append] at h
  have hothers : ∀ g ∈ before ++ after, g.name ≠ f.name := by
    intro g hg heq
    refine h.1 ?_
    rw [← heq, ← List.mem_append, ← List.map_append]
    exact List.mem_map_of_mem hg
  rw [List.filter_append, List.filter_cons_of_neg (by simp), ← List.filter_append,
    List.filter_eq_self]
  exact fun g hg => decide_eq_true (hothers g hg)

theorem map_rename_split {before after : List IcebergField} {f : IcebergField} (newName : String)
    (h : ((before ++ f :: after).map (·.name)).Nodup) :
    ((before ++ f :: after).map (·.name)).map (fun name => if name = f.name then newName else name) =
      (before ++ { f with name := newName } :: after).map (·.name) := by
  rw [List.map_append, List.map_cons, List.nodup_middle, List.nodup_cons, ← List.map_append] at h
  have hothers : ∀ l, l ⊆ before ++ after → (l.map (·.name)).map
      (fun name => if name = f.name then newName else name) = l.map (·.name) := by
    intro l hl
    rw [List.map_map]
    refine List.map_congr_left fun g hg => if_neg fun heq => h.1 ?_
    rw [← heq]
    exact List.mem_map_of_mem (hl hg)
  rw [List.map_append, List.map_cons, List.map_append, List.map_cons, if_pos rfl,
    hothers before (List.subset_append_left _ _), hothers after (List.subset_append_right _ _),
    List.map_append, List.map_cons]

/-- Fields with different names keep them. -/
theorem Changed.nodup (h : Changed fields change fields') (hnodup : (fields.map (·.name)).Nodup) :
    (fields'.map (·.name)).Nodup := by
  cases h with
  | add id hnew =>
    rw [List.map_append, List.map_singleton, List.nodup_append_comm, List.singleton_append]
    exact List.nodup_cons.mpr ⟨hnew, hnodup⟩
  | drop =>
    refine hnodup.sublist (List.Sublist.map _ ?_)
    exact List.Sublist.append_left (List.sublist_cons_self _ _) _
  | rename hnew =>
    rw [List.map_append, List.map_cons, List.nodup_middle, List.nodup_cons] at hnodup ⊢
    rw [List.map_append] at hnew
    exact ⟨hnew, hnodup.2⟩

theorem Applied.nodup (h : Applied fields changes fields') (hnodup : (fields.map (·.name)).Nodup) :
    (fields'.map (·.name)).Nodup := by
  induction h with
  | nil => exact hnodup
  | cons hchanged _ ih => exact ih (hchanged.nodup hnodup)

theorem Changed.renamesFree (h : Changed fields change fields')
    (hnodup : (fields.map (·.name)).Nodup) (hrest : RenamesFree (fields'.map (·.name)) changes) :
    RenamesFree (fields.map (·.name)) (change :: changes) := by
  cases h with
  | add id hnew =>
    rw [List.map_append] at hrest
    exact hrest
  | @drop before after f =>
    unfold RenamesFree
    have hfilter : ((before ++ f :: after).map (·.name)).filter (· ≠ f.name) =
        (before ++ after).map (·.name) := by
      rw [← filter_name_split hnodup, List.filter_map]
      rfl
    rw [hfilter]
    exact hrest
  | @rename before after f newName hnew =>
    unfold RenamesFree
    rw [map_rename_split newName hnodup]
    refine ⟨?_, hrest⟩
    by_cases hsame : newName = f.name
    · exact Or.inl hsame
    · right
      rw [List.map_append, List.map_cons, List.mem_append, List.mem_cons]
      rw [List.map_append, List.mem_append] at hnew
      rintro (hmem | heq | hmem)
      · exact hnew (Or.inl hmem)
      · exact hsame heq
      · exact hnew (Or.inr hmem)

theorem Applied.renamesFree (h : Applied fields changes fields')
    (hnodup : (fields.map (·.name)).Nodup) : RenamesFree (fields.map (·.name)) changes := by
  induction h with
  | nil => trivial
  | cons hchanged _ ih => exact hchanged.renamesFree hnodup (ih (hchanged.nodup hnodup))

/-- The first field of a name gets the new one. -/
theorem renameField_split {oldName newName : String} (h : renameField oldName newName fields = some fields') :
    ∃ before f after, fields = before ++ f :: after ∧ f.name = oldName ∧
      fields' = before ++ { f with name := newName } :: after := by
  induction fields generalizing fields' with
  | nil => cases h
  | cons g rest ih =>
    unfold renameField at h
    split at h
    · rename_i hname
      cases h
      exact ⟨[], g, rest, rfl, hname, rfl⟩
    · obtain ⟨renamed, hrenamed, rfl⟩ := Option.map_eq_some_iff.mp h
      obtain ⟨before, f, after, rfl, hname, rfl⟩ := ih hrenamed
      exact ⟨g :: before, f, after, rfl, hname, rfl⟩

/-- A change that the code makes is the one described, where it takes no name from another column. -/
theorem changed_of_applyChange {new next : List IcebergField × Int32}
    (h : applyChange new change = .ok next) (hnodup : (new.1.map (·.name)).Nodup)
    (hfree : RenamesFree (new.1.map (·.name)) (change :: changes)) :
    Changed new.1 change next.1 ∧ RenamesFree (next.1.map (·.name)) changes := by
  cases change with
  | addColumn name typeStr nullable =>
    simp only [applyChange] at h
    split at h
    · cases h
    · rename_i hnone
      cases h
      have hnew : name ∉ new.1.map (·.name) := by
        intro hmem
        obtain ⟨f, hf, hname⟩ := List.mem_map.mp hmem
        exact hnone (List.any_eq_true.mpr ⟨f, hf, decide_eq_true hname⟩)
      refine ⟨.add _ hnew, ?_⟩
      dsimp only
      rw [List.map_append]
      exact hfree
  | dropColumn name =>
    simp only [applyChange] at h
    split at h
    · cases h
    · rename_i hfound
      cases h
      have hsome : ∃ f ∈ new.1, f.name = name := by
        by_contra hnone
        push Not at hnone
        refine hfound (congrArg List.length (List.filter_eq_self.mpr fun f hf => ?_))
        exact decide_eq_true (hnone f hf)
      obtain ⟨f, hf, rfl⟩ := hsome
      obtain ⟨before, after, heq⟩ := List.append_of_mem hf
      have hkept : new.1.filter (·.name ≠ f.name) = before ++ after := by
        rw [heq] at hnodup ⊢
        exact filter_name_split hnodup
      dsimp only
      rw [hkept]
      refine ⟨by rw [heq]; exact .drop, ?_⟩
      unfold RenamesFree at hfree
      rw [List.filter_map] at hfree
      rw [← hkept]
      exact hfree
  | renameColumn oldName newName =>
    simp only [applyChange] at h
    split at h
    · rename_i renamed hrenamed
      cases h
      obtain ⟨before, f, after, heq, rfl, rfl⟩ := renameField_split hrenamed
      rw [heq] at hnodup hfree ⊢
      unfold RenamesFree at hfree
      rw [map_rename_split newName hnodup] at hfree
      refine ⟨.rename ?_, hfree.2⟩
      rw [List.map_append, List.map_cons, List.nodup_middle, List.nodup_cons, ← List.map_append] at hnodup
      rcases hfree.1 with rfl | hnew
      · exact hnodup.1
      · intro hmem
        refine hnew ?_
        rw [List.map_append, List.mem_append] at hmem
        rw [List.map_append, List.map_cons, List.mem_append, List.mem_cons]
        exact hmem.imp_right Or.inr
    · cases h

/-- Changes that the code makes are those described, where no column gets the name of another one. -/
theorem applied_of_foldlM {new next : List IcebergField × Int32}
    (h : changes.foldlM applyChange new = .ok next) (hnodup : (new.1.map (·.name)).Nodup)
    (hfree : RenamesFree (new.1.map (·.name)) changes) : Applied new.1 changes next.1 := by
  induction changes generalizing new with
  | nil =>
    cases h
    exact .nil
  | cons change rest ih =>
    rw [List.foldlM_cons] at h
    cases hstep : applyChange new change with
    | error e =>
      rw [hstep] at h
      cases h
    | ok mid =>
      rw [hstep] at h
      obtain ⟨hchanged, hrest⟩ := changed_of_applyChange hstep hnodup hfree
      exact .cons hchanged (ih h (hchanged.nodup hnodup) hrest)

end Changes

section Reloads
variable {tablePrefix path : String} {state made : IcebergTableState} {changes : List SchemaChange}
  {nowMs : Int64}

/-- A call that succeeds adds a version with the id after the current one, which becomes current. -/
theorem evolveSchema_schemas (hmakes : (Commit.evolveSchema changes nowMs).Makes tablePrefix state made)
    (hloaded : state = stateOf state.metadata path) : ∃ old new,
      schemaById state state.currentSchemaId = some old ∧
      changes.foldlM applyChange (old.fields, ((old.fields.map (·.id)).max?).getD 0) = .ok new ∧
      made.schemas = state.schemas ++ [⟨state.currentSchemaId + 1, new.1⟩] ∧
      made.currentSchemaId = state.currentSchemaId + 1 := by
  obtain ⟨doc, ⟨-, old, new, hold, hnew, hdoc⟩, rfl⟩ := hmakes.produces
  refine ⟨old, new, hold, hnew, ?_, ?_⟩
  · have harray : HasArray state.metadata "schemas" := by
      have hmem := List.mem_of_find?_eq_some hold
      rw [hloaded] at hmem
      exact hasArray_of_mem_parseSchemas hmem
    have hschemas : state.schemas = parseSchemas state.metadata := by rw [hloaded]; rfl
    have hfields : (new.1.map fieldValue).map parseField = new.1 := by
      rw [List.map_map]
      exact List.map_id'' parseField_fieldValue _
    rw [hschemas]
    change parseSchemas doc = _
    unfold parseSchemas
    rw [schemas_evolvedMetadata hdoc harray, List.map_append]
    congr 1
    have hid : i32At (.obj [("type", .str "struct"), ("schema-id", .ofI32 (state.currentSchemaId + 1)),
        ("fields", .arr (new.1.map fieldValue))]) "schema-id" = state.currentSchemaId + 1 :=
      i32At_ofI32 rfl
    rw [List.map_singleton, hid]
    exact congrArg (fun fields => [SchemaVersion.mk (state.currentSchemaId + 1) fields]) hfields
  · exact i32At_ofI32 (get_currentSchema_evolvedMetadata hdoc)

/-- A version that was there is found by its id when the others have other ids. -/
theorem schemaById_eq {version : SchemaVersion} (hids : (state.schemas.map (·.schemaId)).Nodup)
    (hmem : version ∈ state.schemas) : schemaById state version.schemaId = some version := by
  obtain ⟨before, after, heq⟩ := List.append_of_mem hmem
  unfold schemaById
  rw [heq] at hids ⊢
  rw [List.map_append, List.map_cons, List.nodup_middle, List.nodup_cons, List.mem_append] at hids
  have hnone : before.find? (·.schemaId = version.schemaId) = none := by
    rw [List.find?_eq_none]
    intro other hother hsame
    exact hids.1 (Or.inl (List.mem_map.mpr ⟨other, hother, of_decide_eq_true hsame⟩))
  rw [List.find?_append, hnone, Option.none_or, List.find?_cons_of_pos (by simp)]

/-- An evolved schema is as it should be just when no column gets the name of another one, and no
version has the next id but one that is already what the changes make. -/
theorem evolves_iff (hloaded : state = stateOf state.metadata path)
    (hids : (state.schemas.map (·.schemaId)).Nodup) {old : SchemaVersion}
    (hold : schemaById state state.currentSchemaId = some old)
    (hnames : (old.fields.map (·.name)).Nodup)
    (hmakes : (Commit.evolveSchema changes nowMs).Makes tablePrefix state made) :
    Evolves state changes made ↔ RenamesFree (old.fields.map (·.name)) changes ∧
      ∀ version ∈ state.schemas, version.schemaId = state.currentSchemaId + 1 →
        Applied old.fields changes version.fields := by
  obtain ⟨old', new, hold', hnew, hschemas, hcurrent⟩ := evolveSchema_schemas hmakes hloaded
  obtain rfl := Option.some.inj (hold'.symm.trans hold)
  have hearlier : ∀ version ∈ state.schemas, schemaById made version.schemaId = some version := by
    intro version hversion
    have hfound := schemaById_eq hids hversion
    unfold schemaById at hfound ⊢
    rw [hschemas, List.find?_append, hfound, Option.some_or]
  constructor
  · intro h
    obtain ⟨first, last, hfirst, hlast, happlied⟩ := h.current
    obtain rfl := Option.some.inj (hold.symm.trans hfirst)
    refine ⟨happlied.renamesFree hnames, fun version hversion hid => ?_⟩
    have hfound := hearlier version hversion
    rw [hid, ← hcurrent, hlast] at hfound
    obtain rfl := Option.some.inj hfound
    exact happlied
  · rintro ⟨hfree, htaken⟩
    have happlied : ∃ last, schemaById made made.currentSchemaId = some last ∧
        Applied old'.fields changes last.fields := by
      cases htaken' : schemaById state (state.currentSchemaId + 1) with
      | some version =>
        have hversion := List.mem_of_find?_eq_some htaken'
        unfold schemaById at htaken'
        have hid : version.schemaId = state.currentSchemaId + 1 := by
          simpa using List.find?_some htaken'
        refine ⟨version, ?_, htaken version hversion hid⟩
        rw [hcurrent, ← hid]
        exact hearlier version hversion
      | none =>
        refine ⟨⟨state.currentSchemaId + 1, new.1⟩, ?_, applied_of_foldlM hnew hnames hfree⟩
        unfold schemaById at htaken' ⊢
        rw [hschemas, hcurrent, List.find?_append, htaken', Option.none_or,
          List.find?_cons_of_pos (by simp)]
    obtain ⟨last, hlast, happlied⟩ := happlied
    refine ⟨⟨old', last, hold, hlast, happlied⟩, ?_, hearlier⟩
    intro other hother
    obtain rfl := Option.some.inj (hlast.symm.trans hother)
    exact happlied.nodup hnames

end Reloads

section Customers

def customersSchema : SchemaVersion := ⟨0, [⟨1, "id", true, "long"⟩, ⟨2, "name", false, "string"⟩]⟩

theorem schemaById_customersCreated :
    schemaById customersCreated customersCreated.currentSchemaId = some customersSchema := by
  decide +kernel

/-- A column renamed and one added. -/
theorem evolves_iff_customers : ∃ made,
    (Commit.evolveSchema [.renameColumn "name" "full_name", .addColumn "email" "string" true] 2000).Makes
        "customers" customersCreated made ∧
      Evolves customersCreated
        [.renameColumn "name" "full_name", .addColumn "email" "string" true] made := by
  obtain ⟨doc, hdoc⟩ : ∃ doc, (Commit.evolveSchema [.renameColumn "name" "full_name",
      .addColumn "email" "string" true] 2000).Produces "customers" customersCreated doc :=
    ⟨_, by simp, _, _, rfl, rfl, rfl⟩
  have hmakes := Commit.makes_of_produces hdoc
  have hids : (customersCreated.schemas.map (·.schemaId)).Nodup := by decide +kernel
  have hnames : (customersSchema.fields.map (·.name)).Nodup := by decide
  have hnext : ∀ version ∈ customersCreated.schemas,
      version.schemaId ≠ customersCreated.currentSchemaId + 1 :=
    List.all_iff_forall_prop.mp (by decide +kernel)
  have hfree : RenamesFree (customersSchema.fields.map (·.name))
      [.renameColumn "name" "full_name", .addColumn "email" "string" true] :=
    ⟨Or.inr (by decide), trivial⟩
  have hiff := evolves_iff rfl hids schemaById_customersCreated hnames hmakes
  exact ⟨_, hmakes, hiff.mpr ⟨hfree, fun version hversion hid => absurd hid (hnext version hversion)⟩⟩

/-- A column gets the name of another one. -/
theorem not_evolves_customers : ∃ made,
    (Commit.evolveSchema [.renameColumn "name" "id"] 2000).Makes "customers" customersCreated made ∧
      ¬ Evolves customersCreated [.renameColumn "name" "id"] made := by
  obtain ⟨doc, hdoc⟩ : ∃ doc, (Commit.evolveSchema [.renameColumn "name" "id"] 2000).Produces
      "customers" customersCreated doc := ⟨_, by simp, _, _, rfl, rfl, rfl⟩
  refine ⟨_, Commit.makes_of_produces hdoc, fun h => ?_⟩
  obtain ⟨first, last, hfirst, -, happlied⟩ := h.current
  obtain rfl := Option.some.inj (schemaById_customersCreated.symm.trans hfirst)
  have hfree := happlied.renamesFree (by decide)
  rcases hfree.1 with hsame | hnew
  · exact absurd hsame (by decide)
  · exact absurd hnew (by decide)

end Customers
end RustLake.Iceberg
