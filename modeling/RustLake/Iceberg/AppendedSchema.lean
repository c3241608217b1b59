import RustLake.Iceberg.Evolution

/-! Which columns a table has after an append, and which ids. -/
namespace RustLake.Iceberg
open RustLake.Json RustLake.ObjectStore

/-- The fields are the columns of the batches by name and type. -/
def ListsColumns (fields : List IcebergField) (schema : ArrowSchema) : Prop :=
  fields.map (fun f => (f.name, f.typeStr)) =
    schema.map fun field => (field.name, arrowToIcebergType field.dataType)

/-- A column from before that is among the new ones has its id there. -/
def KeepsIds (old : List IcebergField) (schema : ArrowSchema) (new : List IcebergField) : Prop :=
  ∀ f ∈ old, f.name ∈ schema.map (·.name) → ∃ g ∈ new, g.name = f.name ∧ g.id = f.id

/-- The schema current after an append lists the appended columns, and those that existed keep their
ids. -/
structure KeepsColumns (state : IcebergTableState) (schema : ArrowSchema) (made : IcebergTableState) :
    Prop where
  listed : ∃ new, schemaById made made.currentSchemaId = some new ∧ ListsColumns new.fields schema
  kept : ∀ old new, schemaById state state.currentSchemaId = some old →
    schemaById made made.currentSchemaId = some new → KeepsIds old.fields schema new.fields

/-- The id that an append gives to the column at a place: the place counted from 1. -/
def placeId (i : ℕ) : Int32 := asI32 (((Value.num (i + 1)).asI64).getD 0)

/-- As many columns as before are the same ones. With another number, the columns from before have
their places as ids, and the next version is not there yet, or is right as it is. -/
structure ColumnsFit (state : IcebergTableState) (schema : ArrowSchema) : Prop where
  unchanged : schema.length = currentFields state →
    ∃ old, schemaById state state.currentSchemaId = some old ∧ ListsColumns old.fields schema
  taken : schema.length ≠ currentFields state →
    ∀ version, schemaById state (state.currentSchemaId + 1) = some version →
      ListsColumns version.fields schema ∧ ∀ old, schemaById state state.currentSchemaId = some old →
        KeepsIds old.fields schema version.fields
  renumbered : schema.length ≠ currentFields state →
    schemaById state (state.currentSchemaId + 1) = none → HasArray state.metadata "schemas" ∧
      ∀ old, schemaById state state.currentSchemaId = some old → ∀ f ∈ old.fields,
        f.name ∈ schema.map (·.name) → ∃ i, (schema.map (·.name))[i]? = some f.name ∧ f.id = placeId i

theorem placeId_eq {i : ℕ} (h : i + 1 < 2 ^ 63) : placeId i = Int32.ofNat (i + 1) := by
  have hrange : (-2 ^ 63 : ℤ) ≤ i + 1 ∧ (i + 1 : ℤ) < 2 ^ 63 := by omega
  unfold placeId asI32 Value.asI64
  dsimp only
  rw [if_pos hrange, Option.getD_some, Int64.toInt32_ofInt]
  exact Int32.ofInt_eq_ofNat

/-- The fields that an append writes, as they are read again. -/
def placedFields (schema : ArrowSchema) : List IcebergField :=
  schema.zipIdx.map fun e =>
    ⟨placeId e.2, e.1.name, !e.1.nullable, arrowToIcebergType e.1.dataType⟩

section Fields
variable {schema : ArrowSchema}

theorem i32At_place {field : Value} {i : ℕ} (h : field.get "id" = some (.num (i + 1))) :
    i32At field "id" = placeId i := by
  unfold i32At i64At placeId
  rw [h, Option.bind_some]

theorem parseField_place (i : ℕ) (name typeStr : String) (required : Bool) :
    parseField (.obj [("id", .num (i + 1)), ("name", .str name), ("required", .bool required),
      ("type", .str typeStr)]) = ⟨placeId i, name, required, typeStr⟩ := by
  unfold parseField strAt
  rw [i32At_place rfl]
  rfl

theorem parseField_icebergFields : (icebergFields schema).map parseField = placedFields schema := by
  unfold icebergFields placedFields
  rw [List.map_map]
  exact List.map_congr_left fun e _ => parseField_place e.2 _ _ _

theorem placedFields_lists : ListsColumns (placedFields schema) schema := by
  unfold ListsColumns placedFields
  rw [List.map_map]
  have hfirst : ((fun f : IcebergField => (f.name, f.typeStr)) ∘ fun e : ArrowField × ℕ =>
      (⟨placeId e.2, e.1.name, !e.1.nullable, arrowToIcebergType e.1.dataType⟩ : IcebergField)) =
      (fun field => (field.name, arrowToIcebergType field.dataType)) ∘ Prod.fst := rfl
  rw [hfirst, ← List.map_map, List.zipIdx_map_fst]

theorem placedFields_keeps_iff {f : IcebergField} :
    (∃ g ∈ placedFields schema, g.name = f.name ∧ g.id = f.id) ↔
      ∃ i, (schema.map (·.name))[i]? = some f.name ∧ f.id = placeId i := by
  unfold placedFields
  constructor
  · rintro ⟨g, hg, hname, hid⟩
    obtain ⟨⟨field, i⟩, hfield, rfl⟩ := List.mem_map.mp hg
    refine ⟨i, ?_, hid.symm⟩
    rw [List.getElem?_map, List.mk_mem_zipIdx_iff_getElem?.mp hfield, Option.map_some]
    exact congrArg some hname
  · rintro ⟨i, hname, hid⟩
    rw [List.getElem?_map] at hname
    obtain ⟨field, hfield, hname⟩ := Option.map_eq_some_iff.mp hname
    exact ⟨_, List.mem_map.mpr ⟨(field, i), List.mk_mem_zipIdx_iff_getElem?.mpr hfield, rfl⟩, hname,
      hid.symm⟩

end Fields

section Reloads
variable {tablePrefix path operation : String} {state made : IcebergTableState} {schema : ArrowSchema}
  {files : List DataFileInfo} {nowMs : Int64}

/-- The versions and the current id after an append. -/
theorem appendSnapshot_schemas (hmakes : (Commit.append files schema operation nowMs).Makes tablePrefix
    state made) (hloaded : state = stateOf state.metadata path) :
    (schema.length = currentFields state → made.schemas = state.schemas ∧
      made.currentSchemaId = state.currentSchemaId) ∧
    (schema.length ≠ currentFields state →
      made.currentSchemaId = state.currentSchemaId + 1 ∧
      (HasArray state.metadata "schemas" → made.schemas = state.schemas ++
        [⟨state.currentSchemaId + 1, placedFields schema⟩]) ∧
      (¬ HasArray state.metadata "schemas" → made.schemas = [])) := by
  obtain ⟨doc, ⟨-, hdoc⟩, rfl⟩ := hmakes.produces
  have hschemas : state.schemas = parseSchemas state.metadata := by rw [hloaded]; rfl
  have hid : state.currentSchemaId = i32At state.metadata "current-schema-id" := by rw [hloaded]; rfl
  have hcurrent := get_currentSchema_appendedMetadata hdoc
  have hnone : ¬ HasArray state.metadata "schemas" → parseSchemas doc = [] := by
    intro hnone
    unfold parseSchemas
    rw [schemas_appendedMetadata_of_not hdoc hnone, List.map_nil]
  constructor
  · intro hcount
    rw [if_pos hcount] at hcurrent
    refine ⟨?_, ?_⟩
    · rw [hschemas]
      change parseSchemas doc = _
      by_cases harray : HasArray state.metadata "schemas"
      · have hlist := schemas_appendedMetadata hdoc harray
        rw [if_pos hcount, List.append_nil] at hlist
        unfold parseSchemas
        rw [hlist]
      · rw [hnone harray]
        unfold parseSchemas
        rw [arrayAt_of_not_hasArray harray, List.map_nil]
    · rw [hid]
      change i32At doc "current-schema-id" = _
      unfold i32At i64At
      rw [hcurrent]
  · intro hcount
    rw [if_neg hcount] at hcurrent
    refine ⟨i32At_ofI32 hcurrent, fun harray => ?_, hnone⟩
    rw [hschemas]
    change parseSchemas doc = _
    unfold parseSchemas
    rw [schemas_appendedMetadata hdoc harray, if_neg hcount, List.map_append]
    congr 1
    have hnext : i32At (.obj [("type", .str "struct"), ("schema-id", .ofI32 (state.currentSchemaId + 1)),
        ("fields", .arr (icebergFields schema))]) "schema-id" = state.currentSchemaId + 1 :=
      i32At_ofI32 rfl
    rw [List.map_singleton, hnext, ← parseField_icebergFields]
    rfl

/-- An append makes the columns as they should be just when the table fits them. -/
theorem keepsColumns_iff (hloaded : state = stateOf state.metadata path)
    (hmakes : (Commit.append files schema operation nowMs).Makes tablePrefix state made) :
    KeepsColumns state schema made ↔ ColumnsFit state schema := by
  obtain ⟨hsame, hmore⟩ := appendSnapshot_schemas hmakes hloaded
  by_cases hcount : schema.length = currentFields state
  · obtain ⟨hschemas, hid⟩ := hsame hcount
    have hcurrent : schemaById made made.currentSchemaId = schemaById state state.currentSchemaId := by
      unfold schemaById
      rw [hschemas, hid]
    constructor
    · intro h
      refine ⟨fun _ => ?_, fun hne => absurd hcount hne, fun hne => absurd hcount hne⟩
      rw [← hcurrent]
      exact h.listed
    · intro h
      refine ⟨?_, ?_⟩
      · rw [hcurrent]
        exact h.unchanged hcount
      · intro old new hold hnew f hf _
        rw [hcurrent, hold] at hnew
        obtain rfl := Option.some.inj hnew
        exact ⟨f, hf, rfl, rfl⟩
  · obtain ⟨hid, harray, hnone⟩ := hmore hcount
    cases htaken : schemaById state (state.currentSchemaId + 1) with
    | some version =>
      have hsome : HasArray state.metadata "schemas" := by
        have hmem := List.mem_of_find?_eq_some htaken
        rw [hloaded] at hmem
        exact hasArray_of_mem_parseSchemas hmem
      have hcurrent : schemaById made made.currentSchemaId = some version := by
        unfold schemaById at htaken ⊢
        rw [hid, harray hsome, List.find?_append, htaken, Option.some_or]
      constructor
      · intro h
        refine ⟨fun heq => absurd heq hcount, fun _ other hother => ?_, fun _ hfree => ?_⟩
        · obtain rfl := Option.some.inj (htaken.symm.trans hother)
          obtain ⟨new, hnew, hlists⟩ := h.listed
          obtain rfl := Option.some.inj (hcurrent.symm.trans hnew)
          exact ⟨hlists, fun old hold => h.kept old _ hold hcurrent⟩
        · rw [htaken] at hfree
          cases hfree
      · intro h
        obtain ⟨hlists, hkept⟩ := h.taken hcount version htaken
        refine ⟨⟨version, hcurrent, hlists⟩, fun old new hold hnew => ?_⟩
        obtain rfl := Option.some.inj (hcurrent.symm.trans hnew)
        exact hkept old hold
    | none =>
      by_cases hsome : HasArray state.metadata "schemas"
      · have hcurrent : schemaById made made.currentSchemaId =
            some ⟨state.currentSchemaId + 1, placedFields schema⟩ := by
          unfold schemaById at htaken ⊢
          rw [hid, harray hsome, List.find?_append, htaken, Option.none_or,
            List.find?_cons_of_pos (by simp)]
        constructor
        · intro h
          refine ⟨fun heq => absurd heq hcount, fun _ other hother => ?_, fun _ _ => ⟨hsome, ?_⟩⟩
          · rw [htaken] at hother
            cases hother
          · intro old hold f hf hname
            exact placedFields_keeps_iff.mp (h.kept old _ hold hcurrent f hf hname)
        · intro h
          refine ⟨⟨_, hcurrent, placedFields_lists⟩, fun old new hold hnew f hf hname => ?_⟩
          obtain rfl := Option.some.inj (hcurrent.symm.trans hnew)
          exact placedFields_keeps_iff.mpr ((h.renumbered hcount htaken).2 old hold f hf hname)
      · constructor
        · intro h
          obtain ⟨new, hnew, -⟩ := h.listed
          unfold schemaById at hnew
          rw [hnone hsome] at hnew
          cases hnew
        · exact fun h => absurd (h.renumbered hcount htaken).1 hsome

end Reloads

section Customers

def withEmail : ArrowSchema := [⟨"id", .int64, false⟩, ⟨"name", .utf8, true⟩, ⟨"email", .utf8, true⟩]

/-- Batches with another column at the end. -/
theorem keepsColumns_iff_customers : ∃ made,
    (Commit.append [⟨"customers/part-1.parquet", 700, 2⟩] withEmail "append" 2000).Makes "customers"
        customersCreated made ∧ KeepsColumns customersCreated withEmail made := by
  obtain ⟨doc, hdoc⟩ : ∃ doc, (Commit.append [⟨"customers/part-1.parquet", 700, 2⟩] withEmail "append"
      2000).Produces "customers" customersCreated doc := ⟨_, by simp, rfl⟩
  have hmakes := Commit.makes_of_produces hdoc
  have hcount : withEmail.length ≠ currentFields customersCreated := by decide +kernel
  have hfit : ColumnsFit customersCreated withEmail := by
    refine ⟨fun heq => absurd heq hcount, fun _ version hversion => ?_, fun _ _ => ⟨⟨_, rfl⟩, ?_⟩⟩
    · have hnone : schemaById customersCreated (customersCreated.currentSchemaId + 1) = none := by
        decide +kernel
      rw [hnone] at hversion
      cases hversion
    · intro old hold f hf _
      obtain rfl := Option.some.inj (schemaById_customersCreated.symm.trans hold)
      rcases List.mem_cons.mp hf with rfl | hf
      · exact ⟨0, rfl, (placeId_eq (by decide)).symm⟩
      · obtain rfl := List.mem_singleton.mp hf
        exact ⟨1, rfl, (placeId_eq (by decide)).symm⟩
  exact ⟨_, hmakes, (keepsColumns_iff rfl hmakes).mpr hfit⟩

/-- As many columns as before, but another one among them. -/
theorem not_keepsColumns_customers : ∃ made,
    (Commit.append [⟨"customers/part-1.parquet", 700, 2⟩]
        [⟨"id", .int64, false⟩, ⟨"email", .utf8, true⟩] "append" 2000).Makes "customers"
        customersCreated made ∧
      ¬ KeepsColumns customersCreated [⟨"id", .int64, false⟩, ⟨"email", .utf8, true⟩] made := by
  obtain ⟨doc, hdoc⟩ : ∃ doc, (Commit.append [⟨"customers/part-1.parquet", 700, 2⟩]
      [⟨"id", .int64, false⟩, ⟨"email", .utf8, true⟩] "append" 2000).Produces "customers"
      customersCreated doc := ⟨_, by simp, rfl⟩
  have hmakes := Commit.makes_of_produces hdoc
  refine ⟨_, hmakes, fun h => ?_⟩
  obtain ⟨hschemas, hid⟩ := (appendSnapshot_schemas hmakes rfl).1 (by decide +kernel)
  obtain ⟨new, hnew, hlists⟩ := h.listed
  unfold schemaById at hnew
  rw [hschemas, hid] at hnew
  obtain rfl := Option.some.inj (schemaById_customersCreated.symm.trans hnew)
  exact absurd hlists (by unfold ListsColumns; decide +kernel)

end Customers
end RustLake.Iceberg
