import Mathlib.Data.Bool.AllAny
import RustLake.Iceberg.Lineage

/-! Column ids: what a call of `evolve_schema` assigns, and when no id is given to a second
column. The call counts on from the greatest id of the current schema version. -/
namespace RustLake.Iceberg
open RustLake.Json RustLake.ObjectStore RustLake.Text

/-- The ids of the columns of all schema versions. -/
def columnIds (state : IcebergTableState) : List Int32 :=
  state.schemas.flatMap fun version => version.fields.map (·.id)

def lastColumnId (state : IcebergTableState) : ℤ := intAt state.metadata "last-column-id"

/-- What `evolve_schema` starts from: the fields of the current version and the greatest id. -/
def evolutionStart (state : IcebergTableState) : List IcebergField × Int32 :=
  let fields :=
    ((state.schemas.find? (·.schemaId = state.currentSchemaId)).map (·.fields)).getD []
  (fields, ((fields.map (·.id)).max?).getD 0)

/-- The ids of the fields that the changes add one after the other. -/
def assignedIds (new : List IcebergField × Int32) : List SchemaChange → List Int32
  | [] => []
  | change :: rest => match applyChange new change with
    | .ok next => (next.1.drop new.1.length).map (·.id) ++ assignedIds next rest
    | .error _ => []

def SchemaChange.isAdd : SchemaChange → Bool
  | .addColumn .. => true
  | _ => false

/-- Calls of `evolve_schema`, each with the table it was applied to, the latest first. The
first one is applied to `start` and the others to the table reloaded after the one before. -/
inductive SchemaRun (tablePrefix : String)
    (allowed : IcebergTableState → List SchemaChange → Prop) (start : IcebergTableState) :
    List (IcebergTableState × List SchemaChange) → IcebergTableState → Prop
  | start : SchemaRun tablePrefix allowed start [] start
  | evolve {calls : List (IcebergTableState × List SchemaChange)}
      {state made : IcebergTableState} {changes : List SchemaChange} {nowMs : Int64} :
      SchemaRun tablePrefix allowed start calls state → allowed state changes →
      (Commit.evolveSchema changes nowMs).Makes tablePrefix state made →
      SchemaRun tablePrefix allowed start ((state, changes) :: calls) made

/-- The ids that the calls have given to new columns. -/
def assigned (calls : List (IcebergTableState × List SchemaChange)) : List Int32 :=
  calls.flatMap fun call => assignedIds (evolutionStart call.1) call.2

/-- Each new column got an id of its own, which no column of the table had, no other ids came
up, and the last column id never decreased. -/
structure NeverReuses (start : IcebergTableState)
    (calls : List (IcebergTableState × List SchemaChange)) (state : IcebergTableState) :
    Prop where
  distinct : (assigned calls).Nodup
  fresh : ∀ id ∈ assigned calls, id ∉ columnIds start
  columns : ∀ id ∈ columnIds state, id ∈ columnIds start ∨ id ∈ assigned calls
  lastColumn : (lastColumnId state :: calls.map fun call => lastColumnId call.1).Pairwise
    fun later earlier => earlier ≤ later

/-- The greatest id of the current version has reached the last column id, and no version has
one of the ids that the new columns get next. -/
def CountsOn (state : IcebergTableState) (changes : List SchemaChange) : Prop :=
  let greatest := (evolutionStart state).2.toInt
  let adds := (changes.countP SchemaChange.isAdd : ℤ)
  lastColumnId state ≤ greatest ∧ greatest + adds < 2 ^ 31 ∧
    ∀ id ∈ columnIds state, id.toInt ≤ greatest ∨ greatest + adds < id.toInt

/-- A written field reads back as itself. -/
theorem parseField_fieldValue (f : IcebergField) : parseField (fieldValue f) = f := by
  have hid : (fieldValue f).get "id" = some (.ofI32 f.id) := rfl
  have hname : (fieldValue f).get "name" = some (.str f.name) := rfl
  have hrequired : (fieldValue f).get "required" = some (.bool f.required) := rfl
  have htype : (fieldValue f).get "type" = some (.str f.typeStr) := rfl
  simp [parseField, i32At, i64At, strAt, hid, hname, hrequired, htype, asI64_ofI32, Value.asStr,
    Value.asBool]

theorem columnIds_evolved {state : IcebergTableState} {newFields : List IcebergField}
    {maxId : Int32} {nowMs : Int64} {doc : Value} {path path' : String}
    (h : evolvedMetadata state newFields maxId nowMs = some doc)
    (harray : HasArray state.metadata "schemas") (hloaded : state = stateOf state.metadata path) :
    columnIds (stateOf doc path') = columnIds state ++ newFields.map (·.id) := by
  have hfields : (newFields.map fieldValue).map parseField = newFields := by
    rw [List.map_map]
    exact List.map_id'' parseField_fieldValue _
  have hschemas : state.schemas = parseSchemas state.metadata := by rw [hloaded]; rfl
  unfold columnIds
  rw [hschemas]
  change (parseSchemas doc).flatMap _ = _
  unfold parseSchemas
  rw [schemas_evolvedMetadata h harray, List.map_append, List.flatMap_append]
  congr 1
  simp only [List.map_cons, List.map_nil, List.flatMap_cons, List.flatMap_nil, List.append_nil]
  exact congrArg (List.map (·.id)) hfields

theorem toInt_succ {n : Int32} (h : n.toInt + 1 < 2 ^ 31) : (n + 1).toInt = n.toInt + 1 := by
  have hlo := n.le_toInt
  rw [Int32.toInt_add]
  exact Int.bmod_eq_of_le (by simp; omega) (by simp; omega)

theorem renameField_ids {oldName newName : String} {fields kept : List IcebergField}
    (h : renameField oldName newName fields = some kept) :
    kept.map (·.id) = fields.map (·.id) := by
  induction fields generalizing kept with
  | nil => cases h
  | cons f fs ih =>
    unfold renameField at h
    split at h
    · cases h
      rfl
    · obtain ⟨rest, hrest, rfl⟩ := Option.map_eq_some_iff.mp h
      rw [List.map_cons, List.map_cons, ih hrest]

/-- What one change does to the ids: an added column gets the next one, and the other changes
keep the greatest id and give no column another one. -/
theorem applyChange_ids {new next : List IcebergField × Int32} {change : SchemaChange}
    (h : applyChange new change = .ok next) :
    (change.isAdd = true ∧ next.2 = new.2 + 1 ∧
      (next.1.drop new.1.length).map (·.id) = [next.2] ∧
      next.1.map (·.id) = new.1.map (·.id) ++ [next.2]) ∨
    (change.isAdd = false ∧ next.2 = new.2 ∧ (next.1.drop new.1.length).map (·.id) = [] ∧
      (next.1.map (·.id)).Sublist (new.1.map (·.id))) := by
  cases change with
  | addColumn name typeStr nullable =>
    simp only [applyChange] at h
    split at h
    · cases h
    · cases h
      exact Or.inl ⟨rfl, rfl, by simp, by simp⟩
  | dropColumn name =>
    simp only [applyChange] at h
    split at h
    · cases h
    · cases h
      have hsub : (new.1.filter (·.name ≠ name)).Sublist new.1 := List.filter_sublist
      refine Or.inr ⟨rfl, rfl, ?_, hsub.map _⟩
      rw [List.drop_eq_nil_of_le hsub.length_le, List.map_nil]
  | renameColumn oldName newName =>
    simp only [applyChange] at h
    split at h
    · rename_i fields hfields
      cases h
      have hids := renameField_ids hfields
      have hlen : fields.length = new.1.length := by simpa using congrArg List.length hids
      refine Or.inr ⟨rfl, rfl, ?_, hids ▸ List.Sublist.refl _⟩
      rw [List.drop_eq_nil_of_le hlen.le, List.map_nil]
    · cases h

/-- The changes of a call assign the ids that follow the greatest one, one by one. -/
theorem assignedIds_spec {changes : List SchemaChange} {new next : List IcebergField × Int32}
    (h : changes.foldlM applyChange new = .ok next)
    (hbound : new.2.toInt + changes.countP SchemaChange.isAdd < 2 ^ 31) :
    next.2.toInt = new.2.toInt + changes.countP SchemaChange.isAdd ∧
      (∀ id ∈ assignedIds new changes, new.2.toInt < id.toInt ∧ id.toInt ≤ next.2.toInt) ∧
      (assignedIds new changes).Nodup ∧
      ∀ id ∈ next.1.map (·.id), id ∈ new.1.map (·.id) ∨ id ∈ assignedIds new changes := by
  induction changes generalizing new with
  | nil =>
    cases h
    exact ⟨by simp, by simp [assignedIds], List.nodup_nil, fun id hid => Or.inl hid⟩
  | cons change rest ih =>
    rw [List.foldlM_cons] at h
    cases hstep : applyChange new change with
    | error e =>
      rw [hstep] at h
      cases h
    | ok mid =>
      rw [hstep] at h
      have hassigned : assignedIds new (change :: rest) =
          (mid.1.drop new.1.length).map (·.id) ++ assignedIds mid rest := by
        simp [assignedIds, hstep]
      rw [hassigned]
      rcases applyChange_ids hstep with ⟨hadd, hnext, hdrop, hids⟩ | ⟨hadd, hnext, hdrop, hids⟩
      · rw [List.countP_cons_of_pos hadd] at hbound ⊢
        push_cast at hbound ⊢
        have hmid : mid.2.toInt = new.2.toInt + 1 := by
          rw [hnext]
          exact toInt_succ (by omega)
        obtain ⟨hlast, hrange, hnodup, hcolumns⟩ := ih h (by omega)
        rw [hdrop]
        refine ⟨by omega, ?_, ?_, ?_⟩
        · intro id hid
          rcases List.mem_cons.mp hid with rfl | hlater
          · omega
          · have hid' := hrange id hlater
            omega
        · refine List.nodup_cons.mpr ⟨fun hmem => ?_, hnodup⟩
          have hself := (hrange _ hmem).1
          omega
        · intro id hid
          rcases hcolumns id hid with hmid' | hlater
          · rw [hids] at hmid'
            rcases List.mem_append.mp hmid' with hold | hnew
            · exact Or.inl hold
            · exact Or.inr (List.mem_append_left _ hnew)
          · exact Or.inr (List.mem_append_right _ hlater)
      · rw [List.countP_cons_of_neg (by simp [hadd])] at hbound ⊢
        rw [hdrop, List.nil_append]
        rw [← hnext] at hbound ⊢
        obtain ⟨hlast, hrange, hnodup, hcolumns⟩ := ih h hbound
        refine ⟨hlast, hrange, hnodup, fun id hid => ?_⟩
        exact (hcolumns id hid).imp_left fun hmid => hids.subset hmid

theorem hasArray_of_mem_parseSchemas {doc : Value} {version : SchemaVersion}
    (h : version ∈ parseSchemas doc) : HasArray doc "schemas" := by
  unfold parseSchemas arrayAt at h
  cases hget : doc.get "schemas" with
  | none => simp [hget] at h
  | some v =>
    cases v with
    | arr items => exact ⟨items, hget⟩
    | _ => simp [hget, Value.asArray] at h

/-- What a call under the condition makes of a table: new ids above the greatest one, and the
schema version and the last column id that go with them. -/
theorem evolveSchema_ids {tablePrefix path : String} {state made : IcebergTableState}
    {changes : List SchemaChange} {nowMs : Int64}
    (hmakes : (Commit.evolveSchema changes nowMs).Makes tablePrefix state made)
    (hloaded : state = stateOf state.metadata path) (hcounts : CountsOn state changes) :
    (∃ path, made = stateOf made.metadata path) ∧
      lastColumnId state ≤ lastColumnId made ∧ columnIds state ⊆ columnIds made ∧
      (assignedIds (evolutionStart state) changes).Nodup ∧
      (∀ id ∈ assignedIds (evolutionStart state) changes, lastColumnId state < id.toInt ∧
        id.toInt ≤ lastColumnId made ∧ id ∉ columnIds state) ∧
      ∀ id ∈ columnIds made, id ∈ columnIds state ∨
        id ∈ assignedIds (evolutionStart state) changes := by
  obtain ⟨doc, ⟨-, current, new, hcurrent, hnew, hdoc⟩, rfl⟩ := hmakes.produces
  obtain ⟨hreached, hbound, hclear⟩ := hcounts
  have hstart : evolutionStart state =
      (current.fields, ((current.fields.map (·.id)).max?).getD 0) := by
    unfold evolutionStart
    rw [hcurrent]
    rfl
  have hmem : current ∈ state.schemas := List.mem_of_find?_eq_some hcurrent
  have harray : HasArray state.metadata "schemas" := by
    rw [hloaded] at hmem
    exact hasArray_of_mem_parseSchemas hmem
  rw [← hstart] at hnew
  obtain ⟨hnext, hrange, hnodup, hfields⟩ := assignedIds_spec hnew hbound
  have hlast : lastColumnId (stateOf doc ((Commit.evolveSchema changes nowMs).target tablePrefix
      state)) = new.2.toInt := by
    have hread : (stateOf doc ((Commit.evolveSchema changes nowMs).target tablePrefix
        state)).metadata = doc := rfl
    unfold lastColumnId intAt
    rw [hread, get_lastColumn_evolvedMetadata hdoc]
    rfl
  rw [hlast, columnIds_evolved hdoc harray hloaded]
  refine ⟨⟨_, rfl⟩, by omega, List.subset_append_left _ _, hnodup, ?_, ?_⟩
  · intro id hid
    obtain ⟨hlo, hhi⟩ := hrange id hid
    refine ⟨by omega, hhi, fun hold => ?_⟩
    rcases hclear id hold with hle | hgt
    · omega
    · omega
  · intro id hid
    rcases List.mem_append.mp hid with hold | hadded
    · exact Or.inl hold
    · rcases hfields id hadded with hkept | hassigned
      · rw [hstart] at hkept
        exact Or.inl (List.mem_flatMap.mpr ⟨current, hmem, hkept⟩)
      · exact Or.inr hassigned

section Run
variable {tablePrefix path : String} {start state : IcebergTableState}
  {calls : List (IcebergTableState × List SchemaChange)}

/-- Along a run the versions keep their ids, and the last column id has reached all assigned
ones. -/
theorem neverReuses_bounded (hstart : start = stateOf start.metadata path)
    (h : SchemaRun tablePrefix CountsOn start calls state) :
    NeverReuses start calls state ∧ (∃ path, state = stateOf state.metadata path) ∧
      columnIds start ⊆ columnIds state ∧ ∀ id ∈ assigned calls, id.toInt ≤ lastColumnId state := by
  induction h with
  | start =>
    refine ⟨⟨List.nodup_nil, by simp [assigned], fun id hid => Or.inl hid,
      List.pairwise_singleton _ _⟩, ⟨path, hstart⟩, List.Subset.refl _, by simp [assigned]⟩
  | @evolve calls state made changes nowMs hrun hallowed hmakes ih =>
    obtain ⟨hold, ⟨_, hloaded⟩, hsub, hbelow⟩ := ih
    obtain ⟨hmade, hlast, hgrow, hnodup, hnew, hcolumns⟩ :=
      evolveSchema_ids hmakes hloaded hallowed
    have hassigned : assigned ((state, changes) :: calls) =
        assignedIds (evolutionStart state) changes ++ assigned calls := rfl
    refine ⟨⟨?_, ?_, ?_, ?_⟩, hmade, List.Subset.trans hsub hgrow, ?_⟩
    · rw [hassigned]
      refine List.nodup_append'.mpr ⟨hnodup, hold.distinct, fun id hid hid' => ?_⟩
      have hlt := (hnew id hid).1
      have hle := hbelow id hid'
      omega
    · intro id hid
      rcases List.mem_append.mp (hassigned ▸ hid) with hadded | hearlier
      · exact fun hmem => (hnew id hadded).2.2 (hsub hmem)
      · exact hold.fresh id hearlier
    · intro id hid
      rw [hassigned]
      rcases hcolumns id hid with hkept | hadded
      · exact (hold.columns id hkept).imp_right (List.mem_append_right _)
      · exact Or.inr (List.mem_append_left _ hadded)
    · refine List.pairwise_cons.mpr ⟨fun n hn => ?_, hold.lastColumn⟩
      rcases List.mem_cons.mp hn with rfl | hearlier
      · exact hlast
      · exact ((List.pairwise_cons.mp hold.lastColumn).1 n hearlier).trans hlast
    · intro id hid
      rcases List.mem_append.mp (hassigned ▸ hid) with hadded | hearlier
      · exact (hnew id hadded).2.1
      · exact (hbelow id hearlier).trans hlast

/-- Calls that all count on from the last column id never give an id to a second column. -/
theorem neverReuses_of_countsOn (hstart : start = stateOf start.metadata path)
    (h : SchemaRun tablePrefix CountsOn start calls state) : NeverReuses start calls state :=
  (neverReuses_bounded hstart h).1

end Run

section Customers

/-- A new table with two columns. -/
def customersCreated : IcebergTableState :=
  stateOf (initialMetadata "s3://lake/customers" [⟨"id", .int64, false⟩, ⟨"name", .utf8, true⟩]
    [⟨"customers/part-0.parquet", 900, 3⟩] "7d10" 1000) "customers/metadata/v1.metadata.json"

/-- The table after its second column has been dropped. -/
def customersDropped : IcebergTableState :=
  stateOf ((evolvedMetadata customersCreated [⟨1, "id", true, "long"⟩] 2 2000).getD .null)
    "customers/metadata/v2.metadata.json"

/-- Two columns added to a new table. -/
theorem neverReuses_of_countsOn_customers :
    ∃ state, SchemaRun "customers" CountsOn customersCreated [(customersCreated,
        [.addColumn "email" "string" true, .addColumn "phone" "string" true])] state ∧
      NeverReuses customersCreated [(customersCreated,
        [.addColumn "email" "string" true, .addColumn "phone" "string" true])] state := by
  obtain ⟨doc, hdoc⟩ : ∃ doc, (Commit.evolveSchema [.addColumn "email" "string" true,
      .addColumn "phone" "string" true] 2000).Produces "customers" customersCreated doc :=
    ⟨_, by simp, _, _, rfl, rfl, rfl⟩
  have hcounts : CountsOn customersCreated [.addColumn "email" "string" true,
      .addColumn "phone" "string" true] := by
    refine ⟨by decide +kernel, by decide +kernel, ?_⟩
    exact List.all_iff_forall_prop.mp (by decide +kernel)
  have hrun := SchemaRun.evolve .start hcounts (Commit.makes_of_produces hdoc)
  exact ⟨_, hrun, neverReuses_of_countsOn rfl hrun⟩

/-- The column added after the last one was dropped gets the id of the dropped one. -/
theorem not_neverReuses_customers :
    ∃ state, SchemaRun "customers" (fun _ _ => True) customersCreated
        [(customersDropped, [.addColumn "email" "string" true]),
          (customersCreated, [.dropColumn "name"])] state ∧
      ¬ NeverReuses customersCreated
        [(customersDropped, [.addColumn "email" "string" true]),
          (customersCreated, [.dropColumn "name"])] state := by
  have hdrop : (Commit.evolveSchema [.dropColumn "name"] 2000).Makes "customers" customersCreated
      customersDropped := by
    have hproduces : (Commit.evolveSchema [.dropColumn "name"] 2000).Produces "customers"
        customersCreated customersDropped.metadata := ⟨by simp, _, _, rfl, rfl, rfl⟩
    exact Commit.makes_of_produces hproduces
  obtain ⟨doc, hdoc⟩ : ∃ doc, (Commit.evolveSchema [.addColumn "email" "string" true] 3000).Produces
      "customers" customersDropped doc := ⟨_, by simp, _, _, rfl, rfl, rfl⟩
  refine ⟨_, .evolve (.evolve .start trivial hdrop) trivial (Commit.makes_of_produces hdoc),
    fun h => ?_⟩
  have hold : (2 : Int32) ∈ columnIds customersCreated := by decide +kernel
  exact h.fresh 2 (by decide +kernel) hold

end Customers

end RustLake.Iceberg
