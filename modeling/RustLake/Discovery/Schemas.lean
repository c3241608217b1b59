import Mathlib.Data.List.Find
import RustLake.Iceberg.Columns

/-! The columns and partition fields that the warehouse scanner reads from a metadata document, and
those that the writer of the table reads from it. -/
namespace RustLake.Discovery
open Json ObjectStore Iceberg Text

structure ColumnInfo where
  name : String
  dataType : String
  nullable : Bool
  ordinal : Int32
deriving DecidableEq, Repr

mutual

/-- `iceberg_type_to_string`. -/
def icebergTypeToString : Value → String
  | .str s => s
  | .obj fields =>
    match ((Value.obj fields).get "type").bind Value.asStr with
    | some "struct" => "struct"
    | some "list" => "list<" ++ ((typesOf fields).lookup "element").getD "unknown" ++ ">"
    | some "map" =>
      "map<" ++ ((typesOf fields).lookup "key").getD "string" ++ ", " ++
        ((typesOf fields).lookup "value").getD "string" ++ ">"
    | some t => t
    | none => "unknown"
  | _ => "unknown"

def typesOf : List (String × Value) → List (String × String)
  | [] => []
  | (key, v) :: rest => (key, icebergTypeToString v) :: typesOf rest

end

/-- A column from its place in the schema. -/
def columnInfo (field : Value) (i : ℕ) : ColumnInfo where
  name := strAt field "name" "unknown"
  dataType := ((field.get "type").map icebergTypeToString).getD "unknown"
  nullable := !((field.get "required").bind Value.asBool).getD false
  ordinal := Int32.ofNat i

/-- The first entry of a list whose id is the one that the document names. -/
def entryNamed (metadata : Value) (list id current : String) : Option Value :=
  ((metadata.get list).bind Value.asArray).bind fun entries =>
    entries.find? fun entry =>
      decide (((entry.get id).bind Value.asI64).getD (-1) = i64At metadata current)

def parseIcebergSchema (metadata : Value) : List ColumnInfo × Int64 :=
  let formatVersion := ((metadata.get "format-version").bind Value.asI64).getD 1
  let schema :=
    if 2 ≤ formatVersion then
      (entryNamed metadata "schemas" "schema-id" "current-schema-id").or (metadata.get "schema")
    else metadata.get "schema"
  let fields := ((schema.bind (·.get "fields")).bind Value.asArray).getD []
  (fields.zipIdx.map fun field => columnInfo field.1 field.2, formatVersion)

/-- The text for one field of a partition spec. -/
def partitionFieldText (field : Value) : Option String :=
  let name := (((field.get "source-id").bind Value.asI64).map fun id => "col_" ++ toString id).or
    ((field.get "name").bind Value.asStr)
  let transform := strAt field "transform" "identity"
  name.map fun n => if transform = "identity" then n else transform ++ "(" ++ n ++ ")"

def parsePartitionSpec (metadata : Value) : List String :=
  let spec := ((entryNamed metadata "partition-specs" "spec-id" "default-spec-id").bind
    (·.get "fields")).or (metadata.get "partition-spec")
  ((spec.bind Value.asArray).getD []).filterMap partitionFieldText

/-- The schema version that a loaded state marks as its current one. -/
def currentSchema? (state : IcebergTableState) : Option SchemaVersion :=
  state.schemas.find? (·.schemaId = state.currentSchemaId)

/-- The partition spec that the document names as the default one. -/
def defaultSpec? (state : IcebergTableState) : Option PartitionSpecInfo :=
  state.partitionSpecs.find? (·.specId = i32At state.metadata "default-spec-id")

/-- The scanner reports the columns of the current schema, in order, and a partition field for each
field of the default spec. -/
structure Describes (state : IcebergTableState) : Prop where
  columns : ∃ current, currentSchema? state = some current ∧
    (parseIcebergSchema state.metadata).1.map (fun c => (c.name, c.dataType, c.nullable)) =
      current.fields.map fun f => (f.name, f.typeStr, !f.required)
  partitions : ∃ spec, defaultSpec? state = some spec ∧
    (parsePartitionSpec state.metadata).length = spec.fields.length

section Runs
variable {Row : Type} (size : Object Row → ℕ)

/-- Runs over a bucket of tables, with the states that have been loaded so far. A commit starts from
any of them and may fail at any call; between the commits other objects come and go, but nobody
else puts a metadata document. -/
inductive Ran : Store (Object Row) → List IcebergTableState → Prop
  | start : Ran ∅ []
  | others {s s' : Store (Object Row)} {loaded : List IcebergTableState} : Ran s loaded →
      (∀ key doc, NamedV key → s'.lookup key = some (.json doc) → s.lookup key = some (.json doc)) →
      Ran s' loaded
  | load {s : Store (Object Row)} {loaded : List IcebergTableState} {tablePrefix : String}
      {path : Path} {state : IcebergTableState} : Ran s loaded →
      tableView size tablePrefix s = .ok (some (path, state)) → Ran s (state :: loaded)
  | commit {s : Store (Object Row)} {loaded : List IcebergTableState} {state : IcebergTableState}
      (c : Commit) (tablePrefix : String) (faults : Faults) : Ran s loaded →
      c.isCreate = true ∨ state ∈ loaded →
      Ran (run size (c.program tablePrefix state) faults s).store loaded

end Runs

section Documents
variable {doc doc' entry : Value} {list idKey current : String} {P : Value → Prop}

/-- A column as the writers put it into a schema. -/
def IsField (field : Value) : Prop :=
  ∃ name typeStr required, field.get "name" = some (.str name) ∧
    field.get "type" = some (.str typeStr) ∧ field.get "required" = some (.bool required)

def IsSpecField (field : Value) : Prop := ∃ id : Int32, field.get "source-id" = some (.ofI32 id)

/-- A schema or a partition spec with an id and its fields. -/
structure IsEntry (idKey : String) (P : Value → Prop) (entry : Value) : Prop where
  id : ∃ id : Int32, entry.get idKey = some (.ofI32 id)
  fields : ∃ fields, entry.get "fields" = some (.arr fields) ∧ ∀ f ∈ fields, P f

/-- A list of schemas or specs, one of which the document names. -/
structure Lists (doc : Value) (list idKey current : String) (P : Value → Prop) : Prop where
  array : HasArray doc list
  entries : ∀ entry ∈ arrayAt doc list, IsEntry idKey P entry
  named : ∃ id : Int32, doc.get current = some (.ofI32 id) ∧
    ∃ entry ∈ arrayAt doc list, entry.get idKey = some (.ofI32 id)

/-- What all metadata documents of the writers have in common. -/
structure Scannable (doc : Value) : Prop where
  version : doc.get "format-version" = some (.num 2)
  schemas : Lists doc "schemas" "schema-id" "current-schema-id" IsField
  specs : Lists doc "partition-specs" "spec-id" "default-spec-id" IsSpecField

theorem toInt64_inj {a b : Int32} : a.toInt64 = b.toInt64 ↔ a = b := by
  constructor
  · intro h
    have hsame := congrArg asI32 h
    rwa [asI32_toInt64, asI32_toInt64] at hsame
  · exact congrArg Int32.toInt64

theorem Lists.congr (h : Lists doc list idKey current P) (harray : HasArray doc' list)
    (hlist : arrayAt doc' list = arrayAt doc list) (hcurrent : doc'.get current = doc.get current) :
    Lists doc' list idKey current P := by
  constructor
  · exact harray
  · rw [hlist]
    exact h.entries
  · rw [hlist, hcurrent]
    exact h.named

theorem Lists.of_get (h : Lists doc list idKey current P) (hlist : doc'.get list = doc.get list)
    (hcurrent : doc'.get current = doc.get current) : Lists doc' list idKey current P :=
  h.congr (h.array.congr hlist) (arrayAt_congr hlist) hcurrent

/-- The entry that is named may be a new one at the end of the list. -/
theorem Lists.concat {id : Int32} (h : Lists doc list idKey current P) (harray : HasArray doc' list)
    (hlist : arrayAt doc' list = arrayAt doc list ++ [entry]) (hentry : IsEntry idKey P entry)
    (hid : entry.get idKey = some (.ofI32 id)) (hcurrent : doc'.get current = some (.ofI32 id)) :
    Lists doc' list idKey current P := by
  constructor
  · exact harray
  · intro e he
    rw [hlist] at he
    rcases List.mem_append.mp he with hold | hnew
    · exact h.entries e hold
    · rwa [List.mem_singleton.mp hnew]
  · refine ⟨id, hcurrent, entry, ?_, hid⟩
    rw [hlist]
    exact List.mem_append_right _ List.mem_cons_self

/-- Both readers take the same entry for the one that is named. -/
theorem Lists.entryNamed (h : Lists doc list idKey current P) :
    ∃ entry, IsEntry idKey P entry ∧ Discovery.entryNamed doc list idKey current = some entry ∧
      (arrayAt doc list).find? (fun e => decide (i32At e idKey = i32At doc current)) = some entry := by
  obtain ⟨id, hcurrent, found, hmem, hfound⟩ := h.named
  have hsame : ∀ e ∈ arrayAt doc list,
      decide (((e.get idKey).bind Value.asI64).getD (-1) = i64At doc current) =
        decide (i32At e idKey = i32At doc current) := by
    intro e he
    obtain ⟨other, hother⟩ := (h.entries e he).id
    rw [i32At_ofI32 hother, i32At_ofI32 hcurrent, i64At_ofI32 hcurrent, hother, Option.bind_some,
      asI64_ofI32, Option.getD_some]
    exact decide_eq_decide.mpr toInt64_inj
  have hexists : ((arrayAt doc list).find?
      fun e => decide (i32At e idKey = i32At doc current)).isSome := by
    rw [List.find?_isSome]
    exact ⟨found, hmem, by rw [i32At_ofI32 hfound, i32At_ofI32 hcurrent, decide_eq_true rfl]⟩
  obtain ⟨entry, hentry⟩ := Option.isSome_iff_exists.mp hexists
  obtain ⟨items, hitems⟩ := h.array
  have harray : arrayAt doc list = items := by
    unfold arrayAt
    rw [hitems]
    rfl
  refine ⟨entry, h.entries entry (List.mem_of_find?_eq_some hentry), ?_, hentry⟩
  unfold Discovery.entryNamed
  rw [hitems]
  rw [harray] at hsame hentry
  exact (List.find?_congr hsame).trans hentry

theorem column_of_isField {field : Value} (h : IsField field) (i : ℕ) :
    ((columnInfo field i).name, (columnInfo field i).dataType, (columnInfo field i).nullable) =
      ((parseField field).name, (parseField field).typeStr, !(parseField field).required) := by
  obtain ⟨name, typeStr, required, hname, htype, hrequired⟩ := h
  unfold columnInfo parseField strAt
  rw [hname, htype, hrequired]
  dsimp only [Option.bind_some, Option.map_some, Option.getD_some, Value.asStr, Value.asBool]
  rw [icebergTypeToString]

/-- Column by column the scanner reads the fields of a schema as the writer does. -/
theorem columns_of_isField {fields : List Value} (h : ∀ f ∈ fields, IsField f) :
    (fields.zipIdx.map fun field => columnInfo field.1 field.2).map
        (fun c => (c.name, c.dataType, c.nullable)) =
      (fields.map parseField).map fun f => (f.name, f.typeStr, !f.required) := by
  have hpairs : ∀ field ∈ fields.zipIdx, (fun c : ColumnInfo => (c.name, c.dataType, c.nullable))
      (columnInfo field.1 field.2) =
        (fun f : IcebergField => (f.name, f.typeStr, !f.required)) (parseField field.1) := by
    rintro ⟨field, i⟩ hmem
    exact column_of_isField (h field (List.fst_mem_of_mem_zipIdx hmem)) i
  calc (fields.zipIdx.map fun field => columnInfo field.1 field.2).map
        (fun c => (c.name, c.dataType, c.nullable))
      = (fields.zipIdx.map Prod.fst).map fun f =>
          ((parseField f).name, (parseField f).typeStr, !(parseField f).required) := by
        rw [List.map_map, List.map_map]
        exact List.map_congr_left hpairs
    _ = (fields.map parseField).map fun f => (f.name, f.typeStr, !f.required) := by
        rw [List.zipIdx_map_fst, List.map_map]
        rfl

/-- Each field of a spec has a text. -/
theorem length_filterMap_of_isSpecField {fields : List Value} (h : ∀ f ∈ fields, IsSpecField f) :
    (fields.filterMap partitionFieldText).length = fields.length := by
  induction fields with
  | nil => rfl
  | cons f rest ih =>
    obtain ⟨⟨id, hid⟩, hrest⟩ := List.forall_mem_cons.mp h
    have htext : ∃ text, partitionFieldText f = some text := by
      unfold partitionFieldText
      rw [hid, Option.bind_some, asI64_ofI32]
      exact ⟨_, rfl⟩
    obtain ⟨text, htext⟩ := htext
    rw [List.filterMap_cons_some htext, List.length_cons, List.length_cons, ih hrest]

theorem arrayAt_of_get {v : Value} {key : String} {items : List Value}
    (h : v.get key = some (.arr items)) : arrayAt v key = items := by
  unfold arrayAt
  rw [h]
  rfl

/-- What the scanner reports of a document that the writers have made. -/
theorem Scannable.describes (h : Scannable doc) (path : String) : Describes (stateOf doc path) := by
  constructor
  · obtain ⟨entry, ⟨-, fields, hfields, hall⟩, hscanner, hwriter⟩ := h.schemas.entryNamed
    refine ⟨⟨i32At entry "schema-id", (arrayAt entry "fields").map parseField⟩, ?_, ?_⟩
    · unfold currentSchema? stateOf parseSchemas
      dsimp only
      rw [List.find?_map]
      exact congrArg (Option.map _) hwriter
    · have hversion : ((doc.get "format-version").bind Value.asI64).getD 1 = 2 := by
        rw [h.version]
        rfl
      have hread : (parseIcebergSchema doc).1 =
          fields.zipIdx.map fun field => columnInfo field.1 field.2 := by
        unfold parseIcebergSchema
        rw [hversion, hscanner]
        dsimp only
        rw [if_pos (by decide), Option.some_or, Option.bind_some, hfields]
        rfl
      change (parseIcebergSchema doc).1.map _ = _
      rw [hread, arrayAt_of_get hfields]
      exact columns_of_isField hall
  · obtain ⟨entry, ⟨-, fields, hfields, hall⟩, hscanner, hwriter⟩ := h.specs.entryNamed
    refine ⟨⟨i32At entry "spec-id", (arrayAt entry "fields").map parsePartitionField⟩, ?_, ?_⟩
    · unfold defaultSpec? stateOf parsePartitionSpecs
      dsimp only
      rw [List.find?_map]
      exact congrArg (Option.map _) hwriter
    · have hread : parsePartitionSpec doc = fields.filterMap partitionFieldText := by
        unfold parsePartitionSpec
        rw [hscanner, Option.bind_some, hfields]
        rfl
      change (parsePartitionSpec doc).length = _
      rw [hread, arrayAt_of_get hfields, List.length_map]
      exact length_filterMap_of_isSpecField hall

end Documents

section Commits
variable {metadata doc : Value} {path tablePrefix : String}

theorem isEntry_schema (id : Int32) {fields : List Value} (h : ∀ f ∈ fields, IsField f) :
    IsEntry "schema-id" IsField
      (.obj [("type", .str "struct"), ("schema-id", .ofI32 id), ("fields", .arr fields)]) :=
  ⟨⟨id, rfl⟩, fields, rfl, h⟩

theorem isField_icebergFields (schema : ArrowSchema) : ∀ f ∈ icebergFields schema, IsField f := by
  intro f hf
  obtain ⟨e, -, rfl⟩ := List.mem_map.mp hf
  exact ⟨_, _, _, rfl, rfl, rfl⟩

theorem isField_fieldValue (fields : List IcebergField) :
    ∀ f ∈ fields.map fieldValue, IsField f := by
  intro f hf
  obtain ⟨e, -, rfl⟩ := List.mem_map.mp hf
  exact ⟨_, _, _, rfl, rfl, rfl⟩

theorem Scannable.initial (location : String) (schema : ArrowSchema) (files : List DataFileInfo)
    (tableUuid : String) (nowMs : Int64) :
    Scannable (initialMetadata location schema files tableUuid nowMs) := by
  constructor
  · rfl
  · refine ⟨⟨_, rfl⟩, ?_, 0, rfl, _, List.mem_singleton_self _, rfl⟩
    intro entry hentry
    rw [List.mem_singleton.mp hentry]
    exact isEntry_schema 0 (isField_icebergFields schema)
  · refine ⟨⟨_, rfl⟩, ?_, 0, rfl, _, List.mem_singleton_self _, rfl⟩
    intro entry hentry
    rw [List.mem_singleton.mp hentry]
    exact ⟨⟨0, rfl⟩, [], rfl, fun _ hf => absurd hf List.not_mem_nil⟩

theorem get_defaultSpec_repartitionedMetadata {state : IcebergTableState}
    {newFields : List PartitionField} {nowMs : Int64}
    (h : repartitionedMetadata state newFields nowMs = some doc) :
    doc.get "default-spec-id" = some (.ofI32 (newSpecId state)) := by
  obtain ⟨d₁, d₂, d₃, h₁, h₂, h₃, rfl⟩ := repartitionedMetadata_steps h
  rw [get_logPreviousVersion (by decide), get_set_ne (by decide) h₃, get_set_ne (by decide) h₂,
    get_set_self h₁]

/-- What a commit leaves of the schemas and specs is what a scan can read. -/
theorem Scannable.step {c : Commit} (h : Scannable metadata)
    (hdoc : c.Writes tablePrefix (stateOf metadata path) doc) : Scannable doc := by
  cases c with
  | create schema files tableUuid bucket nowMs =>
    subst hdoc
    exact .initial _ _ _ _ _
  | append files schema operation nowMs =>
    constructor
    · exact (get_appendedMetadata hdoc (by decide)).trans h.version
    · have harray := hasArray_appendedMetadata hdoc (by decide) h.schemas.array
      have hlist := schemas_appendedMetadata hdoc h.schemas.array
      have hcurrent := get_currentSchema_appendedMetadata hdoc
      by_cases hcount : schema.length = currentFields (stateOf metadata path)
      · rw [if_pos hcount, List.append_nil] at hlist
        rw [if_pos hcount] at hcurrent
        exact h.schemas.congr harray hlist hcurrent
      · rw [if_neg hcount] at hlist hcurrent
        exact h.schemas.concat harray hlist (isEntry_schema _ (isField_icebergFields schema)) rfl
          hcurrent
    · exact h.specs.of_get (get_appendedMetadata hdoc (by decide))
        (get_appendedMetadata hdoc (by decide))
  | evolveSchema changes nowMs =>
    obtain ⟨newFields, maxId, hdoc⟩ := hdoc
    constructor
    · exact (get_evolvedMetadata hdoc (by decide)).trans h.version
    · exact h.schemas.concat (hasArray_evolvedMetadata hdoc (by decide) h.schemas.array)
        (schemas_evolvedMetadata hdoc h.schemas.array)
        (isEntry_schema _ (isField_fieldValue newFields)) rfl
        (get_currentSchema_evolvedMetadata hdoc)
    · exact h.specs.of_get (get_evolvedMetadata hdoc (by decide))
        (get_evolvedMetadata hdoc (by decide))
  | evolvePartition newFields nowMs =>
    constructor
    · exact (get_repartitionedMetadata hdoc (by decide)).trans h.version
    · exact h.schemas.of_get (get_repartitionedMetadata hdoc (by decide))
        (get_repartitionedMetadata hdoc (by decide))
    · refine h.specs.concat (hasArray_repartitionedMetadata hdoc (by decide) h.specs.array)
        (specs_repartitionedMetadata hdoc h.specs.array) ⟨⟨_, rfl⟩, _, rfl, ?_⟩ rfl
        (get_defaultSpec_repartitionedMetadata hdoc)
      intro f hf
      obtain ⟨field, -, rfl⟩ := List.mem_map.mp hf
      exact ⟨field.sourceId, rfl⟩
  | expire olderThanMs retainLastN nowMs =>
    obtain ⟨ids, hdoc⟩ := hdoc
    constructor
    · exact (get_expiredMetadata hdoc (by decide)).trans h.version
    · exact h.schemas.of_get (get_expiredMetadata hdoc (by decide))
        (get_expiredMetadata hdoc (by decide))
    · exact h.specs.of_get (get_expiredMetadata hdoc (by decide))
        (get_expiredMetadata hdoc (by decide))

end Commits

section Runs
variable {Row : Type} {size : Object Row → ℕ} {s : Store (Object Row)}
  {loaded : List IcebergTableState}

/-- All metadata documents of a run, stored or loaded, are those of the writers. -/
theorem Ran.scannable (h : Ran size s loaded) :
    AllDocs Scannable s ∧ ∀ state ∈ loaded, Scannable state.metadata ∧
      ∃ path, state = stateOf state.metadata path := by
  induction h with
  | start =>
    constructor
    · intro key doc _ hlook
      cases hlook
    · intro state hstate
      cases hstate
  | others _ hothers ih =>
    exact ⟨fun key doc hnamed hlook => ih.1 key doc hnamed (hothers key doc hnamed hlook), ih.2⟩
  | load _ hview ih =>
    refine ⟨ih.1, fun state hstate => ?_⟩
    rcases List.mem_cons.mp hstate with rfl | hold
    · exact ⟨ih.1.metadata hview, _, (eq_stateOf_of_tableView _ hview).1⟩
    · exact ih.2 state hold
  | @commit s loaded state c tablePrefix faults _ hstart ih =>
    refine ⟨fun key doc hnamed hlook => ?_, ih.2⟩
    rcases lookup_run_of_puts size (puts_commit tablePrefix state c) faults s hlook with hold | hnew
    · exact ih.1 key doc hnamed hold
    · have hwrites := hnew hnamed doc rfl
      rcases hstart with hcreate | hloaded
      · cases c with
        | create schema files tableUuid bucket nowMs =>
          subst hwrites
          exact .initial _ _ _ _ _
        | append | evolveSchema | evolvePartition | expire => cases hcreate
      · obtain ⟨hmetadata, path, hstate⟩ := ih.2 state hloaded
        rw [hstate] at hwrites
        exact hmetadata.step hwrites

/-- The scanner reports so of every metadata file of a run. -/
theorem Ran.describes_file (h : Ran size s loaded) {key : Path} {doc : Value} (hnamed : NamedV key)
    (hlook : s.lookup key = some (.json doc)) (path : String) : Describes (stateOf doc path) :=
  (h.scannable.1 key doc hnamed hlook).describes path

/-- In every run the scanner reports of a table's latest metadata the columns of the current schema
and a partition field for each field of the default spec. -/
theorem Ran.describes_latest (h : Ran size s loaded) {tablePrefix : String} {path : Path}
    {state : IcebergTableState} (hview : tableView size tablePrefix s = .ok (some (path, state))) :
    Describes state := by
  obtain ⟨hstate, hlook, hlatest⟩ := eq_stateOf_of_tableView size hview
  obtain ⟨-, ver, hver, -⟩ := latestOf_spec hlatest
  rw [hstate]
  exact h.describes_file (namedV_of_fileVersion hver).ofText hlook path

end Runs

section Customers

def createCustomers : Commit :=
  .create [⟨"id", .int64, false⟩, ⟨"name", .utf8, true⟩] [⟨"customers/part-0.parquet", 900, 3⟩] "7d10"
    "lake" 1000

/-- The bucket after the table has been created. -/
def customersStore : Store (Object ℕ) :=
  (run (fun _ => 0) (createCustomers.program "customers" customersCreated) noFaults ∅).store

theorem describes_customers :
    tableView (fun _ => 0) "customers" customersStore =
        .ok (some ("customers/metadata/v1.metadata.json", customersCreated)) ∧
      Describes customersCreated := by
  have hcreated : Ran (fun _ => 0) customersStore [] :=
    .commit createCustomers "customers" noFaults .start (Or.inl rfl)
  have hview : tableView (fun _ => 0) "customers" customersStore =
      .ok (some ("customers/metadata/v1.metadata.json", customersCreated)) := by rfl
  exact ⟨hview, Ran.describes_latest hcreated hview⟩

end Customers

end RustLake.Discovery
