import RustLake.Arrow.Batch
import RustLake.Json.Value
import RustLake.Rust.Unicode

/-! Trino's rows as batches: the type that a column is declared with and the array that is built for
it are chosen apart. -/
namespace RustLake.Trino
open Arrow Json

structure TableColumn where
  name : String
  dataType : String
  nullable : Bool

/-- `str::to_lowercase`, the readers of `chrono`, and the floats that numbers and texts have. -/
structure ProviderLibraries (F : Type) where
  lower : Lowercase
  /-- The days from 1970-01-01 to the date that a text has in a format. -/
  naiveDate : String → String → Option ℤ
  /-- The milliseconds of the time that a text has in a format. -/
  naiveDateTime : String → String → Option Int64
  ofInt : ℤ → F
  ofText : String → F
  parse : String → Option F

variable {F : Type} (libs : ProviderLibraries F)

/-- The type for a name in small letters. -/
def lowerTypeToArrow (s : List Char) : DataType :=
  if s ∈ ["integer".toList, "int".toList] then .int32
  else if s ∈ ["bigint".toList, "long".toList] then .int64
  else if s ∈ ["smallint".toList, "short".toList] then .int16
  else if s ∈ ["tinyint".toList, "byte".toList] then .int8
  else if s ∈ ["real".toList, "float".toList] then .float32
  else if s = "double".toList then .float64
  else if s = "boolean".toList then .boolean
  else if s = "date".toList then .date32
  else if s ∈ ["timestamp".toList, "timestamp with time zone".toList,
      "timestamp without time zone".toList] then .timestampMillisecond
  else if s = "decimal".toList then .float64
  else if "decimal(".toList.isPrefixOf s then .float64
  else if "varchar".toList.isPrefixOf s || "char".toList.isPrefixOf s then .utf8
  else if s = "varbinary".toList then .binary
  else .utf8

def trinoTypeToArrow (trinoType : String) : DataType :=
  lowerTypeToArrow (libs.lower.text trinoType.toList)

def trinoColumnsToSchema (columns : List TableColumn) : List Field :=
  columns.map fun c => ⟨c.name, trinoTypeToArrow libs c.dataType, c.nullable⟩

/-- The fields that `scan` asks for. -/
def projectedSchema (schema : List Field) (projection : Option (List (Fin schema.length))) :
    List Field :=
  match projection with
  | some indices => indices.map schema.get
  | none => schema

def projectedColumns (columns : List TableColumn)
    (projection : Option (List (Fin (trinoColumnsToSchema libs columns).length))) :
    List TableColumn :=
  match projection with
  | some indices => indices.map fun i => columns.get (i.cast (List.length_map _))
  | none => columns

def asF64 : Value → Option F
  | .num n => some (libs.ofInt n)
  | .float text => some (libs.ofText text)
  | _ => none

def floatOf (v : Value) : Option F :=
  ((asF64 libs v).or (v.asI64.map fun n => libs.ofInt n.toInt)).or (v.asStr.bind libs.parse)

def dateOf (s : String) : Option Int32 := (libs.naiveDate "%Y-%m-%d" s).map Int32.ofInt

def timestampOf (s : String) : Option Int64 :=
  (libs.naiveDateTime "%Y-%m-%d %H:%M:%S%.f" s).or (libs.naiveDateTime "%Y-%m-%dT%H:%M:%S%.f" s)

def textOf : Value → Option String
  | .str s => some s
  | .null => none
  | other => some (other.asStr.getD "")

def jsonColumnToArray (dataType : DataType) (values : List (Option Value)) : Column F :=
  match dataType with
  | .int32 | .int16 | .int8 => ⟨.int32, values.map fun v => (v.bind Value.asI64).map asI32⟩
  | .int64 => ⟨.int64, values.map fun v => v.bind Value.asI64⟩
  | .float32 | .float64 => ⟨.float64, values.map fun v => v.bind (floatOf libs)⟩
  | .boolean => ⟨.boolean, values.map fun v => v.bind Value.asBool⟩
  | .date32 => ⟨.date32, values.map fun v => (v.bind Value.asStr).bind (dateOf libs)⟩
  | .timestampMillisecond | .timestampMicrosecond =>
    ⟨.timestampMillisecond, values.map fun v => (v.bind Value.asStr).bind (timestampOf libs)⟩
  | _ => ⟨.utf8, values.map fun v => v.bind textOf⟩

def jsonColumns (fields : List Field) (rows : List (List Value)) : List (Column F) :=
  fields.zipIdx.map fun (field, i) =>
    jsonColumnToArray libs field.dataType (rows.map fun row => row[i]?)

def jsonRowsToBatch (fields : List Field) (rows : List (List Value)) :
    Except BatchError (RecordBatch F) :=
  if rows = [] then
    match RecordBatch.tryNew fields [] with
    | .ok batch => .ok batch
    | .error _ => .ok (RecordBatch.newEmpty fields)
  else RecordBatch.tryNew fields (jsonColumns libs fields rows)

section Property

/-- A value that is null or missing. -/
def IsNull (v : Option Value) : Prop := ∀ x, v = some x → x = .null

/-- A text that is empty. -/
def IsEmptyText : (dataType : DataType) → dataType.Value F → Prop
  | .utf8, s => s = ""
  | _, _ => False

/-- A cell is NULL for a null or missing value only, and empty for an empty text only. Floats may be
lost. -/
structure CarriesCell (dataType : DataType) (v : Option Value) (cell : Option (dataType.Value F)) :
    Prop where
  null : IsNull v → cell = none
  kept : ¬ IsNull v → dataType ≠ .float32 → dataType ≠ .float64 →
    ∃ x, cell = some x ∧ (IsEmptyText dataType x → v = some (.str ""))

/-- There is a batch with a row for each row, whose cells carry the values. -/
def Carries (fields : List Field) (rows : List (List Value))
    (result : Except BatchError (RecordBatch F)) : Prop :=
  ∃ batch, result = .ok batch ∧ batch.fields = fields ∧ batch.rowCount = rows.length ∧
    batch.columns.length = fields.length ∧ ∀ (j : ℕ) (c : Column F), batch.columns[j]? = some c →
      c.length = rows.length ∧ ∀ (i : ℕ) (row : List Value) (cell : Option (c.dataType.Value F)),
        rows[i]? = some row → c.cells[i]? = some cell → CarriesCell c.dataType row[j]? cell

/-- The types that are declared as one type and built as another. -/
def unbuiltTypes : List (List Char) :=
  ["smallint".toList, "short".toList, "tinyint".toList, "byte".toList, "real".toList,
    "float".toList, "varbinary".toList]

/-- The types that a name stands for, in small letters. -/
inductive TypeKind where
  | integer | float | boolean | date | timestamp | text
deriving DecidableEq

def kindOf (s : List Char) : TypeKind :=
  if s ∈ ["integer".toList, "int".toList, "bigint".toList, "long".toList] then .integer
  else if s ∈ ["double".toList, "decimal".toList] || "decimal(".toList.isPrefixOf s then .float
  else if s = "boolean".toList then .boolean
  else if s = "date".toList then .date
  else if s ∈ ["timestamp".toList, "timestamp with time zone".toList,
      "timestamp without time zone".toList] then .timestamp
  else .text

def TableColumn.kind (c : TableColumn) : TypeKind := kindOf (libs.lower.text c.dataType.toList)

/-- A value that can be had of a column: a 64-bit integer, a boolean, a date, a time, or a text. -/
def Readable : TypeKind → Value → Prop
  | .integer, v => v.asI64.isSome
  | .float, _ => True
  | .boolean, v => v.asBool.isSome
  | .date, v => ∃ s, v = .str s ∧ (libs.naiveDate "%Y-%m-%d" s).isSome
  | .timestamp, v => ∃ s, v = .str s ∧
    ((libs.naiveDateTime "%Y-%m-%d %H:%M:%S%.f" s).isSome ∨
      (libs.naiveDateTime "%Y-%m-%dT%H:%M:%S%.f" s).isSome)
  | .text, v => ∃ s, v = .str s

/-- A number, or a text that is one. -/
def IsFloat : Value → Prop
  | .num _ | .float _ => True
  | .str s => (libs.parse s).isSome
  | _ => False

/-- There are no rows, or there are columns, each of a type that an array is built for and of values
that can be had of it. A column that may not be null has a value in each row. -/
def Carryable (columns : List TableColumn) (rows : List (List Value)) : Prop :=
  rows = [] ∨ columns ≠ [] ∧ ∀ (j : ℕ) (c : TableColumn), columns[j]? = some c →
    libs.lower.text c.dataType.toList ∉ unbuiltTypes ∧
    ∀ row ∈ rows,
      (∀ v, row[j]? = some v → v ≠ .null → Readable libs (c.kind libs) v) ∧
      (c.nullable = false → ∃ v, row[j]? = some v ∧ v ≠ .null ∧
        (c.kind libs = .float → IsFloat libs v))

end Property

section Cells

/-- The type of the array that is built for a declared type. -/
def builtType : DataType → DataType
  | .int32 | .int16 | .int8 => .int32
  | .int64 => .int64
  | .float32 | .float64 => .float64
  | .boolean => .boolean
  | .date32 => .date32
  | .timestampMillisecond | .timestampMicrosecond => .timestampMillisecond
  | .utf8 | .binary => .utf8

def cellOf : (dataType : DataType) → Option Value → Option ((builtType dataType).Value F)
  | .int32, v | .int16, v | .int8, v => (v.bind Value.asI64).map asI32
  | .int64, v => v.bind Value.asI64
  | .float32, v | .float64, v => v.bind (floatOf libs)
  | .boolean, v => v.bind Value.asBool
  | .date32, v => (v.bind Value.asStr).bind (dateOf libs)
  | .timestampMillisecond, v | .timestampMicrosecond, v =>
    (v.bind Value.asStr).bind (timestampOf libs)
  | .utf8, v | .binary, v => v.bind textOf

/-- What the array of a type keeps. -/
def arrayKind : DataType → TypeKind
  | .int8 | .int16 | .int32 | .int64 => .integer
  | .float32 | .float64 => .float
  | .boolean => .boolean
  | .date32 => .date
  | .timestampMillisecond | .timestampMicrosecond => .timestamp
  | .utf8 | .binary => .text

theorem jsonColumnToArray_eq (dataType : DataType) (values : List (Option Value)) :
    jsonColumnToArray libs dataType values =
      ⟨builtType dataType, values.map (cellOf libs dataType)⟩ := by
  cases dataType <;> rfl

theorem builtType_eq_iff (dataType : DataType) : builtType dataType = dataType ↔
    dataType ∉ [.int8, .int16, .float32, .binary, .timestampMicrosecond] := by
  cases dataType <;> decide

theorem cellOf_of_isNull (dataType : DataType) {v : Option Value} (h : IsNull v) :
    cellOf libs dataType v = none := by
  cases v with
  | none => cases dataType <;> rfl
  | some x =>
    obtain rfl := h x rfl
    cases dataType <;> rfl

variable {libs}

theorem isNull_some {x : Value} : IsNull (some x) ↔ x = .null :=
  ⟨fun h => h x rfl, fun h _ hy => Option.some.inj hy ▸ h⟩

theorem exists_some_iff {α : Type} {o : Option α} {P : α → Prop} :
    (∃ y, o = some y ∧ (False → P y)) ↔ o.isSome = true := by
  rw [Option.isSome_iff_exists]
  exact exists_congr fun y => and_iff_left False.elim

theorem bind_asStr_isSome {α : Type} {f : String → Option α} (x : Value) :
    (((some x).bind Value.asStr).bind f).isSome = true ↔ ∃ s, x = .str s ∧ (f s).isSome = true := by
  cases x with
  | str s =>
    constructor
    · exact fun h => ⟨s, rfl, h⟩
    · rintro ⟨t, ht, h⟩
      obtain rfl := Value.str.inj ht
      exact h
  | null | bool b | num n | float t | arr items | obj fields =>
    refine iff_of_false (fun h => by cases h) ?_
    rintro ⟨t, ht, -⟩
    cases ht

theorem isSome_dateOf (s : String) :
    (dateOf libs s).isSome = true ↔ (libs.naiveDate "%Y-%m-%d" s).isSome = true := by
  rw [dateOf, Option.isSome_map]

theorem isSome_timestampOf (s : String) : (timestampOf libs s).isSome = true ↔
    (libs.naiveDateTime "%Y-%m-%d %H:%M:%S%.f" s).isSome = true ∨
      (libs.naiveDateTime "%Y-%m-%dT%H:%M:%S%.f" s).isSome = true := by
  rw [timestampOf, Option.isSome_or, Bool.or_eq_true]

theorem isSome_floatOf (v : Value) : (floatOf libs v).isSome = true ↔ IsFloat libs v := by
  cases v with
  | num n | float text => exact iff_of_true rfl trivial
  | str s => exact Iff.rfl
  | null | bool b | arr items | obj fields => exact iff_of_false Bool.false_ne_true not_false

/-- A cell carries a value that is there exactly when the array keeps it. -/
theorem carriesCell_iff {dataType : DataType} (hbuilt : builtType dataType = dataType)
    {v : Option Value} : CarriesCell (builtType dataType) v (cellOf libs dataType v) ↔
      ∀ x, v = some x → x ≠ .null → Readable libs (arrayKind dataType) x := by
  by_cases hnull : IsNull v
  · refine iff_of_true ⟨fun _ => cellOf_of_isNull libs dataType hnull, fun h => absurd hnull h⟩ ?_
    exact fun x hx hne => absurd (hnull x hx) hne
  · obtain ⟨x, rfl, hne⟩ : ∃ x, v = some x ∧ x ≠ .null := by
      simpa [IsNull] using hnull
    have hreads : (∀ y, some x = some y → y ≠ .null → Readable libs (arrayKind dataType) y) ↔
        Readable libs (arrayKind dataType) x :=
      ⟨fun h => h x rfl hne, fun h y hy _ => Option.some.inj hy ▸ h⟩
    have hcarries : CarriesCell (builtType dataType) (some x) (cellOf libs dataType (some x)) ↔
        (builtType dataType ≠ .float32 → builtType dataType ≠ .float64 →
          ∃ y, cellOf libs dataType (some x) = some y ∧
            (IsEmptyText (builtType dataType) y → some x = some (.str ""))) :=
      ⟨fun h => h.kept hnull, fun h => ⟨fun hnone => absurd hnone hnull, fun _ => h⟩⟩
    rw [hreads, hcarries]
    cases dataType with
    | int8 | int16 | float32 | binary | timestampMicrosecond => exact absurd hbuilt (by decide)
    | float64 => exact iff_of_true (fun _ hne => absurd rfl hne) trivial
    | int32 =>
      rw [forall_prop_of_true (by decide), forall_prop_of_true (by decide)]
      exact exists_some_iff.trans (Bool.eq_iff_iff.mp Option.isSome_map)
    | int64 | boolean =>
      rw [forall_prop_of_true (by decide), forall_prop_of_true (by decide)]
      exact exists_some_iff
    | date32 =>
      rw [forall_prop_of_true (by decide), forall_prop_of_true (by decide)]
      refine (exists_some_iff.trans (bind_asStr_isSome x)).trans (exists_congr fun s => ?_)
      exact and_congr_right fun _ => isSome_dateOf s
    | timestampMillisecond =>
      rw [forall_prop_of_true (by decide), forall_prop_of_true (by decide)]
      refine (exists_some_iff.trans (bind_asStr_isSome x)).trans (exists_congr fun s => ?_)
      exact and_congr_right fun _ => isSome_timestampOf s
    | utf8 =>
      rw [forall_prop_of_true (by decide), forall_prop_of_true (by decide)]
      cases x with
      | null => exact absurd rfl hne
      | str s =>
        refine iff_of_true ⟨s, rfl, fun hempty => ?_⟩ ⟨s, rfl⟩
        obtain rfl : s = "" := hempty
        rfl
      | bool b | num n | float t | arr items | obj fields =>
        refine iff_of_false ?_ (by rintro ⟨s, hs⟩; cases hs)
        rintro ⟨y, hy, hempty⟩
        obtain rfl : "" = y := Option.some.inj hy
        cases hempty rfl

/-- Where an array keeps the values, a cell is NULL unless there is a value, which for a float has to
be read. -/
theorem cellOf_ne_none_iff {dataType : DataType} (hbuilt : builtType dataType = dataType)
    {v : Option Value}
    (hreads : ∀ x, v = some x → x ≠ .null → Readable libs (arrayKind dataType) x) :
    cellOf libs dataType v ≠ none ↔ ∃ x, v = some x ∧ x ≠ .null ∧
      (dataType = .float64 → (floatOf libs x).isSome = true) := by
  constructor
  · intro hcell
    have hsome : ¬ IsNull v := fun hnull => hcell (cellOf_of_isNull libs dataType hnull)
    obtain ⟨x, rfl, hne⟩ : ∃ x, v = some x ∧ x ≠ .null := by
      simpa [IsNull] using hsome
    refine ⟨x, rfl, hne, ?_⟩
    rintro rfl
    exact Option.isSome_iff_ne_none.mpr hcell
  · rintro ⟨x, rfl, hne, hfloat⟩
    by_cases htype : dataType = .float64
    · subst htype
      exact Option.isSome_iff_ne_none.mp (hfloat rfl)
    · have hnull : ¬ IsNull (some x) := fun h => hne (isNull_some.mp h)
      have hsingle : builtType dataType ≠ .float32 := by cases dataType <;> decide
      obtain ⟨y, hy, -⟩ := ((carriesCell_iff hbuilt).mpr hreads).kept hnull hsingle
        (hbuilt.symm ▸ htype)
      rw [hy]
      exact Option.some_ne_none y

end Cells

section Batches
variable {libs} {fields : List Field} {rows : List (List Value)}

variable (libs fields rows) in
/-- Each column is of a type that an array is built for, and its values are kept. -/
def KeptBy : Prop :=
  rows = [] ∨ fields ≠ [] ∧ ∀ (j : ℕ) (field : Field), fields[j]? = some field →
    field.dataType ∉ [.int8, .int16, .float32, .binary, .timestampMicrosecond] ∧
    ∀ row ∈ rows,
      (∀ v, row[j]? = some v → v ≠ .null → Readable libs (arrayKind field.dataType) v) ∧
      (field.nullable = false → ∃ v, row[j]? = some v ∧ v ≠ .null ∧
        (field.dataType = .float64 → (floatOf libs v).isSome))

theorem getElem?_jsonColumns (j : ℕ) : (jsonColumns libs fields rows)[j]? =
    fields[j]?.map fun field =>
      ⟨builtType field.dataType, rows.map fun row => cellOf libs field.dataType row[j]?⟩ := by
  rw [jsonColumns, List.getElem?_map, List.getElem?_zipIdx, Option.map_map]
  refine Option.map_congr fun field _ => ?_
  rw [Function.comp_apply, Nat.zero_add]
  dsimp only
  rw [jsonColumnToArray_eq, List.map_map]
  rfl

theorem fits_jsonColumns_iff :
    (∀ p ∈ fields.zip (jsonColumns libs fields rows), p.2.Fits p.1) ↔
      ∀ (j : ℕ) (field : Field), fields[j]? = some field →
        builtType field.dataType = field.dataType ∧
          (field.nullable = false → ∀ row ∈ rows, cellOf libs field.dataType row[j]? ≠ none) := by
  have hfits : ∀ (j : ℕ) (field : Field), Column.Fits (F := F) ⟨builtType field.dataType,
      rows.map fun row => cellOf libs field.dataType row[j]?⟩ field ↔
        builtType field.dataType = field.dataType ∧
          (field.nullable = false → ∀ row ∈ rows, cellOf libs field.dataType row[j]? ≠ none) := by
    intro j field
    refine and_congr_right fun _ => imp_congr_right fun _ => ?_
    rw [nullCount_eq_zero]
    exact List.forall_mem_map
  constructor
  · intro h j field hfield
    refine (hfits j field).mp (h (field, _) (List.mem_iff_getElem?.mpr ⟨j, ?_⟩))
    rw [List.getElem?_zip_eq_some]
    exact ⟨hfield, by rw [getElem?_jsonColumns, hfield]; rfl⟩
  · intro h p hp
    obtain ⟨j, hj⟩ := List.mem_iff_getElem?.mp hp
    obtain ⟨hfield, hcolumn⟩ := List.getElem?_zip_eq_some.mp hj
    rw [getElem?_jsonColumns, hfield, Option.map_some, Option.some.injEq] at hcolumn
    rw [← hcolumn]
    exact (hfits j p.1).mpr (h j p.1 hfield)

theorem keptBy_iff (hrows : rows ≠ []) : KeptBy libs fields rows ↔
    (jsonColumns libs fields rows ≠ [] ∧
      ∀ p ∈ fields.zip (jsonColumns libs fields rows), p.2.Fits p.1) ∧
    ∀ (j : ℕ) (field : Field), fields[j]? = some field → ∀ row ∈ rows,
      CarriesCell (builtType field.dataType) row[j]? (cellOf libs field.dataType row[j]?) := by
  have hnil : jsonColumns libs fields rows ≠ [] ↔ fields ≠ [] := by
    rw [jsonColumns, ne_eq, List.map_eq_nil_iff, List.zipIdx_eq_nil_iff]
  rw [KeptBy, or_iff_right hrows, hnil, fits_jsonColumns_iff, and_assoc]
  refine and_congr_right fun _ => ?_
  constructor
  · intro h
    refine ⟨fun j field hfield => ?_, fun j field hfield row hrow => ?_⟩
    · obtain ⟨htype, hvalues⟩ := h j field hfield
      have hbuilt := (builtType_eq_iff field.dataType).mpr htype
      refine ⟨hbuilt, fun hnullable row hrow => ?_⟩
      obtain ⟨hreads, hsome⟩ := hvalues row hrow
      exact (cellOf_ne_none_iff hbuilt hreads).mpr (hsome hnullable)
    · obtain ⟨htype, hvalues⟩ := h j field hfield
      exact (carriesCell_iff ((builtType_eq_iff field.dataType).mpr htype)).mpr (hvalues row hrow).1
  · rintro ⟨hfits, hcells⟩ j field hfield
    obtain ⟨hbuilt, hnonnull⟩ := hfits j field hfield
    refine ⟨(builtType_eq_iff field.dataType).mp hbuilt, fun row hrow => ?_⟩
    have hreads := (carriesCell_iff hbuilt).mp (hcells j field hfield row hrow)
    exact ⟨hreads, fun hnullable =>
      (cellOf_ne_none_iff hbuilt hreads).mp (hnonnull hnullable row hrow)⟩

theorem carries_iff_keptBy (fields : List Field) (rows : List (List Value)) :
    Carries fields rows (jsonRowsToBatch libs fields rows) ↔ KeptBy libs fields rows := by
  unfold jsonRowsToBatch
  by_cases hrows : rows = []
  · rw [if_pos hrows]
    refine iff_of_true ?_ (Or.inl hrows)
    have hempty : Carries (F := F) fields rows (.ok (RecordBatch.newEmpty fields)) := by
      subst hrows
      refine ⟨_, rfl, rfl, rfl, List.length_map _, fun j c hc => ?_⟩
      rw [RecordBatch.newEmpty, List.getElem?_map] at hc
      obtain ⟨field, -, rfl⟩ := Option.map_eq_some_iff.mp hc
      exact ⟨rfl, fun i row cell hrow => by cases hrow⟩
    have herror : ∀ batch : RecordBatch F, RecordBatch.tryNew fields [] ≠ .ok batch := by
      intro batch hok
      unfold RecordBatch.tryNew at hok
      split at hok <;> cases hok
    cases htry : RecordBatch.tryNew (F := F) fields [] with
    | ok batch => exact absurd htry (herror batch)
    | error e => exact hempty
  · rw [if_neg hrows, keptBy_iff hrows]
    have hcount : (jsonColumns libs fields rows).length = fields.length := by
      rw [jsonColumns, List.length_map, List.length_zipIdx]
    have hlength : ∀ c ∈ jsonColumns libs fields rows, c.length = rows.length := by
      intro c hc
      obtain ⟨j, hj⟩ := List.mem_iff_getElem?.mp hc
      rw [getElem?_jsonColumns] at hj
      obtain ⟨field, -, rfl⟩ := Option.map_eq_some_iff.mp hj
      exact List.length_map _
    rcases tryNew_cases hcount hlength with ⟨hne, hfits, hrun⟩ | ⟨hnot, e, hrun⟩
    · rw [hrun]
      constructor
      · rintro ⟨batch, hok, -, -, -, hcells⟩
        obtain rfl := Except.ok.inj hok
        refine ⟨⟨hne, hfits⟩, fun j field hfield row hrow => ?_⟩
        obtain ⟨i, hi⟩ := List.mem_iff_getElem?.mp hrow
        have hcolumn : (jsonColumns libs fields rows)[j]? = some ⟨builtType field.dataType,
            rows.map fun row => cellOf libs field.dataType row[j]?⟩ := by
          rw [getElem?_jsonColumns, hfield, Option.map_some]
        refine (hcells j _ hcolumn).2 i row _ hi ?_
        rw [List.getElem?_map, hi]
        rfl
      · rintro ⟨-, hcells⟩
        refine ⟨_, rfl, rfl, rfl, hcount, fun j c hc => ?_⟩
        dsimp only at hc
        rw [getElem?_jsonColumns] at hc
        obtain ⟨field, hfield, rfl⟩ := Option.map_eq_some_iff.mp hc
        refine ⟨List.length_map _, fun i row cell hrow hcell => ?_⟩
        dsimp only at hcell
        rw [List.getElem?_map, hrow, Option.map_some, Option.some.injEq] at hcell
        rw [← hcell]
        exact hcells j field hfield row (List.mem_of_getElem? hrow)
    · rw [hrun]
      refine iff_of_false ?_ fun h => hnot h.1
      rintro ⟨batch, hok, -⟩
      cases hok

end Batches

section Types

/-- The names that are told apart as a whole. -/
def typeNames : List (List Char) :=
  ["integer".toList, "int".toList, "bigint".toList, "long".toList, "double".toList,
    "boolean".toList, "date".toList, "timestamp".toList, "timestamp with time zone".toList,
    "timestamp without time zone".toList, "decimal".toList] ++ unbuiltTypes

theorem lowerTypeToArrow_of_not_mem {s : List Char} (h : s ∉ typeNames) :
    lowerTypeToArrow s = if "decimal(".toList.isPrefixOf s then .float64 else .utf8 := by
  simp only [typeNames, unbuiltTypes, List.cons_append, List.nil_append, List.mem_cons,
    List.not_mem_nil, or_false, not_or] at h
  simp only [lowerTypeToArrow, List.mem_cons, List.not_mem_nil, h, if_false, or_self,
    ite_self]

theorem kindOf_of_not_mem {s : List Char} (h : s ∉ typeNames) :
    kindOf s = if "decimal(".toList.isPrefixOf s then .float else .text := by
  simp only [typeNames, unbuiltTypes, List.cons_append, List.nil_append, List.mem_cons,
    List.not_mem_nil, or_false, not_or] at h
  simp only [kindOf, List.mem_cons, List.not_mem_nil, h, if_false, or_self,
    decide_false, Bool.false_or]

/-- What the names in small letters come to, as arrays and for a reader. -/
theorem lowerTypeToArrow_kindOf (s : List Char) :
    (lowerTypeToArrow s ∉ [.int8, .int16, .float32, .binary, .timestampMicrosecond] ↔
      s ∉ unbuiltTypes) ∧ (lowerTypeToArrow s = .float64 ↔ kindOf s = .float) ∧
    (s ∉ unbuiltTypes → arrayKind (lowerTypeToArrow s) = kindOf s) := by
  by_cases h : s ∈ typeNames
  · revert s
    decide +kernel
  · rw [lowerTypeToArrow_of_not_mem h, kindOf_of_not_mem h]
    have hbuilt : s ∉ unbuiltTypes := fun hmem => h (List.mem_append_right _ hmem)
    split_ifs
    · exact ⟨iff_of_true (by decide) hbuilt, by decide, fun _ => rfl⟩
    · exact ⟨iff_of_true (by decide) hbuilt, by decide, fun _ => rfl⟩

theorem trinoColumnsToSchema_projected (columns : List TableColumn)
    (projection : Option (List (Fin (trinoColumnsToSchema libs columns).length))) :
    projectedSchema (trinoColumnsToSchema libs columns) projection =
      trinoColumnsToSchema libs (projectedColumns libs columns projection) := by
  cases projection with
  | none => rfl
  | some indices =>
    change indices.map (trinoColumnsToSchema libs columns).get =
      (indices.map fun i => columns.get (i.cast (List.length_map _))).map fun c =>
        ⟨c.name, trinoTypeToArrow libs c.dataType, c.nullable⟩
    rw [List.map_map]
    exact List.map_congr_left fun i _ => List.getElem_map _

theorem keptBy_iff_carryable (columns : List TableColumn) (rows : List (List Value)) :
    KeptBy libs (trinoColumnsToSchema libs columns) rows ↔ Carryable libs columns rows := by
  have hcolumn : ∀ (c : TableColumn) (j : ℕ),
      (trinoTypeToArrow libs c.dataType ∉
          [.int8, .int16, .float32, .binary, .timestampMicrosecond] ∧
        ∀ row ∈ rows, (∀ v, row[j]? = some v → v ≠ .null →
            Readable libs (arrayKind (trinoTypeToArrow libs c.dataType)) v) ∧
          (c.nullable = false → ∃ v, row[j]? = some v ∧ v ≠ .null ∧
            (trinoTypeToArrow libs c.dataType = .float64 → (floatOf libs v).isSome = true))) ↔
      libs.lower.text c.dataType.toList ∉ unbuiltTypes ∧
        ∀ row ∈ rows, (∀ v, row[j]? = some v → v ≠ .null → Readable libs (c.kind libs) v) ∧
          (c.nullable = false → ∃ v, row[j]? = some v ∧ v ≠ .null ∧
            (c.kind libs = .float → IsFloat libs v)) := by
    intro c j
    obtain ⟨hbuilt, hfloat, hkind⟩ := lowerTypeToArrow_kindOf (libs.lower.text c.dataType.toList)
    rw [trinoTypeToArrow, hbuilt, hfloat, TableColumn.kind]
    refine and_congr_right fun hnames => ?_
    rw [hkind hnames]
    simp only [isSome_floatOf]
  rw [KeptBy, Carryable, ne_eq, trinoColumnsToSchema, List.map_eq_nil_iff]
  refine or_congr_right (and_congr_right fun _ => ?_)
  constructor
  · intro h j c hc
    exact (hcolumn c j).mp (h j _ (by rw [List.getElem?_map, hc]; rfl))
  · intro h j field hfield
    rw [List.getElem?_map] at hfield
    obtain ⟨c, hc, rfl⟩ := Option.map_eq_some_iff.mp hfield
    exact (hcolumn c j).mpr (h j c hc)

theorem jsonRowsToBatch_carries_iff (libs : ProviderLibraries F) (columns : List TableColumn)
    (projection : Option (List (Fin (trinoColumnsToSchema libs columns).length)))
    (rows : List (List Value)) :
    Carries (projectedSchema (trinoColumnsToSchema libs columns) projection) rows
        (jsonRowsToBatch libs (projectedSchema (trinoColumnsToSchema libs columns) projection) rows) ↔
      Carryable libs (projectedColumns libs columns projection) rows := by
  rw [trinoColumnsToSchema_projected, carries_iff_keptBy, keptBy_iff_carryable]

/-- Readers for which no text is a date, a time or a number. -/
def noReaders : ProviderLibraries ℤ where
  lower := Unicode.asciiOnly.lower
  naiveDate _ _ := none
  naiveDateTime _ _ := none
  ofInt n := n
  ofText _ := 0
  parse _ := none

/-- A `smallint` is declared with 16 bits and built with 32, and the table has no batch. -/
theorem not_carries_smallint : ¬ Carries (F := ℤ)
    (projectedSchema (trinoColumnsToSchema noReaders [⟨"stock", "smallint", true⟩]) none) [[.num 7]]
    (jsonRowsToBatch noReaders
      (projectedSchema (trinoColumnsToSchema noReaders [⟨"stock", "smallint", true⟩]) none)
      [[.num 7]]) := by
  rw [trinoColumnsToSchema_projected, carries_iff_keptBy, keptBy_iff_carryable]
  rintro (hrows | ⟨-, h⟩)
  · cases hrows
  · exact (h 0 _ rfl).1 (by decide +kernel)

end Types
end RustLake.Trino
