import Mathlib.Data.List.Basic
import Mathlib.Data.Int.Notation

/-! Columns of values, each of which may be missing, and batches of them under a schema. Floats are of
any type. -/
namespace RustLake.Arrow

inductive DataType where
  | boolean | int8 | int16 | int32 | int64 | float32 | float64 | utf8 | binary | date32
  | timestampMillisecond | timestampMicrosecond
deriving DecidableEq, Repr

/-- The values of a type. -/
@[reducible] def DataType.Value (F : Type) : DataType → Type
  | .boolean => Bool
  | .int8 => Int8
  | .int16 => Int16
  | .int32 | .date32 => Int32
  | .int64 | .timestampMillisecond | .timestampMicrosecond => Int64
  | .float32 | .float64 => F
  | .utf8 => String
  | .binary => List UInt8

structure Field where
  name : String
  dataType : DataType
  nullable : Bool
deriving DecidableEq

/-- A column of a type, with a value or none for each row. -/
structure Column (F : Type) where
  dataType : DataType
  cells : List (Option (dataType.Value F))

structure RecordBatch (F : Type) where
  fields : List Field
  columns : List (Column F)
  rowCount : ℕ

inductive BatchError where
  | columnCount
  | noRowCount
  | nullsIn (name : String)
  | lengths
  | typeOf (name : String)
deriving DecidableEq

variable {F : Type}

def Column.length (c : Column F) : ℕ := c.cells.length

def Column.nullCount (c : Column F) : ℕ := c.cells.countP (·.isNone)

/-- `RecordBatch::try_new`. -/
def RecordBatch.tryNew (fields : List Field) (columns : List (Column F)) :
    Except BatchError (RecordBatch F) :=
  if columns.length ≠ fields.length then .error .columnCount
  else
    match columns.head? with
    | none => .error .noRowCount
    | some first =>
      match (fields.zip columns).find? fun p => !p.1.nullable && 0 < p.2.nullCount with
      | some p => .error (.nullsIn p.1.name)
      | none =>
        if columns.any fun c => c.length ≠ first.length then .error .lengths
        else
          match (fields.zip columns).find? fun p => p.2.dataType ≠ p.1.dataType with
          | some p => .error (.typeOf p.1.name)
          | none => .ok ⟨fields, columns, first.length⟩

/-- `RecordBatch::new_empty`. -/
def RecordBatch.newEmpty (fields : List Field) : RecordBatch F :=
  ⟨fields, fields.map fun f => ⟨f.dataType, []⟩, 0⟩

section Spec
variable {fields : List Field} {columns : List (Column F)} {n : ℕ}

/-- A column can stand under a field. -/
def Column.Fits (c : Column F) (f : Field) : Prop :=
  c.dataType = f.dataType ∧ (f.nullable = false → c.nullCount = 0)

/-- Columns of one length make a batch exactly when there are some and each fits its field. -/
theorem tryNew_cases (hcount : columns.length = fields.length) (hlength : ∀ c ∈ columns, c.length = n) :
    (columns ≠ [] ∧ (∀ p ∈ fields.zip columns, p.2.Fits p.1) ∧
        RecordBatch.tryNew fields columns = .ok ⟨fields, columns, n⟩) ∨
      ¬ (columns ≠ [] ∧ ∀ p ∈ fields.zip columns, p.2.Fits p.1) ∧
        ∃ e, RecordBatch.tryNew fields columns = .error e := by
  unfold RecordBatch.tryNew
  rw [if_neg (not_not.mpr hcount)]
  cases hhead : columns.head? with
  | none => exact Or.inr ⟨fun h => h.1 (List.head?_eq_none_iff.mp hhead), _, rfl⟩
  | some first =>
    have hfirst : first ∈ columns := List.mem_of_head? hhead
    have hsame : columns.any (fun c => c.length ≠ first.length) = false := by
      rw [List.any_eq_false]
      intro c hc
      simp [hlength c hc, hlength first hfirst]
    dsimp only
    rw [hsame]
    cases hnulls : (fields.zip columns).find? fun p => !p.1.nullable && 0 < p.2.nullCount with
    | some p =>
      refine Or.inr ⟨fun h => ?_, _, rfl⟩
      have hbad := List.find?_some hnulls
      have hfits := (h.2 p (List.mem_of_find?_eq_some hnulls)).2
      simp only [Bool.and_eq_true, Bool.not_eq_true', decide_eq_true_eq] at hbad
      rw [hfits hbad.1] at hbad
      exact Nat.lt_irrefl 0 hbad.2
    | none =>
      cases htypes : (fields.zip columns).find? fun p => p.2.dataType ≠ p.1.dataType with
      | some p =>
        refine Or.inr ⟨fun h => ?_, _, rfl⟩
        have hbad := List.find?_some htypes
        exact of_decide_eq_true hbad (h.2 p (List.mem_of_find?_eq_some htypes)).1
      | none =>
        refine Or.inl ⟨List.ne_nil_of_mem hfirst, fun p hp => ⟨?_, fun hnullable => ?_⟩, ?_⟩
        · simpa using List.find?_eq_none.mp htypes p hp
        · have hnone := List.find?_eq_none.mp hnulls p hp
          simpa [hnullable] using hnone
        · rw [hlength first hfirst]
          rfl

theorem nullCount_eq_zero {c : Column F} : c.nullCount = 0 ↔ ∀ cell ∈ c.cells, cell ≠ none := by
  rw [Column.nullCount, List.countP_eq_zero]
  simp only [Option.isNone_iff_eq_none]

end Spec
end RustLake.Arrow
