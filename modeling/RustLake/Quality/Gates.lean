import RustLake.Rust.Float
import Mathlib.Algebra.BigOperators.Group.List.Basic

/-! Quality gates: the checks that record batches have to pass before they are committed. -/
namespace RustLake.Quality

inductive DataType where
  | utf8 | largeUtf8
  | int8 | int16 | int32 | int64
  | uint8 | uint16 | uint32 | uint64
  | float32 | float64
  /-- Any other type, by its `Debug` text. -/
  | other (debug : String)
deriving DecidableEq

/-- The values of a type. Floats are their bits, and a value of any other type is what arrow's
display of it gives, as a `Debug` text. -/
@[reducible] def DataType.Value : DataType → Type
  | .utf8 | .largeUtf8 | .other _ => String
  | .int8 => Int8
  | .int16 => Int16
  | .int32 => Int32
  | .int64 => Int64
  | .uint8 => UInt8
  | .uint16 => UInt16
  | .uint32 => UInt32
  | .uint64 => UInt64
  | .float32 => UInt32
  | .float64 => F64

def DataType.debug : DataType → String
  | .utf8 => "Utf8"
  | .largeUtf8 => "LargeUtf8"
  | .int8 => "Int8"
  | .int16 => "Int16"
  | .int32 => "Int32"
  | .int64 => "Int64"
  | .uint8 => "UInt8"
  | .uint16 => "UInt16"
  | .uint32 => "UInt32"
  | .uint64 => "UInt64"
  | .float32 => "Float32"
  | .float64 => "Float64"
  | .other debug => debug

/-- `Debug` of the `Ok` that the display of an integer gives. -/
def displayed (text : String) : String := "Ok(\"" ++ text ++ "\")"

/-- The text by which `check_unique` tells values apart. -/
def DataType.repr : (t : DataType) → t.Value → String
  | .utf8, v | .largeUtf8, v | .other _, v => v
  | .int32, v => toString v
  | .int64, v => toString v
  | .float32, bits => toString bits
  | .float64, v => toString v.bits
  | .int8, v => displayed (toString v)
  | .int16, v => displayed (toString v)
  | .uint8, v => displayed (toString v)
  | .uint16, v => displayed (toString v)
  | .uint32, v => displayed (toString v)
  | .uint64, v => displayed (toString v)

/-- `AsF64`, for the types that `check_range` takes. -/
def DataType.asF64 : (t : DataType) → Option (t.Value → F64)
  | .int8 => some fun v => .ofInt v.toInt
  | .int16 => some fun v => .ofInt v.toInt
  | .int32 => some fun v => .ofInt v.toInt
  | .int64 => some fun v => .ofInt v.toInt
  | .uint8 => some fun v => .ofInt v.toNat
  | .uint16 => some fun v => .ofInt v.toNat
  | .uint32 => some fun v => .ofInt v.toNat
  | .uint64 => some fun v => .ofInt v.toNat
  | .float32 => some .ofF32
  | .float64 => some id
  | .utf8 | .largeUtf8 | .other _ => none

structure Field where
  name : String
  dataType : DataType

abbrev Schema := List Field

/-- The values of a column, none for null. -/
abbrev Column (t : DataType) := List (Option t.Value)

/-- A batch has a column of `numRows` values for each field. -/
structure RecordBatch (schema : Schema) where
  numRows : ℕ
  column : (i : Fin schema.length) → Column (schema.get i).dataType
  length_column : ∀ i, (column i).length = numRows

variable {schema : Schema}

/-- `concat_batches`. -/
def RecordBatch.concat (batches : List (RecordBatch schema)) : RecordBatch schema where
  numRows := (batches.map (·.numRows)).sum
  column i := batches.flatMap fun batch => batch.column i
  length_column i := by
    have hlength : ∀ batch : RecordBatch schema, (batch.column i).length = batch.numRows :=
      fun batch => batch.length_column i
    simp only [List.length_flatMap, hlength]

inductive QualityCheck where
  | notNull (column : String)
  | unique (column : String)
  | range (column : String) (min max : F64)
  | rowCountMin (min : ℕ)
  | customSql (sql description : String)

structure QualityGate where
  id : String
  table : String
  checks : List QualityCheck
  enabled : Bool

inductive Severity where
  | warning
  | error
deriving DecidableEq

structure ValidationFailure where
  check : String
  message : String
  severity : Severity
deriving DecidableEq

structure ValidationResult where
  passed : Bool
  failures : List ValidationFailure
  checkedAt : String
  checksRun : ℕ
  rowsChecked : ℕ

/-- The texts of numbers: `Display`, and with six decimals. -/
structure NumberTexts where
  display : F64 → String
  sixDecimals : F64 → String

/-- `Schema::index_of`. -/
def indexOf (schema : Schema) (column : String) : Option (Fin schema.length) :=
  schema.findFinIdx? fun field => field.name == column

def nullCount {t : DataType} (array : Column t) : ℕ := array.countP Option.isNone

/-- The values that are not null. -/
def values {t : DataType} (array : Column t) : List t.Value := array.filterMap id

section Checks
variable (texts : NumberTexts)

def QualityCheck.toString : QualityCheck → String
  | .notNull column => "NotNull(" ++ column ++ ")"
  | .unique column => "Unique(" ++ column ++ ")"
  | .range column min max =>
    "Range(" ++ column ++ " in [" ++ texts.display min ++ ", " ++ texts.display max ++ "])"
  | .rowCountMin min => "RowCountMin(" ++ min.repr ++ ")"
  | .customSql _ description => "CustomSql(" ++ description ++ ")"

/-- The failure of a check whose column is not there. -/
def notFound (check : QualityCheck) (column : String) : ValidationFailure where
  check := check.toString texts
  message := "Column '" ++ column ++ "' not found in batch schema"
  severity := .error

/-- Each check gives the failures that it pushes. -/
def checkNotNull (batch : RecordBatch schema) (column : String) : List ValidationFailure :=
  match indexOf schema column with
  | none => [notFound texts (.notNull column) column]
  | some i =>
    let array := batch.column i
    if 0 < nullCount array then
      [{ check := QualityCheck.toString texts (.notNull column)
         message := "Column '" ++ column ++ "' contains " ++ (nullCount array).repr ++
           " null value(s) out of " ++ array.length.repr ++ " rows"
         severity := .error }]
    else []

/-- The texts seen and the number of duplicates, after one more text. -/
def insertText (found : List String × ℕ) (text : String) : List String × ℕ :=
  if text ∈ found.1 then (found.1, found.2 + 1) else (text :: found.1, found.2)

def checkUnique (batch : RecordBatch schema) (column : String) : List ValidationFailure :=
  match indexOf schema column with
  | none => [notFound texts (.unique column) column]
  | some i =>
    let array := batch.column i
    let total := array.length
    if total = 0 then []
    else
      let (seen, duplicates) := ((values array).map (DataType.repr _)).foldl insertText ([], 0)
      if 0 < duplicates then
        [{ check := QualityCheck.toString texts (.unique column)
           message := "Column '" ++ column ++ "' has " ++ duplicates.repr ++ " duplicate(s): " ++
             seen.length.repr ++ " distinct values out of " ++ (total - nullCount array).repr ++
             " non-null rows"
           severity := .error }]
      else []

/-- `compute_min_max_primitive` on the values that are not null. -/
def computeMinMax (found : Option F64 × Option F64) (v : F64) : Option F64 × Option F64 :=
  (some (found.1.elim v fun m => m.min v), some (found.2.elim v fun m => m.max v))

def checkRange (batch : RecordBatch schema) (column : String) (min max : F64) :
    List ValidationFailure :=
  match indexOf schema column with
  | none => [notFound texts (.range column min max) column]
  | some i =>
    let array := batch.column i
    if array.length = 0 then []
    else
      match (schema.get i).dataType.asF64 with
      | none =>
        [{ check := QualityCheck.toString texts (.range column min max)
           message := "Column '" ++ column ++ "' has non-numeric type " ++
             (schema.get i).dataType.debug ++ " — range check not applicable"
           severity := .warning }]
      | some asF64 =>
        match ((values array).map asF64).foldl computeMinMax (none, none) with
        | (some actualMin, some actualMax) =>
          if actualMin.Lt min ∨ max.Lt actualMax then
            [{ check := QualityCheck.toString texts (.range column min max)
               message := "Column '" ++ column ++ "' values [" ++ texts.sixDecimals actualMin ++
                 ", " ++ texts.sixDecimals actualMax ++ "] exceed allowed range [" ++
                 texts.display min ++ ", " ++ texts.display max ++ "]"
               severity := .error }]
          else []
        | _ => []

def checkRowCountMin (batch : RecordBatch schema) (min : ℕ) : List ValidationFailure :=
  if batch.numRows < min then
    [{ check := QualityCheck.toString texts (.rowCountMin min)
       message := "Batch has " ++ batch.numRows.repr ++ " rows, minimum required is " ++ min.repr
       severity := .error }]
  else []

/-- What one check of a gate pushes for a batch. -/
def check (batch : RecordBatch schema) : QualityCheck → List ValidationFailure
  | .notNull column => checkNotNull texts batch column
  | .unique column => checkUnique texts batch column
  | .range column min max => checkRange texts batch column min max
  | .rowCountMin min => checkRowCountMin texts batch min
  | .customSql _ _ => []

/-- At the time `now`. -/
def validateBatch (now : String) (gate : QualityGate) (batch : RecordBatch schema) :
    ValidationResult :=
  if gate.enabled then
    let failures := gate.checks.flatMap (check texts batch)
    { passed := failures.isEmpty
      failures := failures
      checkedAt := now
      checksRun := gate.checks.length
      rowsChecked := batch.numRows }
  else
    { passed := true
      failures := []
      checkedAt := now
      checksRun := 0
      rowsChecked := batch.numRows }

/-- A failure that says in which batch it is. -/
def ValidationFailure.inBatch (i : ℕ) (failure : ValidationFailure) : ValidationFailure :=
  { failure with message := "[batch " ++ i.repr ++ "] " ++ failure.message }

/-- What one check pushes for each of several batches: the number of rows is checked afterwards. -/
def checkOneOf (i : ℕ) (batch : RecordBatch schema) : QualityCheck → List ValidationFailure
  | .notNull column => (checkNotNull texts batch column).map (.inBatch i)
  | .unique column => (checkUnique texts batch column).map (.inBatch i)
  | .range column min max => (checkRange texts batch column min max).map (.inBatch i)
  | .rowCountMin _ => []
  | .customSql _ _ => []

/-- What a check of the number of rows pushes for all batches. -/
def checkTotal (batches : List (RecordBatch schema)) : QualityCheck → List ValidationFailure
  | .rowCountMin min =>
    let totalRowCount := (batches.map (·.numRows)).sum
    if totalRowCount < min then
      [{ check := QualityCheck.toString texts (.rowCountMin min)
         message := "Total row count " ++ totalRowCount.repr ++ " is below minimum " ++ min.repr ++
           " (across " ++ batches.length.repr ++ " batches)"
         severity := .error }]
    else []
  | _ => []

def validateBatches (now : String) (gate : QualityGate) (batches : List (RecordBatch schema)) :
    ValidationResult :=
  let totalRows := (batches.map (·.numRows)).sum
  if !gate.enabled || batches.isEmpty then
    { passed := true
      failures := []
      checkedAt := now
      checksRun := 0
      rowsChecked := totalRows }
  else
    let failures :=
      (batches.zipIdx.flatMap fun (batch, i) => gate.checks.flatMap (checkOneOf texts i batch)) ++
        gate.checks.flatMap (checkTotal texts batches)
    { passed := failures.isEmpty
      failures := failures
      checkedAt := now
      checksRun := gate.checks.length
      rowsChecked := totalRows }

end Checks
end RustLake.Quality
