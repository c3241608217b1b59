import RustLake.Quality.Gates
import RustLake.Scheduler.Tick
import Mathlib.Algebra.Order.Field.Rat

/-! Two versions of a transform against each other: what is called a regression of the data, and
who wins. -/
namespace RustLake.Scheduler.AbTest
open RustLake.Quality

/-- The arithmetic of `f64` as far as shares of counts go. -/
structure Arithmetic (Number : Type) where
  ofNat : ℕ → Number
  sub : Number → Number → Number
  mul : Number → Number → Number
  div : Number → Number → Number
  neg : Number → Number
  lt : Number → Number → Bool
  millionth : Number
  lt_irrefl : ∀ x, lt x x = false
  lt_trans : ∀ x y z, lt x y = true → lt y z = true → lt x z = true
  lt_ofNat : ∀ m n, m < n → n ≤ 100 → lt (ofNat m) (ofNat n) = true
  sub_self : ∀ n, sub (ofNat n) (ofNat n) = ofNat 0
  sub_zero : ∀ n, sub (ofNat n) (ofNat 0) = ofNat n
  zero_div : ∀ n, div (ofNat 0) (ofNat (n + 1)) = ofNat 0
  div_self : ∀ n, div (ofNat (n + 1)) (ofNat (n + 1)) = ofNat 1
  zero_mul : mul (ofNat 0) (ofNat 100) = ofNat 0
  one_mul : mul (ofNat 1) (ofNat 100) = ofNat 100

structure RegressionMetric (Number : Type) where
  metricName : String
  oldValue : Number
  newValue : Number
  changePct : Number
  isRegression : Bool
deriving DecidableEq

variable {Number : Type} {schema oldSchema newSchema : Schema}

/-- The values of a type as `array_value_to_string` shows them. -/
abbrev Display := (t : DataType) → t.Value → String

def rowCount (batches : List (RecordBatch schema)) : ℕ := (batches.map (·.numRows)).sum

def fieldNames (schema : Schema) : List String := schema.map (·.name)

def countNullsAcrossBatches (batches : List (RecordBatch schema)) (col : String) : ℕ :=
  match indexOf schema col with
  | some i => (batches.map fun batch => nullCount (batch.column i)).sum
  | none => 0

/-- The texts of a column, in all batches, without the nulls. -/
def columnTexts (display : Display) (batches : List (RecordBatch schema)) (col : String) :
    List String :=
  match indexOf schema col with
  | some i => batches.flatMap fun batch => (values (batch.column i)).map (display _)
  | none => []

def countDistinctAcrossBatches (display : Display) (batches : List (RecordBatch schema))
    (col : String) : ℕ :=
  (columnTexts display batches col).dedup.length

section
variable (arith : Arithmetic Number) (display : Display)

/-- A share in percent. -/
def Arithmetic.percent (part whole : Number) : Number :=
  arith.mul (arith.div part whole) (arith.ofNat 100)

def schemaDrift (oldFields newFields : List String) : List (RegressionMetric Number) :=
  let removed := oldFields.filter (· ∉ newFields)
  if removed = [] then []
  else [{
    metricName := "schema_drift"
    oldValue := arith.ofNat oldFields.length
    newValue := arith.ofNat newFields.length
    changePct := arith.neg
      (arith.percent (arith.ofNat removed.length) (arith.ofNat oldFields.length))
    isRegression := true }]

def nullIncrease (old : List (RecordBatch oldSchema)) (new : List (RecordBatch newSchema))
    (col : String) : List (RegressionMetric Number) :=
  if 0 < rowCount old ∧ 0 < rowCount new then
    let oldNullPct :=
      arith.percent (arith.ofNat (countNullsAcrossBatches old col)) (arith.ofNat (rowCount old))
    let newNullPct :=
      arith.percent (arith.ofNat (countNullsAcrossBatches new col)) (arith.ofNat (rowCount new))
    if arith.lt oldNullPct (arith.ofNat 5) ∧ arith.lt (arith.ofNat 20) newNullPct then
      [{ metricName := "null_increase." ++ col
         oldValue := oldNullPct
         newValue := newNullPct
         changePct := arith.sub newNullPct oldNullPct
         isRegression := true }]
    else []
  else []

def cardinalityDrop (old : List (RecordBatch oldSchema)) (new : List (RecordBatch newSchema))
    (col : String) : List (RegressionMetric Number) :=
  let oldDistinct := countDistinctAcrossBatches display old col
  let newDistinct := countDistinctAcrossBatches display new col
  if 0 < oldDistinct then
    let dropPct := arith.percent (arith.sub (arith.ofNat oldDistinct) (arith.ofNat newDistinct))
      (arith.ofNat oldDistinct)
    if arith.lt (arith.ofNat 50) dropPct then
      [{ metricName := "cardinality_drop." ++ col
         oldValue := arith.ofNat oldDistinct
         newValue := arith.ofNat newDistinct
         changePct := arith.neg dropPct
         isRegression := true }]
    else []
  else []

def detectDataRegression (old : List (RecordBatch oldSchema)) (new : List (RecordBatch newSchema)) :
    List (RegressionMetric Number) :=
  if old.isEmpty || new.isEmpty then []
  else
    let oldFields := fieldNames oldSchema
    let newFields := fieldNames newSchema
    schemaDrift arith oldFields newFields ++ oldFields.flatMap fun col =>
      if col ∈ newFields then nullIncrease arith old new col ++ cardinalityDrop arith display old new col
      else []

/-- What a version produced. -/
structure Output where
  schema : Schema
  batches : List (RecordBatch schema)

structure ABComparison (Number : Type) where
  rowCountDiff : ℤ
  rowCountPct : Number
  schemaMatch : Bool
  columnsAdded : List String
  columnsRemoved : List String
  durationDiffMs : ℤ
  costDiffUsd : Number
  dataRegressions : List (RegressionMetric Number)

/-- The columns of the first batch. -/
def Output.columns (output : Output) : List String :=
  if output.batches.isEmpty then [] else fieldNames output.schema

/-- The signs of differences are those of integers. -/
def Arithmetic.ofInt (n : ℤ) : Number :=
  if n < 0 then arith.neg (arith.ofNat n.natAbs) else arith.ofNat n.natAbs

def compareAbOutputs (a b : Output) (aDurationMs bDurationMs : ℕ) (aCost bCost : Number) :
    ABComparison Number :=
  let aRows := rowCount a.batches
  let bRows := rowCount b.batches
  let columnsAdded := b.columns.filter (· ∉ a.columns)
  let columnsRemoved := a.columns.filter (· ∉ b.columns)
  let rowCountDiff : ℤ := bRows - aRows
  { rowCountDiff
    rowCountPct :=
      if 0 < aRows then arith.percent (arith.ofInt rowCountDiff) (arith.ofNat aRows)
      else arith.ofNat 0
    schemaMatch := columnsAdded.isEmpty && columnsRemoved.isEmpty
    columnsAdded
    columnsRemoved
    durationDiffMs := bDurationMs - aDurationMs
    costDiffUsd := arith.sub bCost aCost
    dataRegressions := detectDataRegression arith display a.batches b.batches }

/-- What the engines make of source code: a query that does not fail, and a program that succeeds
and prints a table. -/
structure Engines where
  sql : String → Option Output
  rust : String → Option Output

structure Execution where
  output : Option Output
  durationMs : ℕ

def executeTransformCode (engines : Engines) (transformType sourceCode : String) (elapsedMs : ℕ) :
    Execution :=
  if transformType = "sql" then ⟨engines.sql sourceCode, elapsedMs⟩
  else if transformType = "rust" then ⟨engines.rust sourceCode, elapsedMs⟩
  else ⟨none, 0⟩

/-- No batches stand for an execution that failed. -/
def Execution.out (e : Execution) : Output := e.output.getD ⟨[], []⟩

def Execution.rows (e : Execution) : ℕ := rowCount e.out.batches

def Execution.cost (e : Execution) : Number := arith.mul arith.millionth (arith.ofNat e.durationMs)

structure ABVersionMetrics (Number : Type) where
  version : UInt32
  rowsProduced : ℕ
  durationMs : ℕ
  costUsd : Number
  schemaColumns : List String

structure ABTestResult (Number : Type) where
  tableName : String
  versionA : UInt32
  versionB : UInt32
  versionAMetrics : ABVersionMetrics Number
  versionBMetrics : ABVersionMetrics Number
  comparison : ABComparison Number
  winner : String
  confidence : Number
  recommendation : String

def Execution.metrics (e : Execution) (version : UInt32) : ABVersionMetrics Number where
  version
  rowsProduced := e.rows
  durationMs := e.durationMs
  costUsd := e.cost arith
  schemaColumns := e.out.columns

/-- The points of a version against another one, of which the last is for the comparison. -/
def score (own other : Execution) (point : ℤ) : ℤ :=
  (if other.rows ≤ own.rows then 1 else 0) + (if own.durationMs ≤ other.durationMs then 1 else 0) +
    point

def abResult (tableName : String) (versionA versionB : UInt32) (a b : Execution) :
    ABTestResult Number :=
  let comparison := compareAbOutputs arith display a.out b.out a.durationMs b.durationMs
    (a.cost arith) (b.cost arith)
  let aScore := score a b (if comparison.dataRegressions.isEmpty then 0 else -1)
  let bScore := score b a (if comparison.dataRegressions.isEmpty then 0 else 1)
  let winner :=
    if bScore < aScore then "version_a" else if aScore < bScore then "version_b" else "tie"
  let share := arith.div (arith.ofNat (aScore - bScore).natAbs) (arith.ofNat 3)
  { tableName
    versionA
    versionB
    versionAMetrics := a.metrics arith versionA
    versionBMetrics := b.metrics arith versionB
    comparison
    winner
    confidence := if arith.lt share (arith.ofNat 1) then share else arith.ofNat 1
    recommendation :=
      if winner = "version_a" then
        "Version " ++ toString versionA ++ " is the winner. More rows, better performance."
      else if winner = "version_b" then
        "Version " ++ toString versionB ++ " is the winner. Better overall metrics."
      else "Tie — both versions perform similarly. Choose based on code clarity." }

/-- A test of two versions that are run one after the other, or what is not found. -/
def abTest {Gate : Type} (tables : List (ExecutableTable Gate)) (name : String)
    (versionA versionB : UInt32) (first second : Engines) (elapsedA elapsedB : ℕ) :
    Except String (ABTestResult Number) :=
  match findTable tables name with
  | none => .error ("Table '" ++ name ++ "' not found")
  | some table => match table.versions.find? (·.version = versionA) with
    | none => .error ("Version " ++ toString versionA ++ " not found")
    | some verA => match table.versions.find? (·.version = versionB) with
      | none => .error ("Version " ++ toString versionB ++ " not found")
      | some verB =>
        let a := executeTransformCode first table.transform.transformType verA.sourceCode elapsedA
        let b := executeTransformCode second table.transform.transformType verB.sourceCode elapsedB
        .ok (abResult arith display name versionA versionB a b)

end

/-- The rows of a batch, with a value or null for every field. -/
def rowsOf (batch : RecordBatch schema) :
    List ((i : Fin schema.length) → Option (schema.get i).dataType.Value) :=
  (List.finRange batch.numRows).map fun j i =>
    (batch.column i).get (j.cast (batch.length_column i).symm)

/-- The same rows, in another order and cut into other batches. -/
structure SameRows (batches batches' : List (RecordBatch schema)) : Prop where
  rows : (batches.flatMap rowsOf).Perm (batches'.flatMap rowsOf)
  empty : batches = [] ↔ batches' = []

section
variable {arith : Arithmetic Number} {display : Display} {batches batches' : List (RecordBatch schema)}

theorem map_rowsOf (batch : RecordBatch schema) (i : Fin schema.length) :
    (rowsOf batch).map (· i) = batch.column i := by
  apply List.ext_getElem
  · simp [rowsOf, batch.length_column]
  · intro j hj hj'
    simp [rowsOf]

theorem flatMap_column (batches : List (RecordBatch schema)) (i : Fin schema.length) :
    batches.flatMap (fun batch => batch.column i) = (batches.flatMap rowsOf).map (· i) := by
  rw [List.map_flatMap]
  congr 1
  funext batch
  exact (map_rowsOf batch i).symm

theorem SameRows.column (h : SameRows batches batches') (i : Fin schema.length) :
    (batches.flatMap fun batch => batch.column i).Perm
      (batches'.flatMap fun batch => batch.column i) := by
  rw [flatMap_column, flatMap_column]
  exact h.rows.map _

theorem rowCount_eq (batches : List (RecordBatch schema)) :
    rowCount batches = (batches.flatMap rowsOf).length := by
  rw [rowCount, List.length_flatMap]
  congr 1
  apply List.map_congr_left
  intro batch hbatch
  simp [rowsOf]

theorem SameRows.rowCount_eq (h : SameRows batches batches') :
    rowCount batches = rowCount batches' := by
  rw [AbTest.rowCount_eq, AbTest.rowCount_eq, h.rows.length_eq]

theorem SameRows.countNulls_eq (h : SameRows batches batches') (col : String) :
    countNullsAcrossBatches batches col = countNullsAcrossBatches batches' col := by
  rw [countNullsAcrossBatches, countNullsAcrossBatches]
  cases indexOf schema col with
  | none => rfl
  | some i =>
    have hall : ∀ l : List (RecordBatch schema), (l.map fun batch => nullCount (batch.column i)).sum =
        (l.flatMap fun batch => batch.column i).countP Option.isNone := fun l =>
      List.countP_flatMap.symm
    simp only [hall]
    exact (h.column i).countP_eq _

theorem columnTexts_eq {col : String} {i : Fin schema.length} (hcol : indexOf schema col = some i)
    (batches : List (RecordBatch schema)) :
    columnTexts display batches col =
      ((batches.flatMap fun batch => batch.column i).filterMap id).map (display _) := by
  rw [columnTexts, hcol, List.filterMap_flatMap, List.map_flatMap]
  rfl

theorem SameRows.columnTexts (h : SameRows batches batches') (col : String) :
    (columnTexts display batches col).Perm (columnTexts display batches' col) := by
  cases hcol : indexOf schema col with
  | none => simp [AbTest.columnTexts, hcol]
  | some i =>
    rw [columnTexts_eq hcol, columnTexts_eq hcol]
    exact ((h.column i).filterMap id).map _

theorem columnTexts_empty (hrows : rowCount batches = 0) (col : String) :
    columnTexts display batches col = [] := by
  cases hcol : indexOf schema col with
  | none => simp [columnTexts, hcol]
  | some i =>
    rw [rowCount_eq] at hrows
    rw [columnTexts_eq hcol, flatMap_column, List.length_eq_zero_iff.mp hrows]
    rfl

theorem SameRows.countDistinct_eq (h : SameRows batches batches') (col : String) :
    countDistinctAcrossBatches display batches col =
      countDistinctAcrossBatches display batches' col :=
  (h.columnTexts col).dedup.length_eq

/-- The metrics are of the rows, not of the batches. -/
theorem detectDataRegression_congr {old old' : List (RecordBatch oldSchema)}
    {new new' : List (RecordBatch newSchema)} (hold : SameRows old old') (hnew : SameRows new new') :
    detectDataRegression arith display old new = detectDataRegression arith display old' new' := by
  have hempty : ∀ {schema : Schema} {l l' : List (RecordBatch schema)}, (l = [] ↔ l' = []) →
      l.isEmpty = l'.isEmpty := by
    intro schema l l' h
    rw [Bool.eq_iff_iff, List.isEmpty_iff, List.isEmpty_iff, h]
  have hnulls : nullIncrease arith old new = nullIncrease arith old' new' := by
    funext col
    rw [nullIncrease, nullIncrease, hold.rowCount_eq, hnew.rowCount_eq, hold.countNulls_eq,
      hnew.countNulls_eq]
  have hdrop : cardinalityDrop arith display old new = cardinalityDrop arith display old' new' := by
    funext col
    rw [cardinalityDrop, cardinalityDrop, hold.countDistinct_eq, hnew.countDistinct_eq]
  rw [detectDataRegression, detectDataRegression, hempty hold.empty, hempty hnew.empty, hnulls, hdrop]

theorem percent_zero (n : ℕ) :
    arith.percent (arith.ofNat 0) (arith.ofNat (n + 1)) = arith.ofNat 0 := by
  rw [Arithmetic.percent, arith.zero_div, arith.zero_mul]

theorem percent_self (n : ℕ) :
    arith.percent (arith.ofNat (n + 1)) (arith.ofNat (n + 1)) = arith.ofNat 100 := by
  rw [Arithmetic.percent, arith.div_self, arith.one_mul]

theorem not_lt_of_lt {x y : Number} (h : arith.lt x y = true) : arith.lt y x = false := by
  cases hback : arith.lt y x with
  | false => rfl
  | true =>
    have hself := arith.lt_trans x y x h hback
    rw [arith.lt_irrefl] at hself
    cases hself

/-- Nothing is a regression of itself. -/
theorem detectDataRegression_self (batches : List (RecordBatch schema)) :
    detectDataRegression arith display batches batches = [] := by
  have hdrift : schemaDrift arith (fieldNames schema) (fieldNames schema) = [] := by
    simp [schemaDrift]
  have hnulls : ∀ col, nullIncrease arith batches batches col = [] := by
    intro col
    have hbetween : arith.lt (arith.ofNat 5) (arith.ofNat 20) = true :=
      arith.lt_ofNat 5 20 (by decide) (by decide)
    rw [nullIncrease]
    by_cases hrows : 0 < rowCount batches ∧ 0 < rowCount batches
    · rw [if_pos hrows]
      apply if_neg
      rintro ⟨hlow, hhigh⟩
      have hbelow := not_lt_of_lt (arith.lt_trans _ _ _ hlow hbetween)
      rw [hhigh] at hbelow
      cases hbelow
    · exact if_neg hrows
  have hdrops : ∀ col, cardinalityDrop arith display batches batches col = [] := by
    intro col
    have hfifty : arith.lt (arith.ofNat 0) (arith.ofNat 50) = true :=
      arith.lt_ofNat 0 50 (by decide) (by decide)
    rw [cardinalityDrop]
    cases countDistinctAcrossBatches display batches col with
    | zero => rfl
    | succ n => simp [arith.sub_self, percent_zero, not_lt_of_lt hfifty]
  rw [detectDataRegression]
  simp [hdrift, hnulls, hdrops]

/-- A column without its values is a regression, as soon as there is a batch that has none. -/
theorem cardinalityDrop_mem {old : List (RecordBatch oldSchema)} {new : List (RecordBatch newSchema)}
    {col : String} (hold : columnTexts display old col ≠ []) (hne : old ≠ [] ∧ new ≠ [])
    (hcol : col ∈ fieldNames oldSchema ∧ col ∈ fieldNames newSchema) (hrows : rowCount new = 0) :
    ∃ metric ∈ detectDataRegression arith display old new,
      metric.metricName = "cardinality_drop." ++ col := by
  have hlists : (old.isEmpty || new.isEmpty) = false := by simp [hne]
  have hnone : countDistinctAcrossBatches display new col = 0 := by
    rw [countDistinctAcrossBatches, columnTexts_empty hrows]
    rfl
  have hsome : ∃ n, countDistinctAcrossBatches display old col = n + 1 := by
    apply Nat.exists_eq_succ_of_ne_zero
    rw [countDistinctAcrossBatches, Ne, List.length_eq_zero_iff, List.dedup_eq_nil]
    exact hold
  obtain ⟨n, hn⟩ := hsome
  have hfifty : arith.lt (arith.ofNat 50) (arith.ofNat 100) = true :=
    arith.lt_ofNat 50 100 (by decide) (by decide)
  have hdrop : ∃ metric ∈ cardinalityDrop arith display old new col,
      metric.metricName = "cardinality_drop." ++ col := by
    simp [cardinalityDrop, hn, hnone, arith.sub_zero, percent_self, hfifty]
  obtain ⟨metric, hmem, hname⟩ := hdrop
  refine ⟨metric, ?_, hname⟩
  rw [detectDataRegression, hlists]
  apply List.mem_append_right
  apply List.mem_flatMap.mpr
  exact ⟨col, hcol.1, by rw [if_pos hcol.2]; exact List.mem_append_right _ hmem⟩

/-- So is a column that is not there any more. -/
theorem schemaDrift_mem {old : List (RecordBatch oldSchema)} {new : List (RecordBatch newSchema)}
    {col : String} (hne : old ≠ [] ∧ new ≠ []) (hold : col ∈ fieldNames oldSchema)
    (hnew : col ∉ fieldNames newSchema) :
    ∃ metric ∈ detectDataRegression arith display old new,
      metric.metricName = "schema_drift" := by
  have hlists : (old.isEmpty || new.isEmpty) = false := by simp [hne]
  have hdrift : ∃ metric ∈ schemaDrift arith (fieldNames oldSchema) (fieldNames newSchema),
      metric.metricName = "schema_drift" := by
    simp only [schemaDrift, List.filter_eq_nil_iff]
    split_ifs with hkept
    · exact absurd hnew (by simpa using hkept col hold)
    · simp
  obtain ⟨metric, hmem, hname⟩ := hdrift
  refine ⟨metric, ?_, hname⟩
  rw [detectDataRegression, hlists]
  exact List.mem_append_left _ hmem

/-- At least as many rows in at most the time, and better in one of them. -/
def Dominates (a b : Execution) : Prop :=
  b.rows ≤ a.rows ∧ a.durationMs ≤ b.durationMs ∧ (b.rows < a.rows ∨ a.durationMs < b.durationMs)

theorem score_lt_score (a b : Execution) : score b a 0 < score a b 0 ↔ Dominates a b := by
  rw [score, score, Dominates]
  split_ifs <;> omega

/-- The points for a regression are two more than the other ones can make up for. -/
theorem score_regressed (a b : Execution) :
    ¬ score b a 1 < score a b (-1) ∧
      (score a b (-1) < score b a 1 ↔ ¬ (b.rows < a.rows ∧ a.durationMs < b.durationMs)) := by
  rw [score, score]
  split_ifs <;> omega

theorem winner_eq (arith : Arithmetic Number) (display : Display) (tableName : String)
    (versionA versionB : UInt32) (a b : Execution) :
    let result := abResult arith display tableName versionA versionB a b
    (result.comparison.dataRegressions = [] →
      (result.winner = "version_a" ↔ Dominates a b) ∧
        (result.winner = "version_b" ↔ Dominates b a)) ∧
    (result.comparison.dataRegressions ≠ [] → result.winner ≠ "version_a" ∧
      (result.winner = "version_b" ↔ ¬ (b.rows < a.rows ∧ a.durationMs < b.durationMs))) := by
  intro result
  let aScore := score a b (if result.comparison.dataRegressions.isEmpty then 0 else -1)
  let bScore := score b a (if result.comparison.dataRegressions.isEmpty then 0 else 1)
  have hwinner : result.winner = if bScore < aScore then "version_a"
      else if aScore < bScore then "version_b" else "tie" := rfl
  have hfirst : result.winner = "version_a" ↔ bScore < aScore := by
    rw [hwinner]
    split_ifs <;> simp_all
  have hsecond : result.winner = "version_b" ↔ aScore < bScore := by
    rw [hwinner]
    split_ifs with hlt
    · simp only [String.reduceEq, false_iff, not_lt]
      exact hlt.le
    · simp_all
    · simp_all
  constructor
  · intro hnone
    have ha : aScore = score a b 0 := by simp [aScore, hnone]
    have hb : bScore = score b a 0 := by simp [bScore, hnone]
    rw [hfirst, hsecond, ha, hb, score_lt_score, score_lt_score]
    exact ⟨Iff.rfl, Iff.rfl⟩
  · intro hsome
    have ha : aScore = score a b (-1) := by simp [aScore, hsome]
    have hb : bScore = score b a 1 := by simp [bScore, hsome]
    rw [Ne, hfirst, hsecond, ha, hb]
    exact score_regressed a b

/-- The metrics depend on the rows, not on their order or the batches that they come in, and there
are none for the same rows. A new version without rows is a regression in every column that had a
value, if it has a batch, and in none if it has no batch. -/
theorem data_regressions_of_rows (arith : Arithmetic Number) (display : Display)
    (oldSchema newSchema : Schema) :
    (∀ (old old' : List (RecordBatch oldSchema)) (new new' : List (RecordBatch newSchema)),
      SameRows old old' → SameRows new new' →
      detectDataRegression arith display old new = detectDataRegression arith display old' new') ∧
    (∀ old old' : List (RecordBatch oldSchema), SameRows old old' →
      detectDataRegression arith display old old' = []) ∧
    ∀ (old : List (RecordBatch oldSchema)) (new : List (RecordBatch newSchema)),
      rowCount new = 0 →
      (new = [] → detectDataRegression arith display old new = []) ∧
      (new ≠ [] → ∀ col ∈ fieldNames oldSchema, col ∈ fieldNames newSchema →
        columnTexts display old col ≠ [] → ∃ metric ∈ detectDataRegression arith display old new,
          metric.metricName = "cardinality_drop." ++ col) := by
  refine ⟨?_, ?_, ?_⟩
  · intro old old' new new' hold hnew
    exact detectDataRegression_congr hold hnew
  · intro old old' hsame
    have hrefl : SameRows old old := ⟨.refl _, Iff.rfl⟩
    rw [← detectDataRegression_congr hrefl hsame, detectDataRegression_self]
  · intro old new hrows
    constructor
    · intro hnew
      simp [detectDataRegression, hnew]
    · intro hnew col hold hkept htexts
      have hne : old ≠ [] := by
        rintro rfl
        exact htexts (columnTexts_empty rfl col)
      exact cardinalityDrop_mem htexts ⟨hne, hnew⟩ ⟨hold, hkept⟩ hrows

end

/-- Exact numbers. -/
def rational : Arithmetic ℚ where
  ofNat n := n
  sub x y := x - y
  mul x y := x * y
  div x y := x / y
  neg x := -x
  lt x y := decide (x < y)
  millionth := 1 / 1000000
  lt_irrefl := by simp
  lt_trans x y z hxy hyz := by
    simp only [decide_eq_true_eq] at hxy hyz ⊢
    exact hxy.trans hyz
  lt_ofNat := by
    intro m n hlt _
    simpa using hlt
  sub_self := by simp
  sub_zero := by simp
  zero_div := by simp
  div_self n := div_self (by exact_mod_cast Nat.succ_ne_zero n)
  zero_mul := by simp
  one_mul := by simp

/-- A batch of rows in which all is null. -/
def nullRows (schema : Schema) (rows : ℕ) : RecordBatch schema where
  numRows := rows
  column _ := List.replicate rows none
  length_column := by simp

/-- Three rows in one batch and in two are the same. -/
theorem data_regressions_of_rows_cut :
    detectDataRegression rational DataType.repr [nullRows [⟨"id", .int64⟩] 3]
      [nullRows [⟨"id", .int64⟩] 1, nullRows [⟨"id", .int64⟩] 2] = [] := by
  have hsame : SameRows [nullRows [⟨"id", .int64⟩] 3]
      [nullRows [⟨"id", .int64⟩] 1, nullRows [⟨"id", .int64⟩] 2] :=
    ⟨.of_eq rfl, by simp⟩
  exact (data_regressions_of_rows rational DataType.repr [⟨"id", .int64⟩] []).2.1 _ _ hsame

section
variable {arith : Arithmetic Number} {display : Display}

end

/-- The second version of a query has lost a column, and takes no longer. -/
def narrowedEngines : Engines where
  sql code :=
    if code = "SELECT id, v FROM t" then
      some ⟨[⟨"id", .int64⟩, ⟨"v", .int64⟩], [nullRows _ 3]⟩
    else some ⟨[⟨"id", .int64⟩], [nullRows _ 1]⟩
  rust _ := none

def narrowedVersion (version : UInt32) (code : String) : TransformVersion where
  version
  sourceCode := code
  sourceHash := ""
  createdAt := "2026-03-01T00:00:00+00:00"
  createdBy := "user"
  changeDescription := "columns"
  binarySizeBytes := none
  snapshotIds := []

def narrowedTable : ExecutableTable Unit where
  tableName := "t2"
  transform := ⟨"sql", "SELECT id FROM t", "", false⟩
  qualityGates := []
  inputTables := ["t"]
  health := "healthy"
  history := []
  versions := [narrowedVersion 1 "SELECT id, v FROM t", narrowedVersion 2 "SELECT id FROM t"]
  lastRefresh := none
  totalExecutions := 0
  incremental := false
  watermarkColumn := none
  lastWatermark := none
  executionsSkipped := 0
  autoRefresh := false
  refreshIntervalSeconds := 3600

def narrowedResult : ABTestResult ℚ :=
  abResult rational DataType.repr "t2" 1 2
    (executeTransformCode narrowedEngines "sql" "SELECT id, v FROM t" 5)
    (executeTransformCode narrowedEngines "sql" "SELECT id FROM t" 5)

end RustLake.Scheduler.AbTest
