import RustLake.Quality.Batches
import RustLake.Scheduler.Healing
import RustLake.Scheduler.Properties

/-! The gates of an executable table: what each asks of the batches, and when a job rolls the table
back for them. -/
namespace RustLake.Scheduler
open RustLake.Quality
open Properties (QualityGateRef)

variable {schema : Schema}

def f64Zero : F64 := ⟨0⟩

def f64One : F64 := ⟨0x3FF0000000000000⟩

def f64Max : F64 := ⟨0x7FEFFFFFFFFFFFFF⟩

/-- `as usize`, which cuts off the fraction, and takes what is too small or no number as zero and
what is too large as the largest number. -/
def toUsize (x : F64) : ℕ :=
  if x.isNan ∨ 2 ^ 63 ≤ x.bits.toNat then 0
  else
    let exponent := x.magnitude / 2 ^ 52
    let digits := 2 ^ 52 + x.magnitude % 2 ^ 52
    if 1023 + 64 ≤ exponent then 2 ^ 64 - 1
    else digits * 2 ^ (exponent - 1075) / 2 ^ (1075 - exponent)

example : toUsize f64One = 1 ∧ toUsize f64Max = 2 ^ 64 - 1 ∧ toUsize ⟨0x4004CCCCCCCCCCCD⟩ = 2 := by
  decide

section
variable (texts : NumberTexts) (now : String)

/-- The check of a gate for a column, or the result for a gate that names none. -/
def columnCheck (gate : QualityGateRef) (check : String → QualityCheck) :
    Except GateResult QualityCheck :=
  match gate.column with
  | some column => .ok (check column)
  | none => .error {
      gateType := gate.gateType
      column := none
      passed := false
      detail := gate.gateType ++ " gate requires a column" }

/-- The check that a gate asks for, or the result of one that is not checked. -/
def gateCheck (gate : QualityGateRef) : Except GateResult QualityCheck :=
  if gate.gateType = "not_null" then columnCheck gate .notNull
  else if gate.gateType = "unique" then columnCheck gate .unique
  else if gate.gateType = "range" then
    columnCheck gate fun column => .range column f64Zero (gate.threshold.getD f64Max)
  else if gate.gateType = "row_count" then
    .ok (.rowCountMin (toUsize (gate.threshold.getD f64One)))
  else if gate.gateType = "custom_sql" then .error {
    gateType := gate.gateType
    column := gate.column
    passed := true
    detail := "custom_sql gate skipped (requires query context)" }
  else .error {
    gateType := gate.gateType
    column := gate.column
    passed := true
    detail := "Unknown gate type '" ++ gate.gateType ++ "' — skipped" }

def validateGate (batches : List (RecordBatch schema)) (gate : QualityGateRef) : GateResult :=
  match gateCheck gate with
  | .error result => result
  | .ok check =>
    let validation := validateBatches texts now
      { id := "exec-gate-" ++ gate.gateType, table := "", checks := [check], enabled := true } batches
    { gateType := gate.gateType
      column := gate.column
      passed := validation.passed
      detail :=
        if validation.passed then
          gate.description ++ " — passed (" ++ toString validation.rowsChecked ++ " rows checked)"
        else "; ".intercalate (validation.failures.map (·.message)) }

def validateGates (gates : List QualityGateRef) (batches : List (RecordBatch schema)) :
    List GateResult :=
  gates.map (validateGate texts now batches)

/-- The scheduler over these gates and batches of one schema. -/
def gateServices (toRfc3339 : Instant → String) (parseFromRfc3339 : String → Option Instant) :
    Services QualityGateRef (RecordBatch schema) where
  toRfc3339
  parseFromRfc3339
  validateGates := validateGates texts now
  numRows := (·.numRows)

end

/-- What a gate asks of batches, if there are any: each of them by itself has the column, without
nulls, without two equal values, or with numbers from zero to a bound only; or they have enough rows
together. A gate without the column that it needs is never met, and one of another type always. -/
def Met (gate : QualityGateRef) (batches : List (RecordBatch schema)) : Prop :=
  if gate.gateType = "not_null" then
    ∃ column, gate.column = some column ∧ ∀ batch ∈ batches, Has schema column fun i =>
      none ∉ batch.column i
  else if gate.gateType = "unique" then
    ∃ column, gate.column = some column ∧ ∀ batch ∈ batches, Has schema column fun i =>
      (reprs batch i).Nodup
  else if gate.gateType = "range" then
    ∃ column, gate.column = some column ∧ ∀ batch ∈ batches, Has schema column
      (InRange batch f64Zero (gate.threshold.getD f64Max))
  else if gate.gateType = "row_count" then
    batches ≠ [] → toUsize (gate.threshold.getD f64One) ≤ (batches.map (·.numRows)).sum
  else True

section
variable {texts : NumberTexts} {now : String} {gate : QualityGateRef}
  {batches : List (RecordBatch schema)}

/-- One check, in a gate of its own. -/
theorem passed_single (check : QualityCheck) (id : String) :
    (validateBatches texts now ⟨id, "", [check], true⟩ batches).passed = true ↔
      (batches ≠ [] → PassesEach batches check) := by
  by_cases hne : batches = []
  · have hpassed := (validateBatches_verdict texts now ⟨id, "", [check], true⟩ batches).1 hne
    exact iff_of_true hpassed fun h => absurd hne h
  · simp [validateBatches_passed texts now _ hne, hne]

/-- Without batches nothing is asked of each of them. -/
theorem forall_imp_iff {p : RecordBatch schema → Prop} :
    (batches ≠ [] → ∀ batch ∈ batches, p batch) ↔ ∀ batch ∈ batches, p batch := by
  constructor
  · intro h batch hbatch
    exact h (List.ne_nil_of_mem hbatch) batch hbatch
  · intro h _
    exact h

theorem validateGate_ok {check : QualityCheck} (h : gateCheck gate = .ok check) :
    (validateGate texts now batches gate).passed = true ↔
      (batches ≠ [] → PassesEach batches check) := by
  rw [validateGate, h]
  exact passed_single check _

theorem validateGate_passed :
    (validateGate texts now batches gate).passed = true ↔ Met gate batches := by
  have hcolumn : ∀ {check : String → QualityCheck} {p : String → RecordBatch schema → Prop},
      gateCheck gate = columnCheck gate check →
      (∀ column, PassesEach batches (check column) ↔ ∀ batch ∈ batches, p column batch) →
      ((validateGate texts now batches gate).passed = true ↔
        ∃ column, gate.column = some column ∧ ∀ batch ∈ batches, p column batch) := by
    intro check p hcheck heach
    cases hname : gate.column with
    | none =>
      have herror : validateGate texts now batches gate =
          ⟨gate.gateType, none, false, gate.gateType ++ " gate requires a column"⟩ := by
        rw [validateGate, hcheck, columnCheck, hname]
      simp [herror]
    | some column =>
      have hok : gateCheck gate = .ok (check column) := by rw [hcheck, columnCheck, hname]
      rw [validateGate_ok hok, heach, forall_imp_iff]
      simp
  rw [Met]
  split_ifs with hnull hunique hrange hcount
  · exact hcolumn (by rw [gateCheck, if_pos hnull]) fun _ => Iff.rfl
  · exact hcolumn (by rw [gateCheck, if_neg hnull, if_pos hunique]) fun _ => Iff.rfl
  · exact hcolumn (by rw [gateCheck, if_neg hnull, if_neg hunique, if_pos hrange]) fun _ => Iff.rfl
  · have hok : gateCheck gate = .ok (.rowCountMin (toUsize (gate.threshold.getD f64One))) := by
      rw [gateCheck, if_neg hnull, if_neg hunique, if_neg hrange, if_pos hcount]
    exact validateGate_ok hok
  · have herror : ∃ result, gateCheck gate = .error result ∧ result.passed = true := by
      rw [gateCheck, if_neg hnull, if_neg hunique, if_neg hrange, if_neg hcount]
      split_ifs
      · exact ⟨_, rfl, rfl⟩
      · exact ⟨_, rfl, rfl⟩
    obtain ⟨result, hresult, hpassed⟩ := herror
    rw [validateGate, hresult]
    simp [hpassed]

/-- Each result is about the gate in its place. -/
theorem validateGate_gate (texts : NumberTexts) (now : String) (batches : List (RecordBatch schema))
    (gate : QualityGateRef) :
    (validateGate texts now batches gate).gateType = gate.gateType ∧
      (validateGate texts now batches gate).column = gate.column := by
  have herror : ∀ result, gateCheck gate = .error result →
      result.gateType = gate.gateType ∧ result.column = gate.column := by
    intro result h
    have hcolumn : ∀ check : String → QualityCheck, columnCheck gate check = .error result →
        result.gateType = gate.gateType ∧ result.column = gate.column := by
      intro check hcheck
      rw [columnCheck] at hcheck
      cases hname : gate.column with
      | none =>
        rw [hname] at hcheck
        cases hcheck
        exact ⟨rfl, rfl⟩
      | some column =>
        rw [hname] at hcheck
        cases hcheck
    rw [gateCheck] at h
    split_ifs at h
    · exact hcolumn _ h
    · exact hcolumn _ h
    · exact hcolumn _ h
    · cases h
      exact ⟨rfl, rfl⟩
    · cases h
      exact ⟨rfl, rfl⟩
  rw [validateGate]
  cases hcheck : gateCheck gate with
  | error result => exact herror result hcheck
  | ok check => exact ⟨rfl, rfl⟩

theorem gateFailed_iff {toRfc3339 : Instant → String} {parseFromRfc3339 : String → Option Instant}
    {table : ExecutableTable QualityGateRef} :
    gateFailed (gateServices texts now toRfc3339 parseFromRfc3339) table batches = true ↔
      ∃ gate ∈ table.qualityGates, ¬ Met gate batches := by
  have hany : gateFailed (gateServices texts now toRfc3339 parseFromRfc3339) table batches =
      (!table.qualityGates.isEmpty &&
        (table.qualityGates.map (validateGate texts now batches)).any fun g => !g.passed) := rfl
  rw [hany]
  simp only [List.any_map, Bool.and_eq_true, List.any_eq_true, Function.comp_apply,
    Bool.not_eq_true', ← Bool.not_eq_true, validateGate_passed, List.isEmpty_iff]
  constructor
  · rintro ⟨-, gate, hgate, hnot⟩
    exact ⟨gate, hgate, hnot⟩
  · rintro ⟨gate, hgate, hnot⟩
    exact ⟨List.ne_nil_of_mem hgate, gate, hgate, hnot⟩

/-- Every gate has its result, in order, which is positive exactly when the batches are as the gate
asks. A job rolls its table back exactly when the query that it runs gives batches that are not so
for some gate, and there is a version to go back to and a table to write it to. -/
theorem scheduled_gates (texts : NumberTexts) (now : String) (toRfc3339 : Instant → String)
    (parseFromRfc3339 : String → Option Instant) :
    (∀ (gates : List QualityGateRef) (batches : List (RecordBatch schema)),
      List.Forall₂ (fun gate result => result.gateType = gate.gateType ∧
        result.column = gate.column ∧ (result.passed = true ↔ Met gate batches))
        gates (validateGates texts now gates batches)) ∧
    ∀ (job : ScheduledJob) (w : World (AppState QualityGateRef) (Answer (RecordBatch schema)))
      (s : AppState QualityGateRef) (table t t' : ExecutableTable QualityGateRef),
      RollsBack (gateServices texts now toRfc3339 parseFromRfc3339) job w s table t t' ↔
        tableRead job w s = some table ∧ (decided table w s).value.skipped = false ∧
        table.transform.transformType = "sql" ∧
        (∃ batches, (decided table w s).world.answer 0 (.sql (execCode table)) =
            (.ok batches : Except String (List (RecordBatch schema))) ∧
          ∃ gate ∈ table.qualityGates, ¬ Met gate batches) ∧
        ∃ prev, prevVersion table = some prev ∧
          findTable (atRollback table w s).executableTables job.target = some t ∧
          t' = rolledBack (toRfc3339 (rollbackTime table w s)) prev t := by
  constructor
  · intro gates batches
    rw [validateGates, List.forall₂_map_right_iff, List.forall₂_same]
    intro gate _
    obtain ⟨htype, hcolumn⟩ := validateGate_gate texts now batches gate
    exact ⟨htype, hcolumn, validateGate_passed⟩
  · intro job w s table t t'
    rw [rollsBack_iff]
    constructor
    · rintro ⟨⟨hread, hruns, hsql, batches, hanswer, hfails⟩, hprev⟩
      exact ⟨hread, hruns, hsql, ⟨batches, hanswer, gateFailed_iff.mp hfails⟩, hprev⟩
    · rintro ⟨hread, hruns, hsql, ⟨batches, hanswer, hfails⟩, hprev⟩
      exact ⟨⟨hread, hruns, hsql, batches, hanswer, gateFailed_iff.mpr hfails⟩, hprev⟩

end

end RustLake.Scheduler
