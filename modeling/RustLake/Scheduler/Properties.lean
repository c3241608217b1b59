import RustLake.Rust.Float
import RustLake.Scheduler.Tick
import RustLake.Text.Basic

/-! Executable tables in the properties of an Iceberg table, and what is read back from them. -/
namespace RustLake.Properties
open Scheduler Text

structure QualityGateRef where
  gateType : String
  column : Option String
  threshold : Option F64
  description : String

structure TableTransform where
  transformType : String
  sourceCode : String
  sourceHash : String
  binaryPath : Option String
  binarySize : Option UInt64
  binaryCached : Bool
  compilerVersion : Option String
  targetArch : Option String

structure ExecutableTableStatus where
  state : String
  health : String
  lastError : Option String
  stalenessHours : F64
  dataFreshness : String

structure ExecutableTable where
  tableName : String
  tableLocation : String
  transform : TableTransform
  schedule : Option String
  qualityGates : List QualityGateRef
  inputTables : List String
  status : ExecutableTableStatus
  history : List ExecutionRecord
  versions : List TransformVersion
  createdAt : String
  lastRefresh : Option String
  nextRefresh : Option String
  estimatedCostUsd : F64
  totalExecutions : UInt64
  totalCostUsd : F64
  incremental : Bool
  watermarkColumn : Option String
  lastWatermark : Option String
  executionsSkipped : UInt64
  costSavedUsd : F64
  autoRefresh : Bool
  refreshIntervalSeconds : UInt64

/-- The texts of amounts: `format!("{:.6}", ..)` and `str::parse`. -/
structure Amounts where
  format6 : F64 → String
  parse : String → Option F64

abbrev Props := String → Option String

def insert (props : Props) (entry : String × String) : Props :=
  Function.update props entry.1 (some entry.2)

def gateKey (i : ℕ) (part : String) : String := "rustlake.quality-gate." ++ toString i ++ "." ++ part

def inputKey (i : ℕ) : String := "rustlake.input-table." ++ toString i

def gateEntries (gate : QualityGateRef) (i : ℕ) : List (String × String) :=
  [(gateKey i "type", gate.gateType)] ++ (gate.column.map fun col => (gateKey i "column", col)).toList ++
    [(gateKey i "description", gate.description)]

/-- The entries in the order in which they are inserted. -/
def entries (amounts : Amounts) (table : ExecutableTable) : List (String × String) :=
  [("rustlake.executable", "true"), ("rustlake.transform.type", table.transform.transformType),
    ("rustlake.transform.source-hash", table.transform.sourceHash)] ++
  (table.transform.binaryPath.map fun bp => ("rustlake.transform.binary-path", bp)).toList ++
  (table.schedule.map fun sched => ("rustlake.schedule", sched)).toList ++
  (table.qualityGates.zipIdx.flatMap fun gate => gateEntries gate.1 gate.2) ++
  (table.inputTables.zipIdx.map fun input => (inputKey input.2, input.1)) ++
  [("rustlake.total-executions", toString table.totalExecutions),
    ("rustlake.total-cost-usd", amounts.format6 table.totalCostUsd),
    ("rustlake.estimated-cost-per-run", amounts.format6 table.estimatedCostUsd)]

def toIcebergProperties (amounts : Amounts) (table : ExecutableTable) : Props :=
  (entries amounts table).foldl insert fun _ => none

def fromIcebergProperties (amounts : Amounts) (now : String) (props : Props) (tableName : String) :
    Option ExecutableTable := do
  let executable ← props "rustlake.executable"
  if executable ≠ "true" then none
  else
    let transformType ← props "rustlake.transform.type"
    let sourceHash := (props "rustlake.transform.source-hash").getD ""
    let binaryPath := props "rustlake.transform.binary-path"
    some {
      tableName := tableName
      tableLocation := ""
      transform := {
        transformType
        sourceCode := ""
        sourceHash
        binaryPath
        binarySize := none
        binaryCached := binaryPath.isSome
        compilerVersion := none
        targetArch := none }
      schedule := props "rustlake.schedule"
      qualityGates := []
      inputTables := []
      status := {
        state := "active"
        health := "healthy"
        lastError := none
        stalenessHours := ⟨0⟩
        dataFreshness := "unknown" }
      history := []
      versions := []
      createdAt := now
      lastRefresh := none
      nextRefresh := none
      estimatedCostUsd := ((props "rustlake.estimated-cost-per-run").bind amounts.parse).getD ⟨0⟩
      totalExecutions :=
        ((props "rustlake.total-executions").bind fun v => parseU64 v.toList).getD 0
      totalCostUsd := ((props "rustlake.total-cost-usd").bind amounts.parse).getD ⟨0⟩
      incremental := false
      watermarkColumn := none
      lastWatermark := none
      executionsSkipped := 0
      costSavedUsd := ⟨0⟩
      autoRefresh := false
      refreshIntervalSeconds := 0 }

/-- The parts of a gate that are encoded. -/
def QualityGateRef.encoded (gate : QualityGateRef) : String × Option String × String :=
  (gate.gateType, gate.column, gate.description)

/-- A table that has been read back has all that was encoded of the first one, amounts aside. -/
structure Restores (table restored : ExecutableTable) : Prop where
  transformType : restored.transform.transformType = table.transform.transformType
  sourceHash : restored.transform.sourceHash = table.transform.sourceHash
  binaryPath : restored.transform.binaryPath = table.transform.binaryPath
  schedule : restored.schedule = table.schedule
  qualityGates : restored.qualityGates.map QualityGateRef.encoded =
    table.qualityGates.map QualityGateRef.encoded
  inputTables : restored.inputTables = table.inputTables
  totalExecutions : restored.totalExecutions = table.totalExecutions

section Entries
variable {amounts : Amounts} {table : ExecutableTable} {key value : String}

theorem foldl_insert_of_notMem {l : List (String × String)} (h : ∀ entry ∈ l, entry.1 ≠ key)
    (props : Props) : l.foldl insert props key = props key := by
  induction l generalizing props with
  | nil => rfl
  | cons entry rest ih =>
    rw [List.foldl_cons, ih fun e he => h e (List.mem_cons_of_mem _ he)]
    exact Function.update_of_ne (Ne.symm (h entry List.mem_cons_self)) _ _

theorem foldl_insert_congr {l : List (String × String)} {props props' : Props}
    (h : props key = props' key) : l.foldl insert props key = l.foldl insert props' key := by
  induction l generalizing props props' with
  | nil => exact h
  | cons entry rest ih =>
    apply ih
    unfold insert
    by_cases hkey : key = entry.1
    · rw [hkey, Function.update_self, Function.update_self]
    · rw [Function.update_of_ne hkey, Function.update_of_ne hkey, h]

/-- The keys with a number: those of the quality gates and of the inputs. -/
def IsNumbered (key : String) : Prop :=
  "rustlake.quality-gate.".toList <+: key.toList ∨ "rustlake.input-table.".toList <+: key.toList

instance (key : String) : Decidable (IsNumbered key) := inferInstanceAs (Decidable (_ ∨ _))

theorem isNumbered_entries {entry : String × String}
    (h : entry ∈ (table.qualityGates.zipIdx.flatMap fun gate => gateEntries gate.1 gate.2) ++
      table.inputTables.zipIdx.map fun input => (inputKey input.2, input.1)) : IsNumbered entry.1 := by
  have hgate : ∀ i part, IsNumbered (gateKey i part) := by
    intro i part
    left
    unfold gateKey
    simp only [String.toList_append, List.append_assoc]
    exact List.prefix_append _ _
  rcases List.mem_append.mp h with h | h
  · obtain ⟨gate, -, h⟩ := List.mem_flatMap.mp h
    unfold gateEntries at h
    simp only [List.mem_append, List.mem_singleton, Option.mem_toList, Option.map_eq_some_iff] at h
    rcases h with (rfl | ⟨col, -, rfl⟩) | rfl
    · exact hgate _ _
    · exact hgate _ _
    · exact hgate _ _
  · obtain ⟨input, -, rfl⟩ := List.mem_map.mp h
    right
    unfold inputKey
    rw [String.toList_append]
    exact List.prefix_append _ _

/-- The entries without a number. -/
def plainEntries (amounts : Amounts) (table : ExecutableTable) : List (String × String) :=
  [("rustlake.executable", "true"), ("rustlake.transform.type", table.transform.transformType),
    ("rustlake.transform.source-hash", table.transform.sourceHash)] ++
  (table.transform.binaryPath.map fun bp => ("rustlake.transform.binary-path", bp)).toList ++
  (table.schedule.map fun sched => ("rustlake.schedule", sched)).toList ++
  [("rustlake.total-executions", toString table.totalExecutions),
    ("rustlake.total-cost-usd", amounts.format6 table.totalCostUsd),
    ("rustlake.estimated-cost-per-run", amounts.format6 table.estimatedCostUsd)]

theorem toIcebergProperties_plain (h : ¬ IsNumbered key) :
    toIcebergProperties amounts table key =
      (plainEntries amounts table).foldl insert (fun _ => none) key := by
  unfold toIcebergProperties entries plainEntries
  rw [List.foldl_append]
  conv_rhs => rw [List.foldl_append]
  apply foldl_insert_congr
  rw [List.append_assoc, List.foldl_append, foldl_insert_of_notMem]
  rintro entry hentry rfl
  exact h (isNumbered_entries hentry)

theorem toIcebergProperties_get :
    toIcebergProperties amounts table "rustlake.executable" = some "true" ∧
      toIcebergProperties amounts table "rustlake.transform.type" =
        some table.transform.transformType ∧
      toIcebergProperties amounts table "rustlake.transform.source-hash" =
        some table.transform.sourceHash ∧
      toIcebergProperties amounts table "rustlake.transform.binary-path" =
        table.transform.binaryPath ∧
      toIcebergProperties amounts table "rustlake.schedule" = table.schedule ∧
      toIcebergProperties amounts table "rustlake.total-executions" =
        some (toString table.totalExecutions) := by
  have hget : ∀ {key : String}, ¬ IsNumbered key → toIcebergProperties amounts table key =
      (plainEntries amounts table).foldl insert (fun _ => none) key := toIcebergProperties_plain
  refine ⟨?_, ?_, ?_, ?_, ?_, ?_⟩
  all_goals
    rw [hget (by decide)]
    cases hpath : table.transform.binaryPath <;> cases hsched : table.schedule <;>
      simp [plainEntries, insert, hpath, hsched]

/-- What is read back of a table has all but its gates and its inputs. -/
theorem fromIcebergProperties_eq (now tableName : String) : ∃ restored,
    fromIcebergProperties amounts now (toIcebergProperties amounts table) tableName = some restored ∧
      restored.transform.transformType = table.transform.transformType ∧
      restored.transform.sourceHash = table.transform.sourceHash ∧
      restored.transform.binaryPath = table.transform.binaryPath ∧
      restored.schedule = table.schedule ∧ restored.qualityGates = [] ∧ restored.inputTables = [] ∧
      restored.totalExecutions = table.totalExecutions := by
  obtain ⟨hexecutable, htype, hhash, hbinary, hschedule, htotal⟩ := @toIcebergProperties_get amounts table
  unfold fromIcebergProperties
  rw [hexecutable, htype, hhash, hbinary, hschedule, htotal]
  refine ⟨_, rfl, rfl, rfl, rfl, rfl, rfl, rfl, ?_⟩
  simp

end Entries

/-- A table is restored just when it has no gates and no inputs. -/
theorem restores_iff (amounts : Amounts) (now : String) (table : ExecutableTable) :
    (∃ restored, fromIcebergProperties amounts now (toIcebergProperties amounts table)
      table.tableName = some restored ∧ Restores table restored) ↔
      table.qualityGates = [] ∧ table.inputTables = [] := by
  obtain ⟨restored, hrestored, htype, hhash, hbinary, hschedule, hgates, hinputs, htotal⟩ :=
    @fromIcebergProperties_eq amounts table now table.tableName
  constructor
  · rintro ⟨other, hother, hrestores⟩
    obtain rfl := Option.some.inj (hrestored.symm.trans hother)
    have hencoded := hrestores.qualityGates
    rw [hgates, List.map_nil] at hencoded
    exact ⟨List.map_eq_nil_iff.mp hencoded.symm, hrestores.inputTables.symm.trans hinputs⟩
  · rintro ⟨hnoGates, hnoInputs⟩
    refine ⟨restored, hrestored, htype, hhash, hbinary, hschedule, ?_, ?_, htotal⟩
    · rw [hgates, hnoGates]
    · rw [hinputs, hnoInputs]

/-- The table of the round-trip test. -/
def ordersDaily : ExecutableTable where
  tableName := "orders_daily"
  tableLocation := "s3://warehouse/orders_daily"
  transform := {
    transformType := "sql"
    sourceCode := "SELECT * FROM raw_orders"
    sourceHash := "abc123"
    binaryPath := some "rustlake-functions/bin-abc123"
    binarySize := some 453000
    binaryCached := true
    compilerVersion := some "1.89.0"
    targetArch := some "aarch64" }
  schedule := some "0 * * * *"
  qualityGates := [⟨"not_null", some "order_id", none, "order_id must not be null"⟩]
  inputTables := ["raw_orders"]
  status := {
    state := "active"
    health := "healthy"
    lastError := none
    stalenessHours := ⟨0x3FE0000000000000⟩
    dataFreshness := "fresh" }
  history := []
  versions := []
  createdAt := "2026-03-21T00:00:00Z"
  lastRefresh := some "2026-03-21T12:00:00Z"
  nextRefresh := some "2026-03-21T13:00:00Z"
  estimatedCostUsd := ⟨0x3F50624DD2F1A9FC⟩
  totalExecutions := 720
  totalCostUsd := ⟨0x3FE70A3D70A3D70A⟩
  incremental := false
  watermarkColumn := none
  lastWatermark := none
  executionsSkipped := 0
  costSavedUsd := ⟨0⟩
  autoRefresh := false
  refreshIntervalSeconds := 0

/-- Its gate and its input are lost. -/
theorem not_restores_ordersDaily : ¬ ∀ (amounts : Amounts) (now : String), ∃ restored,
    fromIcebergProperties amounts now (toIcebergProperties amounts ordersDaily)
      ordersDaily.tableName = some restored ∧ Restores ordersDaily restored := by
  intro h
  let amounts : Amounts := ⟨fun _ => "0.720000", fun _ => some ⟨0x3FE70A3D70A3D70A⟩⟩
  obtain ⟨other, hother, hrestores⟩ := h amounts "2026-03-22T00:00:00+00:00"
  obtain ⟨restored, hrestored, -, -, -, -, -, hinputs, -⟩ :=
    @fromIcebergProperties_eq amounts ordersDaily "2026-03-22T00:00:00+00:00" ordersDaily.tableName
  obtain rfl := Option.some.inj (hrestored.symm.trans hother)
  have hlost := hrestores.inputTables
  rw [hinputs] at hlost
  cases hlost

end RustLake.Properties
