import Mathlib.Data.List.AList
import Mathlib.Data.List.MinMax
import Mathlib.Algebra.Order.BigOperators.Group.List
import Mathlib.Tactic.Linarith
import RustLake.Router.Profiler

/-! The cost model, in exact arithmetic: what a query is estimated to cost on each engine, where
tables that an engine has cached need not be sent to it. -/
namespace RustLake.Router

structure EngineBaseline where
  scanThroughputRowsPerMs : ℚ
  aggregationFactor : ℚ
  joinFactor : ℚ
  sortFactor : ℚ
  s3Direct : Bool
  s3IcebergDirect : Bool
  s3DeltaDirect : Bool
  federatedCapable : Bool
  startupOverheadMs : ℚ

/-- An estimate, less the notes on it. -/
structure CostEstimate where
  engine : String
  totalMs : ℚ
  scanMs : ℚ
  computeMs : ℚ
  transferMs : ℚ
  overheadMs : ℚ
  executionMode : String

structure TableReference where
  name : String
  source : SourceType
  estimatedRows : UInt64
  estimatedBytes : UInt64

/-- A query, as far as an estimate reads it. -/
structure QueryProfile where
  tables : List TableReference
  estimatedRows : UInt64
  hasAggregation : Bool
  hasJoin : Bool
  hasSort : Bool

/-- The parameters that an estimate reads. -/
structure CostModel where
  engineBaselines : AList fun _ : String => EngineBaseline
  syncOverheadMs : ℚ
  s3FetchOverheadMs : ℚ
  ipcOverheadPerMb : ℚ

/-- `CostModel::new`. -/
def CostModel.new : CostModel where
  engineBaselines :=
    (((∅ : AList fun _ : String => EngineBaseline).insert "DataFusion"
      { scanThroughputRowsPerMs := 500000, aggregationFactor := 3 / 2, joinFactor := 2,
        sortFactor := 13 / 10, s3Direct := true, s3IcebergDirect := true, s3DeltaDirect := true,
        federatedCapable := true, startupOverheadMs := 1 }).insert "DuckDB"
      { scanThroughputRowsPerMs := 800000, aggregationFactor := 6 / 5, joinFactor := 3 / 2,
        sortFactor := 11 / 10, s3Direct := true, s3IcebergDirect := false, s3DeltaDirect := false,
        federatedCapable := false, startupOverheadMs := 5 }).insert "Polars"
      { scanThroughputRowsPerMs := 600000, aggregationFactor := 7 / 5, joinFactor := 9 / 5,
        sortFactor := 6 / 5, s3Direct := false, s3IcebergDirect := false, s3DeltaDirect := false,
        federatedCapable := false, startupOverheadMs := 3 }
  syncOverheadMs := 50
  s3FetchOverheadMs := 50
  ipcOverheadPerMb := 2

/-- `f64::MAX`. -/
def maxF64 : ℚ := (2 ^ 53 - 1) * 2 ^ 971

namespace CostModel
variable (model : CostModel)

def syncCost (estimatedRows estimatedBytes : UInt64) : ℚ :=
  let rowOverhead := (estimatedRows.toNat : ℚ) / 100000 * 10
  let ipcCost := (estimatedBytes.toNat : ℚ) / 1000000 * model.ipcOverheadPerMb
  model.syncOverheadMs + rowOverhead + ipcCost

/-- A turn of the loop in `compute_transfer_cost`: the cost so far and the mode. -/
def transferTable (engine : String) (baseline : EngineBaseline) (cachedTables : Finset String)
    (state : ℚ × String) (table : TableReference) : ℚ × String :=
  let tableCached : Bool := table.name ∈ cachedTables
  let syncMs := model.syncCost table.estimatedRows table.estimatedBytes
  match table.source with
  | .s3Parquet =>
    if baseline.s3Direct then state
    else if tableCached then (state.1, "cached")
    else (state.1 + syncMs, "synced")
  | .s3Iceberg =>
    if baseline.s3IcebergDirect then state
    else if tableCached then (state.1, "cached")
    else if engine ≠ "DataFusion" then (state.1 + syncMs, "synced")
    else state
  | .s3Delta =>
    if baseline.s3DeltaDirect then state
    else if tableCached then (state.1, "cached")
    else if engine ≠ "DataFusion" then (state.1 + syncMs, "synced")
    else state
  | .federated | .trino =>
    if baseline.federatedCapable then state
    else if tableCached then (state.1, "cached")
    else (state.1 + (model.s3FetchOverheadMs + syncMs), "synced")
  | .«local» | .lance | .inMemory =>
    let mode := if tableCached then "cached" else state.2
    if engine ≠ "DataFusion" ∧ !tableCached then (state.1 + syncMs, "synced")
    else (state.1, mode)

def computeTransferCost (engine : String) (baseline : EngineBaseline) (profile : QueryProfile)
    (cachedTables : Finset String) : ℚ × String :=
  profile.tables.foldl (model.transferTable engine baseline cachedTables) (0, "direct")

def estimate (engine : String) (profile : QueryProfile) (cachedTables : Finset String) :
    CostEstimate :=
  match model.engineBaselines.lookup engine with
  | none => { engine, totalMs := maxF64, scanMs := 0, computeMs := 0, transferMs := 0,
              overheadMs := 0, executionMode := "unknown" }
  | some baseline =>
    let scanMs := (profile.estimatedRows.toNat : ℚ) / baseline.scanThroughputRowsPerMs
    let computeMultiplier := (if profile.hasAggregation then baseline.aggregationFactor else 1) *
      (if profile.hasJoin then baseline.joinFactor else 1) *
      (if profile.hasSort then baseline.sortFactor else 1)
    let computeMs := scanMs * (computeMultiplier - 1)
    let (transferMs, executionMode) := model.computeTransferCost engine baseline profile cachedTables
    let overheadMs := baseline.startupOverheadMs
    { engine, totalMs := scanMs + computeMs + transferMs + overheadMs, scanMs, computeMs,
      transferMs, overheadMs, executionMode }

def estimateAll (engines : List String) (profile : QueryProfile) (cachedTables : Finset String) :
    List CostEstimate :=
  engines.map fun engine => model.estimate engine profile cachedTables

/-- The first of the cheapest estimates. -/
def recommend (engines : List String) (profile : QueryProfile) (cachedTables : Finset String) :
    String × CostEstimate :=
  match (model.estimateAll engines profile cachedTables).argmin (·.totalMs) with
  | some e => (e.engine, e)
  | none => ("DataFusion",
      { engine := "DataFusion", totalMs := 0, scanMs := 0, computeMs := 0, transferMs := 0,
        overheadMs := 0, executionMode := "fallback" })

/-- The parameters are times, none of which is less than zero. -/
structure NonNegative : Prop where
  sync : 0 ≤ model.syncOverheadMs
  fetch : 0 ≤ model.s3FetchOverheadMs
  ipc : 0 ≤ model.ipcOverheadPerMb

variable {model} {engine : String} {baseline : EngineBaseline} {cached cached' : Finset String}

theorem NonNegative.syncCost (h : model.NonNegative) (rows bytes : UInt64) :
    0 ≤ model.syncCost rows bytes := by
  have hrows : (0 : ℚ) ≤ rows.toNat := Nat.cast_nonneg _
  have hbytes : (0 : ℚ) ≤ bytes.toNat := Nat.cast_nonneg _
  have hipc := mul_nonneg (div_nonneg hbytes (by norm_num : (0 : ℚ) ≤ 1000000)) h.ipc
  have hrow : (0 : ℚ) ≤ rows.toNat / 100000 * 10 := by linarith
  have hsync := h.sync
  unfold CostModel.syncCost
  linarith

/-- What a table that is not cached adds to the cost. -/
def uncachedMs (model : CostModel) (engine : String) (baseline : EngineBaseline)
    (table : TableReference) : ℚ :=
  let syncMs := model.syncCost table.estimatedRows table.estimatedBytes
  match table.source with
  | .s3Parquet => if baseline.s3Direct then 0 else syncMs
  | .s3Iceberg => if baseline.s3IcebergDirect ∨ engine = "DataFusion" then 0 else syncMs
  | .s3Delta => if baseline.s3DeltaDirect ∨ engine = "DataFusion" then 0 else syncMs
  | .federated | .trino =>
    if baseline.federatedCapable then 0 else model.s3FetchOverheadMs + syncMs
  | .«local» | .lance | .inMemory => if engine = "DataFusion" then 0 else syncMs

theorem NonNegative.uncachedMs (h : model.NonNegative) (table : TableReference) :
    0 ≤ model.uncachedMs engine baseline table := by
  have hsync := h.syncCost table.estimatedRows table.estimatedBytes
  have hfetch := h.fetch
  unfold CostModel.uncachedMs
  cases table.source <;> dsimp only <;> split_ifs <;> linarith

/-- Whatever the source, a table adds its cost if it is not cached, and nothing if it is. -/
theorem transferTable_fst (state : ℚ × String) (table : TableReference) :
    (model.transferTable engine baseline cached state table).1 =
      state.1 + if table.name ∈ cached then 0 else model.uncachedMs engine baseline table := by
  unfold transferTable CostModel.uncachedMs
  by_cases hcached : table.name ∈ cached
  · simp only [hcached, decide_true, Bool.not_true, Bool.false_eq_true, and_false, if_true, if_false,
      add_zero]
    cases table.source <;> dsimp only <;> split_ifs <;> rfl
  · simp only [hcached, decide_false, Bool.not_false, Bool.false_eq_true, and_true, if_false]
    cases table.source <;> dsimp only <;> split_ifs <;> simp_all

/-- The whole loop adds up what the tables cost. -/
theorem foldl_transferTable (tables : List TableReference) (state : ℚ × String) :
    (tables.foldl (model.transferTable engine baseline cached) state).1 = state.1 +
      (tables.map fun table =>
        if table.name ∈ cached then 0 else model.uncachedMs engine baseline table).sum := by
  induction tables generalizing state with
  | nil => exact (add_zero _).symm
  | cons table tables ih =>
    rw [List.foldl_cons, ih, transferTable_fst, List.map_cons, List.sum_cons, add_assoc]

theorem transferCost_le (h : model.NonNegative) (hsub : cached ⊆ cached') (profile : QueryProfile) :
    (model.computeTransferCost engine baseline profile cached').1 ≤
      (model.computeTransferCost engine baseline profile cached).1 := by
  unfold computeTransferCost
  rw [foldl_transferTable, foldl_transferTable]
  apply add_le_add_right
  apply List.sum_le_sum
  intro table _
  have hcost : 0 ≤ model.uncachedMs engine baseline table := h.uncachedMs table
  by_cases hcached : table.name ∈ cached
  · rw [if_pos hcached, if_pos (hsub hcached)]
  · rw [if_neg hcached]
    split_ifs
    · exact hcost
    · exact le_refl _

theorem estimate_le (h : model.NonNegative) (hsub : cached ⊆ cached') (profile : QueryProfile) :
    (model.estimate engine profile cached').totalMs ≤
      (model.estimate engine profile cached).totalMs := by
  unfold estimate
  cases model.engineBaselines.lookup engine with
  | none => exact le_refl _
  | some baseline =>
    have hle : (model.computeTransferCost engine baseline profile cached').1 ≤
        (model.computeTransferCost engine baseline profile cached).1 :=
      transferCost_le h hsub profile
    dsimp only
    linarith

/-- The least cost among engines is no more where each engine's is no more. -/
theorem recommend_le {engines : List String} {profile : QueryProfile}
    (hle : ∀ engine, (model.estimate engine profile cached').totalMs ≤
      (model.estimate engine profile cached).totalMs) :
    (model.recommend engines profile cached').2.totalMs ≤
      (model.recommend engines profile cached).2.totalMs := by
  unfold recommend
  cases hbest : (model.estimateAll engines profile cached).argmin (·.totalMs) with
  | none =>
    have hnil : engines = [] := List.map_eq_nil_iff.mp (List.argmin_eq_none.mp hbest)
    subst hnil
    exact le_refl _
  | some best =>
    obtain ⟨engine, hengine, rfl⟩ := List.mem_map.mp (List.argmin_mem hbest)
    have hmem : model.estimate engine profile cached' ∈ model.estimateAll engines profile cached' :=
      List.mem_map_of_mem hengine
    cases hbest' : (model.estimateAll engines profile cached').argmin (·.totalMs) with
    | none =>
      rw [List.argmin_eq_none] at hbest'
      rw [hbest'] at hmem
      exact absurd hmem List.not_mem_nil
    | some best' => exact (List.le_of_mem_argmin hmem hbest').trans (hle engine)

/-- More cached tables make no query dearer, neither on an engine nor on the best of a list. -/
theorem cost_le_of_subset (h : model.NonNegative) (hsub : cached ⊆ cached')
    (profile : QueryProfile) :
    (∀ engine, (model.estimate engine profile cached').totalMs ≤
      (model.estimate engine profile cached).totalMs) ∧
    ∀ engines, (model.recommend engines profile cached').2.totalMs ≤
      (model.recommend engines profile cached).2.totalMs :=
  ⟨fun _ => estimate_le h hsub profile, fun _ => recommend_le fun _ => estimate_le h hsub profile⟩

/-- An Iceberg table of a million rows. -/
def ordersScan : QueryProfile where
  tables := [⟨"orders", .s3Iceberg, 1000000, 100000000⟩]
  estimatedRows := 1000000
  hasAggregation := false
  hasJoin := false
  hasSort := false

theorem cost_le_ordersScan :
    (∀ engine, (CostModel.new.estimate engine ordersScan {"orders"}).totalMs ≤
      (CostModel.new.estimate engine ordersScan ∅).totalMs) ∧
    ∀ engines, (CostModel.new.recommend engines ordersScan {"orders"}).2.totalMs ≤
      (CostModel.new.recommend engines ordersScan ∅).2.totalMs :=
  cost_le_of_subset ⟨by norm_num [CostModel.new], by norm_num [CostModel.new],
    by norm_num [CostModel.new]⟩ (Finset.empty_subset _) ordersScan

end CostModel
end RustLake.Router
