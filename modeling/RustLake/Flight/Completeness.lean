import RustLake.Flight.Planner
import Mathlib.Data.List.AList
import Mathlib.Tactic.Linarith
import Mathlib.Data.List.Perm.Subperm

/-! The coordinator: running a query on workers and merging what they answer. -/
namespace RustLake.Flight

/-- The query engine of the coordinator: parsing a query, and running it to batches. -/
structure Engine (Row : Type) where
  createLogicalPlan : String → Option LogicalPlan
  sql : String → Except String (List (List Row))

/-- What a worker makes of a query, and after how many milliseconds. -/
structure Reply (Row : Type) where
  result : Except String (List (List Row))
  elapsedMs : ℚ

/-- The calls of one query to workers, in the order in which they are started: each has its
place, an endpoint and a query text. -/
abbrev Query (Row : Type) := ℕ → String → String → Reply Row

abbrev Latencies := AList fun _ : String => ℚ

structure Coordinator where
  workers : List WorkerHandle
  workerLatency : Latencies

def Coordinator.activeWorkers (coord : Coordinator) : List WorkerHandle :=
  coord.workers.filter (·.status = .active)

/-- An exponential moving average; the first latency of a worker starts from itself. -/
def updateWorkerLatency (latencies : Latencies) (endpoint : String) (latencyMs : ℚ) :
    Latencies :=
  let entry := (latencies.lookup endpoint).getD latencyMs
  latencies.insert endpoint (entry * (7 / 10) + latencyMs * (3 / 10))

def averageWorkerLatency (latencies : Latencies) : ℚ :=
  if latencies.entries.isEmpty then 0
  else (latencies.entries.map (·.2)).sum / latencies.entries.length

variable {Row : Type}

/-- A result is merged by adding its batches; a failure is only logged. -/
def mergeResult (allBatches : List (List Row)) :
    Except String (List (List Row)) → List (List Row)
  | .ok batches => allBatches ++ batches
  | .error _ => allBatches

/-- The replies to assignments, each at its place. -/
def replies (query : Query Row) (assignments : List WorkerAssignment) :
    List (String × Reply Row) :=
  assignments.mapIdx fun i a => (a.workerEndpoint, query i a.workerEndpoint a.sql)

def executeParallel (query : Query Row) (latencies : Latencies)
    (assignments : List WorkerAssignment) :
    Except String (List (List Row)) × Latencies :=
  let results := replies query assignments
  (.ok (results.foldl (fun all r => mergeResult all r.2.result) []),
    results.foldl (fun l r => updateWorkerLatency l r.1 r.2.elapsedMs) latencies)

/-- A failing worker's query runs on the coordinator instead. -/
def executeOnWorker (engine : Engine Row) (query : Query Row) (latencies : Latencies)
    (endpoint sql : String) : Except String (List (List Row)) × Latencies :=
  let reply := query 0 endpoint sql
  match reply.result with
  | .ok batches => (.ok batches, updateWorkerLatency latencies endpoint reply.elapsedMs)
  | .error _ => (engine.sql sql, latencies)

/-- Cheap queries are not worth distributing. -/
def routesLocally (estimatedCost avgLatency : ℚ) : Bool :=
  decide (estimatedCost < 5) || decide (estimatedCost < 20) && decide (50 < avgLatency)

/-- The match of `execute_distributed` on the strategy of a plan. Partial results of an
aggregate are returned as they are. -/
def runStrategy (engine : Engine Row) (query : Query Row) (latencies : Latencies)
    (sql : String) (plan : DistributedPlan) :
    Except String (List (List Row)) × Latencies :=
  match plan.strategy with
  | .local => (engine.sql sql, latencies)
  | .singleWorker => match plan.workerAssignments with
    | a :: _ => executeOnWorker engine query latencies a.workerEndpoint a.sql
    | [] => (.error "index out of bounds", latencies)
  | .rangePartition _ _ => executeParallel query latencies plan.workerAssignments
  | .scatterGather => executeParallel query latencies plan.workerAssignments
  | .partialAggregate _ _ => executeParallel query latencies plan.workerAssignments

def executeDistributed (coord : Coordinator) (engine : Engine Row) (query : Query Row)
    (sql : String) : Except String (List (List Row)) × Latencies :=
  let activeWorkers := coord.activeWorkers
  if activeWorkers.isEmpty then (engine.sql sql, coord.workerLatency)
  else
    let plan := plan engine.createLogicalPlan sql activeWorkers
    let avgLatency := averageWorkerLatency coord.workerLatency
    if routesLocally plan.estimatedCost avgLatency then (engine.sql sql, coord.workerLatency)
    else runStrategy engine query coord.workerLatency sql plan

/-- `scatter_gather`: the full query to every active worker, failures left out. -/
def scatterGather (coord : Coordinator) (engine : Engine Row) (query : Query Row)
    (sql : String) : Except String (List (List Row)) :=
  let activeWorkers := coord.activeWorkers
  if activeWorkers.isEmpty then engine.sql sql
  else
    let results := activeWorkers.mapIdx fun i w => (query i w.endpoint sql).result
    .ok (results.foldl mergeResult [])

end RustLake.Flight

/-! When a distributed query has all rows of the local one, and when the answers of workers
are merged without loss. -/
namespace RustLake.Flight

section Slices
variable {Row : Type}

/-- Consecutive slices make up the first rows, each once. -/
theorem flatten_slices (rows : List Row) (b n : ℕ) :
    ((List.range n).map fun i => (rows.drop (i * b)).take b).flatten = rows.take (n * b) := by
  induction n with
  | zero => simp
  | succ n ih =>
    rw [List.range_succ, List.map_append, List.flatten_append, ih, Nat.succ_mul, List.take_add]
    simp

theorem take_perm_iff (rows : List Row) (n : ℕ) : (rows.take n).Perm rows ↔ rows.length ≤ n := by
  constructor
  · intro h
    have hlen := h.length_eq
    rw [List.length_take] at hlen
    omega
  · intro h
    rw [List.take_of_length_le h]

theorem length_copies (rows : List Row) (n : ℕ) :
    ((List.range n).map fun _ => rows).flatten.length = n * rows.length := by
  simp [List.length_flatten, List.map_const']

theorem copies_perm_iff (rows : List Row) {n : ℕ} (hn : n ≠ 0) :
    (((List.range n).map fun _ => rows).flatten).Perm rows ↔ n = 1 ∨ rows.length = 0 := by
  constructor
  · intro h
    have hlen := h.length_eq
    rw [length_copies] at hlen
    by_cases hrows : rows.length = 0
    · exact Or.inr hrows
    · exact Or.inl (Nat.eq_of_mul_eq_mul_right (Nat.pos_of_ne_zero hrows) (by omega))
  · rintro (rfl | hrows)
    · simp
    · rw [List.length_eq_zero_iff.mp hrows]
      simp

end Slices

section Merge
variable {Row : Type}

/-- The batches of the results that are there, in order. -/
def answered (results : List (Except String (List (List Row)))) : List (List Row) :=
  (results.filterMap Except.toOption).flatten

@[simp] theorem answered_ok (batches : List (List Row))
    (rest : List (Except String (List (List Row)))) :
    answered (.ok batches :: rest) = batches ++ answered rest := rfl

@[simp] theorem answered_error (e : String) (rest : List (Except String (List (List Row)))) :
    answered (.error e :: rest) = answered rest := rfl

theorem foldl_mergeResult (results : List (Except String (List (List Row))))
    (all : List (List Row)) : results.foldl mergeResult all = all ++ answered results := by
  induction results generalizing all with
  | nil => simp [answered]
  | cons r rest ih =>
    rw [List.foldl_cons, ih]
    cases r with
    | ok batches => rw [mergeResult, answered_ok, List.append_assoc]
    | error e => rw [mergeResult, answered_error]

/-- What the workers make of the assignments. -/
def results (query : Query Row) (assignments : List WorkerAssignment) :
    List (Except String (List (List Row))) :=
  assignments.mapIdx fun i a => (query i a.workerEndpoint a.sql).result

@[simp] theorem results_cons (query : Query Row) (a : WorkerAssignment)
    (rest : List WorkerAssignment) : results query (a :: rest) =
      (query 0 a.workerEndpoint a.sql).result :: results (fun i => query (i + 1)) rest := by
  unfold results
  rw [List.mapIdx_cons]

theorem executeParallel_result (query : Query Row) (latencies : Latencies)
    (assignments : List WorkerAssignment) :
    (executeParallel query latencies assignments).1 =
      .ok (answered (results query assignments)) := by
  have hresults : (replies query assignments).map (·.2.result) = results query assignments := by
    unfold replies results
    rw [List.mapIdx_eq_zipIdx_map, List.mapIdx_eq_zipIdx_map, List.map_map]
    rfl
  unfold executeParallel
  rw [← hresults, ← List.nil_append (answered _), ← foldl_mergeResult, List.foldl_map]

/-- Where every assignment is answered, the rows are those of all answers in order. -/
theorem flatten_answered (rows : ℕ → List Row) {query : Query Row}
    {assignments : List WorkerAssignment}
    (h : ∀ i a, assignments[i]? = some a → ∃ batches,
      (query i a.workerEndpoint a.sql).result = .ok batches ∧ batches.flatten = rows i) :
    (answered (results query assignments)).flatten =
      ((List.range assignments.length).map rows).flatten := by
  induction assignments generalizing query rows with
  | nil => rfl
  | cons a rest ih =>
    obtain ⟨batches, hok, hrows⟩ := h 0 a rfl
    have hrest := ih (fun i => rows (i + 1)) fun i b hb => h (i + 1) b hb
    rw [results_cons, hok, answered_ok, List.flatten_append, hrest, hrows, List.length_cons,
      List.range_succ_eq_map, List.map_cons, List.map_map, List.flatten_cons]
    rfl

end Merge

section Distributed
variable {Row : Type}

/-- Every assignment is answered as the coordinator would answer it: its worker holds the
same tables. -/
def WorkersAnswer (engine : Engine Row) (query : Query Row)
    (assignments : List WorkerAssignment) : Prop :=
  ∀ i a, assignments[i]? = some a → ∃ batches own,
    (query i a.workerEndpoint a.sql).result = .ok batches ∧ engine.sql a.sql = .ok own ∧
      batches.flatten = own.flatten

/-- Where the engine runs the query of a slice, it gives that slice of the rows. -/
def SlicesRows (engine : Engine Row) (sql : String) (rows : List Row) (workers : ℕ) : Prop :=
  ∀ i < workers, ∀ own, engine.sql (partitionSql sql batchSize (i * batchSize)) = .ok own →
    own.flatten = (rows.drop (i * batchSize)).take batchSize

/-- The queries that are distributed without loss or repetition, by their kind, the number of
workers, their average latency and the number of rows. -/
def Covers (analysis : QueryAnalysis) (workers : ℕ) (avgLatency : ℚ) (rows : ℕ) : Prop :=
  match analysis with
  | .simpleScan _ =>
    routesLocally (100 / workers) avgLatency = true ∨ rows ≤ workers * batchSize
  | .aggregateQuery _ _ _ =>
    routesLocally (80 / workers) avgLatency = true ∨ rows ≤ workers * batchSize
  | .joinQuery _ _ => workers = 1 ∨ rows = 0
  | .simple => True
  | .complex => workers = 1 ∨ rows = 0

/-- The result has these rows, in some order. -/
def Gives (result : Except String (List (List Row))) (rows : List Row) : Prop :=
  ∃ batches, result = .ok batches ∧ batches.flatten.Perm rows

theorem gives_ok {batches : List (List Row)} {rows : List Row} :
    Gives (.ok batches) rows ↔ batches.flatten.Perm rows := by
  constructor
  · rintro ⟨other, hother, hperm⟩
    rwa [Except.ok.inj hother]
  · exact fun h => ⟨batches, rfl, h⟩

variable {engine : Engine Row} {query : Query Row} {sql : String} {workers : List WorkerHandle}
  {rows : List Row} {latencies : Latencies}

theorem getElem?_partitionAssignments {i : ℕ} {a : WorkerAssignment}
    (h : (workers.mapIdx (partitionAssignment sql))[i]? = some a) :
    i < workers.length ∧ a.sql = partitionSql sql batchSize (i * batchSize) := by
  rw [List.getElem?_mapIdx, Option.map_eq_some_iff] at h
  obtain ⟨w, hw, rfl⟩ := h
  exact ⟨(List.getElem?_eq_some_iff.mp hw).1, rfl⟩

/-- Slices miss the rows past the last one. -/
theorem executeParallel_slices
    (hanswer : WorkersAnswer engine query (workers.mapIdx (partitionAssignment sql)))
    (hslices : SlicesRows engine sql rows workers.length) :
    Gives (executeParallel query latencies (workers.mapIdx (partitionAssignment sql))).1 rows ↔
      rows.length ≤ workers.length * batchSize := by
  have hrows := flatten_answered (fun i => (rows.drop (i * batchSize)).take batchSize)
    fun i a ha => by
      obtain ⟨batches, own, hok, hown, hsame⟩ := hanswer i a ha
      obtain ⟨hi, hsql⟩ := getElem?_partitionAssignments ha
      exact ⟨batches, hok, hsame.trans (hslices i hi own (hsql ▸ hown))⟩
  rw [List.length_mapIdx, flatten_slices] at hrows
  rw [executeParallel_result, gives_ok, hrows]
  exact take_perm_iff rows _

/-- Every worker gives all rows once more. -/
theorem executeParallel_copies (hworkers : workers ≠ [])
    (hanswer : WorkersAnswer engine query (workers.map (fullAssignment sql)))
    {batches : List (List Row)} (hlocal : engine.sql sql = .ok batches) :
    Gives (executeParallel query latencies (workers.map (fullAssignment sql))).1
        batches.flatten ↔ workers.length = 1 ∨ batches.flatten.length = 0 := by
  have hrows := flatten_answered (fun _ => batches.flatten) fun i a ha => by
    obtain ⟨answer, own, hok, hown, hsame⟩ := hanswer i a ha
    rw [List.getElem?_map, Option.map_eq_some_iff] at ha
    obtain ⟨w, -, rfl⟩ := ha
    obtain rfl : batches = own := Except.ok.inj (hlocal.symm.trans hown)
    exact ⟨answer, hok, hsame⟩
  rw [List.length_map] at hrows
  rw [executeParallel_result, gives_ok, hrows]
  exact copies_perm_iff _ (by simpa using hworkers)

theorem executeOnWorker_gives {latencies : Latencies} {w : WorkerHandle}
    {rest : List WorkerHandle}
    (hanswer : WorkersAnswer engine query (((w :: rest).take 1).map (fullAssignment sql)))
    {batches : List (List Row)} (hlocal : engine.sql sql = .ok batches) :
    Gives (executeOnWorker engine query latencies w.endpoint sql).1 batches.flatten := by
  obtain ⟨answer, own, hok, hown, hsame⟩ := hanswer 0 (fullAssignment sql w) rfl
  have hreply : (query 0 w.endpoint sql).result = .ok answer := hok
  obtain rfl : batches = own := Except.ok.inj (hlocal.symm.trans hown)
  unfold executeOnWorker
  dsimp only
  rw [hreply]
  exact gives_ok.mpr (by rw [hsame])

/-- The branch of the planner that a plan of at least one worker takes. -/
theorem executeDistributed_eq {coord : Coordinator} {logicalPlan : LogicalPlan}
    (hworkers : coord.activeWorkers ≠ []) (hplan : engine.createLogicalPlan sql = some logicalPlan) :
    executeDistributed coord engine query sql =
      if routesLocally (planFor sql coord.activeWorkers (analyzePlan logicalPlan)).estimatedCost
          (averageWorkerLatency coord.workerLatency) then
        (engine.sql sql, coord.workerLatency)
      else runStrategy engine query coord.workerLatency sql
        (planFor sql coord.activeWorkers (analyzePlan logicalPlan)) := by
  have hnot : ¬ coord.activeWorkers.isEmpty = true := by simpa using hworkers
  unfold executeDistributed plan
  simp only [if_neg hnot, hplan]

theorem not_routesLocally_fifty (avgLatency : ℚ) : routesLocally 50 avgLatency = false := by
  have h5 : ¬ (50 : ℚ) < 5 := by norm_num
  have h20 : ¬ (50 : ℚ) < 20 := by norm_num
  simp [routesLocally, h5, h20]

end Distributed
section Cluster

private def scanText : String := "SELECT * FROM t"

/-- A coordinator whose active workers have these endpoints. -/
def clusterOf (endpoints : List String) : Coordinator where
  workers := endpoints.map fun e => { id := e, endpoint := e, status := .active }
  workerLatency := ∅

/-- A table of three rows, scanned as a whole or through its first slice. -/
def threeRows : Engine ℕ where
  createLogicalPlan _ := some (.projection (.tableScan "t"))
  sql text :=
    if text = scanText ∨ text = partitionSql scanText batchSize 0 then .ok [[1, 2, 3]]
    else .error "table not found"

/-- Workers that answer as an engine does. -/
def workersOf (engine : Engine ℕ) : Query ℕ := fun _ _ text => ⟨engine.sql text, 12⟩

private theorem threeRows_scan : threeRows.sql scanText = .ok [[1, 2, 3]] := by decide

private theorem threeRows_slice : threeRows.sql (partitionSql scanText batchSize 0) =
    .ok [[1, 2, 3]] := by decide

private theorem threeRows_plan :
    threeRows.createLogicalPlan scanText = some (.projection (.tableScan "t")) := rfl

/-- A join of one row. -/
def oneRowJoin : Engine ℕ where
  createLogicalPlan _ := some (.projection (.join (.tableScan "a") (.tableScan "b")))
  sql _ := .ok [[7]]

/-- A table of one row more than a slice, scanned as a whole or through its first slice. -/
def longTable : Engine ℕ where
  createLogicalPlan _ := some (.projection (.tableScan "t"))
  sql text := .ok [if text = scanText then List.replicate 100001 0 else List.replicate 100000 0]

end Cluster
end RustLake.Flight

/-! What a distributed query returns when workers fail: the merge leaves their results out
and still ends in `Ok`. -/
namespace RustLake.Flight

variable {Row : Type}

/-- Workers of which any may fail: the result of the query at a place when it is answered,
and the error when it is not. -/
def faultyQuery (result : ℕ → String → String → List (List Row)) (fault : ℕ → Option String)
    (elapsedMs : ℕ → ℚ) : Query Row := fun i endpoint sql =>
  { result := match fault i with
      | none => .ok (result i endpoint sql)
      | some e => .error e
    elapsedMs := elapsedMs i }

/-- The results of all assignments in order. -/
def allResults (result : ℕ → String → String → List (List Row))
    (assignments : List WorkerAssignment) : List (List Row) :=
  (assignments.mapIdx fun i a => result i a.workerEndpoint a.sql).flatten

/-- What is returned as `Ok` contains these batches. -/
def OkContains (returned : Except String (List (List Row))) (batches : List (List Row)) : Prop :=
  ∀ merged, returned = .ok merged → batches.Subperm merged

/-- Every worker that fails had nothing to give. -/
def FailuresEmpty (result : ℕ → String → String → List (List Row)) (fault : ℕ → Option String)
    (assignments : List WorkerAssignment) : Prop :=
  ∀ i a, assignments[i]? = some a → fault i ≠ none → result i a.workerEndpoint a.sql = []

section Merge
variable {result : ℕ → String → String → List (List Row)} {fault : ℕ → Option String}
  {elapsedMs : ℕ → ℚ} {a : WorkerAssignment} {rest assignments : List WorkerAssignment}

theorem allResults_cons : allResults result (a :: rest) =
    result 0 a.workerEndpoint a.sql ++ allResults (fun i => result (i + 1)) rest := by
  unfold allResults
  rw [List.mapIdx_cons, List.flatten_cons]

theorem answered_faulty_none (h : fault 0 = none) :
    answered (results (faultyQuery result fault elapsedMs) (a :: rest)) =
      result 0 a.workerEndpoint a.sql ++ answered (results (faultyQuery (fun i => result (i + 1))
        (fun i => fault (i + 1)) fun i => elapsedMs (i + 1)) rest) := by
  rw [results_cons]
  simp only [faultyQuery, h, answered_ok]
  rfl

theorem answered_faulty_some {e : String} (h : fault 0 = some e) :
    answered (results (faultyQuery result fault elapsedMs) (a :: rest)) =
      answered (results (faultyQuery (fun i => result (i + 1)) (fun i => fault (i + 1))
        fun i => elapsedMs (i + 1)) rest) := by
  rw [results_cons]
  simp only [faultyQuery, h, answered_error]
  rfl

theorem failuresEmpty_cons : FailuresEmpty result fault (a :: rest) ↔
    (fault 0 ≠ none → result 0 a.workerEndpoint a.sql = []) ∧
      FailuresEmpty (fun i => result (i + 1)) (fun i => fault (i + 1)) rest := by
  constructor
  · exact fun h => ⟨h 0 a rfl, fun i b hb => h (i + 1) b hb⟩
  · rintro ⟨hhead, htail⟩ i b hb
    cases i with
    | zero =>
      obtain rfl : a = b := by simpa using hb
      exact hhead
    | succ i => exact htail i b (by simpa using hb)

/-- Where no result is lost the merge has them all. -/
theorem answered_faulty_eq (h : FailuresEmpty result fault assignments) :
    answered (results (faultyQuery result fault elapsedMs) assignments) =
      allResults result assignments := by
  induction assignments generalizing result fault elapsedMs with
  | nil => rfl
  | cons a rest ih =>
    obtain ⟨hhead, htail⟩ := failuresEmpty_cons.mp h
    rw [allResults_cons]
    cases h0 : fault 0 with
    | none => rw [answered_faulty_none h0, ih htail]
    | some e =>
      rw [answered_faulty_some h0, ih htail, hhead (by simp [h0]), List.nil_append]

/-- The merge never has more than all results, and less when it loses one. -/
theorem length_answered_faulty :
    (answered (results (faultyQuery result fault elapsedMs) assignments)).length ≤
        (allResults result assignments).length ∧
      ((allResults result assignments).length ≤
          (answered (results (faultyQuery result fault elapsedMs) assignments)).length →
        FailuresEmpty result fault assignments) := by
  induction assignments generalizing result fault elapsedMs with
  | nil => exact ⟨le_rfl, fun _ i a ha => by simp at ha⟩
  | cons a rest ih =>
    obtain ⟨hle, hback⟩ := @ih (fun i => result (i + 1)) (fun i => fault (i + 1))
      fun i => elapsedMs (i + 1)
    rw [allResults_cons, List.length_append]
    cases h0 : fault 0 with
    | none =>
      rw [answered_faulty_none h0, List.length_append]
      refine ⟨by omega, fun h => failuresEmpty_cons.mpr ⟨fun hne => absurd h0 hne, ?_⟩⟩
      exact hback (by omega)
    | some e =>
      rw [answered_faulty_some h0]
      refine ⟨by omega, fun h => failuresEmpty_cons.mpr ⟨fun _ => ?_, hback (by omega)⟩⟩
      exact List.length_eq_zero_iff.mp (by omega)

theorem okContains_answered_iff :
    OkContains (.ok (answered (results (faultyQuery result fault elapsedMs) assignments)))
        (allResults result assignments) ↔ FailuresEmpty result fault assignments := by
  constructor
  · intro h
    exact length_answered_faulty.2 (h _ rfl).length_le
  · intro h merged hmerged
    rw [← Except.ok.inj hmerged, answered_faulty_eq h]

end Merge

/-- The assignments that a scatter-gather stands for. -/
theorem scatterGather_eq {coord : Coordinator} {engine : Engine Row} {query : Query Row}
    {sql : String} (hworkers : coord.activeWorkers ≠ []) :
    scatterGather coord engine query sql =
      .ok (answered (results query (coord.activeWorkers.map (fullAssignment sql)))) := by
  have hnot : ¬ coord.activeWorkers.isEmpty = true := by simpa using hworkers
  have hresults : (coord.activeWorkers.mapIdx fun i w => (query i w.endpoint sql).result) =
      results query (coord.activeWorkers.map (fullAssignment sql)) := by
    unfold results
    rw [List.mapIdx_eq_zipIdx_map, List.mapIdx_eq_zipIdx_map, List.zipIdx_map, List.map_map]
    rfl
  unfold scatterGather
  simp only [if_neg hnot]
  rw [foldl_mergeResult, List.nil_append, hresults]

/-- A parallel execution or a scatter-gather that returns `Ok` has every assigned worker's
result exactly when each worker that failed had none. -/
theorem okContains_iff_failuresEmpty (result : ℕ → String → String → List (List Row))
    (fault : ℕ → Option String) (elapsedMs : ℕ → ℚ) (latencies : Latencies)
    (assignments : List WorkerAssignment) (coord : Coordinator) (engine : Engine Row)
    (sql : String) :
    (OkContains (executeParallel (faultyQuery result fault elapsedMs) latencies assignments).1
        (allResults result assignments) ↔ FailuresEmpty result fault assignments) ∧
    (OkContains (scatterGather coord engine (faultyQuery result fault elapsedMs) sql)
        (allResults result (coord.activeWorkers.map (fullAssignment sql))) ↔
      FailuresEmpty result fault (coord.activeWorkers.map (fullAssignment sql))) := by
  constructor
  · rw [executeParallel_result]
    exact okContains_answered_iff
  · by_cases hworkers : coord.activeWorkers = []
    · rw [hworkers]
      refine iff_of_true (fun merged _ => ?_) (fun i a ha => by simp at ha)
      exact List.nil_subperm
    · rw [scatterGather_eq hworkers]
      exact okContains_answered_iff

/-- Two slices of which the second is lost: the query still returns `Ok`, with the first. -/
theorem not_okContains_lostSlice :
    let result : ℕ → String → String → List (List ℕ) := fun i _ _ => [[i]]
    let fault : ℕ → Option String := fun i => if i = 1 then some "connection refused" else none
    let assignments := planPartitionedScan "SELECT * FROM t" "t"
      (clusterOf ["http://w1", "http://w2"]).activeWorkers |>.workerAssignments
    (executeParallel (faultyQuery result fault fun _ => 12) ∅ assignments).1 = .ok [[0]] ∧
    allResults result assignments = [[0], [1]] ∧
    ¬ OkContains (executeParallel (faultyQuery result fault fun _ => 12) ∅ assignments).1
      (allResults result assignments) := by
  intro result fault assignments
  have hmerged : (executeParallel (faultyQuery result fault fun _ => 12) ∅ assignments).1 =
      .ok [[0]] := by decide
  have hall : allResults result assignments = [[0], [1]] := by decide
  refine ⟨hmerged, hall, fun h => ?_⟩
  have hlen := (h _ hmerged).length_le
  rw [hall] at hlen
  exact absurd hlen (by decide)

end RustLake.Flight
