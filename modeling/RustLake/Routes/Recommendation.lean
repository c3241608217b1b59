import RustLake.Order.Recent
import RustLake.Order.TopK
import RustLake.Router.Profiler
import Mathlib.Data.List.MinMax

/-! `migration_compare`: one query on every engine, the record of how long each took, and the engine
that the record recommends. -/
namespace RustLake.Routes.Recommendation
open RustLake.Router

/-- The kinds of queries that are told apart. -/
inductive Workload where
  | complexJoin | join | scanAggregate | pointLookup | orderedScan | fullScan
deriving DecidableEq, Repr

def Workload.text : Workload → String
  | .complexJoin => "complex_join"
  | .join => "join"
  | .scanAggregate => "scan_aggregate"
  | .pointLookup => "point_lookup"
  | .orderedScan => "ordered_scan"
  | .fullScan => "full_scan"

def classifyQueryForEngine (unicode : Unicode) (sql : List Char) : Workload :=
  let sqlUpper := unicode.upper.text sql
  let has : String → Bool := fun word => word.toList <:+: sqlUpper
  let hasAgg := has "COUNT(" || has "SUM(" || has "AVG(" || has "MIN(" || has "MAX(" ||
    has "GROUP BY"
  let hasWhereEq := has "WHERE" && has "="
  -- no two occurrences of the word overlap
  let hasSubquery : Bool := 1 < sqlUpper.tails.countP "SELECT".toList.isPrefixOf
  if has "JOIN" && hasSubquery then .complexJoin
  else if has "JOIN" then .join
  else if hasAgg then .scanAggregate
  else if hasWhereEq && !hasAgg then .pointLookup
  else if has "ORDER BY" then .orderedScan
  else .fullScan

inductive Status where
  | success | error | unavailable
deriving DecidableEq, Repr

structure EngineResult where
  engine : String
  durationMs : UInt64
  rowCount : ℕ
  status : Status
  error : Option String
  path : Option String

structure EngineLatencyRecord where
  engine : String
  queryType : Workload
  durationMs : UInt64
  rowCount : ℕ
  dataSizeBytes : ℕ
  path : String
deriving DecidableEq

structure EnginePerformanceTracker where
  history : List EngineLatencyRecord

def maxEngineHistory : ℕ := 500

/-- The arithmetic of `f64` with `round`, and `{:.n}`. -/
structure Figures extends Arithmetic where
  round : F64 → F64
  fixed : ℕ → F64 → String

namespace EnginePerformanceTracker
variable (tracker : EnginePerformanceTracker)

def record (entry : EngineLatencyRecord) : EnginePerformanceTracker :=
  ⟨Recent.extend maxEngineHistory tracker.history [entry]⟩

/-- The times of an engine for a kind of query; those below a millisecond are not counted. -/
def times (engine : String) (queryType : Workload) : List UInt64 :=
  (tracker.history.filter fun r =>
    r.engine = engine && r.queryType = queryType && 0 < r.durationMs).map (·.durationMs)

def avgLatency (fig : Figures) (engine : String) (queryType : Workload) : Option F64 :=
  let matching := tracker.times engine queryType
  if matching = [] then none else some (averageMs fig.toArithmetic matching)

def hasHistoryFor (queryType : Workload) : Bool := tracker.history.any (·.queryType = queryType)

end EnginePerformanceTracker

def trino : String := "Trino"
def dataFusion : String := "Rake DataFusion"
def duckDb : String := "Rake DuckDB"
def polars : String := "Rake Polars"
def duckDbDirect : String := "Rake DuckDB (S3 direct)"
def polarsDirect : String := "Rake Polars (via DataFusion S3)"

def directPrefix : String := "Rake DataFusion (S3 direct, "

/-- The label that `execute_df_s3_direct` gives. -/
def dataFusionDirect (tables : ℕ) : String := directPrefix ++ toString tables ++ " tables)"

inductive Strategy where
  | singleEngine | scanHandoff | parallelFanout
deriving DecidableEq, Repr

structure EngineRecommendation where
  strategy : Strategy
  primaryEngine : String
  reason : String
  estimatedSpeedup : F64
  scanEngine : Option String
  processEngine : Option String

structure AlternativeStrategy where
  strategy : Strategy
  description : String
  use : String

def defaultRecommendation (queryType : Workload) (duckDbAvailable : Bool) : EngineRecommendation :=
  let engine := if duckDbAvailable then duckDb else dataFusion
  let single : String → String → EngineRecommendation := fun engine reason =>
    ⟨.singleEngine, engine, reason, .ofInt 1, none, none⟩
  match queryType with
  | .scanAggregate => single engine
      (engine ++ " is the default choice for scan+aggregate queries. " ++
        (if duckDbAvailable then "DuckDB" else "DataFusion") ++
        " excels at columnar scans with aggregations.")
  | .complexJoin | .join => single dataFusion
      ("DataFusion is the default choice for join queries. Its optimizer handles " ++
        "multi-table joins with predicate pushdown and join reordering.")
  | .pointLookup => single engine
      (engine ++ " is the default for point lookups. Single-row fetches are fastest on " ++
        (if duckDbAvailable then "DuckDB's in-memory store" else "DataFusion") ++ ".")
  | .fullScan | .orderedScan => single engine
      (engine ++ " is the default for full/ordered scans. " ++
        (if duckDbAvailable then "DuckDB's httpfs" else "DataFusion") ++
        " provides fast sequential scan throughput.")

def buildAlternatives : Workload → List AlternativeStrategy
  | .scanAggregate | .fullScan | .orderedScan =>
    [⟨.parallelFanout, "Split partitions across DuckDB + Polars, DataFusion merges",
        "Use for very large scans (>1GB) with simple aggregations"⟩,
      ⟨.scanHandoff, "DuckDB scans S3 -> Arrow handoff -> DataFusion joins",
        "Use when query involves joins across multiple tables"⟩]
  | .join | .complexJoin =>
    [⟨.scanHandoff, "DuckDB scans S3 -> Arrow handoff -> DataFusion joins",
        "Use when scan component is the bottleneck (large tables with selective joins)"⟩,
      ⟨.parallelFanout, "Split partitions across DuckDB + Polars, DataFusion merges",
        "Use for hash-partitioned tables where each partition can be joined independently"⟩]
  | .pointLookup =>
    [⟨.singleEngine, "Route directly to DuckDB for sub-millisecond point lookups",
        "Default for point lookups — no orchestration overhead needed"⟩]

/-- Which of the engines beside DataFusion a server has. -/
structure Engines where
  duckDb : Bool
  polars : Bool

section
variable (fig : Figures) (tracker : EnginePerformanceTracker) (queryType : Workload)

def dataFusionAvg : Option F64 := tracker.avgLatency fig dataFusion queryType

def duckDbAvg : Option F64 :=
  (tracker.avgLatency fig duckDb queryType).or (tracker.avgLatency fig duckDbDirect queryType)

def polarsAvg : Option F64 :=
  (tracker.avgLatency fig polars queryType).or (tracker.avgLatency fig polarsDirect queryType)

/-- How long an engine takes to scan. -/
def scanAvg (engine : String) : Option F64 :=
  (tracker.avgLatency fig engine .scanAggregate).or (tracker.avgLatency fig engine .fullScan)

/-- The engines that can be recommended, with their mean times. -/
def candidates (own : Engines) : List (String × F64) :=
  (dataFusionAvg fig tracker queryType).toList.map (dataFusion, ·) ++
    (if own.duckDb then (duckDbAvg fig tracker queryType).toList.map (duckDb, ·) else []) ++
    (if own.polars then (polarsAvg fig tracker queryType).toList.map (polars, ·) else [])

/-- Why DuckDB should scan for DataFusion, if it should. -/
def handoffReason : Option String := do
  guard (queryType = .join ∨ queryType = .complexJoin)
  let dk ← duckDbAvg fig tracker queryType
  let df ← dataFusionAvg fig tracker queryType
  let dkScan ← scanAvg fig tracker duckDb
  let dfScan ← scanAvg fig tracker dataFusion
  -- the bits of 0.5
  guard (dkScan.Lt (fig.mul dfScan ⟨0x3FE0000000000000⟩) ∧ df.Lt dk)
  return "Hybrid strategy: DuckDB scans " ++ fig.fixed 1 (fig.div dfScan dkScan) ++
    "x faster, DataFusion joins " ++ fig.fixed 1 (fig.div dk df) ++
    "x faster. DuckDB handles table scans, hands off Arrow batches to DataFusion " ++
    "for join processing."

/-- Rounded to hundredths. -/
def Figures.hundredths (x : F64) : F64 := fig.div (fig.round (fig.mul x (.ofInt 100))) (.ofInt 100)

def buildRecommendation (own : Engines) : EngineRecommendation × List AlternativeStrategy :=
  let recommendation :=
    if tracker.hasHistoryFor queryType then
      let found := candidates fig tracker queryType own
      -- means are never NaN, so `partial_cmp` compares them by their keys
      match TopK.sortBy (fun c => c.2.key) found with
      | [] => defaultRecommendation queryType own.duckDb
      | (bestEngine, bestAvg) :: _ =>
        let speedup := match tracker.avgLatency fig trino queryType with
          | some t =>
            if (F64.ofInt 0).Lt bestAvg then fig.hundredths (fig.div t bestAvg) else .ofInt 1
          | none => .ofInt 1
        match handoffReason fig tracker queryType with
        | some reason => ⟨.scanHandoff, dataFusion, reason, speedup, some duckDb, some dataFusion⟩
        | none => {
            strategy := .singleEngine
            primaryEngine := bestEngine
            -- the count is of the engines, not of their runs
            reason := bestEngine ++ " has the lowest average latency (" ++ fig.fixed 1 bestAvg ++
              "ms) for " ++ queryType.text ++ " queries based on " ++ toString found.length ++
              " previous executions." ++ (if (F64.ofInt 1).Lt speedup then
                " " ++ fig.fixed 0 speedup ++ "x faster than Trino." else "")
            estimatedSpeedup := speedup
            scanEngine := none
            processEngine := none }
    else defaultRecommendation queryType own.duckDb
  (recommendation, buildAlternatives queryType)

end

/-- What came of a call, and the milliseconds it took. -/
structure Timed (α : Type) where
  ms : UInt64
  outcome : Except String α

/-- The calls that a comparison may make: rows, and for the direct ones tables too. -/
structure Calls where
  connected : Bool
  trino : Timed ℕ
  dataFusionDirect : Timed (ℕ × ℕ)
  dataFusion : Timed ℕ
  duckDbDirect : Timed ℕ
  duckDb : Timed ℕ
  polarsDirect : Timed (ℕ × ℕ)
  polars : Timed ℕ

structure CompareRequest where
  connId : String
  sql : List Char
  useNativeS3 : Bool

structure MigrationComparison where
  sql : List Char
  results : List EngineResult
  winner : String
  speedup : F64
  dataMatch : Bool

/-- A request, with the names of the credentials that the server has, the connections of its tables
with a location, and the calls. -/
structure Ask where
  req : CompareRequest
  s3Creds : List String
  located : List String
  calls : Calls

/-- What a comparison reads and writes. -/
structure AppState where
  own : Engines
  engineTracker : EnginePerformanceTracker
  migrationComparisons : List MigrationComparison

structure CompareResponse where
  comparison : MigrationComparison
  nativeS3 : Bool
  s3Available : Bool
  queryType : Workload
  recommendation : EngineRecommendation
  alternatives : List AlternativeStrategy

/-- The entry for a call that answers with rows. -/
def Timed.result (call : Timed ℕ) (engine path : String) (status : String → Status)
    (message : String → String) : EngineResult :=
  match call.outcome with
  | .ok rowCount => ⟨engine, call.ms, rowCount, .success, none, some path⟩
  | .error e => ⟨engine, call.ms, 0, status e, some (message e), some path⟩

/-- The call of an engine that the server may lack. -/
def Timed.on {α : Type} (call : Timed α) (available : Bool) (missing : String) : Timed α :=
  if available then call else ⟨call.ms, .error missing⟩

def noDuckDb : String := "DuckDB engine not available"
def noPolars : String := "Polars engine not available"

/-- An engine that is missing is told by the message. -/
def localStatus (e : String) : Status :=
  if "not available".toList <:+: e.toList then .unavailable else .error

section
variable (calls : Calls)

def trinoResult (connId : String) : EngineResult :=
  if calls.connected then calls.trino.result trino "trino_native" (fun _ => .error) id
  else ⟨trino, calls.trino.ms, 0, .error,
    some ("Trino connection '" ++ connId ++ "' not available"), some "trino_native"⟩

def dataFusionResult (direct : Bool) : EngineResult :=
  if direct then
    match calls.dataFusionDirect.outcome with
    | .ok (rowCount, tables) => ⟨dataFusionDirect tables, calls.dataFusionDirect.ms, rowCount,
        .success, none, some "s3_direct"⟩
    | .error e => calls.dataFusion.result dataFusion "via_trino" (fun _ => .error)
        fun e2 => "S3 direct: " ++ e ++ "; via-Trino: " ++ e2
  else calls.dataFusion.result dataFusion "via_trino" (fun _ => .error) id

def duckDbResult (available direct : Bool) : EngineResult :=
  let inMemory := (calls.duckDb.on available noDuckDb).result duckDb "in_memory"
    localStatus
  if direct then
    let s3 := calls.duckDbDirect.on available noDuckDb
    match s3.outcome with
    | .ok rowCount => ⟨duckDbDirect, s3.ms, rowCount, .success, none, some "s3_direct"⟩
    | .error e => inMemory fun e2 => "S3 direct: " ++ e ++ "; in-memory: " ++ e2
  else inMemory id

/-- DataFusion reads from S3 under the label of Polars. -/
def polarsResult (available direct : Bool) : EngineResult :=
  let inMemory := (calls.polars.on available noPolars).result polars "in_memory"
    localStatus
  if direct then
    match calls.polarsDirect.outcome with
    | .ok (rowCount, _) => ⟨polarsDirect, calls.polarsDirect.ms, rowCount, .success, none,
        some "s3_direct"⟩
    | .error e => inMemory fun e2 => "S3 direct: " ++ e ++ "; in-memory: " ++ e2
  else inMemory id

end

/-- The first of the fastest own engines. -/
def bestRake (results : List EngineResult) : Option EngineResult :=
  (results.filter fun r => "Rake".toList.isPrefixOf r.engine.toList && r.status = .success).argmin
    (·.durationMs.toNat)

/-- The time of Trino, or nothing where it failed. -/
def trinoMs (results : List EngineResult) : UInt64 :=
  match (results.find? (·.engine = trino)).filter (·.status = .success) with
  | some r => r.durationMs
  | none => 0

/-- The winner, and how many times faster than Trino it is. -/
def winnerOf (fig : Figures) (results : List EngineResult) : String × F64 :=
  match bestRake results with
  | some best => (best.engine, fig.hundredths
      (if 0 < best.durationMs ∧ 0 < trinoMs results then
        fig.div (.ofInt (trinoMs results).toNat) (.ofInt best.durationMs.toNat)
      else .ofInt 1))
  | none => ("N/A", .ofInt 1)

def dataMatch (results : List EngineResult) : Bool :=
  let counts := (results.filter (·.status = .success)).map (·.rowCount)
  match counts with
  | first :: second :: rest => (first :: second :: rest).all (· = first)
  | _ => true

/-- The entry of the history for a result. -/
def EngineResult.toRecord (queryType : Workload) (r : EngineResult) : EngineLatencyRecord where
  engine := r.engine
  queryType := queryType
  durationMs := r.durationMs
  rowCount := r.rowCount
  dataSizeBytes := r.rowCount * 64
  path := r.path.getD "unknown"

namespace Ask
variable (ask : Ask)

def s3Available : Bool :=
  ask.req.useNativeS3 && (ask.req.connId ∈ ask.s3Creds || "default" ∈ ask.s3Creds)

/-- The results of the engines, in order. -/
def results (own : Engines) : List EngineResult :=
  let tables := ask.req.useNativeS3 && ask.req.connId ∈ ask.located
  [trinoResult ask.calls ask.req.connId, dataFusionResult ask.calls ask.s3Available,
    duckDbResult ask.calls own.duckDb (ask.s3Available && tables),
    polarsResult ask.calls own.polars ask.s3Available]

def queryType (unicode : Unicode) : Workload := classifyQueryForEngine unicode ask.req.sql

/-- What a comparison records. -/
def entries (unicode : Unicode) (own : Engines) : List EngineLatencyRecord :=
  ((ask.results own).filter (·.status = .success)).map (·.toRecord (ask.queryType unicode))

end Ask

section
variable (fig : Figures) (unicode : Unicode)

def migrationCompare (state : AppState) (ask : Ask) : AppState × CompareResponse :=
  let results := ask.results state.own
  let (winner, speedup) := winnerOf fig results
  let comparison : MigrationComparison := ⟨ask.req.sql, results, winner, speedup, dataMatch results⟩
  let queryType := ask.queryType unicode
  let tracker := (ask.entries unicode state.own).foldl
    EnginePerformanceTracker.record state.engineTracker
  let (recommendation, alternatives) := buildRecommendation fig tracker queryType state.own
  ({ state with
      engineTracker := tracker
      migrationComparisons := state.migrationComparisons ++ [comparison] },
    ⟨comparison, ask.req.useNativeS3, ask.s3Available, queryType,
      { recommendation with estimatedSpeedup := speedup }, alternatives⟩)

def AppState.new (own : Engines) : AppState where
  own := own
  engineTracker := ⟨[]⟩
  migrationComparisons := []

/-- The state after a run of comparisons. -/
def compareAll (state : AppState) (run : List Ask) : AppState :=
  run.foldl (fun state ask => (migrationCompare fig unicode state ask).1) state

end

/-- The last records of a run. -/
def latest (unicode : Unicode) (own : Engines) (run : List Ask) : EnginePerformanceTracker :=
  ⟨(run.flatMap (·.entries unicode own)).rtake maxEngineHistory⟩

section
variable {fig : Figures} {unicode : Unicode} {own : Engines}

theorem foldl_record (log entries : List EngineLatencyRecord) :
    entries.foldl EnginePerformanceTracker.record ⟨log.rtake maxEngineHistory⟩ =
      ⟨(log ++ entries).rtake maxEngineHistory⟩ := by
  induction entries generalizing log with
  | nil => rw [List.foldl_nil, List.append_nil]
  | cons entry entries ih =>
    rw [List.foldl_cons, EnginePerformanceTracker.record, Recent.extend_rtake, ih,
      List.append_assoc, List.singleton_append]

/-- A state that a run leads to. -/
structure Tracks (unicode : Unicode) (own : Engines) (run : List Ask) (state : AppState) :
    Prop where
  engines : state.own = own
  tracker : state.engineTracker = latest unicode own run

variable {run : List Ask} {state : AppState}

theorem latest_concat (run : List Ask) (ask : Ask) :
    (ask.entries unicode own).foldl EnginePerformanceTracker.record (latest unicode own run) =
      latest unicode own (run ++ [ask]) := by
  rw [latest, foldl_record, latest, List.flatMap_append, List.flatMap_singleton]

theorem Tracks.step (h : Tracks unicode own run state) (ask : Ask) :
    Tracks unicode own (run ++ [ask]) (migrationCompare fig unicode state ask).1 := by
  obtain ⟨rfl, htracker⟩ := h
  refine ⟨rfl, ?_⟩
  rw [← latest_concat, ← htracker]
  rfl

/-- The tracker has the last records of all comparisons so far. -/
theorem tracks_compareAll (run : List Ask) :
    Tracks unicode own run (compareAll fig unicode (.new own) run) := by
  induction run using List.reverseRecOn with
  | nil => exact ⟨rfl, by simp [compareAll, AppState.new, latest]⟩
  | append_singleton run ask ih =>
    rw [compareAll, List.foldl_append]
    exact ih.step ask

theorem Tracks.recommendation (h : Tracks unicode own run state) (ask : Ask) :
    (migrationCompare fig unicode state ask).2.recommendation =
      { (buildRecommendation fig (latest unicode own (run ++ [ask])) (ask.queryType unicode)
          own).1 with
        estimatedSpeedup := (winnerOf fig (ask.results own)).2 } := by
  obtain ⟨rfl, htracker⟩ := h
  rw [← latest_concat, ← htracker]
  rfl

section
variable {tracker : EnginePerformanceTracker} {queryType : Workload} {engine : String}

/-- Some record of the engines has a time that counts. -/
def Counted (tracker : EnginePerformanceTracker) (queryType : Workload) (engines : List String) :
    Prop :=
  ∃ r ∈ tracker.history, r.engine ∈ engines ∧ r.queryType = queryType ∧ 0 < r.durationMs

theorem isSome_avgLatency_iff :
    (tracker.avgLatency fig engine queryType).isSome ↔ Counted tracker queryType [engine] := by
  have htimes : tracker.times engine queryType ≠ [] ↔ Counted tracker queryType [engine] := by
    rw [EnginePerformanceTracker.times, ne_eq, List.map_eq_nil_iff, List.filter_eq_nil_iff]
    simp only [Counted, List.mem_singleton, Bool.and_eq_true, decide_eq_true_eq, and_assoc,
      not_forall, not_not, exists_prop]
  rw [← htimes, EnginePerformanceTracker.avgLatency]
  split <;> simp_all

theorem counted_append {engines engines' : List String} :
    Counted tracker queryType (engines ++ engines') ↔
      Counted tracker queryType engines ∨ Counted tracker queryType engines' := by
  simp only [Counted, List.mem_append]
  constructor
  · rintro ⟨r, hr, hengine | hengine, hcounts⟩
    · exact Or.inl ⟨r, hr, hengine, hcounts⟩
    · exact Or.inr ⟨r, hr, hengine, hcounts⟩
  · rintro (⟨r, hr, hengine, hcounts⟩ | ⟨r, hr, hengine, hcounts⟩)
    · exact ⟨r, hr, Or.inl hengine, hcounts⟩
    · exact ⟨r, hr, Or.inr hengine, hcounts⟩

theorem isSome_or_avgLatency_iff {other : String} :
    ((tracker.avgLatency fig engine queryType).or (tracker.avgLatency fig other queryType)).isSome ↔
      Counted tracker queryType [engine, other] := by
  rw [Option.isSome_or, Bool.or_eq_true, isSome_avgLatency_iff, isSome_avgLatency_iff,
    ← counted_append, List.singleton_append]

theorem mem_candidates_iff {avg : F64} :
    (engine, avg) ∈ candidates fig tracker queryType own ↔
      engine = dataFusion ∧ dataFusionAvg fig tracker queryType = some avg ∨
      engine = duckDb ∧ own.duckDb = true ∧ duckDbAvg fig tracker queryType = some avg ∨
      engine = polars ∧ own.polars = true ∧ polarsAvg fig tracker queryType = some avg := by
  obtain ⟨hasDuckDb, hasPolars⟩ := own
  cases hasDuckDb <;> cases hasPolars <;> simp [candidates, eq_comm, and_comm]

theorem hasHistoryFor_of_counted {engines : List String}
    (h : Counted tracker queryType engines) : tracker.hasHistoryFor queryType = true := by
  obtain ⟨r, hr, -, htype, -⟩ := h
  exact List.any_eq_true.mpr ⟨r, hr, decide_eq_true htype⟩

variable (fig tracker queryType own) in
theorem candidates_eq_nil_iff :
    candidates fig tracker queryType own = [] ↔
      ¬ Counted tracker queryType [dataFusion] ∧
      ¬ (own.duckDb = true ∧ Counted tracker queryType [duckDb, duckDbDirect]) ∧
      ¬ (own.polars = true ∧ Counted tracker queryType [polars, polarsDirect]) := by
  rw [List.eq_nil_iff_forall_not_mem]
  constructor
  · intro hnone
    refine ⟨fun hcounted => ?_, fun hcounted => ?_, fun hcounted => ?_⟩
    · obtain ⟨avg, havg⟩ := Option.isSome_iff_exists.mp (isSome_avgLatency_iff.mpr hcounted)
      exact hnone (dataFusion, avg) (mem_candidates_iff.mpr (Or.inl ⟨rfl, havg⟩))
    · obtain ⟨avg, havg⟩ := Option.isSome_iff_exists.mp (isSome_or_avgLatency_iff.mpr hcounted.2)
      exact hnone (duckDb, avg) (mem_candidates_iff.mpr (Or.inr (Or.inl ⟨rfl, hcounted.1, havg⟩)))
    · obtain ⟨avg, havg⟩ := Option.isSome_iff_exists.mp (isSome_or_avgLatency_iff.mpr hcounted.2)
      exact hnone (polars, avg) (mem_candidates_iff.mpr (Or.inr (Or.inr ⟨rfl, hcounted.1, havg⟩)))
  · rintro ⟨hdataFusion, hduckDb, hpolars⟩ ⟨engine, avg⟩ hmem
    rcases mem_candidates_iff.mp hmem with ⟨-, havg⟩ | ⟨-, havailable, havg⟩ | ⟨-, havailable, havg⟩
    · exact hdataFusion (isSome_avgLatency_iff.mp (Option.isSome_iff_exists.mpr ⟨avg, havg⟩))
    · exact hduckDb ⟨havailable, isSome_or_avgLatency_iff.mp (Option.isSome_iff_exists.mpr ⟨avg, havg⟩)⟩
    · exact hpolars ⟨havailable, isSome_or_avgLatency_iff.mp (Option.isSome_iff_exists.mpr ⟨avg, havg⟩)⟩

/-- The first of the least means, of engines in the order in which they are asked. -/
def IsFastest (found : List (String × F64)) (engine : String) (avg : F64) : Prop :=
  ∃ before after, found = before ++ (engine, avg) :: after ∧ (∀ c ∈ before, avg.key < c.2.key) ∧
    ∀ c ∈ after, avg.key ≤ c.2.key

variable (fig tracker queryType own) in
/-- A recommendation: by default, of the fastest engine, or of two engines for a join. -/
theorem buildRecommendation_cases :
    let found := candidates fig tracker queryType own
    let r := (buildRecommendation fig tracker queryType own).1
    found = [] ∧ r = defaultRecommendation queryType own.duckDb ∨
      ∃ engine avg, IsFastest found engine avg ∧
        (handoffReason fig tracker queryType = none ∧ r.strategy = .singleEngine ∧
            r.primaryEngine = engine ∧ r.scanEngine = none ∧ r.processEngine = none ∨
          (handoffReason fig tracker queryType).isSome ∧ r.strategy = .scanHandoff ∧
            r.primaryEngine = dataFusion ∧ r.scanEngine = some duckDb ∧
            r.processEngine = some dataFusion) := by
  dsimp only
  by_cases hhistory : tracker.hasHistoryFor queryType = true
  · rw [buildRecommendation]
    dsimp only
    rw [if_pos hhistory]
    cases hsorted : TopK.sortBy (fun c => c.2.key)
        (candidates fig tracker queryType own) with
    | nil =>
      left
      refine ⟨?_, rfl⟩
      rw [← List.length_eq_zero_iff, ← (TopK.perm_sortBy (fun c => c.2.key) _).length_eq, hsorted,
        List.length_nil]
    | cons best rest =>
      obtain ⟨bestEngine, bestAvg⟩ := best
      right
      refine ⟨bestEngine, bestAvg, TopK.exists_split_of_sortBy hsorted, ?_⟩
      cases hreason : handoffReason fig tracker queryType with
      | none => exact Or.inl ⟨rfl, rfl, rfl, rfl, rfl⟩
      | some reason => exact Or.inr ⟨rfl, rfl, rfl, rfl, rfl⟩
  · left
    rw [buildRecommendation]
    dsimp only
    rw [if_neg hhistory]
    refine ⟨(candidates_eq_nil_iff _ _ _ _).mpr ⟨fun h => ?_, fun h => ?_, fun h => ?_⟩, rfl⟩
    · exact hhistory (hasHistoryFor_of_counted h)
    · exact hhistory (hasHistoryFor_of_counted h.2)
    · exact hhistory (hasHistoryFor_of_counted h.2)

theorem defaultRecommendation_spec (queryType : Workload) (duckDbAvailable : Bool) :
    let r := defaultRecommendation queryType duckDbAvailable
    r.strategy = .singleEngine ∧ r.scanEngine = none ∧ r.processEngine = none ∧
      r.primaryEngine =
        if queryType ≠ .join ∧ queryType ≠ .complexJoin ∧ duckDbAvailable = true then duckDb
        else dataFusion := by
  cases queryType <;> cases duckDbAvailable <;> decide

variable (fig tracker queryType) in
/-- What a join is split for: DuckDB scans in less than half the time and is slower at the query. -/
def Splits : Prop :=
  (queryType = .join ∨ queryType = .complexJoin) ∧
    ∃ dk df dkScan dfScan, duckDbAvg fig tracker queryType = some dk ∧
      dataFusionAvg fig tracker queryType = some df ∧ scanAvg fig tracker duckDb = some dkScan ∧
      scanAvg fig tracker dataFusion = some dfScan ∧
      dkScan.Lt (fig.mul dfScan ⟨0x3FE0000000000000⟩) ∧ df.Lt dk

variable (fig tracker queryType) in
theorem handoffReason_isSome_iff :
    (handoffReason fig tracker queryType).isSome ↔ Splits fig tracker queryType := by
  rw [Option.isSome_iff_exists]
  constructor
  · rintro ⟨reason, hreason⟩
    simp only [handoffReason, Option.bind_eq_bind, Option.bind_eq_some_iff,
      Option.guard_eq_some'] at hreason
    obtain ⟨-, hjoin, dk, hdk, df, hdf, dkScan, hdkScan, dfScan, hdfScan, -, hfaster, -⟩ := hreason
    exact ⟨hjoin, dk, df, dkScan, dfScan, hdk, hdf, hdkScan, hdfScan, hfaster⟩
  · rintro ⟨hjoin, dk, df, dkScan, dfScan, hdk, hdf, hdkScan, hdfScan, hfaster⟩
    simp [handoffReason, hjoin, hdk, hdf, hdkScan, hdfScan, hfaster]

end

section

variable {calls : Calls}

@[simp] theorem engine_result (call : Timed ℕ) (engine path : String) (status : String → Status)
    (message : String → String) : (call.result engine path status message).engine = engine := by
  unfold Timed.result
  split <;> rfl

theorem engine_trinoResult (calls : Calls) (connId : String) :
    (trinoResult calls connId).engine = trino := by
  unfold trinoResult
  split <;> simp

theorem dataFusionDirect_ne (tables : ℕ) {engine : String}
    (h : ¬ directPrefix.toList <+: engine.toList) : dataFusionDirect tables ≠ engine := by
  rintro rfl
  rw [dataFusionDirect, String.append_assoc, String.toList_append] at h
  exact h (List.prefix_append _ _)

theorem engine_dataFusionResult (calls : Calls) (direct : Bool) :
    (dataFusionResult calls direct).engine = dataFusion ∧
        ¬ (direct = true ∧ ∃ answer, calls.dataFusionDirect.outcome = .ok answer) ∨
      ∃ tables, (dataFusionResult calls direct).engine = dataFusionDirect tables := by
  unfold dataFusionResult
  cases direct with
  | false => simp
  | true =>
    cases houtcome : calls.dataFusionDirect.outcome with
    | error e => simp
    | ok answer =>
      obtain ⟨rowCount, tables⟩ := answer
      exact Or.inr ⟨tables, rfl⟩

theorem engine_duckDbResult (calls : Calls) (available direct : Bool) :
    (duckDbResult calls available direct).engine ∈ [duckDb, duckDbDirect] ∧
      ((duckDbResult calls available direct).status = .success → available = true) := by
  cases available with
  | true => 
    refine ⟨?_, fun _ => rfl⟩
    unfold duckDbResult
    dsimp only
    split_ifs
    · split <;> simp
    · simp
  | false =>
    have hmemory : ∀ message : String → String,
        ((calls.duckDb.on false noDuckDb).result duckDb "in_memory" localStatus message).status =
          localStatus noDuckDb := fun _ => rfl
    have hmissing : localStatus noDuckDb ≠ .success := by decide
    unfold duckDbResult
    dsimp only
    cases direct with
    | false =>
      rw [if_neg Bool.false_ne_true]
      exact ⟨by simp, fun h => absurd ((hmemory id).symm.trans h) hmissing⟩
    | true =>
      rw [if_pos rfl]
      exact ⟨by simp [Timed.on], fun h => absurd ((hmemory _).symm.trans h) hmissing⟩

theorem engine_polarsResult (calls : Calls) (available direct : Bool) :
    (polarsResult calls available direct).engine ∈ [polars, polarsDirect] := by
  unfold polarsResult
  dsimp only
  split_ifs
  · split <;> simp
  · simp

/-- The engine of a record, and that an engine that the server lacks has none. -/
theorem engine_of_mem_entries {ask : Ask} {r : EngineLatencyRecord}
    (h : r ∈ ask.entries unicode own) :
    r.queryType = ask.queryType unicode ∧
      (r.engine = dataFusion → ¬ (ask.s3Available = true ∧
        ∃ answer, ask.calls.dataFusionDirect.outcome = .ok answer)) ∧
      (r.engine ∈ [duckDb, duckDbDirect] → own.duckDb = true) := by
  obtain ⟨result, hresult, rfl⟩ := List.mem_map.mp h
  obtain ⟨hmem, hsuccess⟩ := List.mem_filter.mp hresult
  refine ⟨rfl, ?_⟩
  have hengine : (result.toRecord (ask.queryType unicode)).engine = result.engine := rfl
  rw [hengine]
  simp only [Ask.results, List.mem_cons, List.not_mem_nil, or_false] at hmem
  rcases hmem with rfl | rfl | rfl | rfl
  · rw [engine_trinoResult]
    exact ⟨fun hsame => absurd hsame (by decide), fun hsame => absurd hsame (by decide)⟩
  · rcases engine_dataFusionResult ask.calls ask.s3Available with
      ⟨hlabel, hplain⟩ | ⟨tables, hlabel⟩
    · rw [hlabel]
      exact ⟨fun _ => hplain, fun hsame => absurd hsame (by decide)⟩
    · rw [hlabel]
      refine ⟨fun hsame => absurd hsame (dataFusionDirect_ne tables (by decide)), fun hsame => ?_⟩
      simp only [List.mem_cons, List.not_mem_nil, or_false] at hsame
      rcases hsame with hsame | hsame <;>
        exact absurd hsame (dataFusionDirect_ne tables (by decide))
  · obtain ⟨hlabel, havailable⟩ := engine_duckDbResult ask.calls own.duckDb
      (ask.s3Available && (ask.req.useNativeS3 && decide (ask.req.connId ∈ ask.located)))
    refine ⟨fun hsame => ?_, fun _ => havailable (of_decide_eq_true hsuccess)⟩
    rw [hsame] at hlabel
    exact absurd hlabel (by decide)
  · have hlabel := engine_polarsResult ask.calls own.polars ask.s3Available
    refine ⟨fun hsame => ?_, fun hsame => ?_⟩
    · rw [hsame] at hlabel
      exact absurd hlabel (by decide)
    · simp only [List.mem_cons, List.not_mem_nil, or_false] at hlabel hsame
      rcases hlabel with hlabel | hlabel <;> rcases hsame with hsame | hsame <;>
        exact absurd (hlabel.symm.trans hsame) (by decide)

theorem mem_latest {run : List Ask} {r : EngineLatencyRecord}
    (h : r ∈ (latest unicode own run).history) :
    ∃ ask ∈ run, r ∈ ask.entries unicode own := by
  have hsuffix := Recent.rtake_suffix (run.flatMap (·.entries unicode own)) maxEngineHistory
  rw [latest] at h
  dsimp only at h
  exact List.mem_flatMap.mp (List.IsSuffix.mem h hsuffix)

/-- A recommendation against the records that it is made from: it names engines that the server has,
the fastest of those that count, and two of them where DuckDB scans faster and DataFusion joins
faster. -/
structure Follows (fig : Figures) (own : Engines) (tracker : EnginePerformanceTracker)
    (queryType : Workload) (r : EngineRecommendation) : Prop where
  available : ∀ engine ∈ r.primaryEngine :: (r.scanEngine.toList ++ r.processEngine.toList),
    engine = dataFusion ∨ engine = duckDb ∧ own.duckDb = true ∨
      engine = polars ∧ own.polars = true
  uncounted : candidates fig tracker queryType own = [] →
    r.strategy = .singleEngine ∧
      r.primaryEngine = (defaultRecommendation queryType own.duckDb).primaryEngine
  fastest : r.strategy = .singleEngine → candidates fig tracker queryType own ≠ [] →
    ∃ avg, IsFastest (candidates fig tracker queryType own) r.primaryEngine avg
  handoff : r.strategy = .scanHandoff ↔ Splits fig tracker queryType

theorem Follows.withSpeedup {tracker : EnginePerformanceTracker} {queryType : Workload}
    {r : EngineRecommendation} (h : Follows fig own tracker queryType r) (speedup : F64) :
    Follows fig own tracker queryType { r with estimatedSpeedup := speedup } :=
  ⟨h.available, h.uncounted, h.fastest, h.handoff⟩

theorem IsFastest.mem {found : List (String × F64)} {engine : String} {avg : F64}
    (h : IsFastest found engine avg) : (engine, avg) ∈ found := by
  obtain ⟨before, after, rfl, -⟩ := h
  exact List.mem_append_right before List.mem_cons_self

theorem follows_buildRecommendation {tracker : EnginePerformanceTracker}
    (h : ∀ queryType, Counted tracker queryType [duckDb, duckDbDirect] → own.duckDb = true)
    (queryType : Workload) :
    Follows fig own tracker queryType (buildRecommendation fig tracker queryType own).1 := by
  have hreason := handoffReason_isSome_iff fig tracker queryType
  rcases buildRecommendation_cases fig own tracker queryType with
    ⟨hnone, hdefault⟩ | ⟨engine, avg, hfastest, hsingle | hhandoff⟩
  · obtain ⟨hstrategy, hscan, hprocess, hprimary⟩ :=
      defaultRecommendation_spec queryType own.duckDb
    rw [hdefault]
    refine ⟨?_, fun _ => ⟨hstrategy, rfl⟩, fun _ hsome => absurd hnone hsome, ?_⟩
    · intro engine hengine
      rw [hscan, hprocess, hprimary] at hengine
      obtain rfl := List.mem_singleton.mp hengine
      split_ifs with hduckDb
      · exact Or.inr (Or.inl ⟨rfl, hduckDb.2.2⟩)
      · exact Or.inl rfl
    · rw [hstrategy]
      refine iff_of_false (by decide) ?_
      rintro ⟨-, dk, df, -, -, -, hdf, -⟩
      have hmem : (dataFusion, df) ∈ candidates fig tracker queryType own :=
        mem_candidates_iff.mpr (Or.inl ⟨rfl, hdf⟩)
      rw [hnone] at hmem
      exact List.not_mem_nil hmem
  · obtain ⟨hno, hstrategy, hprimary, hscan, hprocess⟩ := hsingle
    refine ⟨?_, fun hnone => ?_, fun _ _ => ⟨avg, ?_⟩, ?_⟩
    · intro other hother
      rw [hscan, hprocess, hprimary] at hother
      obtain rfl := List.mem_singleton.mp hother
      rcases mem_candidates_iff.mp hfastest.mem with ⟨hengine, -⟩ | ⟨hengine, havailable, -⟩ |
        ⟨hengine, havailable, -⟩
      · exact Or.inl hengine
      · exact Or.inr (Or.inl ⟨hengine, havailable⟩)
      · exact Or.inr (Or.inr ⟨hengine, havailable⟩)
    · exact absurd (hnone ▸ hfastest.mem) List.not_mem_nil
    · rw [hprimary]
      exact hfastest
    · rw [← hreason, hno, hstrategy]
      decide
  · obtain ⟨hsome, hstrategy, hprimary, hscan, hprocess⟩ := hhandoff
    refine ⟨?_, fun hnone => ?_, fun hsingle => ?_, ?_⟩
    · obtain ⟨-, dk, -, -, -, hdk, -⟩ := hreason.mp hsome
      have havailable := h queryType
        (isSome_or_avgLatency_iff.mp (Option.isSome_iff_exists.mpr ⟨dk, hdk⟩))
      intro other hother
      rw [hscan, hprocess, hprimary] at hother
      simp only [Option.toList_some, List.cons_append, List.nil_append, List.mem_cons,
        List.not_mem_nil, or_false] at hother
      rcases hother with rfl | rfl | rfl
      · exact Or.inl rfl
      · exact Or.inr (Or.inl ⟨rfl, havailable⟩)
      · exact Or.inl rfl
    · exact absurd (hnone ▸ hfastest.mem) List.not_mem_nil
    · rw [hstrategy] at hsingle
      cases hsingle
    · rw [← hreason]
      exact iff_of_true hstrategy hsome

variable (fig unicode own) in
/-- Whatever engines are compared, in any order, and however old the first records are: what is
recommended follows the last ones. -/
theorem recommends_fastest (run : List Ask) (ask : Ask) :
    Follows fig own (latest unicode own (run ++ [ask])) (ask.queryType unicode)
      (migrationCompare fig unicode (compareAll fig unicode (.new own) run)
        ask).2.recommendation := by
  have hduckDb : ∀ queryType, Counted (latest unicode own (run ++ [ask])) queryType
      [duckDb, duckDbDirect] → own.duckDb = true := by
    rintro queryType ⟨r, hr, hengine, -⟩
    obtain ⟨_, -, hentry⟩ := mem_latest hr
    exact (engine_of_mem_entries hentry).2.2 hengine
  rw [(tracks_compareAll run).recommendation ask]
  exact (follows_buildRecommendation hduckDb (ask.queryType unicode)).withSpeedup _

/-- Without records of DataFusion it is recommended only by default. -/
theorem buildRecommendation_uncounted {tracker : EnginePerformanceTracker} {queryType : Workload}
    (h : ¬ Counted tracker queryType [dataFusion]) :
    let r := (buildRecommendation fig tracker queryType own).1
    r.strategy = .singleEngine ∧ (r.primaryEngine = dataFusion ↔
      ¬ (own.duckDb = true ∧ Counted tracker queryType [duckDb, duckDbDirect]) ∧
      ¬ (own.polars = true ∧ Counted tracker queryType [polars, polarsDirect]) ∧
      (queryType = .join ∨ queryType = .complexJoin ∨ own.duckDb = false)) := by
  dsimp only
  have havg : dataFusionAvg fig tracker queryType = none := by
    rw [← Option.not_isSome_iff_eq_none]
    exact fun hsome => h (isSome_avgLatency_iff.mp hsome)
  have hcandidates := candidates_eq_nil_iff fig own tracker queryType
  rcases buildRecommendation_cases fig own tracker queryType with
    ⟨hnone, hdefault⟩ | ⟨engine, avg, hfastest, hsingle | hhandoff⟩
  · obtain ⟨hstrategy, -, -, hprimary⟩ := defaultRecommendation_spec queryType own.duckDb
    obtain ⟨-, hduckDb, hpolars⟩ := hcandidates.mp hnone
    rw [hdefault]
    refine ⟨hstrategy, ?_⟩
    rw [hprimary]
    split_ifs with hcondition
    · refine iff_of_false (by decide) ?_
      rintro ⟨-, -, hjoin | hcomplex | hmissing⟩
      · exact hcondition.1 hjoin
      · exact hcondition.2.1 hcomplex
      · exact Bool.false_ne_true (hmissing.symm.trans hcondition.2.2)
    · refine iff_of_true rfl ⟨hduckDb, hpolars, ?_⟩
      by_cases hjoin : queryType = .join
      · exact Or.inl hjoin
      · by_cases hcomplex : queryType = .complexJoin
        · exact Or.inr (Or.inl hcomplex)
        · exact Or.inr (Or.inr (Bool.eq_false_iff.mpr fun havailable =>
            hcondition ⟨hjoin, hcomplex, havailable⟩))
  · obtain ⟨-, hstrategy, hprimary, -⟩ := hsingle
    refine ⟨hstrategy, iff_of_false ?_ ?_⟩
    · rw [hprimary]
      rcases mem_candidates_iff.mp hfastest.mem with ⟨-, hsome⟩ | ⟨rfl, -⟩ | ⟨rfl, -⟩
      · rw [havg] at hsome
        cases hsome
      · decide
      · decide
    · rintro ⟨hduckDb, hpolars, -⟩
      have hmem := hfastest.mem
      rw [hcandidates.mpr ⟨h, hduckDb, hpolars⟩] at hmem
      exact List.not_mem_nil hmem
  · obtain ⟨-, -, df, -, -, -, hdf, -⟩ :=
      (handoffReason_isSome_iff fig tracker queryType).mp hhandoff.1
    rw [havg] at hdf
    cases hdf

variable (fig unicode own) in
/-- However fast DataFusion reads from S3 itself, these answers count for nothing: where there are
no others, it is recommended only where no engine counts and it is the default. -/
theorem overlooks_direct (run : List Ask) (ask : Ask)
    (h : ∀ a ∈ run ++ [ask], a.queryType unicode = ask.queryType unicode →
      a.s3Available = true ∧ ∃ answer, a.calls.dataFusionDirect.outcome = .ok answer) :
    let tracker := latest unicode own (run ++ [ask])
    let queryType := ask.queryType unicode
    let r := (migrationCompare fig unicode
      (compareAll fig unicode (.new own) run) ask).2.recommendation
    r.strategy = .singleEngine ∧ (r.primaryEngine = dataFusion ↔
      ¬ (own.duckDb = true ∧ Counted tracker queryType [duckDb, duckDbDirect]) ∧
      ¬ (own.polars = true ∧ Counted tracker queryType [polars, polarsDirect]) ∧
      (queryType = .join ∨ queryType = .complexJoin ∨ own.duckDb = false)) := by
  dsimp only
  have hnone : ¬ Counted (latest unicode own (run ++ [ask])) (ask.queryType unicode)
      [dataFusion] := by
    rintro ⟨r, hr, hengine, htype, -⟩
    obtain ⟨a, ha, hentry⟩ := mem_latest hr
    obtain ⟨hsame, hplain, -⟩ := engine_of_mem_entries hentry
    exact hplain (List.mem_singleton.mp hengine) (h a ha (hsame.symm.trans htype))
  rw [(tracks_compareAll run).recommendation ask]
  generalize latest unicode own (run ++ [ask]) = tracker at hnone ⊢
  exact buildRecommendation_uncounted hnone

end

end

/-- Arithmetic that is right where one is a factor or a divisor and where a number is divided by
itself. -/
def simpleFigures : Figures where
  add x _ := x
  sub x _ := x
  mul x y := if x = .ofInt 1 then y else x
  div x y := if y = .ofInt 1 then x else .ofInt 1
  ceil x := x
  toUInt64 x := x.bits
  round x := x
  fixed _ _ := ""

/-- Trino is not there, DataFusion reads three tables from S3 in a millisecond, and DuckDB takes
most of a second. -/
def ordersAsk : Ask where
  req := ⟨"lake", "SELECT * FROM iceberg.shop.orders".toList, true⟩
  s3Creds := ["default"]
  located := []
  calls :=
    { connected := false
      trino := ⟨0, .error ""⟩
      dataFusionDirect := ⟨1, .ok (20, 3)⟩
      dataFusion := ⟨0, .error ""⟩
      duckDbDirect := ⟨0, .error ""⟩
      duckDb := ⟨900, .ok 20⟩
      polarsDirect := ⟨0, .error ""⟩
      polars := ⟨0, .error ""⟩ }

theorem overlooks_direct_orders :
    (migrationCompare simpleFigures .asciiOnly (.new ⟨true, false⟩) ordersAsk).2.comparison.winner =
        dataFusionDirect 3 ∧
      (migrationCompare simpleFigures .asciiOnly (.new ⟨true, false⟩)
        ordersAsk).2.recommendation.primaryEngine ≠ dataFusion := by
  refine ⟨by decide +kernel, fun hsame => ?_⟩
  have hall : ∀ a ∈ [] ++ [ordersAsk],
      a.queryType .asciiOnly = ordersAsk.queryType .asciiOnly → a.s3Available = true ∧
        ∃ answer, a.calls.dataFusionDirect.outcome = .ok answer := by
    intro a ha _
    obtain rfl := List.mem_singleton.mp ha
    exact ⟨by decide, (20, 3), rfl⟩
  obtain ⟨-, hprimary⟩ := overlooks_direct simpleFigures .asciiOnly ⟨true, false⟩ [] ordersAsk hall
  refine (hprimary.mp hsame).1 ⟨rfl, ⟨duckDb, .fullScan, 900, 20, 1280, "in_memory"⟩, ?_⟩
  decide +kernel

end RustLake.Routes.Recommendation
