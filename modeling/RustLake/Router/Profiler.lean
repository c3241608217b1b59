import RustLake.Rust.Float
import RustLake.Rust.Unicode

/-! `QueryProfiler`: the tables that a query names, what is known of them, and the engines that it
is recommended to run on. -/
namespace RustLake.Router

/-- Where the data of a table lives. -/
inductive SourceType where
  | «local» | s3Parquet | s3Iceberg | s3Delta | federated | inMemory | trino | lance
deriving DecidableEq, Repr

/-- What is cached of a table, as far as a recommendation reads it. -/
structure TableProfileStats where
  totalRows : UInt64
  totalBytes : UInt64
  sourceType : SourceType
  /-- The columns with an estimate of how many different values they hold. -/
  distinctCounts : List (String × UInt64)
deriving DecidableEq

structure PlanFragment where
  table : String
  operation : String
  engine : String
  estimatedRows : UInt64
deriving DecidableEq, Repr

inductive ExecutionStrategy where
  | singleEngine (engine : String)
  | splitPlan (fragments : List PlanFragment)
  | directS3 (engine : String)
  | federatedFetch (sourceEngine computeEngine : String)
deriving DecidableEq, Repr

/-- A recommendation, less the confidence in it and the text of its reasons. -/
structure EngineRecommendation where
  primaryEngine : String
  executionStrategy : ExecutionStrategy
  estimatedCostMs : UInt64
deriving DecidableEq, Repr

structure AdaptiveQueryProfile where
  estimatedRows : UInt64
  estimatedBytes : UInt64
  numTables : UInt32
  hasJoin : Bool
  hasAggregation : Bool
  hasSort : Bool
  selectivity : F64
  tables : List String
  sourceTypes : List SourceType
  recommendedEngine : EngineRecommendation

structure ExecutionRecord where
  engine : String
  executionMs : UInt64
  sourceTypes : List SourceType

/-- The arithmetic of `f64`, of which the results here use nothing. -/
structure Arithmetic where
  add : F64 → F64 → F64
  sub : F64 → F64 → F64
  mul : F64 → F64 → F64
  div : F64 → F64 → F64
  ceil : F64 → F64
  /-- `as u64`. -/
  toUInt64 : F64 → UInt64

/-- `estimate_selectivity`: what share of a table's rows a query reads. -/
abbrev Selectivity := String → String → TableProfileStats → F64

structure QueryProfiler where
  tableProfiles : String → Option TableProfileStats
  executionHistory : List ExecutionRecord

/-- `Federated | Trino`. -/
def SourceType.isFederated : SourceType → Bool
  | .federated | .trino => true
  | _ => false

/-- `S3Parquet | S3Iceberg | S3Delta`. -/
def SourceType.isS3 : SourceType → Bool
  | .s3Parquet | .s3Iceberg | .s3Delta => true
  | _ => false

/-- The words after `FROM` and `JOIN`, each the first time it comes. -/
def extractTableNames (unicode : Unicode) (sql : String) : List String :=
  let tokens := splitWhitespace sql.toList
  let named := (tokens.zip tokens.tail).filterMap fun (token, next) =>
    let upper := unicode.upper.text token
    if upper = "FROM".toList ∨ upper = "JOIN".toList then
      let mark := fun c => c = '(' || c = ')' || c = ',' || c = ';'
      let name := (next.dropWhile mark).rdropWhile mark
      if name ≠ [] ∧ name.map Char.toLower ≠ "select".toList ∧
          name.map Char.toLower ≠ "(select".toList ∧ name.head? ≠ some '(' then
        some (String.ofList name)
      else none
    else none
  named.eraseDups

/-- The part of `score_engine` that reads the query alone. -/
def heuristicScore (float : Arithmetic) (engine : String) (query : AdaptiveQueryProfile) : F64 :=
  let score := F64.ofInt 50
  let federatedCount := query.sourceTypes.countP SourceType.isFederated
  if engine = "DuckDB" then
    let score := if 50000 < query.estimatedRows then float.add score (.ofInt 30) else score
    let score := if query.hasAggregation then float.add score (.ofInt 20) else score
    -- the bits of 0.5
    let score :=
      if F64.Lt ⟨0x3FE0000000000000⟩ query.selectivity then float.add score (.ofInt 15) else score
    let s3Tables := query.sourceTypes.countP fun st => st = .s3Parquet || st = .s3Iceberg
    let score := if 0 < s3Tables then float.add score (.ofInt 20) else score
    let score := if 0 < federatedCount then float.sub score (.ofInt 25) else score
    let scanned := float.div (.ofInt query.estimatedRows.toNat) (.ofInt 100000)
    let syncPenaltyMs := float.add (.ofInt 50) (float.mul scanned (.ofInt 10))
    float.sub score (syncPenaltyMs.min (.ofInt 40))
  else if engine = "DataFusion" then
    let score := if 0 < federatedCount then float.add score (.ofInt 30) else score
    let uniqueSources := query.sourceTypes.dedup
    let score := if 1 < uniqueSources.length then float.add score (.ofInt 20) else score
    let score := if query.estimatedRows < 10000 then float.add score (.ofInt 20) else score
    let inMem := query.sourceTypes.count .inMemory
    if 0 < inMem then float.add score (.ofInt 10) else score
  else if engine = "Polars" then
    let score :=
      if 10000 ≤ query.estimatedRows ∧ query.estimatedRows ≤ 500000 then
        float.add score (.ofInt 20)
      else score
    let score := if !query.hasJoin && !query.hasSort then float.add score (.ofInt 10) else score
    let s3Count := query.sourceTypes.countP SourceType.isS3
    let score := if 0 < s3Count then float.sub score (.ofInt 15) else score
    if 0 < federatedCount then float.sub score (.ofInt 20) else score
  else score

/-- A mean of times in milliseconds. -/
def averageMs (float : Arithmetic) (times : List UInt64) : F64 :=
  float.div (.ofInt times.sum.toNat) (.ofInt times.length)

/-- The rest of `score_engine`, less the last `max`: an engine that took half of the others' time
or less gets more. -/
def boostedScore (float : Arithmetic) (engine : String) (query : AdaptiveQueryProfile)
    (history : List ExecutionRecord) (score : F64) : F64 :=
  let similarRecords := (history.reverse.take 100).filter fun r =>
    r.sourceTypes.any fun st => st ∈ query.sourceTypes
  if 3 ≤ similarRecords.length then
    let thisEngineTimes := (similarRecords.filter (·.engine = engine)).map (·.executionMs)
    let otherEngineTimes := (similarRecords.filter (·.engine ≠ engine)).map (·.executionMs)
    if thisEngineTimes ≠ [] ∧ otherEngineTimes ≠ [] then
      let avgThis := averageMs float thisEngineTimes
      let avgOther := averageMs float otherEngineTimes
      -- the bits of 1.30
      if F64.Lt (.ofInt 0) avgThis ∧ F64.Le (.ofInt 2) (float.div avgOther avgThis) then
        float.mul score ⟨0x3FF4CCCCCCCCCCCD⟩
      else score
    else score
  else score

/-- A score is a number. -/
def Score := {x : F64 // ¬ x.isNan}

def scoreEngine (float : Arithmetic) (history : List ExecutionRecord)
    (query : AdaptiveQueryProfile) (engine : String) : Score :=
  let score := boostedScore float engine query history (heuristicScore float engine query)
  ⟨score.max (.ofInt 0), F64.not_isNan_max (by decide)⟩

/-- Whether one engine stays before another: `partial_cmp` does not put it behind. -/
def keepsOrder (a b : String × Score) : Bool := !decide (a.2.1.Lt b.2.1)

/-- The engines with their scores, the highest first and equal ones as they stand. -/
def sortedScores (score : String → Score) (availableEngines : List String) :
    List (String × Score) :=
  (availableEngines.map fun engine => (engine, score engine)).mergeSort keepsOrder

def bestEngine (score : String → Score) (availableEngines : List String) : String :=
  ((sortedScores score availableEngines).head?.map Prod.fst).getD "DataFusion"

def fragmentEngine (best : String) (st : SourceType) : String :=
  if st.isFederated then "DataFusion" else best

/-- One fragment for each table, with the engine that the source type at its position picks. -/
def splitFragments (query : AdaptiveQueryProfile) (best : String) : List PlanFragment :=
  query.tables.zipIdx.map fun (table, i) =>
    let st := query.sourceTypes[i]?.getD .inMemory
    { table := table
      operation := "scan"
      engine := fragmentEngine best st
      estimatedRows := query.estimatedRows / (max query.numTables 1).toUInt64 }

def executionStrategy (query : AdaptiveQueryProfile) (best : String) : ExecutionStrategy :=
  let hasFederated := query.sourceTypes.any SourceType.isFederated
  let hasS3 := query.sourceTypes.any SourceType.isS3
  let uniqueSources := query.sourceTypes.dedup
  if hasFederated && hasS3 && 1 < uniqueSources.length then
    .splitPlan (splitFragments query best)
  else if hasFederated then .federatedFetch "DataFusion" best
  else if hasS3 && best = "DuckDB" then .directS3 "DuckDB"
  else .singleEngine best

def estimatedCostMs (query : AdaptiveQueryProfile) (best : String) : UInt64 :=
  if query.estimatedRows = 0 then 1
  else
    let rowCost := query.estimatedRows / 10000
    let overhead := if best = "DuckDB" then 10 else if best = "Polars" then 15 else 5
    overhead + max rowCost 1

def buildRecommendation (float : Arithmetic) (history : List ExecutionRecord)
    (query : AdaptiveQueryProfile) (availableEngines : List String) : EngineRecommendation :=
  let best := bestEngine (scoreEngine float history query) availableEngines
  { primaryEngine := best
    executionStrategy := executionStrategy query best
    estimatedCostMs := estimatedCostMs query best }

/-- The profile of a query before an engine is recommended. -/
def queryFacts (float : Arithmetic) (selectivity : Selectivity) (unicode : Unicode)
    (profiler : QueryProfiler) (sql : String) : AdaptiveQueryProfile :=
  let upper := unicode.upper.text sql.toList
  let tables := extractTableNames unicode sql
  -- a table without a profile adds to none of these
  let profiled := tables.filterMap fun table =>
    (profiler.tableProfiles table).map fun tp => (table, tp)
  let totalRows := (profiled.map (·.2.totalRows)).sum
  let totalBytes := (profiled.map (·.2.totalBytes)).sum
  let combinedSelectivity :=
    profiled.foldl (fun acc (table, tp) => float.mul acc (selectivity sql table tp)) (.ofInt 1)
  let scaled := fun (n : UInt64) =>
    float.toUInt64 (float.ceil (float.mul (.ofInt n.toNat) combinedSelectivity))
  { estimatedRows := scaled totalRows
    estimatedBytes := scaled totalBytes
    numTables := .ofNat tables.length
    hasJoin := "JOIN".toList <:+: upper
    hasAggregation := "GROUP BY".toList <:+: upper ∨ "SUM(".toList <:+: upper ∨
      "COUNT(".toList <:+: upper ∨ "AVG(".toList <:+: upper ∨ "MIN(".toList <:+: upper ∨
      "MAX(".toList <:+: upper
    hasSort := "ORDER BY".toList <:+: upper
    selectivity := combinedSelectivity
    tables := tables
    sourceTypes := profiled.map (·.2.sourceType)
    recommendedEngine := ⟨"DataFusion", .singleEngine "DataFusion", 0⟩ }

def profileQuery (float : Arithmetic) (selectivity : Selectivity) (unicode : Unicode)
    (profiler : QueryProfiler) (sql : String) (availableEngines : List String) :
    AdaptiveQueryProfile :=
  let profile := queryFacts float selectivity unicode profiler sql
  { profile with
    recommendedEngine :=
      buildRecommendation float profiler.executionHistory profile availableEngines }

/-- An engine scores more than all before it and no less than any after it. -/
def Wins (score : String → Score) (availableEngines : List String) (engine : String) : Prop :=
  ∃ before after, availableEngines = before ++ engine :: after ∧
    (∀ other ∈ before, (score other).1.Lt (score engine).1) ∧
    ∀ other ∈ after, ¬ (score engine).1.Lt (score other).1

/-- The source type of a table, `InMemory` without a profile. -/
def ownSource (profiles : String → Option TableProfileStats) (table : String) : SourceType :=
  ((profiles table).map TableProfileStats.sourceType).getD .inMemory

/-- A federated table and one on S3 are among the tables with a profile. -/
def Mixed (profiles : String → Option TableProfileStats) (tables : List String) : Prop :=
  (∃ tp ∈ tables.filterMap profiles, tp.sourceType.isFederated) ∧
    ∃ tp ∈ tables.filterMap profiles, tp.sourceType.isS3

/-- At each position the table and the profiled table that comes there are both federated or
neither is. -/
def Aligned (profiles : String → Option TableProfileStats) (tables : List String) : Prop :=
  ∀ (i : ℕ) (h : i < tables.length), (ownSource profiles tables[i]).isFederated =
    (((tables.filterMap profiles)[i]?.map TableProfileStats.sourceType).getD
      .inMemory).isFederated

/-- A split plan has a fragment for each table, and its engine is the one that the table's own
source type picks. -/
def OwnEngines (profiles : String → Option TableProfileStats) (profile : AdaptiveQueryProfile) :
    Prop :=
  ∀ fragments, profile.recommendedEngine.executionStrategy = .splitPlan fragments →
    fragments.map PlanFragment.table = profile.tables ∧
    ∀ fragment ∈ fragments, fragment.engine =
      if (ownSource profiles fragment.table).isFederated then "DataFusion"
      else profile.recommendedEngine.primaryEngine

theorem Score.lt_iff (x y : Score) : x.1.Lt y.1 ↔ x.1.key < y.1.key := by
  unfold F64.Lt
  simp only [x.2, y.2, not_false_eq_true, true_and]

theorem keepsOrder_iff (a b : String × Score) : keepsOrder a b ↔ b.2.1.key ≤ a.2.1.key := by
  unfold keepsOrder
  rw [Bool.not_eq_true', decide_eq_false_iff_not, Score.lt_iff, not_lt]

/-- The first element of a stable sort. -/
theorem head?_mergeSort {α : Type} {le : α → α → Bool}
    (trans : ∀ a b c, le a b → le b c → le a c) (total : ∀ a b, le a b || le b a) :
    ∀ {l : List α} {a : α}, (l.mergeSort le).head? = some a →
      ∃ before after, l = before ++ a :: after ∧ (∀ b ∈ before, ¬ le b a) ∧ ∀ b ∈ after, le a b := by
  intro l
  induction l with
  | nil => simp
  | cons x l ih =>
    intro a ha
    obtain ⟨l₁, l₂, hsorted, hrest, hlt⟩ := List.mergeSort_cons trans total x l
    rw [hsorted] at ha
    cases l₁ with
    | nil =>
      have hax : x = a := Option.some.inj ha
      subst hax
      refine ⟨[], l, rfl, by simp, ?_⟩
      intro b hb
      have hpairs := List.pairwise_mergeSort trans total (x :: l)
      rw [hsorted] at hpairs
      have hb' : b ∈ l₂ := by
        have := (List.mergeSort_perm l le).mem_iff.mpr hb
        rwa [hrest] at this
      exact List.rel_of_pairwise_cons hpairs hb'
    | cons y l₁ =>
      have hya : y = a := Option.some.inj ha
      subst hya
      obtain ⟨before, after, rfl, hbefore, hafter⟩ := ih (a := y) (by rw [hrest]; rfl)
      refine ⟨x :: before, after, rfl, ?_, hafter⟩
      intro b hb
      rcases List.mem_cons.mp hb with rfl | hb
      · simpa using hlt y List.mem_cons_self
      · exact hbefore b hb

section Best

variable (score : String → Score)

/-- The engine recommended wins. -/
theorem wins_of_sortedScores {availableEngines : List String} {best : String × Score}
    (h : (sortedScores score availableEngines).head? = some best) :
    Wins score availableEngines best.1 := by
  have trans : ∀ a b c, keepsOrder a b → keepsOrder b c → keepsOrder a c := by
    intro a b c hab hbc
    rw [keepsOrder_iff] at *
    exact hbc.trans hab
  have total : ∀ a b, keepsOrder a b || keepsOrder b a := by
    intro a b
    rw [Bool.or_eq_true, keepsOrder_iff, keepsOrder_iff]
    exact le_total _ _
  obtain ⟨before, after, hsplit, hbefore, hafter⟩ := head?_mergeSort trans total h
  obtain ⟨names, rest, rfl, hnames, hrest⟩ := List.map_eq_append_iff.mp hsplit
  obtain ⟨engine, later, rfl, hengine, hlater⟩ := List.map_eq_cons_iff.mp hrest
  subst hnames hlater hengine
  refine ⟨names, later, rfl, ?_, ?_⟩
  · intro other hother
    simpa [keepsOrder] using hbefore _ (List.mem_map_of_mem hother)
  · intro other hother
    simpa [keepsOrder] using hafter _ (List.mem_map_of_mem hother)

theorem Wins.unique {availableEngines : List String} {engine other : String}
    (h : Wins score availableEngines engine) (h' : Wins score availableEngines other) :
    engine = other := by
  obtain ⟨before, after, hsplit, hlt, hge⟩ := h
  obtain ⟨before', after', hsplit', hlt', hge'⟩ := h'
  rcases List.append_eq_append_iff.mp (hsplit.symm.trans hsplit') with
    ⟨mid, hmid, hrest⟩ | ⟨mid, hmid, hrest⟩
  · cases mid with
    | nil => exact (List.cons.inj hrest).1
    | cons x mid =>
      -- one comes before the other and would score less
      obtain ⟨rfl, rfl⟩ := List.cons.inj hrest
      exact absurd (hlt' engine (by simp [hmid])) (hge other (by simp))
  · cases mid with
    | nil => exact (List.cons.inj hrest).1.symm
    | cons x mid =>
      obtain ⟨rfl, rfl⟩ := List.cons.inj hrest
      exact absurd (hlt other (by simp [hmid])) (hge' engine (by simp))

/-- `DataFusion` is recommended if no other engine wins; that covers an empty list. -/
theorem bestEngine_eq_iff (availableEngines : List String) :
    bestEngine score availableEngines = "DataFusion" ↔
      ∀ engine, Wins score availableEngines engine → engine = "DataFusion" := by
  unfold bestEngine
  cases hhead : (sortedScores score availableEngines).head? with
  | none =>
    have hnil : availableEngines = [] := by
      have hsorted := List.head?_eq_none_iff.mp hhead
      simpa [sortedScores] using congrArg List.length hsorted
    subst hnil
    simp [Wins]
  | some best =>
    have hwins := wins_of_sortedScores score hhead
    rw [Option.map_some, Option.getD_some]
    constructor
    · intro hbest engine hengine
      exact (hengine.unique score hwins).trans hbest
    · intro h
      exact h best.1 hwins

end Best

theorem one_lt_length_dedup {l : List SourceType} {a b : SourceType} (ha : a ∈ l) (hb : b ∈ l)
    (hab : a ≠ b) : 1 < l.dedup.length := by
  have ha' : a ∈ l.dedup := List.mem_dedup.mpr ha
  have hb' : b ∈ l.dedup := List.mem_dedup.mpr hb
  by_contra hlen
  obtain ⟨x, hx⟩ : ∃ x, l.dedup = [x] :=
    List.length_eq_one_iff.mp (by have := List.length_pos_of_mem ha'; omega)
  rw [hx, List.mem_singleton] at ha' hb'
  exact hab (ha'.trans hb'.symm)

/-- Two source types where both tests hold are two, so the third test adds nothing. -/
theorem executionStrategy_split (query : AdaptiveQueryProfile) (best : String)
    (fragments : List PlanFragment) :
    executionStrategy query best = .splitPlan fragments ↔
      ((∃ st ∈ query.sourceTypes, st.isFederated) ∧ ∃ st ∈ query.sourceTypes, st.isS3) ∧
        splitFragments query best = fragments := by
  have hunique : (∃ st ∈ query.sourceTypes, st.isFederated) →
      (∃ st ∈ query.sourceTypes, st.isS3) → 1 < query.sourceTypes.dedup.length := by
    rintro ⟨a, ha, hfederated⟩ ⟨b, hb, hs3⟩
    apply one_lt_length_dedup ha hb
    rintro rfl
    cases a <;> simp [SourceType.isFederated, SourceType.isS3] at hfederated hs3
  unfold executionStrategy
  by_cases hfederated : ∃ st ∈ query.sourceTypes, st.isFederated
  · by_cases hs3 : ∃ st ∈ query.sourceTypes, st.isS3
    · simp [List.any_eq_true.mpr hfederated, List.any_eq_true.mpr hs3, hunique hfederated hs3,
        hfederated, hs3]
    · simp only [Bool.eq_false_iff.mpr (mt List.any_eq_true.mp hs3), Bool.and_false, hs3]
      split_ifs <;> simp_all
  · simp only [Bool.eq_false_iff.mpr (mt List.any_eq_true.mp hfederated), Bool.false_and,
      hfederated]
    split_ifs <;> simp_all

theorem splitFragments_tables (query : AdaptiveQueryProfile) (best : String) :
    (splitFragments query best).map PlanFragment.table = query.tables := by
  have hfst : (splitFragments query best).map PlanFragment.table =
      query.tables.zipIdx.map Prod.fst := by
    unfold splitFragments
    rw [List.map_map]
    rfl
  rw [hfst, List.zipIdx_map_fst]

theorem fragmentEngine_eq_iff (best : String) (st st' : SourceType) :
    fragmentEngine best st = fragmentEngine best st' ↔
      best = "DataFusion" ∨ st.isFederated = st'.isFederated := by
  unfold fragmentEngine
  cases st.isFederated <;> cases st'.isFederated <;> simp [eq_comm]

section Fragments

variable {profiles : String → Option TableProfileStats} {query : AdaptiveQueryProfile}
  (hsources : query.sourceTypes =
    (query.tables.filterMap profiles).map TableProfileStats.sourceType)
include hsources

theorem split_iff_mixed (best : String) (fragments : List PlanFragment) :
    executionStrategy query best = .splitPlan fragments ↔
      Mixed profiles query.tables ∧ splitFragments query best = fragments := by
  rw [executionStrategy_split, hsources]
  simp only [Mixed, List.mem_map, exists_exists_and_eq_and]

/-- A fragment has the engine of its own table's source type if `DataFusion` is the best engine
or the type at its position is of the same kind. -/
theorem fragment_own_iff (best : String) {i : ℕ} (h : i < (splitFragments query best).length)
    (h' : i < query.tables.length) :
    (splitFragments query best)[i].engine =
        fragmentEngine best (ownSource profiles (splitFragments query best)[i].table) ↔
      best = "DataFusion" ∨ (ownSource profiles query.tables[i]).isFederated =
        (((query.tables.filterMap profiles)[i]?.map TableProfileStats.sourceType).getD
          .inMemory).isFederated := by
  have htable : (splitFragments query best)[i].table = query.tables[i] := by
    simp [splitFragments]
  have hengine : (splitFragments query best)[i].engine =
      fragmentEngine best (query.sourceTypes[i]?.getD .inMemory) := by
    simp [splitFragments]
  rw [htable, hengine, fragmentEngine_eq_iff, hsources, List.getElem?_map]
  exact or_congr Iff.rfl eq_comm

theorem fragments_own_iff (best : String) :
    (∀ fragment ∈ splitFragments query best, fragment.engine =
        fragmentEngine best (ownSource profiles fragment.table)) ↔
      best = "DataFusion" ∨ Aligned profiles query.tables := by
  have hlength : (splitFragments query best).length = query.tables.length := by
    have htables := congrArg List.length (splitFragments_tables query best)
    rwa [List.length_map] at htables
  constructor
  · intro h
    by_cases hdf : best = "DataFusion"
    · exact Or.inl hdf
    · apply Or.inr
      intro i hi
      have hi' : i < (splitFragments query best).length := by rwa [hlength]
      have hfragment :=
        (fragment_own_iff hsources best hi' hi).mp (h _ (List.getElem_mem hi'))
      exact hfragment.resolve_left hdf
  · intro h fragment hfragment
    obtain ⟨i, hi, rfl⟩ := List.getElem_of_mem hfragment
    have hi' : i < query.tables.length := by rwa [← hlength]
    apply (fragment_own_iff hsources best hi hi').mpr
    exact h.imp_right fun haligned => haligned i hi'

theorem ownEngines_query_iff {best : String}
    (hbest : query.recommendedEngine.primaryEngine = best)
    (hstrategy : query.recommendedEngine.executionStrategy = executionStrategy query best) :
    OwnEngines profiles query ↔
      ¬ Mixed profiles query.tables ∨ best = "DataFusion" ∨ Aligned profiles query.tables := by
  unfold OwnEngines
  rw [hbest, hstrategy]
  by_cases hmixed : Mixed profiles query.tables
  · rw [or_iff_right (not_not_intro hmixed), ← fragments_own_iff hsources]
    constructor
    · intro h
      exact (h _ ((split_iff_mixed hsources best _).mpr ⟨hmixed, rfl⟩)).2
    · intro h fragments hsplit
      obtain ⟨-, rfl⟩ := (split_iff_mixed hsources best _).mp hsplit
      exact ⟨splitFragments_tables query best, h⟩
  · refine iff_of_true ?_ (Or.inl hmixed)
    intro fragments hsplit
    exact absurd ((split_iff_mixed hsources best _).mp hsplit).1 hmixed

end Fragments

/-- The source types are those of the tables with a profile, and the others leave no place. -/
theorem queryFacts_sourceTypes (float : Arithmetic) (selectivity : Selectivity)
    (unicode : Unicode) (profiler : QueryProfiler) (sql : String) :
    (queryFacts float selectivity unicode profiler sql).sourceTypes =
      ((extractTableNames unicode sql).filterMap profiler.tableProfiles).map
        TableProfileStats.sourceType := by
  have hpairs : ∀ tables : List String,
      (tables.filterMap fun table =>
          (profiler.tableProfiles table).map fun tp => (table, tp)).map (·.2.sourceType) =
        (tables.filterMap profiler.tableProfiles).map TableProfileStats.sourceType := by
    intro tables
    rw [List.map_filterMap, List.map_filterMap]
    congr 1
    funext table
    rw [Option.map_map]
    rfl
  exact hpairs _

theorem ownEngines_profile_iff (float : Arithmetic) (selectivity : Selectivity)
    (unicode : Unicode) (profiler : QueryProfiler) (sql : String) (availableEngines : List String) :
    OwnEngines profiler.tableProfiles
        (profileQuery float selectivity unicode profiler sql availableEngines) ↔
      ¬ Mixed profiler.tableProfiles (extractTableNames unicode sql) ∨
      bestEngine (scoreEngine float profiler.executionHistory
        (queryFacts float selectivity unicode profiler sql)) availableEngines = "DataFusion" ∨
      Aligned profiler.tableProfiles (extractTableNames unicode sql) := by
  have hsources :
      (profileQuery float selectivity unicode profiler sql availableEngines).sourceTypes =
        ((profileQuery float selectivity unicode profiler sql availableEngines).tables.filterMap
          profiler.tableProfiles).map TableProfileStats.sourceType :=
    queryFacts_sourceTypes float selectivity unicode profiler sql
  exact ownEngines_query_iff hsources rfl rfl

/-- The recommendation gives each table the engine of its own source type if the plan is not
split, if no other engine than `DataFusion` wins, or if the tables without a profile shift no
federated source. -/
theorem ownEngines_iff (float : Arithmetic) (selectivity : Selectivity) (unicode : Unicode)
    (profiler : QueryProfiler) (sql : String) (availableEngines : List String) :
    OwnEngines profiler.tableProfiles
        (profileQuery float selectivity unicode profiler sql availableEngines) ↔
      ¬ Mixed profiler.tableProfiles (extractTableNames unicode sql) ∨
      (∀ engine,
        Wins (scoreEngine float profiler.executionHistory
          (queryFacts float selectivity unicode profiler sql)) availableEngines engine →
        engine = "DataFusion") ∨
      Aligned profiler.tableProfiles (extractTableNames unicode sql) := by
  rw [← bestEngine_eq_iff]
  exact ownEngines_profile_iff float selectivity unicode profiler sql availableEngines

/-- What is known of two tables out of three: orders in a database and events on S3. -/
def ordersAndEvents : QueryProfiler where
  tableProfiles table :=
    if table = "pg.orders" then some ⟨100000, 50000000, .federated, []⟩
    else if table = "events" then some ⟨1000000, 512000000, .s3Iceberg, []⟩
    else none
  executionHistory := []

/-- The table without a profile comes first: orders are scanned as the events are. -/
theorem not_ownEngines_notesFirst : ¬ ∃ (float : Arithmetic) (selectivity : Selectivity),
    OwnEngines ordersAndEvents.tableProfiles
      (profileQuery float selectivity .asciiOnly ordersAndEvents
        "SELECT * FROM notes n JOIN pg.orders o ON n.id = o.id JOIN events e ON o.id = e.id"
        ["DuckDB"]) := by
  rintro ⟨float, selectivity, h⟩
  have htables : extractTableNames .asciiOnly
      "SELECT * FROM notes n JOIN pg.orders o ON n.id = o.id JOIN events e ON o.id = e.id" =
        ["notes", "pg.orders", "events"] := by decide +kernel
  rw [ownEngines_profile_iff, htables] at h
  rcases h with hmixed | hbest | haligned
  · exact hmixed (by
      unfold Mixed
      decide)
  · have hduck : ∀ score, bestEngine score ["DuckDB"] = "DuckDB" := by
      intro score
      simp [bestEngine, sortedScores]
    rw [hduck] at hbest
    exact absurd hbest (by decide)
  · exact absurd (haligned 0 (by decide)) (by decide)

end RustLake.Router
