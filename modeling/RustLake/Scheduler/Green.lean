import RustLake.Scheduler.Healing
import RustLake.Scheduler.Pipelines

/-! What has run when a pipeline reports success, and when a replay reports that all gates have
passed. -/
namespace RustLake.Scheduler
open Dependency

variable {Gate Batch : Type}

section Orders
variable {tables : List (ExecutableTable Gate)} {target name : String}

theorem mem_names_of_upstream
    (h : Upstream (buildDependencyDag tables).inputs target name) :
    name ∈ target :: (buildDependencyDag tables).names := by
  rcases Relation.ReflTransGen.cases_tail_iff _ _ _ |>.mp h with rfl | ⟨dependent, -, hinput⟩
  · exact List.mem_cons_self
  · obtain ⟨t, ht, hname⟩ := List.mem_flatMap.mp hinput
    have htable := (List.mem_filter.mp ht).1
    exact List.mem_cons_of_mem _
      (List.mem_flatMap.mpr ⟨t, htable, List.mem_cons_of_mem _ hname⟩)

variable (orders : SortOrders)

/-- The nodes of the sort are those upstream of the target. -/
theorem sortedNodes (tables : List (ExecutableTable Gate)) (target : String) :
    let inputs := (buildDependencyDag tables).inputs
    let found := upstream inputs ((buildDependencyDag tables).names.length + 1) target
    let nodes := orders.upstream.elements found
    nodes.Nodup ∧ (∀ a, a ∈ nodes ↔ Upstream inputs target a) ∧
      ∀ a ∈ nodes, ∀ b ∈ inputs a, b ∈ nodes := by
  intro inputs found nodes
  have hall : ∀ a, Upstream inputs target a → a ∈ target :: (buildDependencyDag tables).names :=
    fun a ha => mem_names_of_upstream ha
  have hperm : nodes.Perm found := orders.upstream.perm found
  have hfuel : (target :: (buildDependencyDag tables).names).length ≤
      (buildDependencyDag tables).names.length + 1 := Nat.le_refl _
  have hmem : ∀ a, a ∈ nodes ↔ Upstream inputs target a := by
    intro a
    rw [hperm.mem_iff]
    exact mem_upstream_iff hall hfuel
  refine ⟨hperm.nodup_iff.mpr (nodup_upstream hall hfuel), hmem, ?_⟩
  intro a ha b hb
  exact (hmem b).mpr (((hmem a).mp ha).tail hb)

/-- The sort leaves out what has a cycle upstream. -/
theorem mem_topologicalSortUpstream_iff :
    name ∈ topologicalSortUpstream orders (buildDependencyDag tables) target ↔
      Upstream (buildDependencyDag tables).inputs target name ∧
        Acyclic (buildDependencyDag tables).inputs name := by
  obtain ⟨hnodup, hmem, hclosed⟩ := sortedNodes orders tables target
  have hfinite : ∀ a, Upstream (buildDependencyDag tables).inputs name a →
      a ∈ name :: (buildDependencyDag tables).names := fun a ha => mem_names_of_upstream ha
  rw [← acc_iff_acyclic hfinite, ← hmem]
  constructor
  · intro h
    have hresult := sort_subset hnodup (orders.inDegree.perm _) h
    exact ⟨hresult, (mem_sort_iff hnodup (orders.inDegree.perm _) hclosed hresult).mp h⟩
  · rintro ⟨hnode, hacc⟩
    exact (mem_sort_iff hnodup (orders.inDegree.perm _) hclosed hnode).mpr hacc

theorem precedes_topologicalSortUpstream :
    Precedes (DependsOn (buildDependencyDag tables).inputs)
      (topologicalSortUpstream orders (buildDependencyDag tables) target) := by
  obtain ⟨hnodup, -, -⟩ := sortedNodes orders tables target
  exact (ordered_sort hnodup (orders.inDegree.perm _)).precedes

end Orders
section Stages
variable {tables : List (ExecutableTable Gate)} {orders : ℕ → SortOrders}
  {stages : List PipelineStage} {name : String}

theorem mem_foldl_merge_iff {keep : String → Prop} [DecidablePred keep]
    {lists : String × ℕ → List String} {l : List (String × ℕ)} {acc : List String} :
    name ∈ l.foldl (fun acc p => merge keep acc (lists p)) acc ↔
      name ∈ acc ∨ keep name ∧ ∃ p ∈ l, name ∈ lists p := by
  induction l generalizing acc with
  | nil => simp
  | cons p rest ih =>
    rw [List.foldl_cons, ih, mem_merge_iff]
    simp only [List.exists_mem_cons_iff]
    tauto

theorem precedes_foldl_merge {R : String → String → Prop} {keep : String → Prop}
    [DecidablePred keep] {lists : String × ℕ → List String} (hlists : ∀ p, Precedes R (lists p))
    {l : List (String × ℕ)} {acc : List String} (hacc : Precedes (fun a b => R a b ∧ keep b) acc) :
    Precedes (fun a b => R a b ∧ keep b) (l.foldl (fun acc p => merge keep acc (lists p)) acc) := by
  induction l generalizing acc with
  | nil => exact hacc
  | cons p rest ih => exact ih (precedes_merge hacc (hlists p))

/-- The run leaves out the stages that have a cycle upstream. -/
theorem mem_orderedStages_iff : name ∈ orderedStages tables orders stages ↔
    name ∈ stageNames stages ∧ Acyclic (buildDependencyDag tables).inputs name := by
  unfold orderedStages
  rw [mem_foldl_merge_iff]
  constructor
  · rintro (hnil | ⟨hstage, p, -, hsorted⟩)
    · exact absurd hnil List.not_mem_nil
    · exact ⟨hstage, ((mem_topologicalSortUpstream_iff _).mp hsorted).2⟩
  · rintro ⟨hstage, hacyclic⟩
    obtain ⟨i, hi, hname⟩ := List.mem_iff_getElem.mp hstage
    refine Or.inr ⟨hstage, (name, i), ?_, ?_⟩
    · rw [List.mk_mem_zipIdx_iff_getElem?, List.getElem?_eq_getElem hi, hname]
    · exact (mem_topologicalSortUpstream_iff _).mpr ⟨Relation.ReflTransGen.refl, hacyclic⟩

/-- A stage comes after all stages that its table depends on. -/
theorem precedes_orderedStages :
    Precedes (fun a b => DependsOn (buildDependencyDag tables).inputs a b ∧ b ∈ stageNames stages)
      (orderedStages tables orders stages) := by
  apply precedes_foldl_merge
  · exact fun p => precedes_topologicalSortUpstream _
  · intro before a after h
    cases before <;> cases h

end Stages

section Runs
variable {checks : Checks Gate Batch} {contracts : List DataContract}
  {tables : List (ExecutableTable Gate)} {answers : String → EngineAnswer Batch}
  {orders : ℕ → SortOrders} {stages : List PipelineStage}

/-- A run that reports success has executed all tables of the list and stopped at none. -/
theorem executeStages_success {names : List String}
    (h : (executeStages checks contracts tables answers stages names).2 = "success") :
    (executeStages checks contracts tables answers stages names).1 =
        (names.filterMap (findTable tables)).map (stageResult checks contracts answers) ∧
      ∀ name ∈ names, ∀ t, findTable tables name = some t →
        shouldStop checks contracts answers stages t = false := by
  induction names with
  | nil => exact ⟨rfl, fun _ h => absurd h List.not_mem_nil⟩
  | cons name rest ih =>
    unfold executeStages at h ⊢
    cases hfind : findTable tables name with
    | none =>
      rw [hfind] at h
      obtain ⟨hresults, hgo⟩ := ih h
      refine ⟨?_, ?_⟩
      · rw [List.filterMap_cons_none hfind]
        exact hresults
      · intro other hother t ht
        rcases List.mem_cons.mp hother with rfl | hother
        · rw [hfind] at ht
          cases ht
        · exact hgo other hother t ht
    | some u =>
      rw [hfind] at h
      dsimp only at h ⊢
      by_cases hstop : shouldStop checks contracts answers stages u = true
      · rw [if_pos hstop] at h
        have hstatus : "failed" = "success" := h
        exact absurd hstatus (by decide)
      · rw [if_neg hstop] at h ⊢
        obtain ⟨hresults, hgo⟩ := ih h
        refine ⟨?_, ?_⟩
        · rw [List.filterMap_cons_some hfind, List.map_cons]
          exact congrArg _ hresults
        · intro other hother t ht
          rcases List.mem_cons.mp hother with rfl | hother
          · rw [hfind] at ht
            cases ht
            exact Bool.eq_false_iff.mpr hstop
          · exact hgo other hother t ht

/-- The run does not stop at a table exactly when it is executed, and passes what its first stage
asks for. -/
theorem shouldStop_eq_false {t : ExecutableTable Gate} {s : PipelineStage}
    (hs : findStage stages t.tableName = some s) :
    shouldStop checks contracts answers stages t = false ↔
      (s.gateRequired = true → gatesPassedOf checks answers t = true) ∧
      (s.contractRequired = true → contractValidOf checks contracts answers t = true) ∧
      (executedBatches answers t).isSome = true := by
  unfold shouldStop
  rw [hs]
  dsimp only
  cases s.gateRequired <;> cases s.contractRequired <;>
    cases gatesPassedOf checks answers t <;> cases contractValidOf checks contracts answers t <;>
    cases executedBatches answers t <;> simp

variable (checks contracts tables answers stages)

/-- A stage depends on another one through the inputs of its table, or because it says so. -/
def StageDependsOn (s d : PipelineStage) : Prop :=
  DependsOn (buildDependencyDag tables).inputs s.tableName d.tableName ∨
    d.tableName ∈ s.dependsOn

/-- In the results of a run, the stage has been executed after all stages that it depends on, and
has passed what it asks for. -/
def StageRan (results : List PipelineStageResult) (s : PipelineStage) : Prop :=
  ∃ before r after t batches, results = before ++ r :: after ∧ r.tableName = s.tableName ∧
    r.status = "success" ∧ findTable tables s.tableName = some t ∧
    executedBatches answers t = some batches ∧
    (∀ d ∈ stages, StageDependsOn tables s d →
      ∃ q ∈ before, q.tableName = d.tableName ∧ q.status = "success") ∧
    (s.gateRequired = true → ∀ g ∈ checks.validateGates t.qualityGates batches, g.passed = true) ∧
    (s.contractRequired = true → ∀ c ∈ contracts, c.producerTable = s.tableName →
      validateContract checks c batches = true)

/-- The tables of the stages are there and have no cycle upstream, and what a stage asks for is
asked for by the first stage of its table, of the first contract of the table, or is passed. -/
structure Runnable : Prop where
  found : ∀ s ∈ stages, ∃ t, findTable tables s.tableName = some t
  acyclic : ∀ s ∈ stages, Acyclic (buildDependencyDag tables).inputs s.tableName
  gates : ∀ s ∈ stages, ∀ first, findStage stages s.tableName = some first →
    s.gateRequired = true → first.gateRequired = true ∨
      ∀ t, findTable tables s.tableName = some t → gatesPassedOf checks answers t = true
  contracts : ∀ s ∈ stages, ∀ first, findStage stages s.tableName = some first →
    s.contractRequired = true → ∀ c ∈ contracts, c.producerTable = s.tableName →
      first.contractRequired = true ∧ findContract contracts s.tableName = some c ∨
      ∀ t batches, findTable tables s.tableName = some t → executedBatches answers t = some batches →
        validateContract checks c batches = true

/-- What a stage says that it depends on is upstream of its table. -/
def DeclaredUpstream : Prop :=
  ∀ s ∈ stages, ∀ d ∈ stages, d.tableName ∈ s.dependsOn →
    DependsOn (buildDependencyDag tables).inputs s.tableName d.tableName

variable {checks contracts tables answers stages} {results : List PipelineStageResult}

/-- What passes its gates has an execution, whose batches pass each of them. -/
theorem gatesPassedOf_iff {t : ExecutableTable Gate} {batches : List Batch}
    (h : executedBatches answers t = some batches) : gatesPassedOf checks answers t = true ↔
      ∀ g ∈ checks.validateGates t.qualityGates batches, g.passed = true := by
  unfold gatesPassedOf gateResultsOf
  rw [h]
  exact List.all_eq_true

theorem statusOf_success_iff {t : ExecutableTable Gate} :
    statusOf answers t = "success" ↔ ∃ batches, executedBatches answers t = some batches := by
  unfold statusOf
  cases executedBatches answers t with
  | none => simp
  | some batches => simp

theorem findStage_isSome {s : PipelineStage} (hs : s ∈ stages) :
    ∃ first, findStage stages s.tableName = some first := by
  rw [← Option.isSome_iff_exists]
  exact List.find?_isSome.mpr ⟨s, hs, by simp⟩

/-- The table of a result has the name under which it has been looked up. -/
theorem exists_of_mem_results {names : List String} {r : PipelineStageResult}
    (h : r ∈ (names.filterMap (findTable tables)).map (stageResult checks contracts answers)) :
    r.tableName ∈ names ∧ ∃ t, findTable tables r.tableName = some t ∧
      r = stageResult checks contracts answers t := by
  obtain ⟨t, ht, rfl⟩ := List.mem_map.mp h
  obtain ⟨name, hname, hfind⟩ := List.mem_filterMap.mp ht
  have htable : t.tableName = name := tableName_of_findTable hfind
  have hresult : (stageResult checks contracts answers t).tableName = name := htable
  rw [hresult]
  exact ⟨hname, t, hfind, rfl⟩

/-- A stage with its table, and no cycle upstream of it, has run without a stop. -/
theorem stageRan_of_runnable
    (hresults : results = ((orderedStages tables orders stages).filterMap (findTable tables)).map
      (stageResult checks contracts answers))
    (hgo : ∀ name ∈ orderedStages tables orders stages, ∀ t, findTable tables name = some t →
      shouldStop checks contracts answers stages t = false)
    (h : Runnable checks contracts tables answers stages)
    (hdeclared : DeclaredUpstream tables stages) {s : PipelineStage} (hs : s ∈ stages) :
    StageRan checks contracts tables answers stages results s := by
  obtain ⟨t, ht⟩ := h.found s hs
  have hname : t.tableName = s.tableName := tableName_of_findTable ht
  have hstage : s.tableName ∈ orderedStages tables orders stages :=
    mem_orderedStages_iff.mpr ⟨List.mem_map_of_mem hs, h.acyclic s hs⟩
  obtain ⟨first, hfirst⟩ := findStage_isSome hs
  have hnostop := hgo s.tableName hstage t ht
  rw [← hname] at hfirst
  obtain ⟨hgates, hvalid, hexecuted⟩ := (shouldStop_eq_false hfirst).mp hnostop
  rw [hname] at hfirst
  obtain ⟨batches, hbatches⟩ := Option.isSome_iff_exists.mp hexecuted
  obtain ⟨before, after, hsplit⟩ := List.append_of_mem hstage
  refine ⟨(before.filterMap (findTable tables)).map (stageResult checks contracts answers),
    stageResult checks contracts answers t,
    (after.filterMap (findTable tables)).map (stageResult checks contracts answers), t, batches,
    ?_, hname, statusOf_success_iff.mpr ⟨batches, hbatches⟩, ht, hbatches, ?_, ?_, ?_⟩
  · rw [hresults, hsplit, List.filterMap_append, List.filterMap_cons_some ht, List.map_append,
      List.map_cons]
  · intro d hd hdepends
    have hupstream : DependsOn (buildDependencyDag tables).inputs s.tableName d.tableName := by
      rcases hdepends with hinput | hsays
      · exact hinput
      · exact hdeclared s hs d hd hsays
    have hbefore : d.tableName ∈ before := precedes_orderedStages before s.tableName after hsplit
      d.tableName ⟨hupstream, List.mem_map_of_mem hd⟩
    obtain ⟨u, hu⟩ := h.found d hd
    have hordered : d.tableName ∈ orderedStages tables orders stages := by
      rw [hsplit]
      exact List.mem_append_left _ hbefore
    have huname : u.tableName = d.tableName := tableName_of_findTable hu
    obtain ⟨dfirst, hdfirst⟩ := findStage_isSome hd
    rw [← huname] at hdfirst
    have hdexecuted := ((shouldStop_eq_false hdfirst).mp (hgo d.tableName hordered u hu)).2.2
    refine ⟨stageResult checks contracts answers u, ?_, huname,
      statusOf_success_iff.mpr (Option.isSome_iff_exists.mp hdexecuted)⟩
    exact List.mem_map_of_mem (List.mem_filterMap.mpr ⟨d.tableName, hbefore, hu⟩)
  · intro hrequired
    rw [← gatesPassedOf_iff hbatches]
    rcases h.gates s hs first hfirst hrequired with hask | hpass
    · exact hgates hask
    · exact hpass t ht
  · intro hrequired c hc hproducer
    rcases h.contracts s hs first hfirst hrequired c hc hproducer with ⟨hask, hfound⟩ | hpass
    · have hcontract := hvalid hask
      unfold contractValidOf at hcontract
      rw [hname, hfound, hbatches] at hcontract
      exact hcontract
    · exact hpass t batches ht hbatches

/-- Where all stages have run, nothing has kept a stage out of the run. -/
theorem runnable_of_stagesRan
    (hresults : results = ((orderedStages tables orders stages).filterMap (findTable tables)).map
      (stageResult checks contracts answers)) (h : ∀ s ∈ stages,
    StageRan checks contracts tables answers stages results s) :
    Runnable checks contracts tables answers stages := by
  constructor
  · intro s hs
    obtain ⟨-, -, -, t, -, -, -, -, ht, -⟩ := h s hs
    exact ⟨t, ht⟩
  · intro s hs
    obtain ⟨before, r, after, -, -, hsplit, hname, -⟩ := h s hs
    have hr : r ∈ results := hsplit ▸ List.mem_append_right _ List.mem_cons_self
    rw [hresults] at hr
    have hordered := (exists_of_mem_results hr).1
    rw [hname] at hordered
    exact (mem_orderedStages_iff.mp hordered).2
  · intro s hs first hfirst hrequired
    obtain ⟨-, -, -, t, batches, -, -, -, ht, hbatches, -, hgates, -⟩ := h s hs
    right
    intro u hu
    obtain rfl := Option.some.inj (ht.symm.trans hu)
    exact (gatesPassedOf_iff hbatches).mpr (hgates hrequired)
  · intro s hs first hfirst hrequired c hc hproducer
    obtain ⟨-, -, -, t, batches, -, -, -, ht, hbatches, -, -, hvalid⟩ := h s hs
    right
    intro u others hu hothers
    obtain rfl := Option.some.inj (ht.symm.trans hu)
    obtain rfl := Option.some.inj (hbatches.symm.trans hothers)
    exact hvalid hrequired c hc hproducer

variable (tables answers) in
/-- Every table upstream of a table has been executed and has passed its gates. -/
def EveryTableReplayed (name : String) (results : List CascadeNodeResult) : Prop :=
  ∀ n, Upstream (buildDependencyDag tables).inputs name n → ∀ t, findTable tables n = some t →
    ∃ r ∈ results, r.tableName = n ∧ r.status = "success" ∧ ∃ batches,
      executedBatches answers t = some batches ∧ r.gatesPassed = true

/-- A replay that reports that all gates have passed has executed everything upstream exactly when
there is no cycle upstream and no execution has failed. -/
theorem everyTableReplayed_iff {order : SortOrders} {name : String} {result : CascadeReplayResult}
    (hok : cascadeReplay checks contracts tables answers order name = .ok result)
    (hpassed : result.allGatesPassed = true) :
    EveryTableReplayed tables answers name result.results ↔
      Acyclic (buildDependencyDag tables).inputs name ∧
        ∀ n, Upstream (buildDependencyDag tables).inputs name n → ∀ t,
          findTable tables n = some t → (executedBatches answers t).isSome = true := by
  unfold cascadeReplay at hok
  split at hok
  swap
  · cases hok
  rename_i hexists
  cases hok
  dsimp only at hpassed ⊢
  have htarget : ∃ t, findTable tables name = some t := by
    rw [← Option.isSome_iff_exists]
    exact List.find?_isSome.mpr (List.any_eq_true.mp hexists)
  constructor
  · intro h
    constructor
    · obtain ⟨t, ht⟩ := htarget
      obtain ⟨r, hr, hname, -⟩ := h name Relation.ReflTransGen.refl t ht
      obtain ⟨u, hu, rfl⟩ := List.mem_map.mp hr
      obtain ⟨n, hn, hfind⟩ := List.mem_filterMap.mp hu
      have huname : u.tableName = n := tableName_of_findTable hfind
      have hsame : u.tableName = name := hname
      rw [← huname, hsame] at hn
      exact ((mem_topologicalSortUpstream_iff order).mp hn).2
    · intro n hn t ht
      obtain ⟨-, -, -, -, batches, hbatches, -⟩ := h n hn t ht
      rw [hbatches]
      rfl
  · rintro ⟨hacyclic, hexecuted⟩ n hn t ht
    have hname : t.tableName = n := tableName_of_findTable ht
    have hsorted : n ∈ topologicalSortUpstream order (buildDependencyDag tables) name := by
      refine (mem_topologicalSortUpstream_iff order).mpr ⟨hn, ?_⟩
      exact fun b hb => hacyclic b (hn.trans hb)
    have hmem := List.mem_map_of_mem (f := cascadeNode checks contracts answers)
      (List.mem_filterMap.mpr ⟨n, hsorted, ht⟩)
    obtain ⟨batches, hbatches⟩ := Option.isSome_iff_exists.mp (hexecuted n hn t ht)
    exact ⟨_, hmem, hname, statusOf_success_iff.mpr ⟨batches, hbatches⟩, batches, hbatches,
      List.all_eq_true.mp hpassed _ hmem⟩

end Runs

section RevenuePipeline

def passingChecks : Checks String ℕ where
  toServices := { failingServices with
    validateGates := fun gates _ => gates.map fun gate => ⟨gate, none, true, "1 rows, minimum 1"⟩ }
  fieldWithName _ _ := none
  toLowercase text := text

def storedOrder : SortOrders := ⟨⟨id, fun l => List.Perm.refl l⟩, ⟨id, fun l => List.Perm.refl l⟩⟩

def oneRow : String → EngineAnswer ℕ := fun _ => ⟨.ok [1], none⟩

def revenuePipeline : ExecutablePipeline where
  id := "9d2e"
  name := "daily revenue"
  stages := [⟨"revenue", [], true, false⟩]
  status := "created"
  lastRun := none
  totalRuns := 0

/-- Two tables that read from each other. -/
def tablesOnCycle : List (ExecutableTable String) :=
  [{ revenueTable with inputTables := ["margin"] },
    { revenueTable with tableName := "margin", inputTables := ["revenue"] }]

end RevenuePipeline
end RustLake.Scheduler

/-! The order in which all that is upstream of a table is run again. -/
namespace RustLake.Scheduler
open Dependency

variable {Gate : Type}

/-- A table that names each of its inputs once. -/
def withInputsOnce (t : ExecutableTable Gate) : ExecutableTable Gate :=
  { t with inputTables := firsts t.inputTables }

/-- An order has all that is upstream of a target once, each table behind its inputs, and the target
at its end. -/
structure SortsUpstream (tables : List (ExecutableTable Gate)) (target : String) (order : List String) :
    Prop where
  once : order.Nodup
  covers : ∀ name, name ∈ order ↔ Upstream (buildDependencyDag tables).inputs target name
  behind : Ordered (buildDependencyDag tables).inputs order
  last : order.getLast? = some target

section Inputs
variable {tables : List (ExecutableTable Gate)} {target : String}

theorem inputs_withInputsOnce (name : String) :
    (buildDependencyDag (tables.map withInputsOnce)).inputs name =
      (tables.filter fun t => t.tableName = name).flatMap fun t => firsts t.inputTables := by
  unfold buildDependencyDag
  dsimp only
  rw [List.filter_map, List.flatMap_map]
  rfl

theorem mem_inputs_withInputsOnce (name input : String) :
    input ∈ (buildDependencyDag tables).inputs name ↔
      input ∈ (buildDependencyDag (tables.map withInputsOnce)).inputs name := by
  rw [inputs_withInputsOnce]
  simp only [buildDependencyDag, List.mem_flatMap, mem_firsts]

/-- The searches visit the same tables. -/
theorem foldl_visit_inputs (name : String) (s : Search String) :
    ((buildDependencyDag tables).inputs name).foldl Search.visit s =
      ((buildDependencyDag (tables.map withInputsOnce)).inputs name).foldl Search.visit s := by
  rw [inputs_withInputsOnce]
  unfold buildDependencyDag
  simp only [List.foldl_flatMap, Search.foldl_visit_firsts]

theorem upstream_withInputsOnce {name : String}
    (h : Upstream (buildDependencyDag tables).inputs target name) :
    Upstream (buildDependencyDag (tables.map withInputsOnce)).inputs target name :=
  Relation.ReflTransGen.mono (fun a b hb => (mem_inputs_withInputsOnce a b).mp hb) _ _ h

theorem topologicalSortUpstream_withInputsOnce (orders : SortOrders) :
    topologicalSortUpstream orders (buildDependencyDag (tables.map withInputsOnce)) target =
      topologicalSortUpstream orders (buildDependencyDag tables) target := by
  have hall : ∀ a, Upstream (buildDependencyDag tables).inputs target a →
      a ∈ target :: (buildDependencyDag tables).names := fun a ha => mem_names_of_upstream ha
  have hall' : ∀ a, Upstream (buildDependencyDag tables).inputs target a →
      a ∈ target :: (buildDependencyDag (tables.map withInputsOnce)).names :=
    fun a ha => mem_names_of_upstream (upstream_withInputsOnce ha)
  have hfound := upstream_congr foldl_visit_inputs hall hall' (Nat.le_refl _) (Nat.le_refl _)
  obtain ⟨hnodup, -, -⟩ := sortedNodes orders tables target
  simp only [List.length_cons] at hfound
  unfold topologicalSortUpstream
  rw [← hfound]
  exact (sort_congr hnodup (orders.inDegree.perm _) mem_inputs_withInputsOnce).symm

end Inputs

section Diamond

def diamondTable (name : String) (inputTables : List String) : ExecutableTable String :=
  { revenueTable with tableName := name, inputTables := inputTables }

/-- The leaf names one of its inputs twice. -/
def diamond : List (ExecutableTable String) :=
  [diamondTable "root" [], diamondTable "left" ["root"], diamondTable "right" ["root"],
    diamondTable "leaf" ["left", "right", "left"]]

def listOrders : SortOrders := ⟨⟨id, List.Perm.refl⟩, ⟨id, List.Perm.refl⟩⟩

example : topologicalSortUpstream listOrders (buildDependencyDag diamond) "leaf" =
    ["root", "left", "right", "leaf"] := by decide +kernel

theorem acyclic_diamond (target : String) : Acyclic (buildDependencyDag diamond).inputs target := by
  let rank (name : String) : ℕ :=
    if name = "leaf" then 2 else if name = "left" then 1 else if name = "right" then 1 else 0
  have hrank : ∀ t ∈ diamond, ∀ input ∈ t.inputTables, rank input < rank t.tableName := by decide
  have hless : ∀ a, ∀ b ∈ (buildDependencyDag diamond).inputs a, rank b < rank a := by
    intro a b hb
    obtain ⟨t, ht, hinput⟩ := List.mem_flatMap.mp hb
    obtain ⟨ht, hname⟩ := List.mem_filter.mp ht
    rw [← of_decide_eq_true hname]
    exact hrank t ht b hinput
  exact acyclic_of_lt hless target

end Diamond
end RustLake.Scheduler
