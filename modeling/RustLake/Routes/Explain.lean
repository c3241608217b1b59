import Mathlib.Data.List.ReduceOption
import RustLake.Order.Outline
import RustLake.Persistence.JsonLines
import RustLake.Rust.Basic

/-! The nodes of a query plan, which `explain_sql` reads off the indented text of the plan. -/
namespace RustLake.Routes.Explain

open Outline Persistence

/-- A column of the batches that `EXPLAIN` returns. -/
inductive PlanColumn where
  | string (values : List (Option (List Char)))
  | largeString (values : List (Option (List Char)))
  | other

def PlanColumn.texts : PlanColumn → List (List Char)
  | .string values => values.reduceOption
  | .largeString values => values.reduceOption
  | .other => []

/-- The texts of the columns, one column after the other. -/
def batchesToText (batches : List (List PlanColumn)) : List Char :=
  List.intercalate ['\n'] (batches.flatMap fun batch => batch.flatMap PlanColumn.texts)

structure PlanNode where
  id : ℕ
  operator : List Char
  detail : List Char
  estimatedRows : Option ℕ
  parent : Option ℕ
  depth : ℕ
deriving DecidableEq

def isSeparator (c : Char) : Bool := c == ' ' || c == ':' || c == '(' || c == ','

/-- How deep a line is indented; two blanks are one level. -/
def depthLevel (line : List Char) : ℕ := (byteLength line - byteLength (trimStart line)) / 2

def parsePlanLine (nodes : List PlanNode) (line : List Char × ℕ) : List PlanNode :=
  let trimmed := trim line.1
  if trimmed.isEmpty then nodes
  else
    let depth := depthLevel line.1
    let operator := (trimmed.splitOnP isSeparator).head?.getD trimmed
    let parent :=
      if depth = 0 then none
      else nodes.zipIdx.reverse.findSome? fun n => if n.1.depth < depth then some n.2 else none
    nodes ++ [⟨line.2, operator, trimmed, none, parent, depth⟩]

def parsePlanNodes (planText : List Char) : List PlanNode :=
  (linesFrom [] planText).zipIdx.foldl parsePlanLine []

/-- What a node says of its place in the plan. -/
def PlanNode.toEntry (n : PlanNode) : Entry (List Char) := ⟨n.detail, n.depth, n.parent⟩

/-- The depth and the text of a line that is not blank. -/
def planLine (line : List Char) : Option (ℕ × List Char) :=
  if (trim line).isEmpty then none else some (depthLevel line, trim line)

def planLines (planText : List Char) : List (ℕ × List Char) :=
  (linesFrom [] planText).filterMap planLine

/-- A line of a plan as it is displayed. -/
def renderLine (line : ℕ × List Char) : List Char := List.replicate (2 * line.1) ' ' ++ line.2

/-- The text of a plan, with or without a line break at its end. -/
def renderPlan (plan : Forest (List Char)) (ends : Bool) : List Char :=
  List.intercalate ['\n'] (plan.flatten.map renderLine) ++ if ends then ['\n'] else []

/-- A text that stands on a line of its own and has no blanks around it. -/
structure IsLabel (label : List Char) : Prop where
  oneLine : '\n' ∉ label
  trimmed : trim label = label
  nonempty : label ≠ []

instance (label : List Char) : Decidable (IsLabel label) :=
  decidable_of_iff ('\n' ∉ label ∧ trim label = label ∧ label ≠ [])
    ⟨fun h => ⟨h.1, h.2.1, h.2.2⟩, fun h => ⟨h.oneLine, h.trimmed, h.nonempty⟩⟩

section
variable {nodes : List PlanNode} {line : List Char} {i : ℕ}

theorem toEntry_parsePlanLine :
    (parsePlanLine nodes (line, i)).map PlanNode.toEntry =
      link (nodes.map PlanNode.toEntry) (planLine line).toList := by
  have hparent : ∀ depth, (if depth = 0 then none
      else nodes.zipIdx.reverse.findSome? fun n => if n.1.depth < depth then some n.2 else none) =
      lastBelow depth ((nodes.map PlanNode.toEntry).map (·.depth)) := by
    intro depth
    have hdepths : (nodes.map PlanNode.toEntry).map (·.depth) = nodes.map (·.depth) := by
      rw [List.map_map]
      rfl
    rw [hdepths, lastBelow, List.zipIdx_map, ← List.map_reverse, List.findSome?_map]
    split_ifs with hzero
    · rw [hzero]
      symm
      apply List.findSome?_eq_none_iff.mpr
      intro n hn
      simp
    · rfl
  rw [parsePlanLine, planLine]
  by_cases hblank : (trim line).isEmpty = true
  · simp [hblank, link]
  · simp only [hblank, hparent]
    simp [link, PlanNode.toEntry]

theorem toEntry_foldl (nodes : List PlanNode) (lines : List (List Char)) (i : ℕ) :
    ((lines.zipIdx i).foldl parsePlanLine nodes).map PlanNode.toEntry =
      link (nodes.map PlanNode.toEntry) (lines.filterMap planLine) := by
  induction lines generalizing nodes i with
  | nil => rfl
  | cons line lines ih =>
    rw [List.zipIdx_cons, List.foldl_cons, ih, toEntry_parsePlanLine, ← link_append]
    congr 1
    cases h : planLine line <;> simp [h]

/-- The nodes of a plan are its lines, each under the nearest one before it that is less deep. -/
theorem toEntry_parsePlanNodes (planText : List Char) :
    (parsePlanNodes planText).map PlanNode.toEntry = link [] (planLines planText) :=
  toEntry_foldl [] (linesFrom [] planText) 0

/-- Which line a node comes from, and how many nodes come before it. -/
theorem line_of_node (lines : List (List Char)) {k : ℕ} {n : PlanNode}
    (h : (lines.zipIdx.foldl parsePlanLine [])[k]? = some n) :
    ∃ line, lines[n.id]? = some line ∧ planLine line = some (n.depth, n.detail) ∧
      ((lines.take n.id).filterMap planLine).length = k := by
  induction lines using List.reverseRecOn with
  | nil => simp at h
  | append_singleton lines line ih =>
    have hlength : (lines.zipIdx.foldl parsePlanLine []).length =
        (lines.filterMap planLine).length := by
      have hentries := congrArg List.length (toEntry_foldl [] lines 0)
      simpa [length_link] using hentries
    rw [List.zipIdx_append, List.foldl_append] at h
    simp only [List.zipIdx_singleton, List.foldl_cons, List.foldl_nil, Nat.zero_add] at h
    have hbefore : (lines.zipIdx.foldl parsePlanLine [])[k]? = some n →
        ∃ line', (lines ++ [line])[n.id]? = some line' ∧ planLine line' = some (n.depth, n.detail) ∧
          (((lines ++ [line]).take n.id).filterMap planLine).length = k := by
      intro hk
      obtain ⟨line', hline, hshape, hcount⟩ := ih hk
      have hid := (List.getElem?_eq_some_iff.mp hline).1
      refine ⟨line', ?_, hshape, ?_⟩
      · rw [List.getElem?_append_left hid]
        exact hline
      · rw [List.take_append_of_le_length hid.le]
        exact hcount
    by_cases hblank : (trim line).isEmpty = true
    · have hsame : parsePlanLine (lines.zipIdx.foldl parsePlanLine []) (line, lines.length) =
          lines.zipIdx.foldl parsePlanLine [] := by
        simp [parsePlanLine, hblank]
      rw [hsame] at h
      exact hbefore h
    · simp only [parsePlanLine, hblank] at h
      by_cases hk : k < (lines.zipIdx.foldl parsePlanLine []).length
      · rw [if_neg (by simp), List.getElem?_append_left hk] at h
        exact hbefore h
      · rw [if_neg (by simp), List.getElem?_append_right (by omega)] at h
        have hlast : k = (lines.zipIdx.foldl parsePlanLine []).length := by
          have hlt := (List.getElem?_eq_some_iff.mp h).1
          rw [List.length_singleton] at hlt
          omega
        rw [hlast, Nat.sub_self] at h
        have hnode := Option.some.inj h
        refine ⟨line, ?_, ?_, ?_⟩
        · simp [← hnode]
        · simp [← hnode, planLine, hblank]
        · simp [← hnode, hlast, hlength]

theorem length_trimEnd_le (s : List Char) : (trimEnd s).length ≤ s.length :=
  (List.rdropWhile_prefix _ s).length_le

theorem planLine_stripCarriageReturn (line : List Char) :
    planLine (stripCarriageReturn line) = planLine line := by
  rw [stripCarriageReturn]
  split_ifs with hlast
  · obtain ⟨before, rfl⟩ : ∃ before, line = before ++ ['\r'] := by
      obtain ⟨hne, hget⟩ := List.getLast?_eq_some_iff.mp hlast
      exact ⟨hne, hget⟩
    rw [List.dropLast_concat]
    have hblank : isWhitespace '\r' = true := by decide
    have hend : ∀ s : List Char, trimEnd (s ++ ['\r']) = trimEnd s := by
      intro s
      exact List.rdropWhile_concat_pos _ s '\r' hblank
    by_cases hall : trimStart before = []
    · have hstart : trimStart (before ++ ['\r']) = [] := by
        rw [trimStart, List.dropWhile_append, ← trimStart, hall]
        simp [hblank]
      simp [planLine, trim, hall, hstart, trimEnd]
    · have hstart : trimStart (before ++ ['\r']) = trimStart before ++ ['\r'] := by
        rw [trimStart, List.dropWhile_append, ← trimStart]
        simp [hall]
      have hbytes : depthLevel (before ++ ['\r']) = depthLevel before := by
        rw [depthLevel, depthLevel, hstart, byteLength_append, byteLength_append]
        congr 1
        omega
      have htrim : trim (before ++ ['\r']) = trim before := by rw [trim, trim, hstart, hend]
      rw [planLine, planLine, htrim, hbytes]
  · rfl

theorem filterMap_linesFrom_append (a b begun : List Char) :
    (linesFrom begun (a ++ '\n' :: b)).filterMap planLine =
      (linesFrom begun a).filterMap planLine ++ (linesFrom [] b).filterMap planLine := by
  induction a generalizing begun with
  | nil =>
    have hbreak : linesFrom begun ('\n' :: b) = stripCarriageReturn begun :: linesFrom [] b := by
      rw [linesFrom, if_pos rfl]
    rw [List.nil_append, hbreak, List.filterMap_cons, planLine_stripCarriageReturn, linesFrom]
    cases begun with
    | nil => rfl
    | cons c begun => cases h : planLine (c :: begun) <;> simp [h]
  | cons c a ih =>
    rw [List.cons_append, linesFrom, linesFrom]
    by_cases hc : c = '\n'
    · rw [if_pos hc, if_pos hc, List.filterMap_cons, List.filterMap_cons, ih]
      cases planLine (stripCarriageReturn begun) <;> rfl
    · rw [if_neg hc, if_neg hc, ih]

/-- The lines of texts that are joined are the lines of each of them, but for blank ones. -/
theorem planLines_append (a b : List Char) :
    planLines (a ++ '\n' :: b) = planLines a ++ planLines b := filterMap_linesFrom_append a b []

theorem planLines_intercalate (texts : List (List Char)) :
    planLines (List.intercalate ['\n'] texts) = texts.flatMap planLines := by
  induction texts with
  | nil => rfl
  | cons text texts ih =>
    cases texts with
    | nil => simp
    | cons next texts =>
      rw [List.intercalate_cons_cons, List.append_assoc, List.singleton_append, planLines_append, ih]
      rfl

theorem linesFrom_of_notMem {a : List Char} (ha : '\n' ∉ a) (begun : List Char) :
    linesFrom begun a = if (begun ++ a).isEmpty then [] else [begun ++ a] := by
  induction a generalizing begun with
  | nil => simp [linesFrom]
  | cons c a ih =>
    obtain ⟨hc, ha'⟩ := not_or.mp (List.mem_cons.not.mp ha)
    rw [linesFrom, if_neg (Ne.symm hc), ih ha', List.append_assoc, List.singleton_append]

theorem IsLabel.trimStart {label : List Char} (h : IsLabel label) : trimStart label = label := by
  have hsuffix : RustLake.trimStart label <:+ label := List.dropWhile_suffix _
  have hle := length_trimEnd_le (RustLake.trimStart label)
  have hlength := congrArg List.length h.trimmed
  rw [trim] at hlength
  exact hsuffix.eq_of_length_le (by omega)

/-- A line that is displayed is read with its depth and its text. -/
theorem planLines_renderLine (line : ℕ × List Char) (h : IsLabel line.2) :
    planLines (renderLine line) = [line] := by
  obtain ⟨depth, label⟩ := line
  have hlabel : IsLabel label := h
  have hbreak : '\n' ∉ renderLine (depth, label) := by
    simp [renderLine, hlabel.oneLine]
  have hblank : isWhitespace ' ' = true := by decide
  have hstart : trimStart (renderLine (depth, label)) = label := by
    rw [renderLine, RustLake.trimStart, List.dropWhile_append_of_pos, ← RustLake.trimStart,
      hlabel.trimStart]
    intro c hc
    rw [List.eq_of_mem_replicate hc]
    exact hblank
  have htrim : trim (renderLine (depth, label)) = label := by
    have htrimmed := hlabel.trimmed
    rw [trim, hlabel.trimStart] at htrimmed
    rw [trim, hstart, htrimmed]
  have hbytes : depthLevel (renderLine (depth, label)) = depth := by
    rw [depthLevel, hstart, renderLine, byteLength_append, byteLength_ascii]
    · simp
    · intro c hc
      rw [List.eq_of_mem_replicate hc]
      decide
  have hempty : (renderLine (depth, label)).isEmpty = false := by
    simp [renderLine, hlabel.nonempty]
  have hne : label.isEmpty = false := by simpa using hlabel.nonempty
  rw [planLines, linesFrom_of_notMem hbreak, List.nil_append, hempty]
  simp [planLine, htrim, hbytes, hne]

theorem planLines_renderPlan {plan : Forest (List Char)} {ends : Bool}
    (h : ∀ line ∈ plan.flatten, IsLabel line.2) :
    planLines (renderPlan plan ends) = plan.flatten := by
  have hbody : planLines (List.intercalate ['\n'] (plan.flatten.map renderLine)) = plan.flatten := by
    rw [planLines_intercalate, List.flatMap_map]
    have hlines : plan.flatten.flatMap (fun line => planLines (renderLine line)) =
        plan.flatten.flatMap fun line => [line] :=
      List.flatMap_congr fun line hline => planLines_renderLine line (h line hline)
    rw [hlines, List.flatMap_singleton']
  cases ends with
  | false => rw [renderPlan, if_neg Bool.false_ne_true, List.append_nil, hbody]
  | true =>
    rw [renderPlan, if_pos rfl, planLines_append, hbody]
    simp [planLines, linesFrom]

end

/-- The nodes of any text are those of a forest line by line: there is one for each line that is not
blank, with the number of that line, and its parent is where the node stands to whose tree it
belongs. -/
theorem parsePlanNodes_forest (planText : List Char) :
    (∃ plan : Forest (List Char), plan.Layered ∧ plan.flatten = planLines planText ∧
      (parsePlanNodes planText).map PlanNode.toEntry = plan.linked none 0) ∧
    ∀ (k : ℕ) (n : PlanNode), (parsePlanNodes planText)[k]? = some n →
      ∃ line, (linesFrom [] planText)[n.id]? = some line ∧
        planLine line = some (n.depth, n.detail) ∧
        (((linesFrom [] planText).take n.id).filterMap planLine).length = k := by
  constructor
  · obtain ⟨plan, hlayered, hflatten⟩ := Forest.exists_flatten_eq (planLines planText)
    refine ⟨plan, hlayered, hflatten, ?_⟩
    rw [toEntry_parsePlanNodes, ← hflatten, Forest.link_flatten hlayered]
    · rfl
    · intro line hline hle
      rfl
  · intro k n hn
    exact line_of_node (linesFrom [] planText) hn

/-- What `EXPLAIN` returns in one batch: the types of the plans, and the plans, each with or without
a line break at its end. -/
structure PlanBatch where
  planTypes : List (List Char)
  plans : List (Forest (List Char) × Bool)

def PlanBatch.columns (batch : PlanBatch) : List PlanColumn :=
  [.string (batch.planTypes.map some),
    .string (batch.plans.map fun plan => some (renderPlan plan.1 plan.2))]

/-- A root for every type of a plan, and then the plans. -/
def PlanBatch.forest (batch : PlanBatch) : Forest (List Char) :=
  batch.planTypes.foldr (fun planType rest => .node 0 planType .nil rest)
    (batch.plans.foldr (fun plan rest => plan.1.append rest) .nil)

structure PlanBatch.WellFormed (batch : PlanBatch) : Prop where
  planTypes : ∀ planType ∈ batch.planTypes, IsLabel planType
  uniform : ∀ plan ∈ batch.plans, plan.1.Uniform 0
  labels : ∀ plan ∈ batch.plans, ∀ line ∈ plan.1.flatten, IsLabel line.2

theorem texts_string {β : Type} (f : β → List Char) (l : List β) :
    PlanColumn.texts (.string (l.map fun b => some (f b))) = l.map f := by
  rw [PlanColumn.texts]
  induction l with
  | nil => rfl
  | cons b l ih => rw [List.map_cons, List.reduceOption_cons_of_some, ih, List.map_cons]

theorem flatten_planTypes (planTypes : List (List Char)) (later : Forest (List Char)) :
    (planTypes.foldr (fun planType rest => Forest.node 0 planType .nil rest) later).flatten =
      planTypes.map (fun planType => (0, planType)) ++ later.flatten := by
  induction planTypes with
  | nil => rfl
  | cons planType planTypes ih => simp [Forest.flatten, ih]

theorem uniform_planTypes (planTypes : List (List Char)) {later : Forest (List Char)}
    (h : later.Uniform 0) :
    (planTypes.foldr (fun planType rest => Forest.node 0 planType .nil rest) later).Uniform 0 := by
  induction planTypes with
  | nil => exact h
  | cons planType planTypes ih => exact ⟨rfl, trivial, ih⟩

/-- The forests of several batches, one after the other. -/
def planForest (batches : List PlanBatch) : Forest (List Char) :=
  batches.foldr (fun batch rest => batch.forest.append rest) .nil

section
variable {batch : PlanBatch} {batches : List PlanBatch}

theorem PlanBatch.WellFormed.uniform_forest (h : batch.WellFormed) : batch.forest.Uniform 0 := by
  have hplans : ∀ plans : List (Forest (List Char) × Bool), (∀ plan ∈ plans, plan.1.Uniform 0) →
      (plans.foldr (fun plan rest => plan.1.append rest) Forest.nil).Uniform 0 := by
    intro plans hall
    induction plans with
    | nil => trivial
    | cons plan plans ih =>
      obtain ⟨hplan, hrest⟩ := List.forall_mem_cons.mp hall
      exact hplan.append (ih hrest)
  exact uniform_planTypes batch.planTypes (hplans batch.plans h.uniform)

theorem PlanBatch.WellFormed.flatMap_planLines (h : batch.WellFormed) :
    (batch.columns.flatMap PlanColumn.texts).flatMap planLines = batch.forest.flatten := by
  have htypes : batch.planTypes.flatMap planLines =
      batch.planTypes.map fun planType => (0, planType) := by
    have hline : ∀ planType ∈ batch.planTypes, planLines planType = [(0, planType)] := by
      intro planType hmem
      have hlabel := h.planTypes planType hmem
      have hrender := planLines_renderLine (0, planType) hlabel
      simpa [renderLine] using hrender
    rw [List.flatMap_congr hline, ← List.map_eq_flatMap]
  have hplans : ∀ plans : List (Forest (List Char) × Bool),
      (∀ plan ∈ plans, ∀ line ∈ plan.1.flatten, IsLabel line.2) →
      (plans.map fun plan => renderPlan plan.1 plan.2).flatMap planLines =
        (plans.foldr (fun plan rest => plan.1.append rest) Forest.nil).flatten := by
    intro plans hall
    induction plans with
    | nil => rfl
    | cons plan plans ih =>
      obtain ⟨hplan, hrest⟩ := List.forall_mem_cons.mp hall
      simp [planLines_renderPlan hplan, ih hrest]
  have hcolumns : batch.columns.flatMap PlanColumn.texts =
      batch.planTypes ++ batch.plans.map fun plan => renderPlan plan.1 plan.2 := by
    have hplans := texts_string (fun plan => renderPlan plan.1 plan.2) batch.plans
    have htypes := texts_string (fun planType => planType) batch.planTypes
    rw [PlanBatch.columns, List.flatMap_cons, List.flatMap_singleton, hplans, htypes, List.map_id']
  rw [hcolumns, List.flatMap_append, htypes, hplans batch.plans h.labels, PlanBatch.forest,
    flatten_planTypes]

end

/-- Each plan that `EXPLAIN` displays comes back with its own tree, after a root for each type of a
plan: nothing of one plan is put under another. -/
theorem explain_keeps_plans (batches : List PlanBatch) (h : ∀ batch ∈ batches, batch.WellFormed) :
    (parsePlanNodes (batchesToText (batches.map PlanBatch.columns))).map PlanNode.toEntry =
      (planForest batches).linked none 0 := by
  have huniform : (planForest batches).Uniform 0 := by
    induction batches with
    | nil => trivial
    | cons batch batches ih =>
      obtain ⟨hbatch, hrest⟩ := List.forall_mem_cons.mp h
      exact hbatch.uniform_forest.append (ih hrest)
  have hlines : planLines (batchesToText (batches.map PlanBatch.columns)) =
      (planForest batches).flatten := by
    rw [batchesToText, planLines_intercalate]
    clear huniform
    induction batches with
    | nil => rfl
    | cons batch batches ih =>
      obtain ⟨hbatch, hrest⟩ := List.forall_mem_cons.mp h
      rw [List.map_cons, List.flatMap_cons, List.flatMap_append, hbatch.flatMap_planLines, ih hrest,
        planForest, planForest, List.foldr_cons, Forest.flatten_append]
  rw [toEntry_parsePlanNodes, hlines, Forest.link_flatten huniform.layered]
  · rfl
  · intro line hline hle
    rfl

/-- The logical plan and the physical plan of a query with a filter. -/
def filterBatch : PlanBatch where
  planTypes := ["logical_plan".toList, "physical_plan".toList]
  plans :=
    [(.node 0 "Filter: t.a > Int64(1)".toList (.node 1 "TableScan: t".toList .nil .nil) .nil, false),
      (.node 0 "FilterExec: a@0 > 1".toList
        (.node 1 "DataSourceExec: partitions=1".toList .nil .nil) .nil, true)]

theorem explain_keeps_plans_filter :
    (parsePlanNodes (batchesToText ([filterBatch].map PlanBatch.columns))).map PlanNode.toEntry =
      (planForest [filterBatch]).linked none 0 := by
  apply explain_keeps_plans
  intro batch hbatch
  rw [List.mem_singleton.mp hbatch]
  have huniform : ∀ plan ∈ filterBatch.plans, plan.1.Uniform 0 := by
    simp [filterBatch, Forest.Uniform]
  exact ⟨by decide, huniform, by decide⟩

end RustLake.Routes.Explain
