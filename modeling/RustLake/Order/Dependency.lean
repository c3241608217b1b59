import Mathlib.Data.Set.Finite.Basic
import Mathlib.Order.WellFounded

/-! Graphs in which each node depends on a list of nodes: all that a node depends on, found breadth
first, and Kahn's order, in which nodes come after those that they depend on. -/
namespace RustLake.Dependency

variable {α : Type}

/-- A node, or what it depends on over any number of steps. -/
def Upstream (deps : α → List α) : α → α → Prop := Relation.ReflTransGen fun a b => b ∈ deps a

/-- What a node depends on over at least one step. -/
def DependsOn (deps : α → List α) : α → α → Prop := Relation.TransGen fun a b => b ∈ deps a

/-- Nothing upstream of the node depends on itself. -/
def Acyclic (deps : α → List α) (a : α) : Prop := ∀ b, Upstream deps a b → ¬ DependsOn deps b b

section Searches
variable [DecidableEq α] (deps : α → List α)

structure Search (α : Type) where
  seen : List α
  queue : List α

def Search.visit (s : Search α) (dep : α) : Search α :=
  if dep ∈ s.seen then s else ⟨s.seen ++ [dep], s.queue ++ [dep]⟩

def Search.run : ℕ → Search α → Search α
  | 0, s => s
  | fuel + 1, s =>
    match s.queue with
    | [] => s
    | node :: queue => Search.run fuel ((deps node).foldl Search.visit ⟨s.seen, queue⟩)

/-- The nodes upstream of a node, in the order in which they are found. -/
def upstream (fuel : ℕ) (target : α) : List α := (Search.run deps fuel ⟨[target], [target]⟩).seen

/-- The nodes seen are those taken from the queue and those in it. -/
structure Search.Sound (target : α) (taken : List α) (s : Search α) : Prop where
  seen : s.seen = taken ++ s.queue
  nodup : s.seen.Nodup
  start : target ∈ s.seen
  reached : ∀ a ∈ s.seen, Upstream deps target a
  closed : ∀ a ∈ taken, ∀ b ∈ deps a, b ∈ s.seen

variable {deps} {target : α} {taken : List α} {s : Search α}

theorem Search.foldl_visit (l : List α) (s : Search α) (hnodup : s.seen.Nodup) :
    ∃ added, (l.foldl Search.visit s).seen = s.seen ++ added ∧
      (l.foldl Search.visit s).queue = s.queue ++ added ∧ (s.seen ++ added).Nodup ∧
      (∀ a ∈ added, a ∈ l) ∧ ∀ a ∈ l, a ∈ s.seen ++ added := by
  induction l generalizing s with
  | nil => exact ⟨[], by simp [hnodup]⟩
  | cons dep rest ih =>
    rw [List.foldl_cons]
    by_cases hseen : dep ∈ s.seen
    · have hvisit : s.visit dep = s := if_pos hseen
      rw [hvisit]
      obtain ⟨added, hs, hq, hn, hsub, hall⟩ := ih s hnodup
      refine ⟨added, hs, hq, hn, fun a ha => List.mem_cons_of_mem _ (hsub a ha), ?_⟩
      intro a ha
      rcases List.mem_cons.mp ha with rfl | ha
      · exact List.mem_append_left _ hseen
      · exact hall a ha
    · have hvisit : s.visit dep = ⟨s.seen ++ [dep], s.queue ++ [dep]⟩ := if_neg hseen
      rw [hvisit]
      have hnodup' : (s.seen ++ [dep]).Nodup := by
        rw [List.nodup_append_comm, List.singleton_append]
        exact List.nodup_cons.mpr ⟨hseen, hnodup⟩
      obtain ⟨added, hs, hq, hn, hsub, hall⟩ := ih ⟨s.seen ++ [dep], s.queue ++ [dep]⟩ hnodup'
      refine ⟨dep :: added, ?_, ?_, ?_, ?_, ?_⟩
      · rw [hs, List.append_assoc, List.singleton_append]
      · rw [hq, List.append_assoc, List.singleton_append]
      · rwa [List.append_assoc, List.singleton_append] at hn
      · intro a ha
        rcases List.mem_cons.mp ha with rfl | ha
        · exact List.mem_cons_self
        · exact List.mem_cons_of_mem _ (hsub a ha)
      · intro a ha
        rcases List.mem_cons.mp ha with rfl | ha
        · exact List.mem_append_right _ List.mem_cons_self
        · have hmem := hall a ha
          rwa [List.append_assoc, List.singleton_append] at hmem

omit [DecidableEq α] in
theorem Search.Sound.start_sound :
    Search.Sound deps target [] ⟨[target], [target]⟩ where
  seen := rfl
  nodup := List.nodup_singleton _
  start := List.mem_singleton_self _
  reached a ha := by
    rw [List.mem_singleton.mp ha]
    exact Relation.ReflTransGen.refl
  closed a ha := absurd ha List.not_mem_nil

/-- A step takes the first node of the queue. -/
theorem Search.Sound.step (h : Search.Sound deps target taken s) {node : α} {queue : List α}
    (hqueue : s.queue = node :: queue) :
    Search.Sound deps target (taken ++ [node]) ((deps node).foldl Search.visit ⟨s.seen, queue⟩) := by
  obtain ⟨added, hs, hq, hn, hsub, hall⟩ := Search.foldl_visit (deps node) ⟨s.seen, queue⟩ h.nodup
  have hnode : node ∈ s.seen := by
    rw [h.seen, hqueue]
    exact List.mem_append_right _ List.mem_cons_self
  constructor
  · rw [hs, hq]
    simp [h.seen, hqueue]
  · rw [hs]
    exact hn
  · rw [hs]
    exact List.mem_append_left _ h.start
  · rw [hs]
    intro a ha
    rcases List.mem_append.mp ha with hold | hnew
    · exact h.reached a hold
    · exact (h.reached node hnode).tail (hsub a hnew)
  · rw [hs]
    intro a ha b hb
    rcases List.mem_append.mp ha with hold | hnew
    · exact List.mem_append_left _ (h.closed a hold b hb)
    · rw [List.mem_singleton.mp hnew] at hb
      exact hall b hb

/-- With fuel for all nodes the queue is empty at the end. -/
theorem Search.Sound.run {all : List α} (hall : ∀ a, Upstream deps target a → a ∈ all) {fuel : ℕ}
    (h : Search.Sound deps target taken s) (hfuel : all.length ≤ taken.length + fuel) :
    ∃ taken', Search.Sound deps target taken' (Search.run deps fuel s) ∧
      (Search.run deps fuel s).queue = [] := by
  induction fuel generalizing taken s with
  | zero =>
    refine ⟨taken, h, ?_⟩
    have hsub : s.seen ⊆ all := fun a ha => hall a (h.reached a ha)
    have hlength := (List.subperm_of_subset h.nodup hsub).length_le
    rw [h.seen, List.length_append] at hlength
    have hempty : s.queue.length = 0 := by omega
    exact List.length_eq_zero_iff.mp hempty
  | succ fuel ih =>
    unfold Search.run
    split
    · rename_i hqueue
      exact ⟨taken, h, hqueue⟩
    · rename_i node queue hqueue
      apply ih (h.step hqueue)
      rw [List.length_append, List.length_singleton]
      omega

omit [DecidableEq α] in
theorem Search.Sound.mem_iff (h : Search.Sound deps target taken s) (hqueue : s.queue = []) {a : α} :
    a ∈ s.seen ↔ Upstream deps target a := by
  constructor
  · exact h.reached a
  · intro hupstream
    have hseen : s.seen = taken := by rw [h.seen, hqueue, List.append_nil]
    induction hupstream with
    | refl => exact h.start
    | tail _ hdep ih =>
      rw [hseen] at ih
      exact h.closed _ ih _ hdep

theorem search_sound {all : List α} (hall : ∀ a, Upstream deps target a → a ∈ all) {fuel : ℕ}
    (hfuel : all.length ≤ fuel) :
    ∃ taken, Search.Sound deps target taken (Search.run deps fuel ⟨[target], [target]⟩) ∧
      (Search.run deps fuel ⟨[target], [target]⟩).queue = [] := by
  apply Search.Sound.start_sound.run hall
  rw [List.length_nil, Nat.zero_add]
  exact hfuel

theorem nodup_upstream {all : List α} (hall : ∀ a, Upstream deps target a → a ∈ all) {fuel : ℕ}
    (hfuel : all.length ≤ fuel) : (upstream deps fuel target).Nodup := by
  obtain ⟨taken, hsound, -⟩ := search_sound hall hfuel
  exact hsound.nodup

theorem mem_upstream_iff {all : List α} (hall : ∀ a, Upstream deps target a → a ∈ all) {fuel : ℕ}
    (hfuel : all.length ≤ fuel) {a : α} : a ∈ upstream deps fuel target ↔ Upstream deps target a := by
  obtain ⟨taken, hsound, hqueue⟩ := search_sound hall hfuel
  exact hsound.mem_iff hqueue

end Searches

section Precedence
variable {R : α → α → Prop}

/-- In a list the elements that are related to an element come before it. -/
def Precedes (R : α → α → Prop) (l : List α) : Prop :=
  ∀ before a after, l = before ++ a :: after → ∀ b, R a b → b ∈ before

/-- In a list each element comes after what it depends on. -/
abbrev Ordered (deps : α → List α) : List α → Prop := Precedes fun a b => b ∈ deps a

theorem Precedes.concat {l : List α} (h : Precedes R l) {a : α} (ha : ∀ b, R a b → b ∈ l) :
    Precedes R (l ++ [a]) := by
  intro before c after heq b hb
  rcases List.eq_nil_or_concat after with rfl | ⟨after, last, rfl⟩
  · obtain ⟨rfl, hlast⟩ := List.append_inj' heq rfl
    rw [← List.singleton_inj.mp hlast] at hb
    exact ha b hb
  · have hsplit : l ++ [a] = (before ++ c :: after) ++ [last] := by simpa using heq
    exact h before c after (List.append_inj' hsplit rfl).1 b hb

end Precedence

section Sorting
variable [DecidableEq α] (deps : α → List α)

/-- How many dependencies each node still has, the nodes without any, and those in order so far. -/
structure Sorting (α : Type) where
  inDegree : α → ℕ
  queue : List α
  result : List α

def Sorting.release (s : Sorting α) (dependent : α) : Sorting α :=
  let deg := s.inDegree dependent - 1
  { s with
    inDegree := Function.update s.inDegree dependent deg
    queue := if deg = 0 then s.queue ++ [dependent] else s.queue }

/-- Kahn's algorithm, given the dependents of each node. -/
def Sorting.run (reverseEdges : α → List α) : ℕ → Sorting α → Sorting α
  | 0, s => s
  | fuel + 1, s =>
    match s.queue with
    | [] => s
    | node :: queue => Sorting.run reverseEdges fuel
        ((reverseEdges node).foldl Sorting.release ⟨s.inDegree, queue, s.result ++ [node]⟩)

/-- The nodes that depend on a node, once for each time that they do. -/
def dependents (nodes : List α) (dep : α) : List α :=
  nodes.flatMap fun node => (deps node).filterMap fun d => if d = dep then some node else none

/-- The order of the nodes, which come from two iterations over the same nodes. -/
def sort (nodes byDegree : List α) : List α :=
  let inDegree node := (deps node).length
  (Sorting.run (dependents deps nodes) nodes.length
    ⟨inDegree, byDegree.filter fun node => inDegree node = 0, []⟩).result

/-- The degrees count the dependencies that are not in the result. -/
structure Sorting.Sound (nodes : List α) (s : Sorting α) : Prop where
  nodup : (s.result ++ s.queue).Nodup
  degree : ∀ a ∈ nodes, s.inDegree a = (deps a).countP fun b => b ∉ s.result
  ready : ∀ a, a ∈ s.result ++ s.queue ↔ a ∈ nodes ∧ s.inDegree a = 0
  ordered : Ordered deps s.result

variable {deps} {nodes byDegree : List α} {s : Sorting α}

theorem count_dependents (hnodes : nodes.Nodup) {a dep : α} :
    (dependents deps nodes dep).count a = if a ∈ nodes then (deps a).count dep else 0 := by
  induction nodes with
  | nil => rfl
  | cons node rest ih =>
    have hrest := ih (List.nodup_cons.mp hnodes).2
    have hfirst : ((deps node).filterMap fun d => if d = dep then some node else none).count a =
        if node = a then (deps node).count dep else 0 := by
      induction deps node with
      | nil => simp
      | cons d ds ihd => grind
    unfold dependents at hrest ⊢
    rw [List.flatMap_cons, List.count_append, hfirst, hrest]
    have hnew := (List.nodup_cons.mp hnodes).1
    grind

theorem Sorting.result_foldl_release (l : List α) (s : Sorting α) :
    (l.foldl Sorting.release s).result = s.result := by
  induction l generalizing s with
  | nil => rfl
  | cons dep rest ih => exact ih (s.release dep)

/-- Releasing dependents one by one counts them down and puts those without dependencies in the
queue. -/
theorem Sorting.foldl_release (l : List α) (s : Sorting α) (hcount : ∀ a, l.count a ≤ s.inDegree a) :
    ∃ added, (l.foldl Sorting.release s).queue = s.queue ++ added ∧
      (∀ a, (l.foldl Sorting.release s).inDegree a = s.inDegree a - l.count a) ∧ added.Nodup ∧
      ∀ a, a ∈ added ↔ a ∈ l ∧ s.inDegree a = l.count a := by
  induction l generalizing s with
  | nil => exact ⟨[], by simp⟩
  | cons dep rest ih =>
    rw [List.foldl_cons]
    have hcount' : ∀ a, rest.count a ≤ (s.release dep).inDegree a := by
      intro a
      have ha := hcount a
      unfold Sorting.release
      by_cases heq : a = dep
      · subst heq
        rw [List.count_cons_self] at ha
        simp only [Function.update_self]
        omega
      · rw [List.count_cons_of_ne (Ne.symm heq)] at ha
        simpa only [Function.update_of_ne heq] using ha
    obtain ⟨added, hq, hd, hn, hmem⟩ := ih (s.release dep) hcount'
    have hdep := hcount dep
    rw [List.count_cons_self] at hdep
    have hdegree : ∀ a, (s.release dep).inDegree a = if a = dep then s.inDegree dep - 1
        else s.inDegree a := fun a => Function.update_apply _ _ _ _
    by_cases hlast : s.inDegree dep - 1 = 0
    · have hqueue : (s.release dep).queue = s.queue ++ [dep] := if_pos hlast
      have hnone : dep ∉ rest := by
        rw [← List.count_eq_zero]
        omega
      refine ⟨dep :: added, ?_, ?_, ?_, ?_⟩
      · rw [hq, hqueue, List.append_assoc, List.singleton_append]
      · intro a
        rw [hd a, hdegree a]
        grind
      · rw [List.nodup_cons]
        exact ⟨fun hadded => hnone ((hmem dep).mp hadded).1, hn⟩
      · intro a
        rw [List.mem_cons, hmem a, hdegree a]
        grind
    · have hqueue : (s.release dep).queue = s.queue := if_neg hlast
      refine ⟨added, ?_, ?_, hn, ?_⟩
      · rw [hq, hqueue]
      · intro a
        rw [hd a, hdegree a]
        grind
      · intro a
        rw [hmem a, hdegree a]
        grind

theorem countP_notMem_append {l result : List α} {node : α} (hnode : node ∉ result) :
    l.countP (fun b => b ∉ result ++ [node]) = l.countP (fun b => b ∉ result) - l.count node := by
  induction l with
  | nil => rfl
  | cons b rest ih =>
    have hle : rest.count node ≤ rest.countP fun b => b ∉ result := by
      rw [List.count]
      apply List.countP_mono_left
      intro c _ hc
      have hsame : c = node := by simpa using hc
      simpa [hsame] using hnode
    rw [List.countP_cons, List.countP_cons, List.count_cons, ih]
    by_cases hb : b = node
    · have hout : node ∉ result := hnode
      have hlast : node ∈ result ++ [node] := List.mem_append_right _ (List.mem_singleton_self _)
      simp [hb, hout, hlast]
    · have hsame : b ∈ result ++ [node] ↔ b ∈ result := by simp [hb]
      simp only [hsame, hb, beq_iff_eq, if_false]
      omega

/-- A step puts a node without dependencies behind the result. -/
theorem Sorting.Sound.step (hnodes : nodes.Nodup) (h : Sorting.Sound deps nodes s) {node : α}
    {queue : List α} (hqueue : s.queue = node :: queue) :
    Sorting.Sound deps nodes ((dependents deps nodes node).foldl Sorting.release
      ⟨s.inDegree, queue, s.result ++ [node]⟩) := by
  have hready := (h.ready node).mp (by rw [hqueue]; simp)
  have hnodup := h.nodup
  rw [hqueue, List.append_cons] at hnodup
  have hfresh : node ∉ s.result := by
    have hfirst := List.Nodup.of_append_left hnodup
    rw [List.nodup_append_comm, List.singleton_append] at hfirst
    exact (List.nodup_cons.mp hfirst).1
  have hle : ∀ a ∈ nodes, (deps a).count node ≤ s.inDegree a := by
    intro a ha
    rw [h.degree a ha, List.count]
    apply List.countP_mono_left
    intro b _ hb
    have hsame : b = node := by simpa using hb
    simpa [hsame] using hfresh
  have hcount : ∀ a, (dependents deps nodes node).count a ≤ s.inDegree a := by
    intro a
    rw [count_dependents hnodes]
    split
    · exact hle a ‹_›
    · exact Nat.zero_le _
  have hr := Sorting.result_foldl_release (dependents deps nodes node)
    ⟨s.inDegree, queue, s.result ++ [node]⟩
  obtain ⟨added, hq, hd, hn, hmem⟩ :=
    Sorting.foldl_release (dependents deps nodes node) ⟨s.inDegree, queue, s.result ++ [node]⟩ hcount
  have hadded : ∀ a ∈ added, a ∈ nodes ∧ 0 < s.inDegree a := by
    intro a ha
    obtain ⟨hdependent, hdegree⟩ := (hmem a).mp ha
    have hpos := List.count_pos_iff.mpr hdependent
    have hnode : a ∈ nodes := by
      by_contra hnot
      rw [count_dependents hnodes, if_neg hnot] at hpos
      omega
    have hsame : s.inDegree a = (dependents deps nodes node).count a := hdegree
    refine ⟨hnode, ?_⟩
    omega
  have hold : ∀ a, a ∈ s.result ++ [node] ++ queue ↔ a ∈ nodes ∧ s.inDegree a = 0 := by
    intro a
    rw [← h.ready a, hqueue, ← List.append_cons]
  constructor
  · rw [hq, hr, ← List.append_assoc, List.nodup_append]
    refine ⟨hnodup, hn, ?_⟩
    intro a ha b hb hsame
    have hzero := ((hold a).mp ha).2
    have hpos := (hadded b hb).2
    rw [hsame] at hzero
    omega
  · intro a ha
    rw [hd, hr, count_dependents hnodes, if_pos ha, countP_notMem_append hfresh]
    exact congrArg (· - (deps a).count node) (h.degree a ha)
  · intro a
    rw [hq, hr, ← List.append_assoc, List.mem_append, hold a, hmem a, hd a]
    constructor
    · rintro (⟨ha, hzero⟩ | ⟨ha, hsame⟩)
      · exact ⟨ha, by simp [hzero]⟩
      · exact ⟨(hadded a ((hmem a).mpr ⟨ha, hsame⟩)).1, by rw [hsame]; exact Nat.sub_self _⟩
    · rintro ⟨ha, hdone⟩
      by_cases hzero : s.inDegree a = 0
      · exact Or.inl ⟨ha, hzero⟩
      · right
        have hbound := hcount a
        have hleft : s.inDegree a - (dependents deps nodes node).count a = 0 := hdone
        have hpos : 0 < (dependents deps nodes node).count a := by omega
        refine ⟨List.count_pos_iff.mp hpos, ?_⟩
        change s.inDegree a = (dependents deps nodes node).count a
        omega
  · rw [hr]
    apply h.ordered.concat
    intro b hb
    by_contra hnot
    have hzero := h.degree node hready.1
    rw [hready.2] at hzero
    have hnone := List.countP_eq_zero.mp hzero.symm b hb
    exact hnone (by simpa using hnot)

theorem Sorting.Sound.run (hnodes : nodes.Nodup) (h : Sorting.Sound deps nodes s) {fuel : ℕ}
    (hfuel : nodes.length ≤ s.result.length + fuel) :
    Sorting.Sound deps nodes (Sorting.run (dependents deps nodes) fuel s) ∧
      (Sorting.run (dependents deps nodes) fuel s).queue = [] := by
  induction fuel generalizing s with
  | zero =>
    refine ⟨h, ?_⟩
    have hsub : s.result ++ s.queue ⊆ nodes := fun a ha => ((h.ready a).mp ha).1
    have hlength := (List.subperm_of_subset h.nodup hsub).length_le
    rw [List.length_append] at hlength
    have hempty : s.queue.length = 0 := by omega
    exact List.length_eq_zero_iff.mp hempty
  | succ fuel ih =>
    unfold Sorting.run
    split
    · rename_i hqueue
      exact ⟨h, hqueue⟩
    · rename_i node queue hqueue
      apply ih (h.step hnodes hqueue)
      rw [Sorting.result_foldl_release, List.length_append, List.length_singleton]
      omega

/-- Before the first step the queue has the nodes without dependencies. -/
theorem Sorting.sound_start (hnodes : nodes.Nodup) (hperm : byDegree.Perm nodes) :
    Sorting.Sound deps nodes ⟨fun node => (deps node).length,
      byDegree.filter fun node => (deps node).length = 0, []⟩ := by
  constructor
  · rw [List.nil_append]
    exact (hperm.nodup_iff.mpr hnodes).filter _
  · intro a _
    simp
  · intro a
    rw [List.nil_append, List.mem_filter, hperm.mem_iff, decide_eq_true_iff]
  · intro before a after h
    cases before <;> cases h

theorem sort_sound (hnodes : nodes.Nodup) (hperm : byDegree.Perm nodes) :
    ∃ s, Sorting.Sound deps nodes s ∧ s.queue = [] ∧ sort deps nodes byDegree = s.result := by
  have hstart : Sorting.Sound deps nodes _ := Sorting.sound_start hnodes hperm
  have hfuel : nodes.length ≤ ([] : List α).length + nodes.length := Nat.le_add_left _ _
  have hrun := hstart.run hnodes hfuel
  exact ⟨_, hrun.1, hrun.2, rfl⟩

theorem nodup_sort (hnodes : nodes.Nodup) (hperm : byDegree.Perm nodes) :
    (sort deps nodes byDegree).Nodup := by
  obtain ⟨s, hsound, hqueue, hresult⟩ : ∃ s, Sorting.Sound deps nodes s ∧ _ :=
    sort_sound hnodes hperm
  have hnodup := hsound.nodup
  rw [hqueue, List.append_nil] at hnodup
  rw [hresult]
  exact hnodup

theorem ordered_sort (hnodes : nodes.Nodup) (hperm : byDegree.Perm nodes) :
    Ordered deps (sort deps nodes byDegree) := by
  obtain ⟨s, hsound, -, hresult⟩ : ∃ s, Sorting.Sound deps nodes s ∧ _ := sort_sound hnodes hperm
  rw [hresult]
  exact hsound.ordered

theorem sort_subset (hnodes : nodes.Nodup) (hperm : byDegree.Perm nodes) :
    sort deps nodes byDegree ⊆ nodes := by
  obtain ⟨s, hsound, -, hresult⟩ : ∃ s, Sorting.Sound deps nodes s ∧ _ := sort_sound hnodes hperm
  rw [hresult]
  exact fun a ha => ((hsound.ready a).mp (List.mem_append_left _ ha)).1

omit [DecidableEq α] in
/-- What stands in an ordered list depends on nothing without end. -/
theorem Ordered.acc {l : List α} (h : Ordered deps l) {a : α} (ha : a ∈ l) :
    Acc (fun b c => b ∈ deps c) a := by
  obtain ⟨before, after, heq⟩ := List.append_of_mem ha
  induction hlength : before.length using Nat.strong_induction_on generalizing a before after with
  | _ n ih =>
    constructor
    intro b hb
    have hbefore := h before a after heq b hb
    obtain ⟨before', after', hsplit⟩ := List.append_of_mem hbefore
    have hshorter : before'.length < n := by
      rw [← hlength, hsplit, List.length_append, List.length_cons]
      omega
    have heq' : l = before' ++ b :: (after' ++ a :: after) := by
      rw [heq, hsplit, List.append_assoc, List.cons_append]
    exact ih _ hshorter (heq' ▸ List.mem_append_right _ List.mem_cons_self) before' _ heq' rfl

/-- The order has exactly the nodes that depend on nothing without end. -/
theorem mem_sort_iff (hnodes : nodes.Nodup) (hperm : byDegree.Perm nodes)
    (hclosed : ∀ a ∈ nodes, ∀ b ∈ deps a, b ∈ nodes) {a : α} (ha : a ∈ nodes) :
    a ∈ sort deps nodes byDegree ↔ Acc (fun b c => b ∈ deps c) a := by
  constructor
  · exact (ordered_sort hnodes hperm).acc
  · intro hacc
    obtain ⟨s, hsound, hqueue, hresult⟩ : ∃ s, Sorting.Sound deps nodes s ∧ _ :=
      sort_sound hnodes hperm
    rw [hresult]
    induction hacc with
    | intro a _ ih =>
      have hdegree : s.inDegree a = 0 := by
        rw [hsound.degree a ha, List.countP_eq_zero]
        intro b hb
        simpa using ih b hb (hclosed a ha b hb)
      have hmem := (hsound.ready a).mpr ⟨ha, hdegree⟩
      rwa [hqueue, List.append_nil] at hmem

end Sorting

section Merging
variable {R : α → α → Prop} {keep : α → Prop}

/-- In an ordered list all that an element depends on comes before it. -/
theorem Ordered.precedes {deps : α → List α} {l : List α} (h : Ordered deps l) :
    Precedes (DependsOn deps) l := by
  intro before a after heq b hb
  induction hb with
  | single hdep => exact h before a after heq _ hdep
  | tail _ hdep ih =>
    obtain ⟨before', after', hsplit⟩ := List.append_of_mem ih
    rw [hsplit, List.append_assoc, List.cons_append] at heq
    have hmem := h before' _ _ heq _ hdep
    rw [hsplit]
    exact List.mem_append_left _ hmem

variable [DecidableEq α] [DecidablePred keep]

/-- The elements of a list that are kept and not yet there are added one by one. -/
def merge (keep : α → Prop) [DecidablePred keep] (acc l : List α) : List α :=
  l.foldl (fun acc a => if keep a ∧ a ∉ acc then acc ++ [a] else acc) acc

theorem merge_cons (acc : List α) (a : α) (l : List α) :
    merge keep acc (a :: l) = merge keep (if keep a ∧ a ∉ acc then acc ++ [a] else acc) l := rfl

theorem mem_merge_iff {acc l : List α} {a : α} :
    a ∈ merge keep acc l ↔ a ∈ acc ∨ keep a ∧ a ∈ l := by
  induction l generalizing acc with
  | nil => simp [merge]
  | cons b rest ih =>
    rw [merge_cons, ih]
    split
    · grind
    · grind

/-- Merging keeps the order of the elements that are kept. -/
theorem precedes_merge {acc l : List α} (hacc : Precedes (fun a b => R a b ∧ keep b) acc)
    (hl : Precedes R l) : Precedes (fun a b => R a b ∧ keep b) (merge keep acc l) := by
  have hrest : ∀ done todo acc, done ++ todo = l → (∀ a ∈ done, keep a → a ∈ acc) →
      Precedes (fun a b => R a b ∧ keep b) acc →
      Precedes (fun a b => R a b ∧ keep b) (merge keep acc todo) := by
    intro done todo
    induction todo generalizing done with
    | nil => exact fun acc _ _ hacc => hacc
    | cons a rest ih =>
      intro acc heq hdone hacc
      rw [merge_cons]
      have heq' : (done ++ [a]) ++ rest = l := by rw [← List.append_cons, heq]
      split
      · apply ih (done ++ [a]) _ heq'
        · intro b hb hkeep
          rcases List.mem_append.mp hb with hold | hnew
          · exact List.mem_append_left _ (hdone b hold hkeep)
          · exact List.mem_append_right _ hnew
        · apply hacc.concat
          rintro b ⟨hb, hkeep⟩
          exact hdone b (hl done a rest heq.symm b hb) hkeep
      · rename_i hnot
        apply ih (done ++ [a]) _ heq' ?_ hacc
        intro b hb hkeep
        rcases List.mem_append.mp hb with hold | hnew
        · exact hdone b hold hkeep
        · rw [List.mem_singleton.mp hnew] at hkeep ⊢
          by_contra hmem
          exact hnot ⟨hkeep, hmem⟩
  exact hrest [] l acc rfl (fun a ha => absurd ha List.not_mem_nil) hacc

end Merging

section Repeats
variable [DecidableEq α] {deps deps' : α → List α} {target : α}

/-- Each element once, where it stands first. -/
def firsts (l : List α) : List α := merge (fun _ => True) [] l

@[simp] theorem mem_firsts {l : List α} {a : α} : a ∈ firsts l ↔ a ∈ l := by
  simp [firsts, mem_merge_iff]

theorem Search.seen_visit (s : Search α) (dep a : α) : a ∈ (s.visit dep).seen ↔ a ∈ s.seen ∨ a = dep := by
  unfold Search.visit
  split
  · rename_i hseen
    constructor
    · exact Or.inl
    · rintro (ha | rfl)
      · exact ha
      · exact hseen
  · simp

theorem Search.mem_foldl_visit {l : List α} {s : Search α} {a : α} (ha : a ∈ s.seen ∨ a ∈ l) :
    a ∈ (l.foldl Search.visit s).seen := by
  induction l generalizing s with
  | nil => exact ha.resolve_right List.not_mem_nil
  | cons dep rest ih =>
    apply ih
    rw [Search.seen_visit]
    rcases ha with ha | ha
    · exact Or.inl (Or.inl ha)
    · exact (List.mem_cons.mp ha).imp_left Or.inr

/-- A search takes no notice of a node that it visits again. -/
theorem Search.foldl_visit_merge (acc l : List α) (s : Search α) :
    (merge (fun _ => True) acc l).foldl Search.visit s =
      l.foldl Search.visit (acc.foldl Search.visit s) := by
  induction l generalizing acc with
  | nil => rfl
  | cons a rest ih =>
    rw [merge_cons, ih, List.foldl_cons]
    split
    · rw [List.foldl_append, List.foldl_cons, List.foldl_nil]
    · rename_i hold
      have ha : a ∈ acc := by simpa using hold
      have hvisit : (acc.foldl Search.visit s).visit a = acc.foldl Search.visit s :=
        if_pos (Search.mem_foldl_visit (Or.inr ha))
      rw [hvisit]

theorem Search.foldl_visit_firsts (l : List α) (s : Search α) :
    (firsts l).foldl Search.visit s = l.foldl Search.visit s := Search.foldl_visit_merge [] l s

theorem Search.run_congr (h : ∀ a s, (deps a).foldl Search.visit s = (deps' a).foldl Search.visit s)
    (fuel : ℕ) (s : Search α) : Search.run deps fuel s = Search.run deps' fuel s := by
  induction fuel generalizing s with
  | zero => rfl
  | succ fuel ih =>
    unfold Search.run
    split
    · rfl
    · rw [h, ih]

/-- More fuel changes nothing once the queue is empty. -/
theorem Search.run_add {fuel : ℕ} {s : Search α} (h : (Search.run deps fuel s).queue = []) (more : ℕ) :
    Search.run deps (fuel + more) s = Search.run deps fuel s := by
  induction fuel generalizing s with
  | zero =>
    cases more with
    | zero => rfl
    | succ more =>
      have hqueue : s.queue = [] := h
      rw [Nat.zero_add]
      unfold Search.run
      rw [hqueue]
  | succ fuel ih =>
    rw [Nat.succ_add_eq_add_succ, Nat.add_succ]
    unfold Search.run at h ⊢
    split
    · rfl
    · rename_i node queue hqueue
      rw [hqueue] at h
      exact ih h

theorem upstream_congr (h : ∀ a s, (deps a).foldl Search.visit s = (deps' a).foldl Search.visit s)
    {all all' : List α} (hall : ∀ a, Upstream deps target a → a ∈ all)
    (hall' : ∀ a, Upstream deps target a → a ∈ all') {fuel fuel' : ℕ} (hfuel : all.length ≤ fuel)
    (hfuel' : all'.length ≤ fuel') : upstream deps fuel target = upstream deps' fuel' target := by
  obtain ⟨-, -, hqueue⟩ := search_sound hall hfuel
  obtain ⟨-, -, hqueue'⟩ := search_sound hall' hfuel'
  unfold upstream
  rw [← Search.run_congr h, ← Search.run_add hqueue fuel', ← Search.run_add hqueue' fuel,
    Nat.add_comm]

variable {nodes byDegree : List α}

theorem dependents_cons (node : α) (rest : List α) (dep : α) : dependents deps (node :: rest) dep =
    List.replicate ((deps node).count dep) node ++ dependents deps rest dep := by
  unfold dependents
  rw [List.flatMap_cons]
  congr 1
  induction deps node with
  | nil => rfl
  | cons d ds ih =>
    by_cases hd : d = dep
    · simp [hd, ih, List.replicate_succ]
    · simp [hd, ih]

theorem Sorting.foldl_release_replicate (n : ℕ) (node : α) (s : Sorting α) (hn : n ≤ s.inDegree node) :
    (List.replicate n node).foldl Sorting.release s =
      ⟨Function.update s.inDegree node (s.inDegree node - n),
        if n ≠ 0 ∧ s.inDegree node = n then s.queue ++ [node] else s.queue, s.result⟩ := by
  induction n generalizing s with
  | zero => simp
  | succ n ih =>
    rw [List.replicate_succ, List.foldl_cons, ih]
    · unfold Sorting.release
      simp only [Function.update_self, Function.update_idem, Sorting.mk.injEq]
      refine ⟨by congr 1; omega, ?_, trivial⟩
      split_ifs <;> first | rfl | omega
    · simp only [Sorting.release, Function.update_self]
      omega

/-- Releasing what depends on a node puts those behind the queue that wait for nothing else. -/
theorem Sorting.queue_foldl_release (hnodes : nodes.Nodup) (node : α) (s : Sorting α)
    (hle : ∀ a ∈ nodes, (deps a).count node ≤ s.inDegree a) :
    ((dependents deps nodes node).foldl Sorting.release s).queue = s.queue ++
      nodes.filter fun a => node ∈ deps a ∧ s.inDegree a = (deps a).count node := by
  induction nodes generalizing s with
  | nil => simp [dependents]
  | cons a rest ih =>
    obtain ⟨hnew, hrest⟩ := List.nodup_cons.mp hnodes
    rw [dependents_cons, List.foldl_append,
      Sorting.foldl_release_replicate _ _ _ (hle a List.mem_cons_self), ih hrest]
    · have hothers : rest.filter (fun b => node ∈ deps b ∧ Function.update s.inDegree a
          (s.inDegree a - (deps a).count node) b = (deps b).count node) =
          rest.filter fun b => node ∈ deps b ∧ s.inDegree b = (deps b).count node := by
        apply List.filter_congr
        intro b hb
        have hne : b ≠ a := fun heq => hnew (heq ▸ hb)
        rw [Function.update_of_ne hne]
      have hcount : (deps a).count node ≠ 0 ↔ node ∈ deps a := by
        rw [← Nat.pos_iff_ne_zero, List.count_pos_iff]
      dsimp only
      rw [hothers, List.filter_cons]
      by_cases hwaits : node ∈ deps a ∧ s.inDegree a = (deps a).count node
      · rw [if_pos ⟨hcount.mpr hwaits.1, hwaits.2⟩, if_pos (decide_eq_true hwaits), List.append_assoc,
          List.singleton_append]
      · rw [if_neg (fun hlast => hwaits ⟨hcount.mp hlast.1, hlast.2⟩),
          if_neg (fun hlast => hwaits (of_decide_eq_true hlast))]
    · intro b hb
      have hne : b ≠ a := fun heq => hnew (heq ▸ hb)
      dsimp only
      rw [Function.update_of_ne hne]
      exact hle b (List.mem_cons_of_mem _ hb)

/-- The nodes put in the queue behind a node are the same when the nodes depend on the same ones. -/
theorem Sorting.Sound.queue_step (hnodes : nodes.Nodup) {s : Sorting α}
    (h : Sorting.Sound deps nodes s) {node : α} {queue : List α} (hqueue : s.queue = node :: queue) :
    ((dependents deps nodes node).foldl Sorting.release ⟨s.inDegree, queue, s.result ++ [node]⟩).queue =
      queue ++ nodes.filter fun a => node ∈ deps a ∧ ∀ b ∈ deps a, b ∈ s.result ++ [node] := by
  have hfresh : node ∉ s.result := by
    have hnodup := h.nodup
    rw [hqueue, List.nodup_append] at hnodup
    exact fun hmem => hnodup.2.2 node hmem node List.mem_cons_self rfl
  have hsplit : ∀ a, (deps a).countP (fun b => b ∉ s.result) = (deps a).count node +
      (deps a).countP fun b => b ∉ s.result ++ [node] := by
    intro a
    induction deps a with
    | nil => rfl
    | cons b rest ih =>
      rw [List.countP_cons, List.countP_cons, List.count_cons, ih]
      by_cases hb : b = node
      · subst hb
        simp [hfresh]
        omega
      · simp [hb]
        omega
  have hdegree : ∀ a ∈ nodes, s.inDegree a = (deps a).count node +
      (deps a).countP fun b => b ∉ s.result ++ [node] := by
    intro a ha
    rw [h.degree a ha, hsplit a]
  rw [Sorting.queue_foldl_release hnodes]
  · congr 1
    apply List.filter_congr
    intro a ha
    have hnone : (deps a).countP (fun b => b ∉ s.result ++ [node]) = 0 ↔
        ∀ b ∈ deps a, b ∈ s.result ++ [node] := by
      simp only [List.countP_eq_zero, decide_eq_true_eq, not_not]
    refine decide_eq_decide.mpr (and_congr_right fun _ => ?_)
    rw [← hnone]
    dsimp only
    rw [hdegree a ha]
    omega
  · intro a ha
    dsimp only
    rw [hdegree a ha]
    exact Nat.le_add_right _ _

theorem Sorting.run_congr (hnodes : nodes.Nodup) (hsame : ∀ a b, b ∈ deps a ↔ b ∈ deps' a) {fuel : ℕ}
    {s s' : Sorting α} (h : Sorting.Sound deps nodes s) (h' : Sorting.Sound deps' nodes s')
    (hqueue : s.queue = s'.queue) (hresult : s.result = s'.result) :
    (Sorting.run (dependents deps nodes) fuel s).result =
      (Sorting.run (dependents deps' nodes) fuel s').result := by
  induction fuel generalizing s s' with
  | zero => exact hresult
  | succ fuel ih =>
    cases hcons : s.queue with
    | nil =>
      unfold Sorting.run
      rw [← hqueue, hcons]
      exact hresult
    | cons node queue =>
      have hcons' : s'.queue = node :: queue := by rw [← hqueue, hcons]
      unfold Sorting.run
      rw [hcons, hcons']
      refine ih (h.step hnodes hcons) (h'.step hnodes hcons') ?_ ?_
      · rw [h.queue_step hnodes hcons, h'.queue_step hnodes hcons', hresult]
        simp only [hsame]
      · rw [Sorting.result_foldl_release, Sorting.result_foldl_release, hresult]

/-- The order takes no notice of repeated dependencies. -/
theorem sort_congr (hnodes : nodes.Nodup) (hperm : byDegree.Perm nodes)
    (hsame : ∀ a b, b ∈ deps a ↔ b ∈ deps' a) : sort deps nodes byDegree = sort deps' nodes byDegree := by
  unfold sort
  refine Sorting.run_congr hnodes hsame (Sorting.sound_start hnodes hperm)
    (Sorting.sound_start hnodes hperm) ?_ rfl
  apply List.filter_congr
  intro a _
  have hempty : deps a = [] ↔ deps' a = [] := by
    rw [List.eq_nil_iff_forall_not_mem, List.eq_nil_iff_forall_not_mem]
    exact forall_congr' fun b => not_congr (hsame a b)
  refine decide_eq_decide.mpr ?_
  rw [List.length_eq_zero_iff, List.length_eq_zero_iff]
  exact hempty

end Repeats

section Cycles
variable {deps : α → List α} {a b : α}

theorem Upstream.acc (h : Upstream deps a b) (ha : Acc (fun b c => b ∈ deps c) a) :
    Acc (fun b c => b ∈ deps c) b := by
  induction h with
  | refl => exact ha
  | tail _ hdep ih => exact ih.inv hdep

/-- Nothing depends on itself where nodes depend on smaller ones only. -/
theorem acyclic_of_lt {rank : α → ℕ} (h : ∀ a, ∀ b ∈ deps a, rank b < rank a) (a : α) :
    Acyclic deps a := by
  have hless : ∀ b c, DependsOn deps b c → rank c < rank b := by
    intro b c hdepends
    induction hdepends with
    | single hdep => exact h b _ hdep
    | tail _ hdep ih => exact (h _ _ hdep).trans ih
  exact fun b _ hself => Nat.lt_irrefl _ (hless b b hself)

theorem not_dependsOn_self (ha : Acc (fun b c => b ∈ deps c) a) : ¬ DependsOn deps a a := by
  induction ha with
  | intro a _ ih =>
    intro hself
    obtain ⟨b, hdep, hrest⟩ := Relation.TransGen.head'_iff.mp hself
    exact ih b hdep (Relation.TransGen.tail' hrest hdep)

/-- Among finitely many nodes, what depends on nothing without end is what has no cycle upstream. -/
theorem acc_iff_acyclic {all : List α} (hall : ∀ b, Upstream deps a b → b ∈ all) :
    Acc (fun b c => b ∈ deps c) a ↔ Acyclic deps a := by
  constructor
  · exact fun hacc b hb => not_dependsOn_self (hb.acc hacc)
  · intro hacyclic
    have hfinite : Finite {b // Upstream deps a b} := ((List.finite_toSet all).subset hall).to_subtype
    let below (b c : {b // Upstream deps a b}) : Prop := DependsOn deps c.1 b.1
    have htrans : IsTrans _ below := ⟨fun b c d hbc hcd => hcd.trans hbc⟩
    have hirrefl : Std.Irrefl below := ⟨fun b => hacyclic b.1 b.2⟩
    have hwf : WellFounded below := Finite.wellFounded_of_trans_of_irrefl below
    have hacc : ∀ b : {b // Upstream deps a b}, Acc (fun b c => b ∈ deps c) b.1 := by
      intro b
      induction b using hwf.induction with
      | _ b ih =>
        constructor
        intro c hc
        exact ih ⟨c, b.2.tail hc⟩ (Relation.TransGen.single hc)
    exact hacc ⟨a, Relation.ReflTransGen.refl⟩

end Cycles
end RustLake.Dependency
