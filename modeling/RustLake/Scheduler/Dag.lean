import RustLake.Order.Dependency

/-! `DagScheduler`: tasks with dependencies between them, executed in a topological order up to the
first one that fails. -/
namespace RustLake.Scheduler
open Dependency

inductive TaskStatus where
  | pending
  | running
  | completed
  | failed (message : String)
  | skipped
deriving DecidableEq

structure TaskDef where
  id : String
  name : String
  sql : Option String
  status : TaskStatus
deriving DecidableEq

/-- The graph, in which the nodes are numbered, and the node that an id stands for: the last one
that was added with it. -/
structure DagScheduler where
  size : ℕ
  graph : Fin size → TaskDef
  edges : List (Fin size × Fin size)
  nodeMap : List (String × Fin size)

namespace DagScheduler

def new : DagScheduler := ⟨0, Fin.elim0, [], []⟩

def addTask (task : TaskDef) (d : DagScheduler) : String × DagScheduler :=
  (task.id,
    { size := d.size + 1
      graph := Fin.snoc d.graph task
      edges := d.edges.map (Prod.map Fin.castSucc Fin.castSucc)
      nodeMap := (task.id, Fin.last d.size) :: d.nodeMap.map (Prod.map id Fin.castSucc) })

def addDependency (source target : String) (d : DagScheduler) : Except String DagScheduler :=
  match d.nodeMap.lookup source with
  | none => .error ("Task '" ++ source ++ "' not found")
  | some fromIdx =>
    match d.nodeMap.lookup target with
    | none => .error ("Task '" ++ target ++ "' not found")
    | some toIdx => .ok { d with edges := d.edges ++ [(fromIdx, toIdx)] }

end DagScheduler

/-- A task is executed with what the executor remembers, and either is done or fails. -/
abbrev TaskExecutor (σ : Type) := σ → TaskDef → Except String Unit × σ

/-- A call of the executor: the task, and the graph at that time. -/
structure Call (n : ℕ) where
  node : Fin n
  graph : Fin n → TaskDef

structure Execution (σ : Type) (n : ℕ) where
  result : Except String Unit
  graph : Fin n → TaskDef
  executor : σ
  calls : List (Call n)

section Execute
variable {σ : Type} {n : ℕ}

def setStatus (graph : Fin n → TaskDef) (node : Fin n) (status : TaskStatus) : Fin n → TaskDef :=
  Function.update graph node { graph node with status }

def failure (task : TaskDef) (message : String) : String :=
  "Task '" ++ task.name ++ "' failed: " ++ message

/-- The loop of `execute` over the order. -/
def executeOrder (executor : TaskExecutor σ) :
    List (Fin n) → σ → (Fin n → TaskDef) → Execution σ n
  | [], s, graph => ⟨.ok (), graph, s, []⟩
  | node :: order, s, graph =>
    match executor s (graph node) with
    | (.ok (), s) =>
      let rest := executeOrder executor order s (setStatus graph node .completed)
      { rest with calls := ⟨node, graph⟩ :: rest.calls }
    | (.error message, s) =>
      { result := .error (failure (graph node) message)
        graph := setStatus graph node (.failed message)
        executor := s
        calls := [⟨node, graph⟩] }

/-- `petgraph::algo::toposort` of a graph with so many nodes and these edges. -/
abbrev Toposort := (n : ℕ) → List (Fin n × Fin n) → Option (List (Fin n))

def DagScheduler.execute (toposort : Toposort) (executor : TaskExecutor σ) (s : σ)
    (d : DagScheduler) : Execution σ d.size :=
  match toposort d.size d.edges with
  | none => ⟨.error "Cycle detected in task DAG", d.graph, s, []⟩
  | some order => executeOrder executor order s d.graph

/-- The nodes with an edge to a node. -/
def predecessors (edges : List (Fin n × Fin n)) (node : Fin n) : List (Fin n) :=
  (edges.filter (·.2 = node)).map (·.1)

def Cyclic (edges : List (Fin n × Fin n)) : Prop :=
  ∃ node, DependsOn (predecessors edges) node node

/-- What is said of `toposort`: an order has each node once, after its predecessors, and there is
none exactly for a graph with a cycle. -/
structure SortsTopologically (toposort : Toposort) : Prop where
  nodup : ∀ {n edges order}, toposort n edges = some order → order.Nodup
  all : ∀ {n edges order}, toposort n edges = some order → ∀ node, node ∈ order
  ordered : ∀ {n edges order}, toposort n edges = some order → Ordered (predecessors edges) order
  cycle : ∀ {n edges}, toposort n edges = none ↔ Cyclic edges

/-- A graph in which some tasks have been completed. -/
def marked (graph : Fin n → TaskDef) (completed : List (Fin n)) : Fin n → TaskDef := fun node =>
  if node ∈ completed then { graph node with status := .completed } else graph node

/-- The tasks are executed one after another, each after its predecessors, and what their states
become. -/
structure InOrder (d : DagScheduler) (s : σ) (e : Execution σ d.size) : Prop where
  once : (e.calls.map (·.node)).Nodup
  ready : ∀ call ∈ e.calls, ∀ p ∈ predecessors d.edges call.node,
    (call.graph p).status = .completed
  completed : e.result = .ok () → (∀ node, node ∈ e.calls.map (·.node)) ∧
    ∀ node, (e.graph node) = { d.graph node with status := .completed }
  failed : ∀ error, e.result = .error error → ¬ Cyclic d.edges → ∃ before node message,
    e.calls.map (·.node) = before ++ [node] ∧ error = failure (d.graph node) message ∧
    e.graph node = { d.graph node with status := .failed message } ∧
    (∀ earlier ∈ before, e.graph earlier = { d.graph earlier with status := .completed }) ∧
    ∀ other, other ∉ before ++ [node] → e.graph other = d.graph other
  cyclic : Cyclic d.edges →
    e = ⟨.error "Cycle detected in task DAG", d.graph, s, []⟩

/-- The calls for tasks after some that have been completed. -/
def callsFrom (graph : Fin n → TaskDef) : List (Fin n) → List (Fin n) → List (Call n)
  | _, [] => []
  | before, node :: nodes =>
    ⟨node, marked graph before⟩ :: callsFrom graph (before ++ [node]) nodes

section
variable {graph : Fin n → TaskDef} {node : Fin n} {before : List (Fin n)}

theorem marked_nil : marked graph [] = graph := rfl

theorem marked_of_mem (h : node ∈ before) :
    marked graph before node = { graph node with status := .completed } := if_pos h

theorem marked_of_not_mem (h : node ∉ before) : marked graph before node = graph node := if_neg h

theorem marked_name (before : List (Fin n)) (node : Fin n) :
    (marked graph before node).name = (graph node).name := by
  unfold marked
  split_ifs <;> rfl

theorem setStatus_self (status : TaskStatus) :
    setStatus graph node status node = { graph node with status } := Function.update_self _ _ _

theorem setStatus_of_ne {other : Fin n} (h : other ≠ node) (status : TaskStatus) :
    setStatus graph node status other = graph other := Function.update_of_ne h _ _

/-- One more task is completed. -/
theorem setStatus_marked (before : List (Fin n)) (node : Fin n) :
    setStatus (marked graph before) node .completed = marked graph (before ++ [node]) := by
  funext other
  by_cases heq : other = node
  · subst heq
    rw [setStatus_self, marked_of_mem (List.mem_append_right _ (List.mem_singleton_self _))]
    unfold marked
    split_ifs <;> rfl
  · rw [setStatus_of_ne heq]
    unfold marked
    simp only [List.mem_append, List.mem_singleton, heq, or_false]

@[simp] theorem map_node_callsFrom (before nodes : List (Fin n)) :
    (callsFrom graph before nodes).map (·.node) = nodes := by
  induction nodes generalizing before with
  | nil => rfl
  | cons node nodes ih => rw [callsFrom, List.map_cons, ih]

/-- At each call exactly the tasks before it have been completed. -/
theorem mem_callsFrom {call : Call n} {nodes : List (Fin n)}
    (h : call ∈ callsFrom graph before nodes) : ∃ earlier later,
      nodes = earlier ++ call.node :: later ∧ call.graph = marked graph (before ++ earlier) := by
  induction nodes generalizing before with
  | nil => exact absurd h List.not_mem_nil
  | cons node nodes ih =>
    rcases List.mem_cons.mp h with rfl | h
    · exact ⟨[], nodes, rfl, by rw [List.append_nil]⟩
    · obtain ⟨earlier, later, rfl, hgraph⟩ := ih h
      refine ⟨node :: earlier, later, rfl, ?_⟩
      rw [hgraph, List.append_assoc, List.singleton_append]

end

/-- The loop goes through the whole order, or up to the first task that fails. -/
theorem executeOrder_cases (executor : TaskExecutor σ) (graph : Fin n → TaskDef)
    (order before : List (Fin n)) (s : σ) :
    let e := executeOrder executor order s (marked graph before)
    (e.result = .ok () ∧ e.calls = callsFrom graph before order ∧
      e.graph = marked graph (before ++ order)) ∨
    ∃ earlier node later message, order = earlier ++ node :: later ∧
      e.result = .error (failure (graph node) message) ∧
      e.calls = callsFrom graph before (earlier ++ [node]) ∧
      e.graph = setStatus (marked graph (before ++ earlier)) node (.failed message) := by
  induction order generalizing before s with
  | nil =>
    left
    exact ⟨rfl, rfl, by rw [List.append_nil]; rfl⟩
  | cons node order ih =>
    dsimp only
    rw [executeOrder]
    cases hcall : executor s (marked graph before node) with
    | mk outcome s' =>
      cases outcome with
      | error message =>
        right
        refine ⟨[], node, order, message, rfl, ?_, rfl, ?_⟩
        · simp only [failure, marked_name]
        · rw [List.append_nil]
      | ok done =>
        simp only [setStatus_marked]
        have hcalls : ∀ nodes, callsFrom graph before (node :: nodes) =
            ⟨node, marked graph before⟩ :: callsFrom graph (before ++ [node]) nodes := fun _ => rfl
        rcases ih (before ++ [node]) s' with ⟨hresult, hlater, hgraph⟩ |
          ⟨earlier, failed, later, message, horder, hresult, hlater, hgraph⟩
        · left
          refine ⟨hresult, ?_, ?_⟩
          · rw [hlater, hcalls]
          · rw [hgraph, List.append_assoc, List.singleton_append]
        · right
          refine ⟨node :: earlier, failed, later, message, ?_, hresult, ?_, ?_⟩
          · rw [horder, List.cons_append]
          · rw [hlater, List.cons_append, hcalls]
          · rw [hgraph, List.append_assoc, List.singleton_append]

/-- The predecessors of a task that is called stand before it in the order. -/
theorem ready_callsFrom {d : DagScheduler} {order ran later : List (Fin d.size)}
    (hordered : Ordered (predecessors d.edges) order) (horder : order = ran ++ later) :
    ∀ call ∈ callsFrom d.graph [] ran, ∀ p ∈ predecessors d.edges call.node,
      (call.graph p).status = .completed := by
  intro call hcall p hp
  obtain ⟨earlier, after, hran, hgraph⟩ := mem_callsFrom hcall
  have hsplit : order = earlier ++ call.node :: (after ++ later) := by
    rw [horder, hran, List.append_assoc, List.cons_append]
  have hbefore := hordered earlier call.node _ hsplit p hp
  rw [hgraph, List.nil_append, marked_of_mem hbefore]

end Execute

/-- Kahn's order, if it has all nodes. -/
def kahn : Toposort := fun n edges =>
  let order := sort (predecessors edges) (List.finRange n) (List.finRange n)
  if ∀ node, node ∈ order then some order else none

theorem sortsTopologically_kahn : SortsTopologically kahn := by
  have hnodes : ∀ n, (List.finRange n).Nodup := List.nodup_finRange
  have hsome : ∀ {n edges order}, kahn n edges = some order →
      (∀ node, node ∈ order) ∧
        sort (predecessors edges) (List.finRange n) (List.finRange n) = order := by
    intro n edges order h
    unfold kahn at h
    dsimp only at h
    split_ifs at h with hall
    cases h
    exact ⟨hall, rfl⟩
  constructor
  · intro n edges order h
    obtain ⟨-, rfl⟩ := hsome h
    exact nodup_sort (hnodes n) (List.Perm.refl _)
  · intro n edges order h
    exact (hsome h).1
  · intro n edges order h
    obtain ⟨-, rfl⟩ := hsome h
    exact ordered_sort (hnodes n) (List.Perm.refl _)
  · intro n edges
    have hmem : ∀ node, node ∈ sort (predecessors edges) (List.finRange n) (List.finRange n) ↔
        Acyclic (predecessors edges) node := by
      intro node
      rw [mem_sort_iff (hnodes n) (List.Perm.refl _) (fun _ _ b _ => List.mem_finRange b)
        (List.mem_finRange node)]
      exact acc_iff_acyclic fun b _ => List.mem_finRange b
    unfold kahn
    dsimp only
    split_ifs with hall
    · refine iff_of_false (fun hnone => by cases hnone) ?_
      rintro ⟨node, hcycle⟩
      exact (hmem node).mp (hall node) node Relation.ReflTransGen.refl hcycle
    · refine iff_of_true rfl ?_
      push Not at hall
      obtain ⟨node, hnode⟩ := hall
      rw [hmem] at hnode
      unfold Acyclic at hnode
      push Not at hnode
      obtain ⟨b, -, hcycle⟩ := hnode
      exact ⟨b, hcycle⟩

/-- Two tasks, the second of which depends on the first. -/
def loadThenReport : DagScheduler where
  size := 2
  graph := fun i => if i = 0 then ⟨"1", "load", none, .completed⟩ else ⟨"2", "report", none, .pending⟩
  edges := [(0, 1)]
  nodeMap := [("2", 1), ("1", 0)]

end RustLake.Scheduler
