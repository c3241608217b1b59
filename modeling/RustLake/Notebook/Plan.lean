import RustLake.Order.Rounds
import RustLake.Rust.Basic

/-! The execution plan of a notebook: stages of cells, each behind those that its cells depend on. -/
namespace RustLake.Notebook
open Rounds

structure CellSubmission where
  id : String
  cellType : String
  source : String
  dependsOn : List String

structure NotebookSubmission where
  id : String
  name : String
  cells : List CellSubmission

structure ExecutionStage where
  stageId : ℕ
  cellIds : List String
  cellTypes : List String
  canParallelize : Bool
  estimatedMs : ℕ
deriving DecidableEq

structure Optimization where
  optimizationType : String
  description : String
  cellsAffected : List String
  estimatedSpeedupMs : ℕ
deriving DecidableEq

structure ExecutionPlan where
  stages : List ExecutionStage
  totalCells : ℕ
  parallelizableCells : ℕ
  estimatedDurationMs : ℕ
  optimizations : List Optimization
deriving DecidableEq

section Optimizations

def markdownCells (cells : List CellSubmission) : List String :=
  (cells.filter fun c => c.cellType = "markdown").map (·.id)

def skipMarkdown (cells : List CellSubmission) : List Optimization :=
  if markdownCells cells = [] then []
  else
    [{ optimizationType := "skip_markdown"
       description := "Skipping " ++ toString (markdownCells cells).length ++
         " markdown cells (documentation only)"
       cellsAffected := markdownCells cells
       estimatedSpeedupMs := 0 }]

/-- The cells that are left to be put in stages. -/
def withoutMarkdown (cells : List CellSubmission) : List CellSubmission :=
  if markdownCells cells = [] then cells else cells.filter fun c => c.cellType ≠ "markdown"

/-- The runs of SQL cells found so far, and the one that may go on. -/
def extendRun (runs : List (List String) × List String) (cell : CellSubmission) :
    List (List String) × List String :=
  if cell.cellType = "sql" then (runs.1, runs.2 ++ [cell.id])
  else (if 2 ≤ runs.2.length then runs.1 ++ [runs.2] else runs.1, [])

def consecutiveSql (cells : List CellSubmission) : List (List String) :=
  let (runs, current) := cells.foldl extendRun ([], [])
  if 2 ≤ current.length then runs ++ [current] else runs

def mergeSql (run : List String) : Optimization where
  optimizationType := "merge_sql"
  description := "Could merge " ++ toString run.length ++
    " consecutive SQL cells into a multi-statement batch"
  cellsAffected := run
  estimatedSpeedupMs := (run.length - 1) * 50

def parallelize (stageId : ℕ) (ids : List String) : Optimization where
  optimizationType := "parallelize"
  description := "Stage " ++ toString stageId ++ " has " ++ toString ids.length ++
    " independent SQL cells that can run in parallel"
  cellsAffected := ids
  estimatedSpeedupMs := (ids.length - 1) * 100

end Optimizations

section Stages

/-- What the stage loop changes. -/
structure Staging where
  stages : List ExecutionStage
  executed : List String
  remaining : List CellSubmission
  stageId : ℕ
  optimizations : List Optimization

def start (notebook : NotebookSubmission) : Staging where
  stages := []
  executed := []
  remaining := withoutMarkdown notebook.cells
  stageId := 0
  optimizations := skipMarkdown notebook.cells ++ (consecutiveSql notebook.cells).map mergeSql

def readyCells (s : Staging) : List CellSubmission :=
  s.remaining.filter fun c => c.dependsOn.all fun dep => s.executed.contains dep

def estimatedMs (cell : CellSubmission) : ℕ :=
  if cell.cellType = "sql" then 100
  else if cell.cellType = "rust" then 1500
  else if cell.cellType = "python" then 500
  else 50

def canParallelize (ready : List CellSubmission) : Bool :=
  1 < ready.length && ready.all fun c => c.cellType = "sql"

/-- All that remains has dependencies that cannot be resolved. -/
def unresolvedStage (s : Staging) : ExecutionStage where
  stageId := s.stageId
  cellIds := s.remaining.map (·.id)
  cellTypes := s.remaining.map (·.cellType)
  canParallelize := false
  estimatedMs := s.remaining.length * 200

def readyStage (s : Staging) (ready : List CellSubmission) : ExecutionStage where
  stageId := s.stageId
  cellIds := ready.map (·.id)
  cellTypes := ready.map (·.cellType)
  canParallelize := canParallelize ready
  estimatedMs := (ready.map estimatedMs).max?.getD 100

/-- One turn of the loop where some cells are ready. -/
def pushStage (s : Staging) (ready : List CellSubmission) : Staging where
  stages := s.stages ++ [readyStage s ready]
  executed := s.executed ++ ready.map (·.id)
  remaining := s.remaining.filter fun c => !(ready.map (·.id)).contains c.id
  stageId := s.stageId + 1
  optimizations :=
    if canParallelize ready then s.optimizations ++ [parallelize s.stageId (ready.map (·.id))]
    else s.optimizations

/-- The loop does not come to an end where it gives nothing. Where it breaks, cells remain. -/
def stageLoop : ℕ → Staging → Option Staging
  | fuel, s =>
    if s.remaining = [] then some s
    else
      match fuel with
      | 0 => none
      | fuel + 1 =>
        if readyCells s = [] then some { s with stages := s.stages ++ [unresolvedStage s] }
        else stageLoop fuel (pushStage s (readyCells s))

def planOf (notebook : NotebookSubmission) (s : Staging) : ExecutionPlan where
  stages := s.stages
  totalCells := notebook.cells.length
  parallelizableCells := ((s.stages.filter (·.canParallelize)).map (·.cellIds.length)).sum
  estimatedDurationMs := (s.stages.map (·.estimatedMs)).sum
  optimizations := s.optimizations

def buildExecutionPlan (fuel : ℕ) (notebook : NotebookSubmission) : Option ExecutionPlan :=
  (stageLoop fuel (start notebook)).map (planOf notebook)

end Stages

section Rounds

/-- The cells that are not documentation only. -/
def executableCells (notebook : NotebookSubmission) : List CellSubmission :=
  notebook.cells.filter fun c => c.cellType ≠ "markdown"

/-- The rounds over the cells that remain. -/
def roundsOf (fuel : ℕ) (executed : List String) (remaining : List CellSubmission) :
    List (List CellSubmission) × List CellSubmission :=
  rounds CellSubmission.id CellSubmission.dependsOn fuel executed remaining

/-- The ids of the stages, the unresolved one among them. -/
def stageIds (r : List (List CellSubmission) × List CellSubmission) : List (List String) :=
  r.1.map (·.map (·.id)) ++ if r.2 = [] then [] else [r.2.map (·.id)]

variable {s : Staging} {notebook : NotebookSubmission} {fuel : ℕ}

theorem mem_executableCells {c : CellSubmission} :
    c ∈ executableCells notebook ↔ c ∈ notebook.cells ∧ c.cellType ≠ "markdown" := by
  rw [executableCells, List.mem_filter, decide_eq_true_iff]

theorem withoutMarkdown_eq : withoutMarkdown notebook.cells = executableCells notebook := by
  unfold withoutMarkdown
  split
  case isTrue hnone =>
    rw [markdownCells, List.map_eq_nil_iff, List.filter_eq_nil_iff] at hnone
    refine (List.filter_eq_self.mpr fun c hc => ?_).symm
    simpa using hnone c hc
  case isFalse => rfl

theorem readyCells_eq : readyCells s = ready CellSubmission.dependsOn s.executed s.remaining := by
  refine List.filter_congr fun c _ => ?_
  rw [List.all_eq]
  simp only [List.contains_iff_mem]

theorem remaining_pushStage (ready : List CellSubmission) :
    (pushStage s ready).remaining = without CellSubmission.id ready s.remaining := by
  refine List.filter_congr fun c _ => ?_
  rw [List.contains_eq_mem, decide_not]

theorem stages_pushStage (ready : List CellSubmission) :
    (pushStage s ready).stages.map (·.cellIds) =
      s.stages.map (·.cellIds) ++ [ready.map (·.id)] := by
  rw [pushStage, List.map_append]
  rfl

/-- With fuel for each cell that remains the loop ends, and its stages are the rounds. -/
theorem stageLoop_rounds (hfuel : s.remaining.length ≤ fuel) :
    ∃ s', stageLoop fuel s = some s' ∧
      s'.stages.map (·.cellIds) =
        s.stages.map (·.cellIds) ++ stageIds (roundsOf fuel s.executed s.remaining) ∧
      s'.remaining = (roundsOf fuel s.executed s.remaining).2 := by
  induction fuel generalizing s with
  | zero =>
    have hnil := List.length_eq_zero_iff.mp (Nat.le_zero.mp hfuel)
    refine ⟨s, if_pos hnil, ?_, ?_⟩
    · simp [roundsOf, rounds, stageIds, hnil]
    · rfl
  | succ fuel ih =>
    unfold stageLoop
    by_cases hnil : s.remaining = []
    · rw [if_pos hnil, hnil]
      have hnone : roundsOf (fuel + 1) s.executed [] = ([], []) := rounds_of_ready_nil rfl
      rw [hnone]
      exact ⟨s, rfl, by simp [stageIds], hnil⟩
    · rw [if_neg hnil]
      dsimp only
      by_cases hready : readyCells s = []
      · have hnone : roundsOf (fuel + 1) s.executed s.remaining = ([], s.remaining) :=
          rounds_of_ready_nil (readyCells_eq ▸ hready)
        rw [if_pos hready, hnone]
        refine ⟨_, rfl, ?_, rfl⟩
        simp [stageIds, hnil, unresolvedStage]
      · have hsome : ready CellSubmission.dependsOn s.executed s.remaining ≠ [] :=
          readyCells_eq ▸ hready
        have hless : (pushStage s (readyCells s)).remaining.length < s.remaining.length := by
          rw [remaining_pushStage, readyCells_eq]
          exact length_without_lt hsome
        obtain ⟨s', hloop, hstages, hremaining⟩ :=
          ih (s := pushStage s (readyCells s)) (by omega)
        have hexecuted : (pushStage s (readyCells s)).executed =
            s.executed ++ (ready CellSubmission.dependsOn s.executed s.remaining).map (·.id) := by
          rw [← readyCells_eq]
          rfl
        rw [remaining_pushStage, hexecuted, readyCells_eq] at hstages hremaining
        rw [if_neg hready]
        have hrounds : roundsOf (fuel + 1) s.executed s.remaining = _ := rounds_succ hsome
        refine ⟨s', hloop, ?_, ?_⟩
        · rw [hstages, hrounds, stages_pushStage, List.append_assoc]
          rfl
        · rw [hremaining, hrounds]
          rfl

/-- More fuel makes no difference to a loop that has come to its end. -/
theorem stageLoop_of_le {s' : Staging} {more : ℕ} (h : stageLoop fuel s = some s')
    (hmore : fuel ≤ more) : stageLoop more s = some s' := by
  induction fuel generalizing s more with
  | zero =>
    unfold stageLoop at h ⊢
    by_cases hnil : s.remaining = []
    · rwa [if_pos hnil] at h ⊢
    · rw [if_neg hnil] at h
      cases h
  | succ fuel ih =>
    obtain ⟨more, rfl⟩ := Nat.exists_eq_add_of_lt hmore
    unfold stageLoop at h ⊢
    by_cases hnil : s.remaining = []
    · rwa [if_pos hnil] at h ⊢
    · rw [if_neg hnil] at h ⊢
      dsimp only at h ⊢
      by_cases hready : readyCells s = []
      · rwa [if_pos hready] at h ⊢
      · rw [if_neg hready] at h ⊢
        exact ih h (by omega)

/-- The rounds over all executable cells of a notebook. -/
def stagesOf (notebook : NotebookSubmission) : List (List CellSubmission) × List CellSubmission :=
  roundsOf notebook.cells.length [] (executableCells notebook)

/-- Fuel for each cell of a notebook is enough for its plan. -/
theorem exists_staging (notebook : NotebookSubmission) : ∃ s,
    (∀ fuel, notebook.cells.length ≤ fuel → stageLoop fuel (start notebook) = some s) ∧
      s.stages.map (·.cellIds) = stageIds (stagesOf notebook) ∧
      s.remaining = (stagesOf notebook).2 := by
  have hstart : (start notebook).remaining = executableCells notebook := withoutMarkdown_eq
  have hlength : (start notebook).remaining.length ≤ notebook.cells.length := by
    rw [hstart]
    exact List.length_filter_le _ _
  obtain ⟨s, hloop, hstages, hremaining⟩ := stageLoop_rounds hlength
  refine ⟨s, fun fuel hfuel => stageLoop_of_le hloop hfuel, ?_, ?_⟩
  · rw [hstages, hstart]
    rfl
  · rw [hremaining, hstart]
    rfl

end Rounds
end RustLake.Notebook
