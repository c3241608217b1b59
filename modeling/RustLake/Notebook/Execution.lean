import RustLake.Notebook.Plan

/-! Running a notebook: the cells of the stages one after another, looked up by their ids. -/
namespace RustLake.Notebook
open Rounds

structure CellRunResult where
  cellId : String
  cellType : String
  status : String
  rowCount : Option ℕ
  error : Option String
  outputPreview : Option String

structure NotebookRunResult where
  notebookId : String
  notebookName : String
  status : String
  cellResults : List CellRunResult
  dagOrder : List String
  optimizationsApplied : List String

structure RustResult where
  success : Bool
  stdout : String
  error : Option String

/-- The query engine, which gives the rows of each batch, and the executor of Rust code. -/
structure Services (World : Type) where
  sql : World → String → World × Except String (List ℕ)
  executeRust : World → String → World × RustResult

inductive Run
  | sql (source : String)
  | rust (source : String)
deriving DecidableEq

/-- What the loops over stages and cells change, and what has been run for each id. -/
structure Running (World : Type) where
  cellResults : List CellRunResult
  dagOrder : List String
  allSuccess : Bool
  world : World
  runs : List (String × Run)

section Cells
variable {World : Type} (services : Services World)

def Running.push (r : Running World) (result : CellRunResult) : Running World :=
  { r with cellResults := r.cellResults ++ [result] }

def skippedMarkdown (cellId : String) : CellRunResult where
  cellId := cellId
  cellType := "markdown"
  status := "skipped"
  rowCount := none
  error := none
  outputPreview := none

def skippedType (cellId cellType : String) : CellRunResult where
  cellId := cellId
  cellType := cellType
  status := "skipped"
  rowCount := none
  error := none
  outputPreview := some "Server-side execution not available for this cell type"

def sqlResult (cellId : String) : Except String (List ℕ) → CellRunResult
  | .ok batches =>
    { cellId := cellId
      cellType := "sql"
      status := "success"
      rowCount := some batches.sum
      error := none
      outputPreview := some (toString batches.sum ++ " rows returned") }
  | .error e =>
    { cellId := cellId
      cellType := "sql"
      status := "failed"
      rowCount := none
      error := some e
      outputPreview := none }

def rustResult (cellId : String) (result : RustResult) : CellRunResult where
  cellId := cellId
  cellType := "rust"
  status := if result.success then "success" else "failed"
  rowCount := none
  error := if result.success then none else result.error
  outputPreview :=
    if result.success then some (String.ofList (result.stdout.toList.take 200)) else none

def runCell (r : Running World) (cellId : String) (cell : CellSubmission) : Running World :=
  if cell.cellType = "markdown" then r.push (skippedMarkdown cellId)
  else if cell.cellType = "sql" then
    let (world, outcome) := services.sql r.world cell.source
    { r with
      cellResults := r.cellResults ++ [sqlResult cellId outcome]
      allSuccess := r.allSuccess && outcome.isOk
      world := world
      runs := r.runs ++ [(cellId, .sql cell.source)] }
  else if cell.cellType = "rust" then
    let (world, result) := services.executeRust r.world cell.source
    { r with
      cellResults := r.cellResults ++ [rustResult cellId result]
      allSuccess := r.allSuccess && result.success
      world := world
      runs := r.runs ++ [(cellId, .rust cell.source)] }
  else r.push (skippedType cellId cell.cellType)

def executeCell (cells : List CellSubmission) (r : Running World) (cellId : String) :
    Running World :=
  let r := { r with dagOrder := r.dagOrder ++ [cellId] }
  match cells.find? fun c => c.id = cellId with
  | none => r
  | some cell => runCell services r cellId cell

def executeStages (notebook : NotebookSubmission) (plan : ExecutionPlan) (world : World) :
    Running World :=
  plan.stages.foldl (fun r stage => stage.cellIds.foldl (executeCell services notebook.cells) r)
    ⟨[], [], true, world, []⟩

def resultOf (notebook : NotebookSubmission) (plan : ExecutionPlan) (r : Running World) :
    NotebookRunResult where
  notebookId := notebook.id
  notebookName := notebook.name
  status := if r.allSuccess then "success" else "partial"
  cellResults := r.cellResults
  dagOrder := r.dagOrder
  optimizationsApplied := plan.optimizations.map (·.description)

def executeNotebook (fuel : ℕ) (notebook : NotebookSubmission) (world : World) :
    Option (NotebookRunResult × Running World) := do
  let plan ← buildExecutionPlan fuel notebook
  let r := executeStages services notebook plan world
  return (resultOf notebook plan r, r)

end Cells

section Once
variable {World : Type} {services : Services World} {cells : List CellSubmission}
  {r : Running World} {cellId : String}

/-- What a cell has to run. -/
def ownRuns (c : CellSubmission) : List (String × Run) :=
  if c.cellType = "sql" then [(c.id, .sql c.source)]
  else if c.cellType = "rust" then [(c.id, .rust c.source)]
  else []

/-- The one result that is reported for a cell, which is skipped where it has nothing to run. -/
def Reports (c : CellSubmission) (results : List CellRunResult) : Prop :=
  ∃ result, results = [result] ∧ result.cellId = c.id ∧ result.cellType = c.cellType ∧
    (result.status = "skipped" ↔ ownRuns c = [])

theorem sqlResult_spec (cellId : String) (outcome : Except String (List ℕ)) :
    (sqlResult cellId outcome).cellId = cellId ∧ (sqlResult cellId outcome).cellType = "sql" ∧
      (sqlResult cellId outcome).status ≠ "skipped" := by
  cases outcome <;> simp [sqlResult]

variable (services) in
theorem runCell_spec (r : Running World) (c : CellSubmission) : ∃ results,
    (runCell services r c.id c).cellResults = r.cellResults ++ results ∧ Reports c results ∧
      (runCell services r c.id c).runs = r.runs ++ ownRuns c := by
  unfold runCell ownRuns
  by_cases hmarkdown : c.cellType = "markdown"
  · have hnone : ownRuns c = [] := by simp [ownRuns, hmarkdown]
    rw [if_pos hmarkdown]
    refine ⟨_, rfl, ⟨_, rfl, rfl, hmarkdown.symm, iff_of_true rfl hnone⟩, ?_⟩
    exact (List.append_nil _).symm.trans (congrArg _ hnone.symm)
  · rw [if_neg hmarkdown]
    by_cases hsql : c.cellType = "sql"
    · have hsome : ownRuns c ≠ [] := by simp [ownRuns, hsql]
      rw [if_pos hsql, if_pos hsql]
      obtain ⟨hid, htype, hstatus⟩ := sqlResult_spec c.id (services.sql r.world c.source).2
      exact ⟨_, rfl, ⟨_, rfl, hid, htype.trans hsql.symm, iff_of_false hstatus hsome⟩, rfl⟩
    · rw [if_neg hsql, if_neg hsql]
      by_cases hrust : c.cellType = "rust"
      · have hsome : ownRuns c ≠ [] := by simp [ownRuns, hrust]
        rw [if_pos hrust, if_pos hrust]
        refine ⟨_, rfl, ⟨_, rfl, rfl, hrust.symm, iff_of_false ?_ hsome⟩, rfl⟩
        cases hsuccess : (services.executeRust r.world c.source).2.success <;>
          simp [rustResult, hsuccess]
      · have hnone : ownRuns c = [] := by rw [ownRuns, if_neg hsql, if_neg hrust]
        rw [if_neg hrust, if_neg hrust]
        exact ⟨_, rfl, ⟨_, rfl, rfl, rfl, iff_of_true rfl hnone⟩, (List.append_nil _).symm⟩

variable (services cells) in
/-- Looking up an id runs what the cell found has to run, or nothing. -/
theorem executeCell_spec (r : Running World) (cellId : String) : ∃ results runs,
    (executeCell services cells r cellId).cellResults = r.cellResults ++ results ∧
      (executeCell services cells r cellId).runs = r.runs ++ runs ∧
      (∀ result ∈ results, result.cellId = cellId) ∧ (∀ run ∈ runs, run.1 = cellId) ∧
      ∀ c, (cells.find? fun c => c.id = cellId) = some c → Reports c results ∧ runs = ownRuns c := by
  unfold executeCell
  cases hfind : cells.find? fun c => c.id = cellId with
  | none => exact ⟨[], [], by simp⟩
  | some c =>
    have hid : c.id = cellId := by simpa using List.find?_some hfind
    obtain ⟨results, hresults, hreports, hruns⟩ :=
      runCell_spec services { r with dagOrder := r.dagOrder ++ [cellId] } c
    rw [hid] at hresults hruns
    refine ⟨results, ownRuns c, hresults, hruns, ?_, ?_, ?_⟩
    · obtain ⟨result, rfl, hcell, -⟩ := hreports
      simpa using hcell.trans hid
    · unfold ownRuns
      split_ifs <;> simp [hid]
    · intro d hd
      obtain rfl := Option.some.inj hd
      exact ⟨hreports, rfl⟩

/-- What is reported and run for an id. -/
def reported (r : Running World) (id : String) : List CellRunResult × List (String × Run) :=
  (r.cellResults.filter fun result => result.cellId = id, r.runs.filter fun run => run.1 = id)

/-- Cells of other ids leave what is reported and run for an id as it is. -/
theorem reported_foldl_of_not_mem {ids : List String} {id : String} (h : id ∉ ids) :
    reported (ids.foldl (executeCell services cells) r) id = reported r id := by
  induction ids generalizing r with
  | nil => rfl
  | cons other ids ih =>
    rw [List.mem_cons, not_or] at h
    obtain ⟨results, runs, hresults, hruns, hof, hof', -⟩ :=
      executeCell_spec services cells r other
    rw [List.foldl_cons, ih h.2]
    have hnone : results.filter (fun result => result.cellId = id) = [] := by
      rw [List.filter_eq_nil_iff]
      intro result hresult
      simpa [hof result hresult] using Ne.symm h.1
    have hnone' : runs.filter (fun run => run.1 = id) = [] := by
      rw [List.filter_eq_nil_iff]
      intro run hrun
      simpa [hof' run hrun] using Ne.symm h.1
    unfold reported
    rw [hresults, hruns, List.filter_append, List.filter_append, hnone, hnone', List.append_nil,
      List.append_nil]

variable (services r) in
theorem reported_executeCell {c : CellSubmission}
    (hfind : (cells.find? fun d => d.id = c.id) = some c) :
    ∃ results, Reports c results ∧ reported (executeCell services cells r c.id) c.id =
      ((reported r c.id).1 ++ results, (reported r c.id).2 ++ ownRuns c) := by
  obtain ⟨results, runs, hresults, hruns, hof, hof', hown⟩ :=
    executeCell_spec services cells r c.id
  obtain ⟨hreports, rfl⟩ := hown c hfind
  refine ⟨results, hreports, ?_⟩
  have hall : results.filter (fun result => result.cellId = c.id) = results :=
    List.filter_eq_self.mpr fun result hresult => decide_eq_true (hof result hresult)
  have hall' : (ownRuns c).filter (fun run => run.1 = c.id) = ownRuns c :=
    List.filter_eq_self.mpr fun run hrun => decide_eq_true (hof' run hrun)
  unfold reported
  rw [hresults, hruns, List.filter_append, List.filter_append, hall, hall']

end Once

section Order
variable {notebook : NotebookSubmission} {c : CellSubmission}

theorem flatten_stageIds (r : List (List CellSubmission) × List CellSubmission) :
    (stageIds r).flatten = (r.1.flatten ++ r.2).map (·.id) := by
  unfold stageIds
  rw [List.flatten_append, List.map_append, List.map_flatten]
  split
  case isTrue hnil => rw [hnil, List.map_nil, List.flatten_nil]
  case isFalse => rw [List.flatten_singleton]

/-- A cell that has its id for itself stands once in the order of execution. -/
theorem exists_split_of_alone (hc : c.cellType ≠ "markdown")
    (halone : (notebook.cells.filter fun d => d.id = c.id) = [c]) : ∃ before after,
    (stageIds (stagesOf notebook)).flatten = before ++ c.id :: after ∧
      c.id ∉ before ∧ c.id ∉ after := by
  have hexec : (executableCells notebook).filter (fun d => d.id = c.id) = [c] := by
    rw [executableCells, List.filter_comm, halone]
    exact List.filter_cons_of_pos (decide_eq_true hc)
  have hkept : ∃ dropped, ((stagesOf notebook).1.flatten ++ (stagesOf notebook).2 ++ dropped).Perm
      (executableCells notebook) ∧ ∀ d ∈ dropped, d.id ∈ (stagesOf notebook).1.flatten.map (·.id) :=
    rounds_perm notebook.cells.length [] _
  obtain ⟨dropped, hperm, hdropped⟩ := hkept
  have hsingle := hperm.filter fun d => d.id = c.id
  rw [hexec, List.filter_append] at hsingle
  have heq := List.perm_singleton.mp hsingle
  -- What is dropped has the id of a cell in the stages, and there is one cell with this id only.
  have hnone : dropped.filter (fun d => d.id = c.id) = [] := by
    rw [List.filter_eq_nil_iff]
    intro d hd hid
    obtain ⟨e, he, hsame⟩ := List.mem_map.mp (hdropped d hd)
    have hstaged : e ∈ ((stagesOf notebook).1.flatten ++ (stagesOf notebook).2).filter
        fun d => d.id = c.id :=
      List.mem_filter.mpr ⟨List.mem_append_left _ he, by simpa [hsame] using hid⟩
    have hboth : d ∈ dropped.filter fun d => d.id = c.id := List.mem_filter.mpr ⟨hd, hid⟩
    have hlength := congrArg List.length heq
    have hpos := List.length_pos_of_mem hstaged
    have hpos' := List.length_pos_of_mem hboth
    rw [List.length_append, List.length_singleton] at hlength
    omega
  rw [hnone, List.append_nil, List.filter_eq_cons_iff] at heq
  obtain ⟨before, after, hsplit, hbefore, -, hafter⟩ := heq
  refine ⟨before.map (·.id), after.map (·.id), ?_, ?_, ?_⟩
  · rw [flatten_stageIds, hsplit, List.map_append, List.map_cons]
  · intro hmem
    obtain ⟨d, hd, hid⟩ := List.mem_map.mp hmem
    exact hbefore d hd (decide_eq_true hid)
  · intro hmem
    obtain ⟨d, hd, hid⟩ := List.mem_map.mp hmem
    exact List.filter_eq_nil_iff.mp hafter d hd (decide_eq_true hid)

variable {World : Type} {services : Services World} {s : Staging} {world : World}

variable (services world) in
theorem reported_executeStages (hc : c.cellType ≠ "markdown")
    (halone : (notebook.cells.filter fun d => d.id = c.id) = [c])
    (hstages : s.stages.map (·.cellIds) = stageIds (stagesOf notebook)) :
    ∃ results, Reports c results ∧
      reported (executeStages services notebook (planOf notebook s) world) c.id =
        (results, ownRuns c) := by
  obtain ⟨before, after, hsplit, hbefore, hafter⟩ := exists_split_of_alone hc halone
  have hids : (planOf notebook s).stages.flatMap (·.cellIds) = before ++ c.id :: after := by
    rw [← hsplit, ← hstages, List.flatMap_def]
    rfl
  have hfind : (notebook.cells.find? fun d => d.id = c.id) = some c := by
    rw [← List.head?_filter, halone, List.head?_cons]
  let r : Running World :=
    before.foldl (executeCell services notebook.cells) ⟨[], [], true, world, []⟩
  have hnone : reported r c.id = ([], []) := reported_foldl_of_not_mem hbefore
  obtain ⟨results, hreports, hreported⟩ := reported_executeCell services r hfind
  refine ⟨results, hreports, ?_⟩
  unfold executeStages
  rw [← List.foldl_flatMap, hids, List.foldl_append, List.foldl_cons,
    reported_foldl_of_not_mem hafter, hreported, hnone]
  rfl

end Order

/-- Every notebook is run to its end. A cell that has its id for itself is reported once, and its
own source is run once if it is SQL or Rust and not at all if it is of another type. -/
theorem executeNotebook_runs_once {World : Type} (services : Services World)
    (notebook : NotebookSubmission) (world : World) : ∃ result r,
    (∀ fuel, notebook.cells.length ≤ fuel →
        executeNotebook services fuel notebook world = some (result, r)) ∧
      ∀ c, c.cellType ≠ "markdown" → (notebook.cells.filter fun d => d.id = c.id) = [c] →
        (r.runs.filter fun run => run.1 = c.id) = ownRuns c ∧
          Reports c (result.cellResults.filter fun result => result.cellId = c.id) := by
  obtain ⟨s, hloop, hstages, -⟩ := exists_staging notebook
  let r := executeStages services notebook (planOf notebook s) world
  refine ⟨resultOf notebook (planOf notebook s) r, r, ?_, ?_⟩
  · intro fuel hfuel
    rw [executeNotebook, buildExecutionPlan, hloop fuel hfuel]
    rfl
  · intro c hc halone
    obtain ⟨results, hreports, hreported⟩ :=
      reported_executeStages services world hc halone hstages
    obtain ⟨hresults, hruns⟩ := Prod.mk.inj hreported
    refine ⟨hruns, ?_⟩
    rw [← hresults] at hreports
    exact hreports

section Examples

/-- Services that give one row, or print nothing. -/
def quietServices : Services Unit where
  sql _ _ := ((), .ok [1])
  executeRust _ _ := ((), ⟨true, "", none⟩)

/-- A query and a plot that needs it. -/
def plotted : NotebookSubmission where
  id := "plotted"
  name := "Plotted"
  cells := [⟨"orders", "sql", "SELECT * FROM orders", []⟩, ⟨"plot", "python", "plot()", ["orders"]⟩]

theorem executeNotebook_runs_once_plotted : ∃ result r,
    executeNotebook quietServices 2 plotted () = some (result, r) ∧
      (r.runs.filter fun run => run.1 = "orders") = [("orders", .sql "SELECT * FROM orders")] := by
  obtain ⟨result, r, hrun, honce⟩ := executeNotebook_runs_once quietServices plotted ()
  exact ⟨result, r, hrun 2 (Nat.le_refl 2),
    (honce ⟨"orders", "sql", "SELECT * FROM orders", []⟩ (by decide) rfl).1⟩

/-- The source of the plot is never run. -/
theorem not_runs_plot : ∃ result r, executeNotebook quietServices 2 plotted () = some (result, r) ∧
    ∃ c ∈ plotted.cells, c.cellType ≠ "markdown" ∧
      ¬ ∃ run ∈ r.runs, run = (c.id, .sql c.source) ∨ run = (c.id, .rust c.source) := by
  refine ⟨_, _, rfl, ⟨"plot", "python", "plot()", ["orders"]⟩, List.mem_of_getElem? (i := 1) rfl,
    by decide, ?_⟩
  change ¬ ∃ run ∈ [("orders", Run.sql "SELECT * FROM orders")], _
  simp

end Examples
end RustLake.Notebook
