import RustLake.Notebook.Plan
import RustLake.Order.Dependency

/-! Which notebooks are put in stages by their dependencies. Dependencies go by ids, which several
cells may share, and the cells that are documentation only are in no stage. -/
namespace RustLake.Notebook
open Rounds Dependency

variable {notebook : NotebookSubmission} {s : Staging}

/-- The ids that the cells of an id depend on. -/
def dependencies (notebook : NotebookSubmission) (id : String) : List String :=
  (notebook.cells.filter fun c => c.id = id).flatMap (·.dependsOn)

/-- A cell depends on another, directly or through markdown cells. -/
inductive DependsVia (notebook : NotebookSubmission) : CellSubmission → CellSubmission → Prop
  | direct {c d : CellSubmission} : d ∈ notebook.cells → d.id ∈ c.dependsOn → DependsVia notebook c d
  | through {c m d : CellSubmission} : m ∈ notebook.cells → m.cellType = "markdown" →
      m.id ∈ c.dependsOn → DependsVia notebook m d → DependsVia notebook c d

/-- Every executable cell is in a stage, behind the stages of all executable cells that it depends
on, and no cell is left for an unresolved stage. -/
structure Staged (notebook : NotebookSubmission) (s : Staging) : Prop where
  resolved : s.remaining = []
  covers : (s.stages.flatMap (·.cellIds)).Perm ((executableCells notebook).map (·.id))
  behind : ∀ c ∈ executableCells notebook, ∀ d ∈ executableCells notebook, DependsVia notebook c d →
    ∀ (i j : ℕ) (later earlier : ExecutionStage), s.stages[i]? = some later →
      s.stages[j]? = some earlier → c.id ∈ later.cellIds → d.id ∈ earlier.cellIds → j < i

/-- So many executable cells depend on one another in a row behind a cell, all of them directly. -/
def RowBehind (notebook : NotebookSubmission) : ℕ → CellSubmission → Prop :=
  Chain CellSubmission.id CellSubmission.dependsOn (executableCells notebook)

/-- Executable cells depend on executable cells, those that share an id have the same rows behind
them, and what a cell depends on through markdown cells has shorter ones. -/
structure Stageable (notebook : NotebookSubmission) : Prop where
  named : ∀ c ∈ executableCells notebook, ∀ dep ∈ c.dependsOn,
    ∃ d ∈ executableCells notebook, d.id = dep
  same : ∀ c ∈ executableCells notebook, ∀ d ∈ executableCells notebook, c.id = d.id →
    ∀ n, RowBehind notebook n c → RowBehind notebook n d
  shorter : ∀ c ∈ executableCells notebook, ∀ d ∈ executableCells notebook, DependsVia notebook c d →
    ∀ n, RowBehind notebook n d → RowBehind notebook (n + 1) c

section Rows

/-- Without cycles no row goes on for ever. -/
theorem exists_not_rowBehind (hacyclic : ∀ id, ¬ DependsOn (dependencies notebook) id id)
    {c : CellSubmission} (hc : c ∈ executableCells notebook) : ∃ n, ¬ RowBehind notebook n c := by
  have hacc : Acc (fun a b => a ∈ dependencies notebook b) c.id := by
    have hall : ∀ id, Upstream (dependencies notebook) c.id id →
        id ∈ c.id :: notebook.cells.flatMap (·.dependsOn) := by
      intro id hid
      rcases Relation.ReflTransGen.cases_tail hid with rfl | ⟨between, -, hdep⟩
      · exact List.mem_cons_self
      · obtain ⟨d, hd, hdep⟩ := List.mem_flatMap.mp hdep
        exact List.mem_cons_of_mem _ (List.mem_flatMap.mpr ⟨d, List.mem_of_mem_filter hd, hdep⟩)
    exact (acc_iff_acyclic hall).mpr fun id _ => hacyclic id
  generalize hid : c.id = id at hacc
  induction hacc generalizing c with
  | intro id _ ih =>
    refine exists_not_chain fun d hd hdep => ih d.id ?_ hd rfl
    have hcell : c ∈ notebook.cells.filter fun c => c.id = id :=
      List.mem_filter.mpr ⟨(mem_executableCells.mp hc).1, decide_eq_true hid⟩
    exact List.mem_flatMap.mpr ⟨c, hcell, hdep⟩

theorem Stageable.leveled (h : Stageable notebook)
    (hacyclic : ∀ id, ¬ DependsOn (dependencies notebook) id id) :
    Leveled CellSubmission.id CellSubmission.dependsOn (executableCells notebook) where
  named := h.named
  same := h.same
  finite _ hc := exists_not_rowBehind hacyclic hc

end Rows

section Stages
variable (hstages : s.stages.map (·.cellIds) = stageIds (stagesOf notebook))
  (hremaining : s.remaining = (stagesOf notebook).2) (hresolved : s.remaining = [])
include hstages hremaining hresolved

theorem map_stages : s.stages.map (·.cellIds) = (stagesOf notebook).1.map (·.map (·.id)) := by
  have hrest : (stagesOf notebook).2 = [] := hremaining.symm.trans hresolved
  rw [hstages, stageIds, if_pos hrest, List.append_nil]

theorem exists_round {i : ℕ} {stage : ExecutionStage} (hstage : s.stages[i]? = some stage) :
    ∃ cells, (stagesOf notebook).1[i]? = some cells ∧ stage.cellIds = cells.map (·.id) := by
  have hmap := congrArg (·[i]?) (map_stages hstages hremaining hresolved)
  simp only [List.getElem?_map, hstage, Option.map_some] at hmap
  obtain ⟨cells, hcells, hids⟩ := Option.map_eq_some_iff.mp hmap.symm
  exact ⟨cells, hcells, hids.symm⟩

theorem exists_stage {i : ℕ} {cells : List CellSubmission}
    (hcells : (stagesOf notebook).1[i]? = some cells) :
    ∃ stage, s.stages[i]? = some stage ∧ stage.cellIds = cells.map (·.id) := by
  have hmap := congrArg (·[i]?) (map_stages hstages hremaining hresolved)
  simp only [List.getElem?_map, hcells, Option.map_some] at hmap
  exact Option.map_eq_some_iff.mp hmap

theorem flatMap_stages :
    s.stages.flatMap (·.cellIds) = (stagesOf notebook).1.flatten.map (·.id) := by
  rw [List.flatMap_def, map_stages hstages hremaining hresolved, List.map_flatten]

/-- Rounds that have as many ids as there are cells drop none of them. -/
theorem perm_of_covers
    (hcovers : (s.stages.flatMap (·.cellIds)).Perm ((executableCells notebook).map (·.id))) :
    (stagesOf notebook).1.flatten.Perm (executableCells notebook) := by
  have hkept : ∃ dropped, ((stagesOf notebook).1.flatten ++ (stagesOf notebook).2 ++ dropped).Perm
      (executableCells notebook) ∧ _ := rounds_perm notebook.cells.length [] _
  obtain ⟨dropped, hperm, -⟩ := hkept
  have hrest : (stagesOf notebook).2 = [] := hremaining.symm.trans hresolved
  rw [hrest, List.append_nil] at hperm
  have hlength := hcovers.length_eq
  rw [flatMap_stages hstages hremaining hresolved, List.length_map, List.length_map,
    ← hperm.length_eq, List.length_append] at hlength
  have hnil : dropped = [] := List.length_eq_zero_iff.mp (by omega)
  rwa [hnil, List.append_nil] at hperm

omit hresolved in
theorem Stageable.staged (h : Stageable notebook)
    (hacyclic : ∀ id, ¬ DependsOn (dependencies notebook) id id) : Staged notebook s := by
  obtain ⟨hrest, hperm, hrows⟩ := (h.leveled hacyclic).rounds (n := notebook.cells.length)
    (List.length_filter_le _ _)
  have hresolved : s.remaining = [] := hremaining.trans hrest
  refine ⟨hresolved, ?_, ?_⟩
  · rw [flatMap_stages hstages hremaining hresolved]
    exact hperm.map _
  · intro c hc d hd hvia i j later earlier hlater hearlier hcl hde
    obtain ⟨cells, hcells, hids⟩ := exists_round hstages hremaining hresolved hlater
    obtain ⟨cells', hcells', hids'⟩ := exists_round hstages hremaining hresolved hearlier
    rw [hids] at hcl
    rw [hids'] at hde
    obtain ⟨e, he, hid⟩ := List.mem_map.mp hcl
    obtain ⟨f, hf, hid'⟩ := List.mem_map.mp hde
    have hexec : e ∈ executableCells notebook := (stage_spec hcells).1 he
    have hexec' : f ∈ executableCells notebook := (stage_spec hcells').1 hf
    -- The rows behind an id are as long as its stage tells, and a dependency has shorter ones.
    have hrow : RowBehind notebook j d :=
      h.same f hexec' d hd hid' j ((hrows j cells' hcells' f hf j).mpr (Nat.le_refl j))
    have hlonger := h.same c hc e hexec hid.symm (j + 1) (h.shorter c hc d hd hvia j hrow)
    exact (hrows i cells hcells e he (j + 1)).mp hlonger

omit hresolved in
theorem Staged.stageable (h : Staged notebook s) : Stageable notebook := by
  have hperm := perm_of_covers hstages hremaining h.resolved h.covers
  have hround : ∀ c ∈ executableCells notebook, ∃ (i : ℕ) (cells : List CellSubmission),
      (stagesOf notebook).1[i]? = some cells ∧ c ∈ cells := by
    intro c hc
    obtain ⟨cells, hcells, hin⟩ := List.mem_flatten.mp (hperm.mem_iff.mpr hc)
    obtain ⟨i, hi⟩ := List.mem_iff_getElem?.mp hcells
    exact ⟨i, cells, hi, hin⟩
  have hbehind : ∀ (i j : ℕ) (cells cells' : List CellSubmission),
      (stagesOf notebook).1[i]? = some cells → (stagesOf notebook).1[j]? = some cells' →
      ∀ c ∈ cells, ∀ d ∈ cells', DependsVia notebook c d → j < i := by
    intro i j cells cells' hcells hcells' c hc d hd hvia
    obtain ⟨later, hlater, hids⟩ := exists_stage hstages hremaining h.resolved hcells
    obtain ⟨earlier, hearlier, hids'⟩ := exists_stage hstages hremaining h.resolved hcells'
    exact h.behind c ((stage_spec hcells).1 hc) d ((stage_spec hcells').1 hd) hvia i j later earlier
      hlater hearlier (hids ▸ List.mem_map_of_mem hc) (hids' ▸ List.mem_map_of_mem hd)
  have hrows : ∀ (i : ℕ) (cells : List CellSubmission), (stagesOf notebook).1[i]? = some cells →
      ∀ c ∈ cells, ∀ n, RowBehind notebook n c ↔ n ≤ i := by
    intro i cells hcells c hc n
    refine chain_iff_of_behind hperm ?_ hcells hc n
    intro i j cells cells' hcells hcells' c hc d hd hdep
    have hmem := (mem_executableCells.mp ((stage_spec hcells').1 hd)).1
    exact hbehind i j cells cells' hcells hcells' c hc d hd (.direct hmem hdep)
  refine ⟨?_, ?_, ?_⟩
  · intro c hc dep hdep
    obtain ⟨i, cells, hcells, hin⟩ := hround c hc
    have hmet := ((stage_spec hcells).2 c hin).1 dep hdep
    rw [List.nil_append] at hmet
    obtain ⟨d, hd, hid⟩ := List.mem_map.mp hmet
    obtain ⟨stage, hstage, hd⟩ := List.mem_flatten.mp hd
    have hall : d ∈ (stagesOf notebook).1.flatten :=
      List.mem_flatten.mpr ⟨stage, List.mem_of_mem_take hstage, hd⟩
    exact ⟨d, hperm.mem_iff.mp hall, hid⟩
  · intro c hc d hd hid n hrow
    obtain ⟨i, cells, hcells, hin⟩ := hround c hc
    obtain ⟨j, cells', hcells', hin'⟩ := hround d hd
    -- A round takes no id that an earlier one has taken.
    have hle : i ≤ j := by
      by_contra hlt
      refine ((stage_spec hcells).2 c hin).2.2 (hid ▸ List.mem_map_of_mem ?_)
      refine List.mem_flatten.mpr ⟨cells', List.mem_iff_getElem?.mpr ⟨j, ?_⟩, hin'⟩
      rw [List.getElem?_take_of_lt (Nat.lt_of_not_le hlt)]
      exact hcells'
    have hn := (hrows i cells hcells c hin n).mp hrow
    exact (hrows j cells' hcells' d hin' n).mpr (by omega)
  · intro c hc d hd hvia n hrow
    obtain ⟨i, cells, hcells, hin⟩ := hround c hc
    obtain ⟨j, cells', hcells', hin'⟩ := hround d hd
    have hlt := hbehind i j cells cells' hcells hcells' c hin d hin' hvia
    have hn := (hrows j cells' hcells' d hin' n).mp hrow
    exact (hrows i cells hcells c hin (n + 1)).mpr (by omega)

end Stages

/-- Where no two cells share an id, no executable cell may depend on a markdown cell. -/
theorem stageable_iff_of_nodup (hids : (notebook.cells.map (·.id)).Nodup)
    (hnames : ∀ c ∈ notebook.cells, ∀ dep ∈ c.dependsOn, ∃ d ∈ notebook.cells, d.id = dep) :
    Stageable notebook ↔ ∀ c ∈ executableCells notebook, ∀ d ∈ notebook.cells,
      d.id ∈ c.dependsOn → d.cellType ≠ "markdown" := by
  have hunique : ∀ c ∈ notebook.cells, ∀ d ∈ notebook.cells, c.id = d.id → c = d :=
    fun c hc d hd hid => List.inj_on_of_nodup_map hids hc hd hid
  constructor
  · intro h c hc d hd hdep
    obtain ⟨e, he, hid⟩ := h.named c hc d.id hdep
    obtain ⟨he, htype⟩ := mem_executableCells.mp he
    rwa [← hunique e he d hd hid]
  · intro h
    refine ⟨?_, ?_, ?_⟩
    · intro c hc dep hdep
      obtain ⟨d, hd, rfl⟩ := hnames c (mem_executableCells.mp hc).1 dep hdep
      exact ⟨d, mem_executableCells.mpr ⟨hd, h c hc d hd hdep⟩, rfl⟩
    · intro c hc d hd hid n hrow
      rwa [← hunique c (mem_executableCells.mp hc).1 d (mem_executableCells.mp hd).1 hid]
    · intro c hc d hd hvia n hrow
      cases hvia with
      | direct _ hdep => exact .succ hd hdep hrow
      | through hm htype hdep => exact absurd htype (h c hc _ hm hdep)

/-- The plan of a notebook without cycles is staged exactly where the notebook is stageable. -/
theorem staged_iff (notebook : NotebookSubmission)
    (hacyclic : ∀ id, ¬ DependsOn (dependencies notebook) id id) :
    ∃ s, (∀ fuel, notebook.cells.length ≤ fuel →
        stageLoop fuel (start notebook) = some s ∧
          buildExecutionPlan fuel notebook = some (planOf notebook s)) ∧
      (Staged notebook s ↔ Stageable notebook) := by
  obtain ⟨s, hloop, hstages, hremaining⟩ := exists_staging notebook
  refine ⟨s, fun fuel hfuel => ⟨hloop fuel hfuel, ?_⟩, ?_⟩
  · rw [buildExecutionPlan, hloop fuel hfuel]
    rfl
  · exact ⟨Staged.stageable hstages hremaining, fun h => h.staged hstages hremaining hacyclic⟩

section Examples

def cell (id cellType : String) (dependsOn : List String) : CellSubmission where
  id := id
  cellType := cellType
  source := "SELECT 1"
  dependsOn := dependsOn

/-- A query over another one, under a heading. -/
def report : NotebookSubmission where
  id := "report"
  name := "Report"
  cells := [cell "heading" "markdown" [], cell "orders" "sql" [], cell "totals" "sql" ["orders"]]

/-- The same with the first query behind the heading. -/
def headedReport : NotebookSubmission where
  id := "report"
  name := "Report"
  cells := [cell "heading" "markdown" [], cell "orders" "sql" ["heading"],
    cell "totals" "sql" ["orders"]]

theorem not_dependsOn_of_rank (rank : String → ℕ)
    (h : ∀ c ∈ notebook.cells, ∀ dep ∈ c.dependsOn, rank dep < rank c.id) (id : String) :
    ¬ DependsOn (dependencies notebook) id id := by
  have hless : ∀ a, ∀ b ∈ dependencies notebook a, rank b < rank a := by
    intro a b hb
    obtain ⟨c, hc, hdep⟩ := List.mem_flatMap.mp hb
    obtain ⟨hc, hid⟩ := List.mem_filter.mp hc
    rw [← of_decide_eq_true hid]
    exact h c hc b hdep
  exact acyclic_of_lt hless id id Relation.ReflTransGen.refl

def reportRank (id : String) : ℕ := if id = "totals" then 2 else if id = "orders" then 1 else 0

theorem stageable_report : Stageable report := by
  rw [stageable_iff_of_nodup (by decide) (by decide)]
  decide

theorem staged_iff_report : ∃ s,
    buildExecutionPlan 3 report = some (planOf report s) ∧ Staged report s := by
  have hacyclic : ∀ id, ¬ DependsOn (dependencies report) id id :=
    not_dependsOn_of_rank reportRank (by decide)
  obtain ⟨s, hplan, hiff⟩ := staged_iff report hacyclic
  exact ⟨s, (hplan 3 (Nat.le_refl 3)).2, hiff.mpr stageable_report⟩

/-- The queries wait for the heading without end and are left for the unresolved stage. -/
theorem not_staged_headedReport :
    (∀ c ∈ headedReport.cells, ∀ dep ∈ c.dependsOn, ∃ d ∈ headedReport.cells, d.id = dep) ∧
      (∀ id, ¬ DependsOn (dependencies headedReport) id id) ∧
      ∃ s, stageLoop 3 (start headedReport) = some s ∧ ¬ Staged headedReport s := by
  refine ⟨by decide, not_dependsOn_of_rank reportRank (by decide), _, rfl, ?_⟩
  intro h
  exact absurd h.resolved (List.cons_ne_nil _ _)

end Examples
end RustLake.Notebook
