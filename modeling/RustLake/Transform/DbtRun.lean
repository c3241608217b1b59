import RustLake.Order.Dependency
import RustLake.Order.Passes
import RustLake.Rust.Basic
import RustLake.Text.Replace

/-! A run of all models of a dbt project: passes over the models, each of which runs those whose
dependencies have been run. -/
namespace RustLake.Transform
open Text

structure DbtModel where
  name : List Char
  sql : List Char
  dependsOn : List (List Char)
  materialization : String
deriving DecidableEq

structure DbtRunResponse where
  model : List Char
  status : String
  compiledSql : List Char
  rowCount : ℕ
  error : Option String
deriving DecidableEq

/-- What the engine answers to the statement of a model: the numbers of rows of the batches of its
result, or an error. A model is run once, and what was registered before is in the answer. -/
abbrev Answers := DbtModel → List Char → Except String (List ℕ)

/-- The models left, the results, the names of the models run, and the tables registered. -/
structure DbtRun where
  remaining : List DbtModel
  results : List DbtRunResponse
  executed : List (List Char)
  registered : List (List Char)

/-- A statement with names in place of the references to the models. -/
def compileModel (model : DbtModel) : List Char :=
  model.dependsOn.foldl (fun compiled dep =>
    let once := replaceAll ("ref('".toList ++ dep ++ "')".toList) ('"' :: dep ++ ['"']) compiled
    replaceAll ("ref(\"".toList ++ dep ++ "\")".toList) ('"' :: dep ++ ['"']) once) model.sql

section Run
variable (answers : Answers)

def runModel (model : DbtModel) : DbtRunResponse :=
  let compiled := compileModel model
  match answers model compiled with
  | .ok batches => ⟨model.name, "success", compiled, batches.sum, none⟩
  | .error e => ⟨model.name, "error", compiled, 0, some e⟩

/-- The result of a model is registered as a table if it has a batch. -/
def registers (model : DbtModel) : Bool :=
  match answers model (compileModel model) with
  | .ok batches => (model.materialization = "table" ∨ model.materialization = "incremental") ∧
      batches ≠ []
  | .error _ => false

/-- One turn of the loop over the models left, which are collected anew. -/
def DbtRun.visit (s : DbtRun) (model : DbtModel) : DbtRun :=
  if ∀ d ∈ model.dependsOn, d ∈ s.executed then
    { s with
      results := s.results ++ [runModel answers model]
      executed := s.executed ++ [model.name]
      registered := if registers answers model then s.registered ++ [model.name] else s.registered }
  else { s with remaining := s.remaining ++ [model] }

def DbtRun.pass (s : DbtRun) : DbtRun :=
  if s.remaining.isEmpty then s
  else s.remaining.foldl (DbtRun.visit answers) { s with remaining := [] }

def DbtRun.passes : ℕ → DbtRun → DbtRun
  | 0, s => s
  | n + 1, s => DbtRun.passes n (s.pass answers)

structure DbtRunAllResponse where
  results : List DbtRunResponse
  successCount : ℕ
  failureCount : ℕ

def runModels (models : List DbtModel) : DbtRun := DbtRun.passes answers 20 ⟨models, [], [], []⟩

def runAllDbtModels (project : Option (List DbtModel)) : Except (ℕ × String) DbtRunAllResponse :=
  match project with
  | none => .error (404, "No dbt project uploaded")
  | some models =>
    let results := (runModels answers models).results
    .ok {
      results := results
      successCount := (results.filter (·.status = "success")).length
      failureCount := (results.filter (·.status = "error")).length }

end Run

/-- The dependencies of a model, by names. -/
def dependencies (models : List DbtModel) (name : List Char) : List (List Char) :=
  ((models.find? (·.name = name)).map DbtModel.dependsOn).getD []

/-- A model was run, with or without success. -/
def DbtRunResponse.Attempted (r : DbtRunResponse) : Prop := r.status = "success" ∨ r.status = "error"

/-- Each model is attempted at most once and only after all its dependencies have succeeded, if none
that it depends on failed it is attempted, and in any case it has a result. -/
structure RunsAll (models : List DbtModel) (results : List DbtRunResponse) : Prop where
  once : ((results.filter fun r => r.status = "success" ∨ r.status = "error").map (·.model)).Nodup
  ordered : ∀ before r after, results = before ++ r :: after → r.Attempted → ∀ m ∈ models,
    m.name = r.model → ∀ d ∈ m.dependsOn, ∃ r' ∈ before, r'.model = d ∧ r'.status = "success"
  attempted : ∀ m ∈ models, (∀ d, Dependency.DependsOn (dependencies models) m.name d →
    ∀ r ∈ results, r.model = d → r.status ≠ "error") → ∃ r ∈ results, r.model = m.name ∧ r.Attempted
  complete : ∀ m ∈ models, ∃ r ∈ results, r.model = m.name

/-- The models have different names and depend on each other only. -/
structure Closed (models : List DbtModel) : Prop where
  names : (models.map DbtModel.name).Nodup
  closed : ∀ m ∈ models, ∀ d ∈ m.dependsOn, ∃ m' ∈ models, m'.name = d

/-- No model fails that another one depends on, and no chain of dependencies has 20 steps against the
order of the list. -/
def RunsThrough (answers : Answers) (models : List DbtModel) : Prop :=
  (∀ m ∈ models, ∀ d ∈ models, d.name ∈ m.dependsOn →
      ∃ batches, answers d (compileModel d) = .ok batches) ∧
    ∀ m ∈ models, ¬ Passes.Late DbtModel.name DbtModel.dependsOn models 20 m

section Spec
variable (answers : Answers) {models : List DbtModel}

/-- A pass over models: what it takes is run, and the rest is left. -/
theorem foldl_visit (l : List DbtModel) (s : DbtRun) :
    (l.foldl (DbtRun.visit answers) s).remaining =
        s.remaining ++ (Passes.pass DbtModel.name DbtModel.dependsOn s.executed l).2 ∧
      (l.foldl (DbtRun.visit answers) s).results = s.results ++
        (Passes.pass DbtModel.name DbtModel.dependsOn s.executed l).1.map (runModel answers) ∧
      (l.foldl (DbtRun.visit answers) s).executed = s.executed ++
        (Passes.pass DbtModel.name DbtModel.dependsOn s.executed l).1.map DbtModel.name := by
  induction l generalizing s with
  | nil => simp [Passes.pass]
  | cons model rest ih =>
    rw [List.foldl_cons]
    obtain ⟨hremaining, hresults, hexecuted⟩ := ih (s.visit answers model)
    rw [hremaining, hresults, hexecuted]
    unfold DbtRun.visit
    rw [Passes.pass]
    split_ifs <;> simp

theorem DbtRun.pass_eq (s : DbtRun) :
    (s.pass answers).remaining =
        (Passes.pass DbtModel.name DbtModel.dependsOn s.executed s.remaining).2 ∧
      (s.pass answers).results = s.results ++
        (Passes.pass DbtModel.name DbtModel.dependsOn s.executed s.remaining).1.map
          (runModel answers) ∧
      (s.pass answers).executed = s.executed ++
        (Passes.pass DbtModel.name DbtModel.dependsOn s.executed s.remaining).1.map
          DbtModel.name := by
  unfold DbtRun.pass
  split_ifs with hempty
  · rw [List.isEmpty_iff.mp hempty]
    simp [Passes.pass]
  · simpa using foldl_visit answers s.remaining { s with remaining := [] }

theorem DbtRun.passes_succ (n : ℕ) (s : DbtRun) :
    DbtRun.passes answers (n + 1) s = (DbtRun.passes answers n s).pass answers := by
  induction n generalizing s with
  | zero => rfl
  | succ n ih => exact ih (s.pass answers)

/-- The models run are those that the passes take, in the same order. -/
theorem passes_eq (n : ℕ) :
    (DbtRun.passes answers n ⟨models, [], [], []⟩).remaining =
        (Passes.passes DbtModel.name DbtModel.dependsOn models n).2 ∧
      (DbtRun.passes answers n ⟨models, [], [], []⟩).results =
        (Passes.passes DbtModel.name DbtModel.dependsOn models n).1.map (runModel answers) ∧
      (DbtRun.passes answers n ⟨models, [], [], []⟩).executed =
        (Passes.passes DbtModel.name DbtModel.dependsOn models n).1.map DbtModel.name := by
  induction n with
  | zero => exact ⟨rfl, rfl, rfl⟩
  | succ n ih =>
    obtain ⟨hremaining, hresults, hexecuted⟩ := ih
    obtain ⟨hremaining', hresults', hexecuted'⟩ :=
      (DbtRun.passes answers n ⟨models, [], [], []⟩).pass_eq answers
    rw [DbtRun.passes_succ, hremaining', hresults', hexecuted', hremaining, hresults, hexecuted]
    refine ⟨rfl, ?_, ?_⟩ <;> simp [Passes.passes]

theorem results_runAllDbtModels {response : DbtRunAllResponse}
    (h : runAllDbtModels answers (some models) = .ok response) :
    response.results = (runModels answers models).results := by rw [← Except.ok.inj h]

@[simp] theorem runModel_model (m : DbtModel) : (runModel answers m).model = m.name := by
  unfold runModel
  dsimp only
  split <;> rfl

theorem attempted_runModel (m : DbtModel) : (runModel answers m).Attempted := by
  unfold runModel DbtRunResponse.Attempted
  dsimp only
  split
  · exact Or.inl rfl
  · exact Or.inr rfl

theorem runModel_success_iff (m : DbtModel) : (runModel answers m).status = "success" ↔
    ∃ batches, answers m (compileModel m) = .ok batches := by
  unfold runModel
  dsimp only
  cases answers m (compileModel m) with
  | ok batches => exact iff_of_true rfl ⟨batches, rfl⟩
  | error e =>
    refine iff_of_false (by simp) ?_
    rintro ⟨batches, heq⟩
    cases heq

end Spec

/-- A run of a project is as it should be exactly when no model fails that another one depends on, and
20 passes are enough. -/
theorem runsAll_iff (answers : Answers) (models : List DbtModel) (h : Closed models) :
    (∃ response, runAllDbtModels answers (some models) = .ok response ∧
      RunsAll models response.results) ↔ RunsThrough answers models := by
  obtain ⟨-, hresults, -⟩ := @passes_eq answers models 20
  set taken := (Passes.passes DbtModel.name DbtModel.dependsOn models 20).1
  have hmem : ∀ m, m ∈ taken ↔
      m ∈ models ∧ ¬ Passes.Late DbtModel.name DbtModel.dependsOn models 20 m := fun m =>
    Passes.mem_passes_iff h.names h.closed
  have hsame : ∀ m ∈ models, ∀ m' ∈ models, m.name = m'.name → m = m' := fun m hm m' hm' =>
    List.inj_on_of_nodup_map h.names hm hm'
  have hrun : (∃ response, runAllDbtModels answers (some models) = .ok response ∧
      RunsAll models response.results) ↔ RunsAll models (taken.map (runModel answers)) := by
    rw [← hresults]
    constructor
    · rintro ⟨response, heq, hruns⟩
      rwa [results_runAllDbtModels answers heq] at hruns
    · exact fun hruns => ⟨_, rfl, hruns⟩
  rw [hrun]
  constructor
  · intro hruns
    have htaken : ∀ m ∈ models, m ∈ taken := by
      intro m hm
      obtain ⟨r, hr, hname⟩ := hruns.complete m hm
      obtain ⟨m', hm', rfl⟩ := List.mem_map.mp hr
      rw [runModel_model] at hname
      rwa [← hsame m' ((hmem m').mp hm').1 m hm hname]
    refine ⟨fun m hm d hd hneeds => ?_, fun m hm => ((hmem m).mp (htaken m hm)).2⟩
    obtain ⟨x, y, hsplit⟩ := List.append_of_mem (htaken m hm)
    obtain ⟨r, hr, hname, hstatus⟩ := hruns.ordered (x.map (runModel answers))
      (runModel answers m) (y.map (runModel answers)) (by rw [hsplit, List.map_append, List.map_cons])
      (attempted_runModel answers m) m hm (runModel_model answers m).symm _ hneeds
    obtain ⟨m', hm', rfl⟩ := List.mem_map.mp hr
    rw [runModel_model] at hname
    have hmem' : m' ∈ taken := by
      rw [hsplit]
      exact List.mem_append_left _ hm'
    obtain rfl := hsame m' ((hmem m').mp hmem').1 d hd hname
    exact (runModel_success_iff answers m').mp hstatus
  · rintro ⟨hok, hlate⟩
    have htaken : ∀ m ∈ models, runModel answers m ∈ taken.map (runModel answers) := fun m hm =>
      List.mem_map_of_mem ((hmem m).mpr ⟨hm, hlate m hm⟩)
    refine ⟨?_, ?_, fun m hm _ => ⟨_, htaken m hm, runModel_model answers m,
      attempted_runModel answers m⟩, fun m hm => ⟨_, htaken m hm, runModel_model answers m⟩⟩
    · have hnames : (taken.map (runModel answers)).map (·.model) = taken.map DbtModel.name := by
        simp
      have hnodup : (taken.map DbtModel.name).Nodup := Passes.nodup_passes h.names 20
      rw [← hnames] at hnodup
      exact hnodup.sublist (List.Sublist.map _ List.filter_sublist)
    · intro before r after hsplit _ m hm hname d hd
      obtain ⟨x, rest, hx, rfl, hrest⟩ := List.map_eq_append_iff.mp hsplit
      obtain ⟨a, y, rfl, rfl, rfl⟩ := List.map_eq_cons_iff.mp hrest
      have ha : a ∈ taken := by simp [hx]
      rw [runModel_model] at hname
      obtain rfl := hsame m hm a ((hmem a).mp ha).1 hname
      obtain ⟨b, hb, rfl⟩ := List.mem_map.mp (Passes.needs_of_passes hx d hd)
      have hbtaken : b ∈ taken := by simp [hx, hb]
      exact ⟨runModel answers b, List.mem_map_of_mem hb, runModel_model answers b,
        (runModel_success_iff answers b).mpr (hok m hm b ((hmem b).mp hbtaken).1 hd)⟩

section Projects

def shopModel (name : String) (dependsOn : List String) : DbtModel where
  name := name.toList
  sql := "SELECT 1".toList
  dependsOn := dependsOn.map String.toList
  materialization := "view"

def shopModels : List DbtModel := [shopModel "orders" [], shopModel "totals" ["orders"]]

theorem closed_shopModels : Closed shopModels := ⟨by decide, by decide⟩

/-- One row for each model. -/
theorem runsAll_iff_shop :
    (∃ response, runAllDbtModels (fun _ _ => .ok [1]) (some shopModels) = .ok response ∧
      RunsAll shopModels response.results) ↔ RunsThrough (fun _ _ => .ok [1]) shopModels :=
  runsAll_iff _ shopModels closed_shopModels

/-- Models that each depend on the next one of the list. -/
def stagedModels (n : ℕ) : List DbtModel :=
  (List.range n).map fun i => {
    name := List.replicate i 's'
    sql := []
    dependsOn := if i + 1 = n then [] else [List.replicate (i + 1) 's']
    materialization := "view" }

/-- A model is run although the one it depends on has failed, and of 21 stages the last is not run and
has no result. -/
theorem not_runsAll_shop :
    (¬ ∃ response, runAllDbtModels (fun _ _ => .error "no table") (some shopModels) = .ok response ∧
        RunsAll shopModels response.results) ∧
      ¬ ∃ response, runAllDbtModels (fun _ _ => .ok [1]) (some (stagedModels 21)) = .ok response ∧
        RunsAll (stagedModels 21) response.results := by
  constructor
  · rintro ⟨response, heq, h⟩
    rw [results_runAllDbtModels _ heq] at h
    obtain ⟨r, hr, -, hstatus⟩ := h.ordered [(runModel (fun _ _ => .error "no table")
      (shopModel "orders" []))] (runModel (fun _ _ => .error "no table")
      (shopModel "totals" ["orders"])) [] (by decide) (attempted_runModel _ _)
      (shopModel "totals" ["orders"]) (by decide) (by decide) "orders".toList (by decide)
    rw [List.mem_singleton.mp hr] at hstatus
    exact absurd hstatus (by decide)
  · rintro ⟨response, heq, h⟩
    rw [results_runAllDbtModels _ heq] at h
    obtain ⟨r, hr, hname⟩ := h.complete ⟨[], [], [['s']], "view"⟩ (by decide)
    have hnone : ∀ r ∈ (runModels (fun _ _ => .ok [1]) (stagedModels 21)).results,
        r.model ≠ [] := by decide +kernel
    exact hnone r hr hname

end Projects
end RustLake.Transform
