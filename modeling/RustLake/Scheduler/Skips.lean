import RustLake.Scheduler.Tick

/-! When the scheduler skips the execution of an executable table. -/
namespace RustLake.Scheduler

variable {Gate Batch : Type} (services : Services Gate Batch)

/-- The second text names a time that is not after that of the first. -/
def NotLater (lastRefresh upstreamLr : String) : Prop :=
  ∃ mine upstream, services.parseFromRfc3339 lastRefresh = some mine ∧
    services.parseFromRfc3339 upstreamLr = some upstream ∧ upstream ≤ mine

/-- The input is an executable table that has not been refreshed since. -/
def KnownUnchanged (tables : List (ExecutableTable Gate)) (lastRefresh inputName : String) : Prop :=
  ∃ ut, findTable tables inputName = some ut ∧
    ∃ upstreamLr, ut.lastRefresh = some upstreamLr ∧ NotLater services lastRefresh upstreamLr

/-- The table has been refreshed, and none of its inputs has changed since. -/
def Decision.UpToDate (d : Decision Gate) : Prop :=
  ∃ lastRefresh, d.table.lastRefresh = some lastRefresh ∧
    ∀ inputName ∈ d.table.inputTables,
      KnownUnchanged services d.upstreamTables lastRefresh inputName

/-- Some input is an executable table for which a refresh time is missing, there or here, or is a
later text. -/
def Decision.MayHaveChanged (d : Decision Gate) : Prop :=
  ∃ inputName ∈ d.table.inputTables, ∃ ut, findTable d.upstreamTables inputName = some ut ∧
    ∀ myLr upstreamLr, d.table.lastRefresh = some myLr → ut.lastRefresh = some upstreamLr →
      myLr < upstreamLr

/-- All inputs are executable tables, and the texts of refresh times stand in the order of the
times. -/
def Decision.Comparable (d : Decision Gate) : Prop :=
  ∀ inputName ∈ d.table.inputTables, ∃ ut, findTable d.upstreamTables inputName = some ut ∧
    ∀ myLr upstreamLr, d.table.lastRefresh = some myLr → ut.lastRefresh = some upstreamLr →
      upstreamLr ≤ myLr → NotLater services myLr upstreamLr

/-- There are no inputs, or the inputs tell whether something may have changed. -/
def Decision.Telling (d : Decision Gate) : Prop :=
  d.table.inputTables = [] ∨ d.MayHaveChanged ∨ d.Comparable services

/-- The table was never refreshed, or one of its inputs is no executable table. -/
def Decision.Unknown (d : Decision Gate) : Prop :=
  d.table.lastRefresh = none ∨
    ∃ inputName ∈ d.table.inputTables, findTable d.upstreamTables inputName = none

/-- An execution is skipped exactly when there are inputs and none counts as changed. -/
def Decision.Decided (d : Decision Gate) : Prop :=
  d.skipped = true ↔ d.table.inputTables ≠ [] ∧ ∀ inputName ∈ d.table.inputTables,
    inputChanged d.upstreamTables d.table.lastRefresh inputName = false

section Returns
open Process

theorem returns_detectSkip (table : ExecutableTable Gate) :
    (detectSkip table : Section Gate Batch _).Returns Decision.Decided := by
  unfold detectSkip
  split
  · rename_i hempty
    have hnil := List.isEmpty_iff.mp hempty
    change Decision.Decided _
    simp [Decision.Decided, hnil]
  · rename_i hsome
    have hne : table.inputTables ≠ [] := fun hnil => hsome (List.isEmpty_iff.mpr hnil)
    refine Returns.bind (returns_true _) fun upstreamTables _ => ?_
    dsimp only
    split
    · rename_i hchanged
      obtain ⟨inputName, hinput, hchanges⟩ := List.any_eq_true.mp hchanged
      change Decision.Decided _
      constructor
      · intro hskip
        cases hskip
      · intro ⟨_, hnone⟩
        rw [hnone inputName hinput] at hchanges
        cases hchanges
    · rename_i hnone
      refine Returns.bind (returns_true _) fun _ _ => ?_
      change Decision.Decided _
      refine ⟨fun _ => ⟨hne, fun inputName hinput => ?_⟩, fun _ => rfl⟩
      rw [Bool.not_eq_true, List.any_eq_false] at hnone
      exact Bool.eq_false_iff.mpr (hnone inputName hinput)

theorem returns_runJob (job : ScheduledJob) :
    (runJob services job).Returns fun ds => ∀ d ∈ ds, d.Decided := by
  unfold runJob
  refine Returns.bind (returns_true _) fun tables _ => ?_
  split
  · refine Returns.bind (returns_detectSkip _) fun d hd => ?_
    refine Returns.bind (returns_true _) fun _ _ => ?_
    exact List.forall_mem_singleton.mpr hd
  · exact List.forall_mem_nil _

theorem returns_runJobs (jobs : List ScheduledJob) :
    (runJobs services jobs).Returns fun ds => ∀ d ∈ ds, d.Decided := by
  induction jobs with
  | nil => exact List.forall_mem_nil _
  | cons job rest ih =>
    unfold runJobs
    refine Returns.bind (returns_true _) fun isDue _ => ?_
    have hfirst : (if isDue then runJob services job else pure []).Returns
        fun ds => ∀ d ∈ ds, d.Decided := by
      split
      · exact returns_runJob services job
      · exact List.forall_mem_nil _
    refine Returns.bind hfirst fun first hd => Returns.bind ih fun later hds => ?_
    exact List.forall_mem_append.mpr ⟨hd, hds⟩

theorem returns_tick : (tick services).Returns fun ds => ∀ d ∈ ds, d.Decided := by
  unfold tick
  refine Returns.bind (returns_true _) fun jobs _ => ?_
  refine Returns.bind (returns_runJobs services jobs) fun ds hds => ?_
  refine Returns.bind (returns_true _) fun tables _ => Returns.bind (returns_true _) fun due _ => ?_
  exact Returns.bind (returns_true _) fun _ _ => hds

theorem returns_ticks (n : ℕ) : (ticks services n).Returns fun ds => ∀ d ∈ ds, d.Decided := by
  induction n with
  | zero => exact List.forall_mem_nil _
  | succ n ih =>
    refine Returns.bind (returns_tick services) fun first hd => Returns.bind ih fun later hds => ?_
    exact List.forall_mem_append.mpr ⟨hd, hds⟩

end Returns

theorem inputChanged_eq_false {tables : List (ExecutableTable Gate)} {lastRefresh : Option String}
    {inputName : String} : inputChanged tables lastRefresh inputName = false ↔
      ∀ ut, findTable tables inputName = some ut → ∃ myLr upstreamLr, lastRefresh = some myLr ∧
        ut.lastRefresh = some upstreamLr ∧ upstreamLr ≤ myLr := by
  unfold inputChanged
  cases hfind : findTable tables inputName with
  | none => simp
  | some ut =>
    cases hmine : lastRefresh with
    | none => simp
    | some myLr =>
      cases hupstream : ut.lastRefresh with
      | none => simp [hupstream]
      | some upstreamLr =>
        simp only [hupstream, decide_eq_false_iff_not, not_lt]
        constructor
        · intro hle ut' hut'
          cases hut'
          exact ⟨myLr, upstreamLr, rfl, hupstream, hle⟩
        · intro h
          obtain ⟨_, _, hmyLr, hupstreamLr, hle⟩ := h ut rfl
          cases hmyLr
          rw [hupstream] at hupstreamLr
          cases hupstreamLr
          exact hle

section Decision
variable {services} {d : Decision Gate}

theorem Decision.MayHaveChanged.not_skipped (h : d.MayHaveChanged) (hd : d.Decided) :
    d.skipped = false := by
  apply Bool.eq_false_iff.mpr
  intro hskip
  obtain ⟨inputName, hinput, ut, hut, hlater⟩ := h
  have hsame := (hd.mp hskip).2 inputName hinput
  obtain ⟨myLr, upstreamLr, hmine, hupstream, hle⟩ := inputChanged_eq_false.mp hsame ut hut
  exact absurd (hlater myLr upstreamLr hmine hupstream) (not_lt.mpr hle)

/-- A skip with comparable inputs is a skip of an up-to-date table. -/
theorem Decision.Comparable.upToDate (h : d.Comparable services) (hd : d.Decided)
    (hskip : d.skipped = true) : d.UpToDate services := by
  obtain ⟨hne, hsame⟩ := hd.mp hskip
  have hknown : ∀ inputName ∈ d.table.inputTables, ∃ lastRefresh,
      d.table.lastRefresh = some lastRefresh ∧
        KnownUnchanged services d.upstreamTables lastRefresh inputName := by
    intro inputName hinput
    obtain ⟨ut, hut, horder⟩ := h inputName hinput
    obtain ⟨myLr, upstreamLr, hmine, hupstream, hle⟩ :=
      inputChanged_eq_false.mp (hsame inputName hinput) ut hut
    exact ⟨myLr, hmine, ut, hut, upstreamLr, hupstream, horder myLr upstreamLr hmine hupstream hle⟩
  obtain ⟨first, hfirst⟩ := List.exists_mem_of_ne_nil _ hne
  obtain ⟨lastRefresh, hmine, -⟩ := hknown first hfirst
  refine ⟨lastRefresh, hmine, fun inputName hinput => ?_⟩
  obtain ⟨myLr, hmine', hunchanged⟩ := hknown inputName hinput
  rw [hmine, Option.some.injEq] at hmine'
  rwa [hmine']

theorem Decision.UpToDate.comparable (h : d.UpToDate services) : d.Comparable services := by
  obtain ⟨lastRefresh, hmine, hunchanged⟩ := h
  intro inputName hinput
  obtain ⟨ut, hut, upstreamLr, hupstream, hearlier⟩ := hunchanged inputName hinput
  refine ⟨ut, hut, fun myLr upstreamLr' hmyLr hupstreamLr _ => ?_⟩
  rw [hmine, Option.some.injEq] at hmyLr
  rw [hupstream, Option.some.injEq] at hupstreamLr
  rwa [← hmyLr, ← hupstreamLr]

theorem Decision.UpToDate.not_unknown (h : d.UpToDate services) : ¬ d.Unknown := by
  obtain ⟨lastRefresh, hmine, hunchanged⟩ := h
  rintro (hnever | ⟨inputName, hinput, hraw⟩)
  · rw [hmine] at hnever
    cases hnever
  · obtain ⟨ut, hut, -⟩ := hunchanged inputName hinput
    rw [hut] at hraw
    cases hraw

/-- A decision skips only an up-to-date table exactly when the inputs are telling. -/
theorem Decision.upToDate_iff (hd : d.Decided) :
    (d.skipped = true → d.UpToDate services) ↔ d.Telling services := by
  constructor
  · intro h
    by_cases hskip : d.skipped = true
    · exact Or.inr (Or.inr (h hskip).comparable)
    · have hnot : ¬ (d.table.inputTables ≠ [] ∧ ∀ inputName ∈ d.table.inputTables,
          inputChanged d.upstreamTables d.table.lastRefresh inputName = false) :=
        fun hsame => hskip (hd.mpr hsame)
      by_cases hnil : d.table.inputTables = []
      · exact Or.inl hnil
      · push Not at hnot
        obtain ⟨inputName, hinput, hchanged⟩ := hnot hnil
        rw [Ne, inputChanged_eq_false] at hchanged
        push Not at hchanged
        obtain ⟨ut, hut, hlater⟩ := hchanged
        exact Or.inr (Or.inl ⟨inputName, hinput, ut, hut, hlater⟩)
  · rintro (hnil | hchanged | hcomparable) hskip
    · exact absurd hnil (hd.mp hskip).1
    · rw [hchanged.not_skipped hd] at hskip
      cases hskip
    · exact hcomparable.upToDate hd hskip

end Decision

/-- In every run of ticks, beside whatever others do, only up-to-date tables are skipped exactly
when the inputs of all decisions are telling; then a table that was never refreshed, or has an
input that is no executable table, is never skipped. -/
theorem skips_upToDate_iff (n : ℕ) (w : World (AppState Gate) (Answer Batch)) (s : AppState Gate) :
    ((∀ d ∈ ((ticks services n).run w s).value, d.skipped = true → d.UpToDate services) ↔
      ∀ d ∈ ((ticks services n).run w s).value, d.Telling services) ∧
    ((∀ d ∈ ((ticks services n).run w s).value, d.Telling services) →
      ∀ d ∈ ((ticks services n).run w s).value, d.Unknown → d.skipped = false) := by
  have hdecided := (returns_ticks services n).run w s
  constructor
  · exact forall₂_congr fun d hd => Decision.upToDate_iff (hdecided d hd)
  · intro htelling d hd hunknown
    apply Bool.eq_false_iff.mpr
    intro hskip
    have hfresh := (Decision.upToDate_iff (hdecided d hd)).mpr (htelling d hd) hskip
    exact hfresh.not_unknown hunknown

section DailyRevenue

/-- A clock that stands at one time; SQL gives one batch of three rows. -/
def revenueServices : Services String ℕ where
  toRfc3339 _ := "2024-05-01T07:08:09+00:00"
  parseFromRfc3339 text :=
    if text = "2024-05-01T07:08:09+00:00" then some 1714547289000000000 else none
  validateGates _ _ := []
  numRows rows := rows

def revenueAnswer : (request : Request) → Answer ℕ request
  | .now => (1714547289000000000 : ℤ)
  | .uuid => "c5b1"
  | .sql _ => Except.ok [3]
  | .rust _ => ()

def revenueWorld : World (AppState String) (Answer ℕ) := .quiet revenueAnswer

/-- A table over the raw table `orders` that was never refreshed. -/
def dailyRevenue (executionsSkipped : UInt64) : ExecutableTable String where
  tableName := "daily_revenue"
  transform := ⟨"sql", "SELECT date, SUM(amount) as revenue FROM orders GROUP BY date", "9f2c", false⟩
  qualityGates := []
  inputTables := ["orders"]
  health := "healthy"
  history := []
  versions := []
  lastRefresh := none
  totalExecutions := 0
  incremental := false
  watermarkColumn := none
  lastWatermark := none
  executionsSkipped := executionsSkipped
  autoRefresh := false
  refreshIntervalSeconds := 0

def revenueState (executionsSkipped : UInt64) : AppState String where
  scheduledJobs := [⟨"executable_table", "daily_revenue", true, none⟩]
  executableTables := [dailyRevenue executionsSkipped]

theorem run_tick_revenue (k : UInt64) :
    (tick revenueServices).run revenueWorld (revenueState k) =
      ⟨[⟨dailyRevenue k, [dailyRevenue k], true⟩], revenueState (k + 1), revenueWorld⟩ := rfl

theorem run_ticks_revenue (n : ℕ) (k : UInt64) :
    ((ticks revenueServices n).run revenueWorld (revenueState k)).value.map (·.skipped) =
        List.replicate n true ∧
      ∃ k', ((ticks revenueServices n).run revenueWorld (revenueState k)).state =
        revenueState k' := by
  induction n generalizing k with
  | zero => exact ⟨rfl, k, rfl⟩
  | succ n ih =>
    obtain ⟨hskips, hstate⟩ := ih (k + 1)
    unfold ticks
    rw [Process.run_bind, run_tick_revenue, Process.run_bind]
    refine ⟨?_, hstate⟩
    simp only [Process.run_pure, List.map_append, hskips]
    rfl

/-- The table is skipped at every tick and is never refreshed. -/
theorem skipped_forever_revenue :
    (∀ n, ((ticks revenueServices n).run revenueWorld (revenueState 0)).value.map (·.skipped) =
        List.replicate n true ∧
      ((ticks revenueServices n).run revenueWorld (revenueState 0)).state.executableTables.map
        (·.lastRefresh) = [none]) ∧
    ¬ ∀ d ∈ ((ticks revenueServices 1).run revenueWorld (revenueState 0)).value,
      d.skipped = true → d.UpToDate revenueServices := by
  refine ⟨fun n => ?_, fun h => ?_⟩
  · obtain ⟨hskips, k, hstate⟩ := run_ticks_revenue n 0
    refine ⟨hskips, ?_⟩
    rw [hstate]
    rfl
  · obtain ⟨lastRefresh, hmine, -⟩ :=
      h ⟨dailyRevenue 0, [dailyRevenue 0], true⟩ List.mem_cons_self rfl
    cases hmine

end DailyRevenue
end RustLake.Scheduler
