import RustLake.Scheduler.Skips
import Mathlib.Data.List.Pairwise

/-! How often the ticks of the scheduler execute a job, against the times that its cron expression
allows. -/
namespace RustLake.Scheduler

variable {Gate Batch : Type} (services : Services Gate Batch)

/-- What one job of the list takes of a tick. -/
def jobTurn (job : ScheduledJob) : Section Gate Batch (List (Decision Gate)) := do
  let isDue ← jobIsDue job
  if isDue then runJob services job else pure []

/-- The turn of the job at a position, from the state in which it begins. -/
structure Turn (Gate Batch : Type) where
  position : ℕ
  job : ScheduledJob
  world : World (AppState Gate) (Answer Batch)
  state : AppState Gate

/-- The turns of the jobs from a position on. -/
def turnsOfJobs : ℕ → List ScheduledJob → World (AppState Gate) (Answer Batch) → AppState Gate →
    List (Turn Gate Batch)
  | _, [], _, _ => []
  | position, job :: rest, w, s =>
    let settled := (jobTurn services job).run w s
    ⟨position, job, w, s⟩ :: turnsOfJobs (position + 1) rest settled.world settled.state

/-- The turns of the first ticks. -/
def turns : ℕ → World (AppState Gate) (Answer Batch) → AppState Gate → List (Turn Gate Batch)
  | 0, _, _ => []
  | n + 1, w, s =>
    let settled := (tick services).run w s
    turnsOfJobs services 0 (w.others 0 s).scheduledJobs w.next (w.others 0 s) ++
      turns n settled.world settled.state

namespace Turn
variable (t : Turn Gate Batch)

/-- The clock when the turn begins. -/
def time : Instant := t.world.answer 0 .now

/-- The request runs code. -/
def isExecution : Request → Bool
  | .sql _ => true
  | .rust _ => true
  | _ => false

def Executes : Prop :=
  ∃ request ∈ (jobTurn services t.job).asks t.world t.state, isExecution request = true

/-- The world and the state after the look at the clock, which a job without a due time does without. -/
def opened : World (AppState Gate) (Answer Batch) × AppState Gate :=
  if t.job.nextRun = none then (t.world, t.state) else (t.world.next, t.world.others 0 t.state)

/-- The state in which the table of the job is read. -/
def tableState : AppState Gate := t.opened.1.others 0 t.opened.2

/-- The state in which its inputs are looked up. -/
def inputState : AppState Gate := t.opened.1.next.others 0 t.tableState

/-- The job is one of an executable table, and its due time has come or there is none. -/
def FindsDue : Prop :=
  t.job.enabled = true ∧ t.job.jobType = "executable_table" ∧
    ∀ next, t.job.nextRun = some next → next ≤ t.time

/-- The table is there to be executed: it has no inputs, or one of them counts as changed. -/
def WantsRun : Prop :=
  ∃ table, findTable t.tableState.executableTables t.job.target = some table ∧
    (table.inputTables = [] ∨ ∃ inputName ∈ table.inputTables,
      inputChanged t.inputState.executableTables table.lastRefresh inputName = true) ∧
    (table.transform.transformType = "rust" ∨ table.transform.transformType = "sql")

end Turn

/-- After an execution the job is not executed again before the next time that is allowed. -/
def OncePerDueTime (allows : Instant → Prop) (position : ℕ) (ts : List (Turn Gate Batch)) : Prop :=
  ts.Pairwise fun t₁ t₂ => t₁.position = position → t₂.position = position →
    t₁.Executes services → t₂.Executes services → ∃ at', allows at' ∧ t₁.time < at' ∧ at' ≤ t₂.time

/-- Between two turns that find the job due, with a table to execute, a time is allowed. -/
def OftenEnough (allows : Instant → Prop) (position : ℕ) (ts : List (Turn Gate Batch)) : Prop :=
  ts.Pairwise fun t₁ t₂ => t₁.position = position → t₂.position = position →
    t₁.FindsDue ∧ t₁.WantsRun → t₂.FindsDue ∧ t₂.WantsRun →
      ∃ at', allows at' ∧ t₁.time < at' ∧ at' ≤ t₂.time

section Executions
open Process
variable {services} {table : ExecutableTable Gate} {job : ScheduledJob}
  {w : World (AppState Gate) (Answer Batch)} {s : AppState Gate}

theorem asks_detectSkip : (detectSkip table : Section Gate Batch _).asks w s = [] := by
  unfold detectSkip
  split
  · rfl
  · rw [asks_bind]
    dsimp only
    split <;> rfl

/-- The execution is skipped when there are inputs and none has changed. -/
theorem skipped_detectSkip :
    ((detectSkip table : Section Gate Batch _).run w s).value.skipped = false ↔
      table.inputTables = [] ∨ ∃ inputName ∈ table.inputTables,
        inputChanged (w.others 0 s).executableTables table.lastRefresh inputName = true := by
  unfold detectSkip
  split
  · rename_i hempty
    exact ⟨fun _ => Or.inl (List.isEmpty_iff.mp hempty), fun _ => rfl⟩
  · rename_i hsome
    have hne : table.inputTables ≠ [] := fun hnil => hsome (List.isEmpty_iff.mpr hnil)
    rw [run_bind, or_iff_right hne, ← List.any_eq_true]
    dsimp only
    split
    · rename_i hchanged
      exact ⟨fun _ => hchanged, fun _ => rfl⟩
    · rename_i hsame
      constructor
      · intro h
        cases h
      · intro h
        exact absurd h hsame

theorem executes_executeTable :
    (∃ request ∈ (executeTable services table).asks w s, Turn.isExecution request = true) ↔
      table.transform.transformType = "rust" ∨ table.transform.transformType = "sql" := by
  unfold executeTable
  split
  · rename_i hrust
    exact ⟨fun _ => Or.inl hrust, fun _ => ⟨_, List.mem_cons_self, rfl⟩⟩
  · rename_i hrust
    rw [or_iff_right hrust]
    split
    · rename_i hsql
      exact ⟨fun _ => hsql, fun _ => ⟨_, List.mem_cons_self, rfl⟩⟩
    · rename_i hsql
      constructor
      · rintro ⟨request, hmem, -⟩
        cases hmem
      · intro h
        exact absurd h hsql

theorem executes_runJob : (∃ request ∈ (runJob services job).asks w s, Turn.isExecution request = true) ↔
    ∃ table, findTable (w.others 0 s).executableTables job.target = some table ∧
      (table.inputTables = [] ∨ ∃ inputName ∈ table.inputTables,
        inputChanged (w.next.others 0 (w.others 0 s)).executableTables table.lastRefresh inputName =
          true) ∧
      (table.transform.transformType = "rust" ∨ table.transform.transformType = "sql") := by
  unfold runJob
  rw [asks_bind, asks_readTables, List.nil_append, run_readTables]
  dsimp only
  cases hfind : findTable (w.others 0 s).executableTables job.target with
  | none =>
    constructor
    · rintro ⟨request, hmem, -⟩
      cases hmem
    · rintro ⟨table, htable, -⟩
      cases htable
  | some table =>
    dsimp only
    have hasks : ∀ request, request ∈ Process.asks (do
        let decision ← detectSkip table
        (if decision.skipped then pure () else executeTable services table)
        pure [decision]) w.next (w.others 0 s) ↔
        request ∈ Process.asks (if ((detectSkip table : Section Gate Batch _).run w.next
          (w.others 0 s)).value.skipped then pure () else executeTable services table)
          ((detectSkip table).run w.next (w.others 0 s)).world
          ((detectSkip table).run w.next (w.others 0 s)).state := by
      intro request
      rw [asks_bind, asks_detectSkip, List.nil_append, asks_bind, List.mem_append]
      apply or_iff_left
      intro hmem
      cases hmem
    simp only [hasks]
    cases hskip : ((detectSkip table : Section Gate Batch _).run w.next (w.others 0 s)).value.skipped with
    | true =>
      constructor
      · rintro ⟨request, hmem, -⟩
        cases hmem
      · rintro ⟨other, hother, hchanged, -⟩
        cases hother
        rw [skipped_detectSkip.mpr hchanged] at hskip
        cases hskip
    | false =>
      rw [if_neg Bool.false_ne_true, executes_executeTable]
      constructor
      · intro htype
        exact ⟨table, rfl, skipped_detectSkip.mp hskip, htype⟩
      · rintro ⟨other, hother, -, htype⟩
        cases hother
        exact htype

theorem Turn.run_jobIsDue {t : Turn Gate Batch} (hjob : t.job.enabled = true)
    (htype : t.job.jobType = "executable_table") :
    (((jobIsDue t.job).run t.world t.state).value = true ↔
      ∀ next, t.job.nextRun = some next → next ≤ t.time) ∧
    ((jobIsDue t.job).run t.world t.state).world = t.opened.1 ∧
    ((jobIsDue t.job).run t.world t.state).state = t.opened.2 := by
  have hopen : (!t.job.enabled || decide (t.job.jobType ≠ "executable_table")) = false := by
    rw [hjob, htype]
    rfl
  unfold jobIsDue Turn.opened Turn.time
  rw [hopen, if_neg Bool.false_ne_true]
  cases hnext : t.job.nextRun with
  | none =>
    rw [if_pos rfl]
    refine ⟨⟨fun _ next hsome => ?_, fun _ => rfl⟩, rfl, rfl⟩
    cases hsome
  | some next =>
    have hvalue (at' : Instant) : (!decide (at' < next)) = true ↔
        ∀ next', some next = some next' → next' ≤ at' := by
      rw [Bool.not_eq_true', decide_eq_false_iff_not, not_lt]
      constructor
      · intro hle next' hsame
        cases hsame
        exact hle
      · intro h
        exact h next rfl
    rw [if_neg (Option.some_ne_none next)]
    exact ⟨hvalue (t.world.answer 0 .now), rfl, rfl⟩

theorem asks_jobIsDue : ∀ request ∈ (jobIsDue job : Section Gate Batch _).asks w s,
    Turn.isExecution request = false := by
  unfold jobIsDue
  split
  · exact List.forall_mem_nil _
  · cases job.nextRun with
    | none => exact List.forall_mem_nil _
    | some next =>
      intro request hmem
      rw [List.mem_singleton.mp hmem]
      rfl

/-- A turn executes code exactly when it finds the job due and a table to execute. -/
theorem Turn.executes_iff (t : Turn Gate Batch) : t.Executes services ↔ t.FindsDue ∧ t.WantsRun := by
  have hturn : t.Executes services ↔ ((jobIsDue t.job).run t.world t.state).value = true ∧
      ∃ request ∈ (runJob services t.job).asks ((jobIsDue t.job).run t.world t.state).world
        ((jobIsDue t.job).run t.world t.state).state, Turn.isExecution request = true := by
    unfold Turn.Executes jobTurn
    simp only [asks_bind, List.mem_append]
    constructor
    · rintro ⟨request, hcheck | hrun, hexecution⟩
      · rw [asks_jobIsDue request hcheck] at hexecution
        cases hexecution
      · split at hrun
        · rename_i hdue
          exact ⟨hdue, request, hrun, hexecution⟩
        · cases hrun
    · rintro ⟨hdue, request, hrun, hexecution⟩
      rw [if_pos hdue]
      exact ⟨request, Or.inr hrun, hexecution⟩
  rw [hturn]
  by_cases hjob : t.job.enabled = true ∧ t.job.jobType = "executable_table"
  · obtain ⟨hvalue, hworld, hstate⟩ := Turn.run_jobIsDue hjob.1 hjob.2
    rw [hvalue, hworld, hstate, executes_runJob]
    constructor
    · rintro ⟨hdue, hwants⟩
      exact ⟨⟨hjob.1, hjob.2, hdue⟩, hwants⟩
    · rintro ⟨⟨-, -, hdue⟩, hwants⟩
      exact ⟨hdue, hwants⟩
  · have hclosed : (!t.job.enabled || decide (t.job.jobType ≠ "executable_table")) = true := by
      by_contra hopen
      apply hjob
      simpa using hopen
    have hvalue : ((jobIsDue t.job).run t.world t.state).value = false := by
      unfold jobIsDue
      rw [if_pos hclosed]
      rfl
    rw [hvalue]
    constructor
    · rintro ⟨hfalse, -⟩
      cases hfalse
    · rintro ⟨⟨henabled, htype, -⟩, -⟩
      exact absurd ⟨henabled, htype⟩ hjob

/-- The jobs of a tick's turns stand at their positions. -/
theorem mem_turnsOfJobs {t : Turn Gate Batch} {jobs : List ScheduledJob} {position : ℕ}
    (h : t ∈ turnsOfJobs services position jobs w s) :
    position ≤ t.position ∧ jobs[t.position - position]? = some t.job := by
  induction jobs generalizing position w s with
  | nil => cases h
  | cons job rest ih =>
    rcases List.mem_cons.mp h with rfl | h
    · exact ⟨le_rfl, by simp⟩
    · obtain ⟨hle, hjob⟩ := ih h
      refine ⟨by omega, ?_⟩
      have hstep : t.position - position = t.position - (position + 1) + 1 := by omega
      rw [hstep, List.getElem?_cons_succ, hjob]

end Executions

section Gate
open Process
variable {services}

/-- A section that leaves the jobs alone. -/
def KeepsJobs (f : AppState Gate → AppState Gate) : Prop :=
  ∀ s, (f s).scheduledJobs = s.scheduledJobs

theorem changes_pure {α : Type} (a : α) : (pure a : Section Gate Batch α).Changes KeepsJobs := trivial

theorem changes_read {α : Type} (f : AppState Gate → α) :
    (Process.read fun state => Process.done (f state) : Section Gate Batch α).Changes KeepsJobs :=
  fun _ => trivial

theorem changes_ask (request : Request) :
    (Process.ask request Process.done : Section Gate Batch _).Changes KeepsJobs := fun _ => trivial

theorem changes_updateTable (name : String) (f : ExecutableTable Gate → ExecutableTable Gate) :
    (Process.write (updateTable name f) (pure ()) : Section Gate Batch Unit).Changes KeepsJobs :=
  ⟨fun _ => rfl, trivial⟩

theorem changes_detectSkip (table : ExecutableTable Gate) :
    (detectSkip table : Section Gate Batch _).Changes KeepsJobs := by
  unfold detectSkip
  split
  · exact changes_pure _
  · refine Changes.bind (changes_read _) fun upstreamTables => ?_
    dsimp only
    split
    · exact changes_pure _
    · exact Changes.bind (changes_updateTable _ _) fun _ => changes_pure _

theorem changes_settleSql (table : ExecutableTable Gate) (batches : List Batch) :
    (settleSql services table batches).Changes KeepsJobs := by
  unfold settleSql
  split
  · split
    · exact Changes.bind (changes_ask _) fun _ => changes_updateTable _ _
    · exact changes_pure _
  · exact Changes.bind (changes_ask _) fun _ => changes_updateTable _ _

theorem changes_executeTable (table : ExecutableTable Gate) :
    (executeTable services table).Changes KeepsJobs := by
  unfold executeTable
  split
  · exact fun _ => changes_pure _
  · split
    · rintro (_ | batches)
      · exact changes_pure _
      · exact changes_settleSql table batches
    · exact changes_pure _

theorem changes_runJob (job : ScheduledJob) : (runJob services job).Changes KeepsJobs := by
  unfold runJob
  refine Changes.bind (changes_read _) fun tables => ?_
  split
  · refine Changes.bind (changes_detectSkip _) fun decision => Changes.bind ?_ fun _ => changes_pure _
    split
    · exact changes_pure _
    · exact changes_executeTable _
  · exact changes_pure _

theorem changes_jobIsDue (job : ScheduledJob) :
    (jobIsDue job : Section Gate Batch _).Changes KeepsJobs := by
  unfold jobIsDue
  split
  · exact changes_pure _
  · split
    · exact Changes.bind (changes_ask _) fun _ => changes_pure _
    · exact changes_pure _

theorem changes_runJobs (jobs : List ScheduledJob) : (runJobs services jobs).Changes KeepsJobs := by
  induction jobs with
  | nil => exact changes_pure _
  | cons job rest ih =>
    unfold runJobs
    refine Changes.bind (changes_jobIsDue job) fun isDue => Changes.bind ?_ fun _ =>
      Changes.bind ih fun _ => changes_pure _
    split
    · exact changes_runJob job
    · exact changes_pure _

theorem changes_matviewCandidates (tables : List (ExecutableTable Gate)) :
    (matviewCandidates services tables).Changes KeepsJobs := by
  induction tables with
  | nil => exact changes_pure _
  | cons t rest ih =>
    have hjoin (isDue : Bool) : (do
        let later ← matviewCandidates services rest
        pure (if isDue then t :: later else later) : Section Gate Batch _).Changes KeepsJobs :=
      Changes.bind ih fun _ => changes_pure _
    unfold matviewCandidates
    dsimp only
    split
    · split
      · exact Changes.bind (changes_ask _) fun _ => hjoin _
      · exact hjoin _
    · exact hjoin _

theorem changes_refreshMatview (t : ExecutableTable Gate) :
    (refreshMatview services t).Changes KeepsJobs := by
  unfold refreshMatview
  split
  · rintro (_ | batches)
    · exact changes_pure _
    · exact Changes.bind (changes_ask _) fun _ => Changes.bind (changes_ask _) fun _ =>
        Changes.bind (changes_ask _) fun _ => Changes.bind (changes_ask _) fun _ =>
          changes_updateTable _ _
  · exact changes_pure _

theorem changes_refreshMatviews (tables : List (ExecutableTable Gate)) :
    (refreshMatviews services tables).Changes KeepsJobs := by
  induction tables with
  | nil => exact changes_pure _
  | cons t rest ih => exact Changes.bind (changes_refreshMatview t) fun _ => ih

/-- No section of a tick changes a job: its due time stays where it is. -/
theorem changes_tick : (tick services).Changes KeepsJobs := by
  refine Changes.bind (changes_read _) fun jobs => Changes.bind (changes_runJobs jobs) fun decisions => ?_
  refine Changes.bind (changes_read _) fun tables => ?_
  refine Changes.bind (changes_matviewCandidates tables) fun candidates => ?_
  exact Changes.bind (changes_refreshMatviews candidates) fun _ => changes_pure _

variable {w : World (AppState Gate) (Answer Batch)} {s : AppState Gate} {n : ℕ}

/-- While others leave the jobs alone, each turn is one of the job that stood at its position. -/
theorem job_of_mem_turns (hothers : ∀ k s', (w.others k s').scheduledJobs = s'.scheduledJobs)
    {t : Turn Gate Batch} (h : t ∈ turns services n w s) :
    s.scheduledJobs[t.position]? = some t.job := by
  induction n generalizing w s with
  | zero => cases h
  | succ n ih =>
    rcases List.mem_append.mp h with hnow | hlater
    · have hjob := (mem_turnsOfJobs hnow).2
      rwa [Nat.sub_zero, hothers] at hjob
    · have hchanges : (tick services).Changes KeepsJobs := changes_tick
      obtain ⟨hstate, hworld⟩ := hchanges.run hothers s
      have hjob := ih hworld hlater
      rwa [hstate] at hjob

/-- Once a turn finds the job due, a later one does too, as long as the clock does not go back. -/
theorem Turn.FindsDue.again (hothers : ∀ k s', (w.others k s').scheduledJobs = s'.scheduledJobs)
    {t₁ t₂ : Turn Gate Batch} (h₁ : t₁ ∈ turns services n w s) (h₂ : t₂ ∈ turns services n w s)
    (hposition : t₁.position = t₂.position) (hclock : t₁.time ≤ t₂.time) (hdue : t₁.FindsDue) :
    t₂.FindsDue := by
  have hjob : t₁.job = t₂.job := by
    have hfirst := job_of_mem_turns hothers h₁
    have hsecond := job_of_mem_turns hothers h₂
    rw [hposition, hsecond] at hfirst
    exact (Option.some.inj hfirst).symm
  obtain ⟨henabled, htype, hnext⟩ := hdue
  rw [hjob] at henabled htype hnext
  exact ⟨henabled, htype, fun next hsome => (hnext next hsome).trans hclock⟩

/-- A job that has been executed is executed again by every later turn that finds a table to execute,
whatever its cron expression allows. -/
theorem Turn.Executes.again (hothers : ∀ k s', (w.others k s').scheduledJobs = s'.scheduledJobs)
    {t₁ t₂ : Turn Gate Batch} (h₁ : t₁ ∈ turns services n w s) (h₂ : t₂ ∈ turns services n w s)
    (hposition : t₁.position = t₂.position) (hclock : t₁.time ≤ t₂.time)
    (hexecutes : t₁.Executes services) (hwants : t₂.WantsRun) : t₂.Executes services := by
  have hdue := ((Turn.executes_iff t₁).mp hexecutes).1
  exact (Turn.executes_iff t₂).mpr ⟨hdue.again hothers h₁ h₂ hposition hclock, hwants⟩

/-- In every run of ticks a job is executed at most once per due time exactly when a time is allowed
between any two turns that find it due, with a table to execute. -/
theorem oncePerDueTime_iff (allows : Instant → Prop) (position n : ℕ)
    (w : World (AppState Gate) (Answer Batch)) (s : AppState Gate) :
    OncePerDueTime services allows position (turns services n w s) ↔
      OftenEnough allows position (turns services n w s) := by
  unfold OncePerDueTime OftenEnough
  simp only [Turn.executes_iff]

end Gate

section DailyRevenue

/-- A clock that has gone on by a minute at every step. -/
def minuteWorld : World (AppState String) (Answer ℕ) where
  others _ s := s
  answer n request :=
    match request with
    | .now => (60000000000 * (n + 1) : ℤ)
    | .uuid => "c5b1"
    | .sql _ => Except.ok [3]
    | .rust _ => ()

/-- A job that was due at midnight, on a table without inputs. -/
def midnightState : AppState String where
  scheduledJobs := [⟨"executable_table", "daily_revenue", true, some 0⟩]
  executableTables := [{ dailyRevenue 0 with inputTables := [] }]

/-- A midnight of some day. -/
def IsMidnight (at' : Instant) : Prop := at' % 86400000000000 = 0

/-- A daily job is executed by two ticks of one day. -/
theorem not_oncePerDueTime_revenue :
    ¬ OncePerDueTime revenueServices IsMidnight 0 (turns revenueServices 2 minuteWorld midnightState) := by
  intro h
  obtain ⟨hfirst, -⟩ := List.pairwise_cons.mp h
  have hpair := hfirst _ List.mem_cons_self rfl rfl
    ⟨_, List.mem_cons_of_mem _ List.mem_cons_self, rfl⟩
    ⟨_, List.mem_cons_of_mem _ List.mem_cons_self, rfl⟩
  obtain ⟨at', hmidnight, hafter, hbefore⟩ := hpair
  have hday : at' < (86400000000000 : ℤ) := lt_of_le_of_lt hbefore (by decide)
  have hpositive : (0 : ℤ) < at' := lt_trans (by decide) hafter
  have hnone : ∀ x : ℤ, x % 86400000000000 = 0 → 0 < x → ¬ x < 86400000000000 := by omega
  exact hnone at' hmidnight hpositive hday

end DailyRevenue

end RustLake.Scheduler
