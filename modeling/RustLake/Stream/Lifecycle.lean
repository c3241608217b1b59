import RustLake.Order.Run

/-! Starts and stops of a streaming pipeline beside the consumer tasks that they spawn. -/
namespace RustLake.Stream

inductive SourceType where
  | mongodbCdc | kafka
  /-- Any other type, of which only the status is kept. -/
  | other
deriving DecidableEq

/-- Where the consumer task of a source is: not spawned yet, in its loop, after the loop, with the
status set under the write lock, and over. A source that there is not counts as over. -/
inductive Task where
  | waiting | active | ended | marked | over
deriving DecidableEq

/-- A source, with its flag. -/
structure Source where
  running : Bool
  task : Task
deriving DecidableEq

/-- How far a start has come: past the check, and with a source that is created, registered, started
or running by the status. -/
inductive Starting where
  | checked
  | created (i : ℕ)
  | registered (i : ℕ)
  | started (i : ℕ)
  | marked (i : ℕ)
deriving DecidableEq

/-- The source of a start is registered and started. -/
def Starting.Begun (source : SourceType) : Starting → Prop
  | .checked => False
  | .created _ => False
  | .registered _ => source ≠ .kafka
  | _ => True

/-- How far a stop has come: the source is told, and removed. -/
inductive Stopping where
  | told | removed
deriving DecidableEq

/-- A pipeline: its source in `cdc_sources` or `active_kafka_consumers`, its status, whether a task
holds the write lock of the pipelines, its sources by numbers, and the requests under way. -/
structure Lifecycle where
  registered : Option ℕ
  status : String
  locked : Bool
  next : ℕ
  sources : ℕ → Source
  starting : List Starting
  stopping : List Stopping

/-- A pipeline as it is created. -/
def Lifecycle.created : Lifecycle := ⟨none, "created", false, 0, fun _ => ⟨false, .over⟩, [], []⟩

/-- A request is made or goes on by one lock or call, a loop ends, or the clean-up after it goes on
by one lock. -/
inductive LifecycleAction where
  | start
  | goOn (k : ℕ) (succeeds : Bool)
  | stop
  | goOnStop (k : ℕ)
  | finish (i : ℕ)
  | cleanUp (i : ℕ)
deriving DecidableEq

namespace Lifecycle

def setRunning (i : ℕ) (running : Bool) (s : Lifecycle) : Lifecycle :=
  { s with sources := Function.update s.sources i { s.sources i with running := running } }

def setTask (i : ℕ) (task : Task) (s : Lifecycle) : Lifecycle :=
  { s with sources := Function.update s.sources i { s.sources i with task := task } }

/-- The check whether the pipeline runs looks into `cdc_sources` only. -/
def isRunning (source : SourceType) (s : Lifecycle) : Bool :=
  match source, s.registered with
  | .mongodbCdc, some i => (s.sources i).running
  | _, _ => false

/-- The rest of `start_pipeline`. -/
def goOn (source : SourceType) (s : Lifecycle) (k : ℕ) (succeeds : Bool) :
    Starting → Option Lifecycle
  | .checked =>
    if s.locked then none
    else if source = .other then
      some { s with status := "running", starting := s.starting.eraseIdx k }
    else if succeeds then
      some { s with
        next := s.next + 1
        sources := Function.update s.sources s.next ⟨source = .mongodbCdc, .waiting⟩
        starting := s.starting.set k (.created s.next) }
    else some { s with starting := s.starting.eraseIdx k }
  | .created i => some { s with
      registered := some i, starting := s.starting.set k (.registered i) }
  | .registered i =>
    if source = .kafka then
      some { s.setRunning i true with starting := s.starting.set k (.started i) }
    else if s.locked then none
    else some { s with status := "running", starting := s.starting.set k (.marked i) }
  | .started i =>
    if s.locked then none
    else some { s with status := "running", starting := s.starting.set k (.marked i) }
  | .marked i => some { s.setTask i .active with starting := s.starting.eraseIdx k }

/-- The rest of `stop_pipeline`. -/
def goOnStop (s : Lifecycle) (k : ℕ) : Stopping → Option Lifecycle
  | .told => some { s with registered := none, stopping := s.stopping.set k .removed }
  | .removed =>
    if s.locked then none
    else some { s with status := "stopped", stopping := s.stopping.eraseIdx k }

/-- The end of a consumer task. The write lock of the pipelines is held to the end. -/
def cleanUp (s : Lifecycle) (i : ℕ) : Task → Option Lifecycle
  | .ended =>
    if s.locked then none
    else some { s.setTask i .marked with status := "stopped", locked := true }
  | .marked => some { s.setTask i .over with registered := none, locked := false }
  | _ => none

def step (source : SourceType) (s : Lifecycle) : LifecycleAction → Option Lifecycle
  | .start =>
    if s.isRunning source then some s else some { s with starting := s.starting ++ [.checked] }
  | .goOn k succeeds => s.starting[k]?.bind (s.goOn source k succeeds)
  | .stop =>
    let told := match s.registered with
      | some i => s.setRunning i false
      | none => s
    some { told with stopping := s.stopping ++ [.told] }
  | .goOnStop k => s.stopping[k]?.bind (s.goOnStop k)
  | .finish i => if (s.sources i).task = .active then some (s.setTask i .ended) else none
  | .cleanUp i => s.cleanUp i (s.sources i).task

/-- No request is under way, and each consumer task is over, or in its loop and not told to stop. -/
def Quiet (s : Lifecycle) : Prop :=
  s.starting = [] ∧ s.stopping = [] ∧
    ∀ i, (s.sources i).task = .over ∨ (s.sources i).task = .active ∧ (s.sources i).running = true

/-- At most one consumer is active, it is the one that is registered unless it has been told to
stop, and between requests the status tells whether there is one. -/
structure Orderly (s : Lifecycle) : Prop where
  single : ∀ i j, (s.sources i).task = .active → (s.sources j).task = .active → i = j
  registered : ∀ i, (s.sources i).task = .active → (s.sources i).running = true →
    s.registered = some i
  status : s.Quiet → (s.status = "running" ↔ ∃ i, (s.sources i).task = .active)

/-- All requests and tasks are over. -/
def Rests (s : Lifecycle) : Prop :=
  s.starting = [] ∧ s.stopping = [] ∧ ∀ i, (s.sources i).task = .over

/-- A start is refused or comes when all is over, and a stop comes before or after a start that
looks for a source. -/
def InTurn (source : SourceType) (s : Lifecycle) : LifecycleAction → Prop
  | .start => source ≠ .other ∧ (s.isRunning source = true ∨ s.Rests)
  | .stop => ∀ request ∈ s.starting, request.Begun source
  | _ => True

/-- The source that is there is registered, and nobody stops it, unless it has been told to. -/
def Held (s : Lifecycle) (i : ℕ) : Prop :=
  (s.registered = none ∨ s.registered = some i) ∧
    ((s.sources i).running = true → s.registered = some i ∧ s.stopping = [])

/-- How far the only source has come. -/
inductive Progress (source : SourceType) (s : Lifecycle) (i : ℕ) : Prop where
  | created (hstart : s.starting = [.created i]) (htask : (s.sources i).task = .waiting)
      (hnone : s.registered = none) (hstop : s.stopping = [])
  | registered (hstart : s.starting = [.registered i]) (htask : (s.sources i).task = .waiting)
      (hheld : s.Held i)
      (hkafka : source = .kafka → s.registered = some i ∧ s.stopping = [])
  | started (hstart : s.starting = [.started i]) (htask : (s.sources i).task = .waiting)
      (hheld : s.Held i)
  | marked (hstart : s.starting = [.marked i]) (htask : (s.sources i).task = .waiting)
      (hheld : s.Held i) (hstatus : (s.sources i).running = true → s.status = "running")
  | active (hstart : s.starting = []) (htask : (s.sources i).task = .active)
      (hheld : s.Held i) (hstatus : (s.sources i).running = true → s.status = "running")
  | ended (hstart : s.starting = []) (htask : (s.sources i).task = .ended) (hheld : s.Held i)
  | cleared (hstart : s.starting = []) (htask : (s.sources i).task = .marked) (hheld : s.Held i)
      (hstatus : s.status ≠ "running")

/-- There is no source but one, or none is left, and then nothing is registered. -/
inductive Tidy (source : SourceType) (s : Lifecycle) : Prop where
  | idle (hstart : s.starting = [] ∨
      s.starting = [.checked] ∧ s.stopping = [] ∧ source ≠ .other)
      (hover : ∀ i, (s.sources i).task = .over) (hnone : s.registered = none)
      (hstatus : s.status ≠ "running")
  | busy (i : ℕ) (hover : ∀ j, j ≠ i → (s.sources j).task = .over)
      (hprogress : Progress source s i)

section Steps
variable {source : SourceType} {s s' : Lifecycle} {i j k : ℕ}

@[simp] theorem setRunning_running (running : Bool) :
    ((s.setRunning i running).sources i).running = running := by
  simp [setRunning]

@[simp] theorem setRunning_task (running : Bool) :
    ((s.setRunning i running).sources j).task = (s.sources j).task := by
  by_cases hj : j = i
  · simp [setRunning, hj]
  · simp [setRunning, hj]

@[simp] theorem setTask_task_self (task : Task) : ((s.setTask i task).sources i).task = task := by
  simp [setTask]

theorem setTask_task_of_ne (task : Task) (hj : j ≠ i) :
    ((s.setTask i task).sources j).task = (s.sources j).task := by
  simp [setTask, hj]

@[simp] theorem setTask_running (task : Task) :
    ((s.setTask i task).sources j).running = (s.sources j).running := by
  by_cases hj : j = i
  · simp [setTask, hj]
  · simp [setTask, hj]

theorem stopped_ne_running : "stopped" ≠ "running" := by decide

/-- A stop is under way only when the source has begun and has been told. -/
theorem Progress.told (h : Progress source s i) (hstop : s.stopping ≠ []) :
    (∀ request ∈ s.starting, request.Begun source) ∧ (s.sources i).running = false := by
  have hrunning : s.Held i → (s.sources i).running = false := by
    intro hheld
    by_contra htrue
    exact hstop (hheld.2 (eq_true_of_ne_false htrue)).2
  cases h with
  | created _ _ _ hnone => exact absurd hnone hstop
  | registered hstart _ hheld hkafka =>
    have hother : source ≠ .kafka := fun hkind => hstop (hkafka hkind).2
    exact ⟨by simpa [hstart, Starting.Begun] using hother, hrunning hheld⟩
  | started hstart _ hheld => exact ⟨by simp [hstart, Starting.Begun], hrunning hheld⟩
  | marked hstart _ hheld _ => exact ⟨by simp [hstart, Starting.Begun], hrunning hheld⟩
  | active hstart _ hheld _ => exact ⟨by simp [hstart], hrunning hheld⟩
  | ended hstart _ hheld => exact ⟨by simp [hstart], hrunning hheld⟩
  | cleared hstart _ hheld _ => exact ⟨by simp [hstart], hrunning hheld⟩

/-- What a stop does to a source that has begun. -/
theorem Progress.stopped (h : Progress source s i)
    (hbegun : ∀ request ∈ s.starting, request.Begun source) (hstart' : s'.starting = s.starting)
    (htask' : (s'.sources i).task = (s.sources i).task) (htold : (s'.sources i).running = false)
    (hregistered : s'.registered = none ∨ s'.registered = some i)
    (hstatus' : s.status ≠ "running" → s'.status ≠ "running") : Progress source s' i := by
  have hheld' : s'.Held i := ⟨hregistered, fun htrue => absurd (htold.symm.trans htrue) (by simp)⟩
  have hmarked : (s'.sources i).running = true → s'.status = "running" :=
    fun htrue => absurd (htold.symm.trans htrue) (by simp)
  rw [← hstart'] at hbegun
  cases h with
  | created hstart =>
    rw [hstart', hstart] at hbegun
    exact absurd (hbegun _ (List.mem_singleton_self _)) id
  | registered hstart htask =>
    have hkafka : ¬ source = .kafka := by
      rw [hstart', hstart] at hbegun
      exact hbegun _ (List.mem_singleton_self _)
    exact .registered (hstart'.trans hstart) (htask'.trans htask) hheld' fun h => absurd h hkafka
  | started hstart htask => exact .started (hstart'.trans hstart) (htask'.trans htask) hheld'
  | marked hstart htask =>
    exact .marked (hstart'.trans hstart) (htask'.trans htask) hheld' hmarked
  | active hstart htask =>
    exact .active (hstart'.trans hstart) (htask'.trans htask) hheld' hmarked
  | ended hstart htask => exact .ended (hstart'.trans hstart) (htask'.trans htask) hheld'
  | cleared hstart htask _ hstatus =>
    exact .cleared (hstart'.trans hstart) (htask'.trans htask) hheld' (hstatus' hstatus)

theorem Progress.held (h : Progress source s i)
    (hbegun : ∀ request ∈ s.starting, request.Begun source) : s.Held i := by
  cases h with
  | created hstart =>
    rw [hstart] at hbegun
    exact absurd (hbegun _ (List.mem_singleton_self _)) id
  | registered _ _ hheld _ => exact hheld
  | started _ _ hheld => exact hheld
  | marked _ _ hheld _ => exact hheld
  | active _ _ hheld _ => exact hheld
  | ended _ _ hheld => exact hheld
  | cleared _ _ hheld _ => exact hheld

theorem tidy_stop (h : Tidy source s) (hturn : InTurn source s .stop)
    (hstep : step source s .stop = some s') : Tidy source s' := by
  cases hstep
  cases h with
  | idle hstart hover hnone hstatus =>
    have hidle : s.starting = [] := by
      rcases hstart with hnil | ⟨hchecked, -⟩
      · exact hnil
      · exact absurd (hturn .checked (by rw [hchecked]; exact List.mem_singleton_self _)) id
    rw [hnone]
    exact .idle (Or.inl hidle) hover hnone hstatus
  | busy i hover hprogress =>
    have hheld := hprogress.held hturn
    rcases hheld.1 with hnone | hsome
    · have hfalse : (s.sources i).running = false := by
        by_contra htrue
        have hsome := (hheld.2 (eq_true_of_ne_false htrue)).1
        rw [hnone] at hsome
        cases hsome
      rw [hnone]
      exact .busy i hover (hprogress.stopped hturn rfl rfl hfalse (Or.inl hnone) id)
    · rw [hsome]
      refine .busy i (fun j hj => ?_) (hprogress.stopped hturn rfl ?_ ?_ (Or.inr hsome) id)
      · exact (setRunning_task _).trans (hover j hj)
      · exact setRunning_task _
      · exact setRunning_running _

theorem tidy_goOnStop (h : Tidy source s) (hstep : step source s (.goOnStop k) = some s') :
    Tidy source s' := by
  obtain ⟨request, hrequest, hstep⟩ := Option.bind_eq_some_iff.mp hstep
  have hstop : s.stopping ≠ [] := List.ne_nil_of_mem (List.mem_of_getElem? hrequest)
  cases h with
  | idle hstart hover hnone hstatus =>
    have hidle : s.starting = [] := by
      rcases hstart with hnil | ⟨-, hnil, -⟩
      · exact hnil
      · exact absurd hnil hstop
    cases request with
    | told =>
      cases hstep
      exact .idle (Or.inl hidle) hover rfl hstatus
    | removed =>
      unfold goOnStop at hstep
      dsimp only at hstep
      split at hstep
      · cases hstep
      · cases hstep
        exact .idle (Or.inl hidle) hover hnone stopped_ne_running
  | busy i hover hprogress =>
    obtain ⟨hbegun, hfalse⟩ := hprogress.told hstop
    cases request with
    | told =>
      cases hstep
      exact .busy i hover (hprogress.stopped hbegun rfl rfl hfalse (Or.inl rfl) id)
    | removed =>
      unfold goOnStop at hstep
      dsimp only at hstep
      split at hstep
      · cases hstep
      · cases hstep
        exact .busy i hover (hprogress.stopped hbegun rfl rfl hfalse (hprogress.held hbegun).1
          fun _ => stopped_ne_running)

theorem tidy_start (h : Tidy source s) (hturn : InTurn source s .start)
    (hstep : step source s .start = some s') : Tidy source s' := by
  obtain ⟨hkind, hturn⟩ := hturn
  unfold step at hstep
  dsimp only at hstep
  split at hstep
  · cases hstep
    exact h
  · rename_i hrunning
    cases hstep
    obtain ⟨hstart, hstop, hrest⟩ : s.Rests := hturn.resolve_left hrunning
    cases h with
    | idle _ hover hnone hstatus =>
      refine .idle (Or.inr ⟨?_, hstop, hkind⟩) hover hnone hstatus
      rw [hstart]
      rfl
    | busy i hover hprogress =>
      have htask := hrest i
      cases hprogress <;> simp_all

/-- A start that goes on is the only one. -/
theorem eq_of_getElem?_singleton {α : Type} {l : List α} {a b : α} (hl : l = [a])
    (hb : l[k]? = some b) : k = 0 ∧ b = a := by
  rw [hl, List.getElem?_singleton] at hb
  split at hb
  · rename_i hk
    exact ⟨hk, (Option.some.inj hb).symm⟩
  · cases hb

/-- A start that has looked for the pipeline creates a source. -/
theorem tidy_checked {succeeds : Bool} (hstart : s.starting = [.checked]) (hstop : s.stopping = [])
    (hkind : source ≠ .other) (hover : ∀ i, (s.sources i).task = .over)
    (hnone : s.registered = none) (hstatus : s.status ≠ "running")
    (hstep : s.goOn source 0 succeeds .checked = some s') : Tidy source s' := by
  unfold goOn at hstep
  dsimp only at hstep
  rw [if_neg hkind] at hstep
  split_ifs at hstep
  · cases hstep
    refine .busy s.next (fun j hj => ?_) (.created ?_ ?_ hnone hstop)
    · change (Function.update s.sources s.next _ j).task = .over
      rw [Function.update_of_ne hj]
      exact hover j
    · rw [hstart]
      rfl
    · change (Function.update s.sources s.next _ s.next).task = .waiting
      rw [Function.update_self]
  · cases hstep
    refine .idle (Or.inl ?_) hover hnone hstatus
    rw [hstart]
    rfl

theorem Progress.goOn {succeeds : Bool} (hover : ∀ j, j ≠ i → (s.sources j).task = .over)
    (h : Progress source s i) {request : Starting} (hrequest : s.starting[k]? = some request)
    (hstep : s.goOn source k succeeds request = some s') : Tidy source s' := by
  have hover' : ∀ task, ∀ j, j ≠ i → ((s.setTask i task).sources j).task = .over :=
    fun task j hj => (setTask_task_of_ne task hj).trans (hover j hj)
  cases h with
  | created hstart htask hnone hstop =>
    obtain ⟨rfl, rfl⟩ := eq_of_getElem?_singleton hstart hrequest
    cases hstep
    refine .busy i hover (.registered ?_ htask ⟨Or.inr rfl, fun _ => ⟨rfl, hstop⟩⟩
      fun _ => ⟨rfl, hstop⟩)
    rw [hstart]
    rfl
  | registered hstart htask hheld hkafka =>
    obtain ⟨rfl, rfl⟩ := eq_of_getElem?_singleton hstart hrequest
    unfold Lifecycle.goOn at hstep
    dsimp only at hstep
    split_ifs at hstep with hkind
    · cases hstep
      obtain ⟨hregistered, hstop⟩ := hkafka hkind
      refine .busy i (fun j hj => (setRunning_task true).trans (hover j hj)) (.started ?_
        ((setRunning_task true).trans htask) ⟨Or.inr hregistered, fun _ => ⟨hregistered, hstop⟩⟩)
      rw [hstart]
      rfl
    · cases hstep
      refine .busy i hover (.marked ?_ htask hheld fun _ => rfl)
      rw [hstart]
      rfl
  | started hstart htask hheld =>
    obtain ⟨rfl, rfl⟩ := eq_of_getElem?_singleton hstart hrequest
    unfold Lifecycle.goOn at hstep
    dsimp only at hstep
    split_ifs at hstep
    cases hstep
    refine .busy i hover (.marked ?_ htask hheld fun _ => rfl)
    rw [hstart]
    rfl
  | marked hstart htask hheld hstatus =>
    obtain ⟨rfl, rfl⟩ := eq_of_getElem?_singleton hstart hrequest
    cases hstep
    refine .busy i (hover' .active) (.active ?_ (setTask_task_self .active) ?_ ?_)
    · rw [hstart]
      rfl
    · exact ⟨hheld.1, fun htrue => hheld.2 ((setTask_running .active).symm.trans htrue)⟩
    · exact fun htrue => hstatus ((setTask_running .active).symm.trans htrue)
  | active hstart => simp [hstart] at hrequest
  | ended hstart => simp [hstart] at hrequest
  | cleared hstart => simp [hstart] at hrequest

theorem tidy_goOn {succeeds : Bool} (h : Tidy source s)
    (hstep : step source s (.goOn k succeeds) = some s') : Tidy source s' := by
  obtain ⟨request, hrequest, hgoOn⟩ := Option.bind_eq_some_iff.mp hstep
  cases h with
  | idle hstart hover hnone hstatus =>
    rcases hstart with hnil | ⟨hchecked, hstop, hkind⟩
    · simp [hnil] at hrequest
    · obtain ⟨rfl, rfl⟩ := eq_of_getElem?_singleton hchecked hrequest
      exact tidy_checked hchecked hstop hkind hover hnone hstatus hgoOn
  | busy i hover hprogress => exact hprogress.goOn hover hrequest hgoOn

theorem tidy_finish (h : Tidy source s) (hstep : step source s (.finish i) = some s') :
    Tidy source s' := by
  unfold step at hstep
  dsimp only at hstep
  split_ifs at hstep with hactive
  cases hstep
  cases h with
  | idle _ hover => simp [hover i] at hactive
  | busy j hover hprogress =>
    have hij : i = j := by
      by_contra hne
      simp [hover i hne] at hactive
    subst hij
    cases hprogress with
    | active hstart _ hheld _ =>
      refine .busy i (fun j hj => (setTask_task_of_ne _ hj).trans (hover j hj))
        (.ended hstart (setTask_task_self _) ?_)
      exact ⟨hheld.1, fun htrue => hheld.2 ((setTask_running _).symm.trans htrue)⟩
    | _ => simp_all

theorem tidy_cleanUp (h : Tidy source s) (hstep : step source s (.cleanUp i) = some s') :
    Tidy source s' := by
  unfold step at hstep
  dsimp only at hstep
  cases h with
  | idle _ hover =>
    rw [hover i] at hstep
    cases hstep
  | busy j hover hprogress =>
    have hij : i = j := by
      by_contra hne
      rw [hover i hne] at hstep
      cases hstep
    subst hij
    cases hprogress with
    | ended hstart htask hheld =>
      rw [htask] at hstep
      unfold cleanUp at hstep
      dsimp only at hstep
      split_ifs at hstep
      cases hstep
      refine .busy i (fun j hj => (setTask_task_of_ne _ hj).trans (hover j hj))
        (.cleared hstart (setTask_task_self _) ?_ stopped_ne_running)
      exact ⟨hheld.1, fun htrue => hheld.2 ((setTask_running _).symm.trans htrue)⟩
    | cleared hstart htask hheld hstatus =>
      rw [htask] at hstep
      cases hstep
      refine .idle (Or.inl hstart) (fun j => ?_) rfl hstatus
      by_cases hj : j = i
      · rw [hj]
        exact setTask_task_self _
      · exact (setTask_task_of_ne _ hj).trans (hover j hj)
    | created _ htask | registered _ htask | started _ htask | marked _ htask | active _ htask =>
      rw [htask] at hstep
      cases hstep

theorem tidy_step {action : LifecycleAction} (h : Tidy source s) (hturn : InTurn source s action)
    (hstep : step source s action = some s') : Tidy source s' := by
  cases action with
  | start => exact tidy_start h hturn hstep
  | goOn k succeeds => exact tidy_goOn h hstep
  | stop => exact tidy_stop h hturn hstep
  | goOnStop k => exact tidy_goOnStop h hstep
  | finish i => exact tidy_finish h hstep
  | cleanUp i => exact tidy_cleanUp h hstep

theorem Progress.of_active (h : Progress source s i) (hactive : (s.sources i).task = .active) :
    s.Held i ∧ ((s.sources i).running = true → s.status = "running") := by
  cases h with
  | active _ _ hheld hstatus => exact ⟨hheld, hstatus⟩
  | created _ htask | registered _ htask | started _ htask | marked _ htask | ended _ htask
  | cleared _ htask =>
    rw [htask] at hactive
    cases hactive

theorem Progress.active_of_quiet (h : Progress source s i) (hquiet : s.Quiet) :
    (s.sources i).task = .active ∧ (s.sources i).running = true := by
  obtain ⟨hstart, -, htasks⟩ := hquiet
  have hnotOver : (s.sources i).task ≠ .over := by
    cases h <;> simp_all
  exact (htasks i).resolve_left hnotOver

theorem Tidy.orderly (h : Tidy source s) : s.Orderly := by
  cases h with
  | idle _ hover _ hstatus =>
    constructor
    · intro i j hi
      rw [hover i] at hi
      cases hi
    · intro i hi
      rw [hover i] at hi
      cases hi
    · intro _
      constructor
      · exact fun hrunning => absurd hrunning hstatus
      · rintro ⟨i, hi⟩
        rw [hover i] at hi
        cases hi
  | busy i hover hprogress =>
    have honly : ∀ j, (s.sources j).task = .active → j = i := by
      intro j hj
      by_contra hne
      rw [hover j hne] at hj
      cases hj
    constructor
    · exact fun j j' hj hj' => (honly j hj).trans (honly j' hj').symm
    · intro j hj hrunning
      have hij := honly j hj
      subst hij
      exact ((hprogress.of_active hj).1.2 hrunning).1
    · intro hquiet
      obtain ⟨hactive, hrunning⟩ := hprogress.active_of_quiet hquiet
      exact iff_of_true ((hprogress.of_active hactive).2 hrunning) ⟨i, hactive⟩

theorem tidy_created : Tidy source .created :=
  .idle (Or.inl rfl) (fun _ => rfl) rfl (by decide)

/-- In every run in which the requests come in turn, the pipeline is orderly. -/
theorem orderly_run {actions : List LifecycleAction}
    (hturn : Run.Along (step source) (InTurn source) .created actions)
    (hrun : Run.run (step source) .created actions = some s) : s.Orderly := by
  have htidy : Tidy source s :=
    Run.invariant (fun _ _ _ hs hok hstep => tidy_step hs hok hstep) tidy_created hturn hrun
  exact htidy.orderly

end Steps

section KafkaTwice

/-- A start, to the consumer task. -/
def kafkaStart : List LifecycleAction :=
  [.start, .goOn 0 true, .goOn 0 true, .goOn 0 true, .goOn 0 true, .goOn 0 true]

/-- A pipeline that is started once. -/
theorem orderly_run_kafka : ∃ s, Run.run (step .kafka) .created kafkaStart = some s ∧
    s.Orderly := by
  have hturn : Run.Along (step .kafka) (InTurn .kafka) .created kafkaStart := by
    constructor
    · exact ⟨by decide, Or.inr ⟨rfl, rfl, fun _ => rfl⟩⟩
    · intro _ _
      exact ⟨trivial, fun _ _ => ⟨trivial, fun _ _ => ⟨trivial, fun _ _ => ⟨trivial, fun _ _ =>
        ⟨trivial, fun _ _ => trivial⟩⟩⟩⟩⟩
  have hrun := orderly_run hturn rfl
  exact ⟨_, rfl, hrun⟩

/-- Nobody looks whether a Kafka pipeline runs when it is started a second time. -/
theorem not_orderly_kafka : ∃ s, Run.run (step .kafka) .created (kafkaStart ++ kafkaStart) = some s ∧
    ¬ s.Orderly := by
  refine ⟨_, rfl, fun h => ?_⟩
  have hsame := h.single 0 1 rfl rfl
  cases hsame

end KafkaTwice
end Lifecycle
end RustLake.Stream
