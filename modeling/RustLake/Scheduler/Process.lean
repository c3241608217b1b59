import RustLake.Order.Run
import Mathlib.Logic.Function.Iterate

/-! Code that takes the lock of a shared state for short sections and waits for answers from
outside in between, and its run beside others that change the state while the lock is free. -/
namespace RustLake.Scheduler

inductive Process (State : Type) {Request : Type} (Answer : Request → Type) (α : Type) where
  | done (a : α)
  | read (k : State → Process State Answer α)
  | write (f : State → State) (k : Process State Answer α)
  | ask (request : Request) (k : Answer request → Process State Answer α)

/-- What the others do to the state before each section or request, and the answers. -/
structure World (State : Type) {Request : Type} (Answer : Request → Type) where
  others : ℕ → State → State
  answer : ℕ → (request : Request) → Answer request

variable {State Request : Type} {Answer : Request → Type} {α β : Type}

def World.next (w : World State Answer) : World State Answer where
  others n := w.others (n + 1)
  answer n := w.answer (n + 1)

/-- A world in which nobody else changes the state and the answers stay the same. -/
def World.quiet (answer : (request : Request) → Answer request) : World State Answer where
  others _ s := s
  answer _ := answer

@[simp] theorem World.next_quiet (answer : (request : Request) → Answer request) :
    (World.quiet answer : World State Answer).next = World.quiet answer := rfl

/-- Where a run has come to. -/
structure Settled (State : Type) {Request : Type} (Answer : Request → Type) (α : Type) where
  value : α
  state : State
  world : World State Answer

namespace Process

def bind : Process State Answer α → (α → Process State Answer β) → Process State Answer β
  | .done a, f => f a
  | .read k, f => .read fun s => bind (k s) f
  | .write g k, f => .write g (bind k f)
  | .ask request k, f => .ask request fun r => bind (k r) f

instance : Monad (Process State Answer) where
  pure := .done
  bind := bind

def run : Process State Answer α → World State Answer → State → Settled State Answer α
  | .done a, w, s => ⟨a, s, w⟩
  | .read k, w, s => run (k (w.others 0 s)) w.next (w.others 0 s)
  | .write f k, w, s => run k w.next (f (w.others 0 s))
  | .ask request k, w, s => run (k (w.answer 0 request)) w.next (w.others 0 s)

@[simp] theorem run_pure (a : α) (w : World State Answer) (s : State) :
    run (pure a) w s = ⟨a, s, w⟩ := rfl

theorem run_bind (p : Process State Answer α) (f : α → Process State Answer β)
    (w : World State Answer) (s : State) :
    run (p >>= f) w s = run (f (run p w s).value) (run p w s).world (run p w s).state := by
  change run (bind p f) w s = _
  induction p generalizing w s with
  | done a => rfl
  | read k ih => exact ih _ _ _
  | write g k ih => exact ih _ _
  | ask request k ih => exact ih _ _ _

/-- The states before and after each section of a run that may change the state. -/
def writes : Process State Answer α → World State Answer → State → List (State × State)
  | .done _, _, _ => []
  | .read k, w, s => writes (k (w.others 0 s)) w.next (w.others 0 s)
  | .write f k, w, s => (w.others 0 s, f (w.others 0 s)) :: writes k w.next (f (w.others 0 s))
  | .ask request k, w, s => writes (k (w.answer 0 request)) w.next (w.others 0 s)

@[simp] theorem writes_pure (a : α) (w : World State Answer) (s : State) :
    writes (pure a) w s = [] := rfl

theorem writes_bind (p : Process State Answer α) (f : α → Process State Answer β)
    (w : World State Answer) (s : State) :
    writes (p >>= f) w s = writes p w s ++
      writes (f (run p w s).value) (run p w s).world (run p w s).state := by
  change writes (bind p f) w s = _
  induction p generalizing w s with
  | done a => rfl
  | read k ih => exact ih _ _ _
  | write g k ih => exact congrArg (_ :: ·) (ih _ _)
  | ask request k ih => exact ih _ _ _

/-- The requests of a run. -/
def asks : Process State Answer α → World State Answer → State → List Request
  | .done _, _, _ => []
  | .read k, w, s => asks (k (w.others 0 s)) w.next (w.others 0 s)
  | .write f k, w, s => asks k w.next (f (w.others 0 s))
  | .ask request k, w, s => request :: asks (k (w.answer 0 request)) w.next (w.others 0 s)

theorem asks_bind (p : Process State Answer α) (f : α → Process State Answer β)
    (w : World State Answer) (s : State) :
    asks (p >>= f) w s = asks p w s ++
      asks (f (run p w s).value) (run p w s).world (run p w s).state := by
  change asks (bind p f) w s = _
  induction p generalizing w s with
  | done a => rfl
  | read k ih => exact ih _ _ _
  | write g k ih => exact ih _ _
  | ask request k ih => exact congrArg (_ :: ·) (ih _ _ _)

/-- Every section of the code that may change the state does so in a certain way. -/
def Changes (P : (State → State) → Prop) : Process State Answer α → Prop
  | .done _ => True
  | .read k => ∀ s, Changes P (k s)
  | .write f k => P f ∧ Changes P k
  | .ask _ k => ∀ r, Changes P (k r)

theorem Changes.bind {P : (State → State) → Prop} {p : Process State Answer α}
    {f : α → Process State Answer β} (hp : p.Changes P) (hf : ∀ a, (f a).Changes P) :
    (p >>= f).Changes P := by
  change (Process.bind p f).Changes P
  induction p with
  | done a => exact hf a
  | read k ih => exact fun s => ih s (hp s)
  | write g k ih => exact ⟨hp.1, ih hp.2⟩
  | ask request k ih => exact fun r => ih r (hp r)

/-- What neither the code nor the others change is as it was when the code ends, and stays so. -/
theorem Changes.run {Part : Type} {part : State → Part} {p : Process State Answer α}
    (hp : p.Changes fun f => ∀ s, part (f s) = part s) {w : World State Answer}
    (hw : ∀ n s, part (w.others n s) = part s) (s : State) :
    part (p.run w s).state = part s ∧
      ∀ n s', part ((p.run w s).world.others n s') = part s' := by
  have hnext : ∀ n s', part (w.next.others n s') = part s' := fun n => hw (n + 1)
  induction p generalizing w s with
  | done a => exact ⟨rfl, hw⟩
  | read k ih =>
    obtain ⟨hstate, hworld⟩ := ih _ (hp _) hnext (w.others 0 s) fun n => hnext (n + 1)
    exact ⟨hstate.trans (hw 0 s), hworld⟩
  | write f k ih =>
    obtain ⟨hstate, hworld⟩ := ih hp.2 hnext (f (w.others 0 s)) fun n => hnext (n + 1)
    exact ⟨hstate.trans ((hp.1 _).trans (hw 0 s)), hworld⟩
  | ask request k ih =>
    obtain ⟨hstate, hworld⟩ := ih _ (hp _) hnext (w.others 0 s) fun n => hnext (n + 1)
    exact ⟨hstate.trans (hw 0 s), hworld⟩

/-- Every value that the code can return, whatever it reads and hears, has a property. -/
def Returns (P : α → Prop) : Process State Answer α → Prop
  | .done a => P a
  | .read k => ∀ s, Returns P (k s)
  | .write _ k => Returns P k
  | .ask _ k => ∀ r, Returns P (k r)

variable {P : α → Prop} {Q : β → Prop}

theorem Returns.bind {p : Process State Answer α} {f : α → Process State Answer β}
    (hp : p.Returns P) (hf : ∀ a, P a → (f a).Returns Q) : (p >>= f).Returns Q := by
  change (Process.bind p f).Returns Q
  induction p with
  | done a => exact hf a hp
  | read k ih => exact fun s => ih s (hp s)
  | write g k ih => exact ih hp
  | ask request k ih => exact fun r => ih r (hp r)

theorem returns_true (p : Process State Answer α) : p.Returns fun _ => True := by
  induction p with
  | done a => trivial
  | read k ih => exact ih
  | write g k ih => exact ih
  | ask request k ih => exact ih

/-- What the code returns has the property in every run. -/
theorem Returns.run {p : Process State Answer α} (hp : p.Returns P) (w : World State Answer)
    (s : State) : P (p.run w s).value := by
  induction p generalizing w s with
  | done a => exact hp
  | read k ih => exact ih _ (hp _) _ _
  | write g k ih => exact ih hp _ _
  | ask request k ih => exact ih _ (hp _) _ _

end Process
end RustLake.Scheduler

/-! Processes that run at once over a shared state, each going on by one section at a time. -/
namespace RustLake.Scheduler

variable {State Request : Type} {Answer : Request → Type} {α : Type}

/-- One section or one request of a process; none when it is done. -/
def Process.advance (answer : (request : Request) → Answer request) :
    Process State Answer α → State → Option (Process State Answer α × State)
  | .done _, _ => none
  | .read k, s => some (k s, s)
  | .write f k, s => some (k, f s)
  | .ask request k, s => some (k (answer request), s)

/-- Every section under the write lock, whatever the process reads and hears, has a property. -/
def Process.Writes (P : (State → State) → Prop) : Process State Answer α → Prop
  | .done _ => True
  | .read k => ∀ s, Writes P (k s)
  | .write f k => P f ∧ Writes P k
  | .ask _ k => ∀ r, Writes P (k r)

structure Pool (State : Type) {Request : Type} (Answer : Request → Type) (α : Type) where
  state : State
  running : List (Process State Answer α)

/-- A process is begun, or one that has been begun goes on. -/
inductive Move {Request : Type} (Answer : Request → Type) (Call : Type) where
  | begin (call : Call)
  | advance (i : ℕ) (answer : (request : Request) → Answer request)

variable {Call : Type} (handle : Call → Process State Answer α)

def Pool.step (pool : Pool State Answer α) : Move Answer Call → Option (Pool State Answer α)
  | .begin call => some { pool with running := pool.running ++ [handle call] }
  | .advance i answer => do
    let p ← pool.running[i]?
    let (p', s') ← p.advance answer pool.state
    return ⟨s', pool.running.set i p'⟩

/-- The section under the write lock that a move takes. -/
def Pool.writes (pool : Pool State Answer α) : Move Answer Call → Option (State → State)
  | .begin _ => none
  | .advance i _ => pool.running[i]?.bind fun
    | .write f _ => some f
    | _ => none

variable {handle} {P : (State → State) → Prop} {p : Process State Answer α}

theorem Process.Writes.bind {β : Type} {f : α → Process State Answer β} (hp : p.Writes P)
    (hf : ∀ a, (f a).Writes P) : (p >>= f).Writes P := by
  change (Process.bind p f).Writes P
  induction p with
  | done a => exact hf a
  | read k ih => exact fun s => ih s (hp s)
  | write g k ih => exact ⟨hp.1, ih hp.2⟩
  | ask request k ih => exact fun r => ih r (hp r)

theorem Process.Writes.advance {answer : (request : Request) → Answer request}
    {p' : Process State Answer α} {s s' : State} (hp : p.Writes P)
    (h : p.advance answer s = some (p', s')) : p'.Writes P := by
  cases p with
  | done a => cases h
  | read k =>
    cases h
    exact hp s
  | write f k =>
    cases h
    exact hp.2
  | ask request k =>
    cases h
    exact hp (answer request)

/-- What a move does to the state: what its section does. -/
theorem Pool.step_state {pool pool' : Pool State Answer α} {move : Move Answer Call}
    (h : pool.step handle move = some pool') :
    pool'.state = match pool.writes move with
      | some f => f pool.state
      | none => pool.state := by
  cases move with
  | begin call =>
    cases h
    rfl
  | advance i answer =>
    obtain ⟨p, hp, h⟩ := Option.bind_eq_some_iff.mp h
    obtain ⟨⟨p', s'⟩, hadvance, h⟩ := Option.bind_eq_some_iff.mp h
    cases h
    simp only [Pool.writes, hp, Option.bind_some]
    cases p with
    | done a => cases hadvance
    | read k =>
      cases hadvance
      rfl
    | write f k =>
      cases hadvance
      rfl
    | ask request k =>
      cases hadvance
      rfl

/-- The processes under way keep a property of all sections of the handlers. -/
theorem Pool.step_writes {pool pool' : Pool State Answer α} {move : Move Answer Call}
    (hhandle : ∀ call, (handle call).Writes P) (hrunning : ∀ p ∈ pool.running, p.Writes P)
    (h : pool.step handle move = some pool') : ∀ p ∈ pool'.running, p.Writes P := by
  cases move with
  | begin call =>
    cases h
    intro p hp
    rcases List.mem_append.mp hp with hold | hnew
    · exact hrunning p hold
    · rw [List.mem_singleton.mp hnew]
      exact hhandle call
  | advance i answer =>
    obtain ⟨p, hp, h⟩ := Option.bind_eq_some_iff.mp h
    obtain ⟨⟨p', s'⟩, hadvance, h⟩ := Option.bind_eq_some_iff.mp h
    cases h
    intro q hq
    rcases List.mem_or_eq_of_mem_set hq with hold | rfl
    · exact hrunning q hold
    · exact (hrunning p (List.mem_of_getElem? hp)).advance hadvance

theorem Pool.writes_of_running {pool : Pool State Answer α} {move : Move Answer Call}
    {f : State → State} (hrunning : ∀ p ∈ pool.running, p.Writes P)
    (h : pool.writes move = some f) : P f := by
  cases move with
  | begin call => cases h
  | advance i answer =>
    obtain ⟨p, hp, h⟩ := Option.bind_eq_some_iff.mp h
    have hwrites := hrunning p (List.mem_of_getElem? hp)
    cases p with
    | write g k =>
      cases h
      exact hwrites.1
    | done a => cases h
    | read k => cases h
    | ask request k => cases h

end RustLake.Scheduler
