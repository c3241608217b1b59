import RustLake.Scheduler.Process
import Mathlib.Data.List.Forall2

/-! Assertions about processes that run at once over a shared state: what the state satisfies, what
each process asks and what it returns, given all that has been heard from outside so far. -/
namespace RustLake.Scheduler

variable {State Request : Type} {Answer : Request → Type} {α β : Type}

/-- A request with an answer to it. -/
abbrev Heard (Answer : Request → Type) : Type := (request : Request) × Answer request

/-- A property of the state that stays true when more is heard. -/
structure Invariant (State : Type) (Answer : Request → Type) where
  Holds : List (Heard Answer) → State → Prop
  mono : ∀ {heard s} more, Holds heard s → Holds (heard ++ more) s

/-- What a process may ask, and what it may return. -/
structure Spec (Answer : Request → Type) (α : Type) where
  Asks : Request → Prop
  Returns : List (Heard Answer) → α → Prop
  mono : ∀ {heard a} more, Returns heard a → Returns (heard ++ more) a

/-- A process that may ask and return anything. -/
def Spec.any : Spec Answer α := ⟨fun _ => True, fun _ _ => True, fun _ _ => trivial⟩

/-- Whatever else is heard meanwhile, the process keeps the invariant, asks only what it may, and
returns what it may. -/
def Process.Meets (inv : Invariant State Answer) (spec : Spec Answer α) :
    List (Heard Answer) → Process State Answer α → Prop
  | heard, .done a => spec.Returns heard a
  | heard, .read k => ∀ more s, inv.Holds (heard ++ more) s → (k s).Meets inv spec (heard ++ more)
  | heard, .write f k => ∀ more s, inv.Holds (heard ++ more) s →
      inv.Holds (heard ++ more) (f s) ∧ k.Meets inv spec (heard ++ more)
  | heard, .ask request k => spec.Asks request ∧
      ∀ more r, (k r).Meets inv spec (heard ++ more ++ [⟨request, r⟩])

/-- What a process hears when it goes on. -/
def Process.heardBy (answer : (request : Request) → Answer request) :
    Process State Answer α → List (Heard Answer)
  | .ask request _ => [⟨request, answer request⟩]
  | _ => []

/-- What is heard in a move. -/
def Pool.heardBy {Call : Type} (pool : Pool State Answer α) :
    Move Answer Call → List (Heard Answer)
  | .begin _ => []
  | .advance i answer => (pool.running[i]?).elim [] (·.heardBy answer)

/-- All that is heard in the moves. -/
def Pool.heard {Call : Type} (handle : Call → Process State Answer α) :
    Pool State Answer α → List (Move Answer Call) → List (Heard Answer)
  | _, [] => []
  | pool, move :: moves => pool.heardBy move ++
      match pool.step handle move with
      | some pool' => pool'.heard handle moves
      | none => []

/-- The specification of the process that a move begins. -/
def Move.begun {Call σ : Type} (spec : Call → σ) : Move Answer Call → List σ
  | .begin call => [spec call]
  | .advance _ _ => []

section
variable {inv : Invariant State Answer} {spec : Spec Answer α} {heard : List (Heard Answer)}

theorem Process.Meets.mono {p : Process State Answer α} (h : p.Meets inv spec heard)
    (more : List (Heard Answer)) : p.Meets inv spec (heard ++ more) := by
  cases p with
  | done a => exact spec.mono more h
  | read k =>
    intro more' s hs
    rw [List.append_assoc] at hs ⊢
    exact h (more ++ more') s hs
  | write f k =>
    intro more' s hs
    rw [List.append_assoc] at hs ⊢
    exact h (more ++ more') s hs
  | ask request k =>
    refine ⟨h.1, fun more' r => ?_⟩
    have hnext := h.2 (more ++ more') r
    rwa [← List.append_assoc heard more more'] at hnext

/-- What follows a process goes on from what it returns. -/
theorem Process.Meets.bind {spec' : Spec Answer β} {p : Process State Answer α}
    {f : α → Process State Answer β} (h : p.Meets inv spec heard)
    (hasks : ∀ request, spec.Asks request → spec'.Asks request)
    (hf : ∀ heard' a, spec.Returns heard' a → (f a).Meets inv spec' heard') :
    (p >>= f).Meets inv spec' heard := by
  change (Process.bind p f).Meets inv spec' heard
  induction p generalizing heard with
  | done a => exact hf heard a h
  | read k ih => exact fun more s hs => ih s (h more s hs)
  | write g k ih => exact fun more s hs => ⟨(h more s hs).1, ih (h more s hs).2⟩
  | ask request k ih => exact ⟨hasks request h.1, fun more r => ih r (h.2 more r)⟩

/-- A process whose sections all keep the invariant meets the weakest specification. -/
theorem Process.Writes.meets {P : (State → State) → Prop} {p : Process State Answer α}
    (hP : ∀ f, P f → ∀ heard s, inv.Holds heard s → inv.Holds heard (f s)) (h : p.Writes P)
    (heard : List (Heard Answer)) : p.Meets inv .any heard := by
  induction p generalizing heard with
  | done a => trivial
  | read k ih => exact fun more s hs => ih s (h s) _
  | write f k ih => exact fun more s hs => ⟨hP f h.1 _ s hs, ih h.2 _⟩
  | ask request k ih => exact ⟨trivial, fun more r => ih r (h r) _⟩

variable {Call : Type} {handle : Call → Process State Answer α} {specOf : Call → Spec Answer α}
  {specs : List (Spec Answer α)} {pool pool' : Pool State Answer α}

/-- Every process of the pool meets its specification, and the state keeps the invariant. -/
structure Pool.Meet (inv : Invariant State Answer) (specs : List (Spec Answer α))
    (heard : List (Heard Answer)) (pool : Pool State Answer α) : Prop where
  running : List.Forall₂ (fun spec p => Process.Meets inv spec heard p) specs pool.running
  state : inv.Holds heard pool.state

theorem Process.Meets.advance {p p' : Process State Answer α} {s s' : State}
    {answer : (request : Request) → Answer request} (h : p.Meets inv spec heard)
    (hs : inv.Holds heard s) (hadvance : p.advance answer s = some (p', s')) :
    p'.Meets inv spec (heard ++ p.heardBy answer) ∧ inv.Holds (heard ++ p.heardBy answer) s' := by
  cases p with
  | done a => cases hadvance
  | read k =>
    cases hadvance
    have hread := h [] s (by rwa [List.append_nil])
    exact ⟨hread, inv.mono [] hs⟩
  | write f k =>
    cases hadvance
    have hwrite := h [] s (by rwa [List.append_nil])
    exact ⟨hwrite.2, hwrite.1⟩
  | ask request k =>
    cases hadvance
    have hask := h.2 [] (answer request)
    rw [List.append_nil] at hask
    exact ⟨hask, inv.mono _ hs⟩

/-- The process at an index of the pool meets the specification at that index. -/
theorem Pool.Meet.at (h : pool.Meet inv specs heard) {i : ℕ} {p : Process State Answer α}
    (hspec : specs[i]? = some spec) (hp : pool.running[i]? = some p) : p.Meets inv spec heard := by
  obtain ⟨hi, rfl⟩ := List.getElem?_eq_some_iff.mp hspec
  obtain ⟨hi', rfl⟩ := List.getElem?_eq_some_iff.mp hp
  exact (List.forall₂_iff_get.mp h.running).2 i hi hi'

theorem forall₂_set {γ δ : Type} {R : γ → δ → Prop} {l : List γ} {l' : List δ}
    (h : List.Forall₂ R l l') {i : ℕ} {b : δ} (hb : ∀ a ∈ l[i]?, R a b) :
    List.Forall₂ R l (l'.set i b) := by
  induction h generalizing i with
  | nil => exact List.Forall₂.nil
  | cons hhead htail ih =>
    cases i with
    | zero => exact List.Forall₂.cons (hb _ rfl) htail
    | succ i => exact List.Forall₂.cons hhead (ih hb)

theorem Pool.Meet.step {move : Move Answer Call} (h : pool.Meet inv specs heard)
    (hhandle : ∀ call heard, (handle call).Meets inv (specOf call) heard)
    (hstep : pool.step handle move = some pool') :
    pool'.Meet inv (specs ++ move.begun specOf) (heard ++ pool.heardBy move) := by
  cases move with
  | begin call =>
    cases hstep
    refine ⟨?_, inv.mono [] h.state⟩
    apply List.rel_append
    · exact h.running.imp fun spec p hp => hp.mono []
    · exact List.Forall₂.cons (hhandle call _) List.Forall₂.nil
  | advance i answer =>
    obtain ⟨p, hp, hrest⟩ := Option.bind_eq_some_iff.mp hstep
    obtain ⟨⟨p', s'⟩, hadvance, hpool⟩ := Option.bind_eq_some_iff.mp hrest
    cases hpool
    obtain ⟨hi, hget⟩ := List.getElem?_eq_some_iff.mp hp
    have hspec : ∀ spec ∈ specs[i]?, p.Meets inv spec heard := fun spec hspec => h.at hspec hp
    have hnow : pool.heardBy (.advance i answer : Move Answer Call) = p.heardBy answer := by
      rw [Pool.heardBy, hp]
      rfl
    have hstate : inv.Holds (heard ++ p.heardBy answer) s' := by
      have hlength := h.running.length_eq
      have hi' : i < specs.length := by omega
      exact ((hspec specs[i] (List.getElem?_eq_getElem hi')).advance h.state hadvance).2
    rw [hnow, Move.begun, List.append_nil]
    refine ⟨?_, hstate⟩
    apply forall₂_set (h.running.imp fun spec q hq => hq.mono _)
    intro spec hmem
    exact ((hspec spec hmem).advance h.state hadvance).1

/-- Processes that meet their specifications one by one meet them in every run beside each other. -/
theorem Pool.Meet.run {moves : List (Move Answer Call)} (h : pool.Meet inv specs heard)
    (hhandle : ∀ call heard, (handle call).Meets inv (specOf call) heard)
    (hrun : Run.run (Pool.step handle) pool moves = some pool') :
    pool'.Meet inv (specs ++ moves.flatMap (Move.begun specOf)) (heard ++ pool.heard handle moves) := by
  induction moves generalizing pool specs heard with
  | nil =>
    cases hrun
    simpa [Pool.heard] using h
  | cons move moves ih =>
    unfold Run.run at hrun
    split at hrun
    · rename_i next hnext
      have hrest := ih (h.step hhandle hnext) hrun
      rw [List.flatMap_cons, ← List.append_assoc, Pool.heard, hnext, ← List.append_assoc]
      exact hrest
    · cases hrun

theorem flatMap_begun {σ : Type} (specOf : Call → σ) (moves : List (Move Answer Call)) :
    moves.flatMap (Move.begun specOf) =
      (moves.flatMap (Move.begun fun call => call)).map specOf := by
  induction moves with
  | nil => rfl
  | cons move moves ih =>
    rw [List.flatMap_cons, List.flatMap_cons, List.map_append, ih]
    cases move <;> rfl

end

end RustLake.Scheduler
