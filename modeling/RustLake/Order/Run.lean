import Mathlib.Data.List.Basic

/-! Systems that take one action after another, and what holds in every state of their runs. -/
namespace RustLake.Run

variable {State Action α : Type} (step : State → Action → Option State)

/-- The state after the actions, when each of them can be taken. -/
def run : State → List Action → Option State
  | s, [] => some s
  | s, action :: rest =>
    match step s action with
    | some s' => run s' rest
    | none => none

/-- Every action meets a condition in the state in which it is taken. -/
def Along (ok : State → Action → Prop) : State → List Action → Prop
  | _, [] => True
  | s, action :: rest => ok s action ∧ ∀ s', step s action = some s' → Along ok s' rest

instance decidableAlong (ok : State → Action → Prop) [∀ s a, Decidable (ok s a)] :
    ∀ s actions, Decidable (Along step ok s actions)
  | _, [] => isTrue trivial
  | s, action :: rest =>
    match h : step s action with
    | some s' =>
      have : Decidable (Along step ok s' rest) := decidableAlong ok s' rest
      decidable_of_iff (ok s action ∧ Along step ok s' rest) (by simp [Along, h])
    | none => decidable_of_iff (ok s action) (by simp [Along, h])

variable {step}

/-- What every step that meets the condition keeps holds after every run of such steps. -/
theorem invariant {ok : State → Action → Prop} {I : State → Prop}
    (hstep : ∀ s action s', I s → ok s action → step s action = some s' → I s')
    {s s' : State} {actions : List Action} (hs : I s) (halong : Along step ok s actions)
    (hrun : run step s actions = some s') : I s' := by
  induction actions generalizing s with
  | nil =>
    cases hrun
    exact hs
  | cons action rest ih =>
    unfold run at hrun
    split at hrun
    · rename_i next hnext
      exact ih (hstep s action next hs halong.1 hnext) (halong.2 next hnext) hrun
    · cases hrun

theorem along_of_forall {ok : State → Action → Prop} (h : ∀ s action, ok s action) {s : State}
    {actions : List Action} : Along step ok s actions := by
  induction actions generalizing s with
  | nil => trivial
  | cons action rest ih => exact ⟨h s action, fun s' _ => ih⟩

/-- What holds after a step just when it held before and the step met a condition, holds after a run
just when it held at first and all steps met the condition. -/
theorem iff_along {ok : State → Action → Prop} {I J : State → Prop}
    (hkeep : ∀ s action s', J s → step s action = some s' → J s')
    (hstep : ∀ s action s', J s → step s action = some s' → (I s' ↔ I s ∧ ok s action))
    {s s' : State} {actions : List Action} (hs : J s) (hrun : run step s actions = some s') :
    I s' ↔ I s ∧ Along step ok s actions := by
  induction actions generalizing s with
  | nil =>
    cases hrun
    exact (and_iff_left trivial).symm
  | cons action rest ih =>
    unfold run at hrun
    split at hrun
    · rename_i next hnext
      rw [ih (hkeep s action next hs hnext) hrun, hstep s action next hs hnext, and_assoc]
      constructor
      · rintro ⟨hfirst, hok, hrest⟩
        refine ⟨hfirst, hok, fun other hother => ?_⟩
        obtain rfl : next = other := Option.some.inj (hnext.symm.trans hother)
        exact hrest
      · rintro ⟨hfirst, hok, hrest⟩
        exact ⟨hfirst, hok, hrest next hnext⟩
    · cases hrun

/-- A run has come from its first part. -/
theorem run_append {s : State} {first later : List Action} :
    run step s (first ++ later) = (run step s first).bind fun s' => run step s' later := by
  induction first generalizing s with
  | nil => rfl
  | cons action rest ih =>
    rw [List.cons_append, run, run]
    cases step s action with
    | none => rfl
    | some s' => exact ih

theorem run_concat {s : State} {actions : List Action} {action : Action} :
    run step s (actions ++ [action]) = (run step s actions).bind fun s' => step s' action := by
  rw [run_append]
  congr 1
  funext s'
  rw [run]
  cases step s' action <;> rfl

/-- A condition along a run is one along its first part and one along the rest. -/
theorem along_append {ok : State → Action → Prop} {s s' : State} {first later : List Action}
    (hrun : run step s first = some s') (h : Along step ok s (first ++ later)) :
    Along step ok s first ∧ Along step ok s' later := by
  induction first generalizing s with
  | nil =>
    cases hrun
    exact ⟨trivial, h⟩
  | cons action rest ih =>
    unfold run at hrun
    split at hrun
    · rename_i next hnext
      have hrest := ih hrun (h.2 next hnext)
      refine ⟨⟨h.1, fun other hother => ?_⟩, hrest.2⟩
      obtain rfl : next = other := Option.some.inj (hnext.symm.trans hother)
      exact hrest.1
    · cases hrun

/-- A condition holds along two parts of a run when it holds along each. -/
theorem along_concat {ok : State → Action → Prop} {s : State} {first later : List Action}
    (hfirst : Along step ok s first)
    (hlater : ∀ s', run step s first = some s' → Along step ok s' later) :
    Along step ok s (first ++ later) := by
  induction first generalizing s with
  | nil => exact hlater s rfl
  | cons action rest ih =>
    refine ⟨hfirst.1, fun next hnext => ih (hfirst.2 next hnext) fun s' hs' => hlater s' ?_⟩
    rw [run, hnext]
    exact hs'

/-- An element and what stands before and after it, also once it is replaced. -/
theorem exists_eq_append_set {l : List α} {i : ℕ} {a : α} (h : l[i]? = some a) :
    ∃ before later, l = before ++ a :: later ∧ ∀ b, l.set i b = before ++ b :: later := by
  obtain ⟨hi, ha⟩ := List.getElem?_eq_some_iff.mp h
  refine ⟨l.take i, l.drop (i + 1), ?_, fun b => ?_⟩
  · rw [← ha, List.getElem_cons_drop, List.take_append_drop]
  · rw [List.set_eq_take_append_cons_drop, if_pos hi]

end RustLake.Run
