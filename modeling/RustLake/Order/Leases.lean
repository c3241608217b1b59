import RustLake.Order.Run
import Mathlib.Data.List.Infix

/-! Leases: a holder keeps one by being heard of, and loses it when it is released or when a sweep
finds that the holder has been silent for too long. -/
namespace RustLake.Lease

/-- What an action means to one holder. -/
inductive Event (τ : Type) where
  | renew (t : τ)
  | release
  | sweep (t : τ)
deriving DecidableEq

/-- When the holder was last heard of, and whether it has been found silent since. -/
structure Held (τ : Type) where
  heard : τ
  suspected : Bool
deriving DecidableEq

/-- From which times of silence on a sweep suspects a holder and takes its lease away. -/
structure Limits (τ : Type) where
  suspects : τ → τ → Bool
  expires : τ → τ → Bool

variable {σ τ : Type} (limits : Limits τ) (event : σ → Option (Event τ))

def step (held : Held τ) (action : σ) : Option (Held τ) :=
  match event action with
  | none => some held
  | some (.renew t) => some ⟨t, false⟩
  | some .release => none
  | some (.sweep t) =>
    if limits.expires held.heard t then none
    else some ⟨held.heard, held.suspected || limits.suspects held.heard t⟩

/-- When the holder was last heard of, from its grant on. -/
def lastHeard (granted : τ) (actions : List σ) : τ :=
  actions.foldl (fun heard action =>
    match event action with
    | some (.renew t) => t
    | _ => heard) granted

/-- No action gives the lease back, and no sweep finds the holder silent for too long. -/
def Kept (granted : τ) (actions : List σ) : Prop :=
  (∀ action ∈ actions, event action ≠ some .release) ∧
  ∀ earlier action t, earlier ++ [action] <+: actions → event action = some (.sweep t) →
    limits.expires (lastHeard event granted earlier) t = false

/-- A sweep has found the holder silent since it was last heard of. -/
def Suspected (granted : τ) (actions : List σ) : Prop :=
  ∃ earlier action t later, actions = earlier ++ action :: later ∧
    event action = some (.sweep t) ∧ (∀ a ∈ later, ∀ s, event a ≠ some (.renew s)) ∧
    limits.suspects (lastHeard event granted earlier) t = true

variable {limits event} {granted : τ} {actions : List σ} {action : σ} {held : Held τ}

theorem lastHeard_concat_renew {t : τ} (h : event action = some (.renew t)) :
    lastHeard event granted (actions ++ [action]) = t := by
  simp [lastHeard, h]

theorem lastHeard_concat (h : ∀ t, event action ≠ some (.renew t)) :
    lastHeard event granted (actions ++ [action]) = lastHeard event granted actions := by
  rw [lastHeard, List.foldl_append, List.foldl_cons, List.foldl_nil]
  split
  · rename_i t ht
    exact absurd ht (h t)
  · rfl

theorem kept_concat_iff : Kept limits event granted (actions ++ [action]) ↔
    Kept limits event granted actions ∧ event action ≠ some .release ∧
    ∀ t, event action = some (.sweep t) →
      limits.expires (lastHeard event granted actions) t = false := by
  constructor
  · intro h
    refine ⟨⟨?_, ?_⟩, ?_, ?_⟩
    · intro a ha
      exact h.1 a (List.mem_append_left _ ha)
    · intro earlier a t hbegins hsweep
      exact h.2 earlier a t (hbegins.trans (List.prefix_append _ _)) hsweep
    · exact h.1 action (List.mem_append_right _ List.mem_cons_self)
    · intro t hsweep
      exact h.2 actions action t (List.prefix_refl _) hsweep
  · intro h
    obtain ⟨hkept, hrelease, hsweep⟩ := h
    constructor
    · intro a ha
      rcases List.mem_append.mp ha with hmem | hmem
      · exact hkept.1 a hmem
      · rw [List.mem_singleton.mp hmem]
        exact hrelease
    · intro earlier a t hbegins ht
      rcases List.prefix_concat_iff.mp hbegins with heq | hbefore
      · obtain ⟨rfl, hlast⟩ := List.append_inj' heq rfl
        have ha : a = action := by simpa using hlast
        exact hsweep t (ha ▸ ht)
      · exact hkept.2 earlier a t hbefore ht

theorem suspected_concat_of_renew {t : τ} (h : event action = some (.renew t)) :
    ¬ Suspected limits event granted (actions ++ [action]) := by
  intro hsuspected
  obtain ⟨earlier, a, s, later, heq, ha, hlater, -⟩ := hsuspected
  rcases List.eq_nil_or_concat later with hnil | hconcat
  · subst hnil
    obtain ⟨-, hlast⟩ := List.append_inj' heq rfl
    have haction : action = a := by simpa using hlast
    rw [haction, ha] at h
    cases h
  · obtain ⟨before, last, rfl⟩ := hconcat
    have hends : actions ++ [action] = (earlier ++ a :: before) ++ [last] := by simpa using heq
    obtain ⟨-, hlast⟩ := List.append_inj' hends rfl
    have haction : action = last := by simpa using hlast
    exact hlater last (by simp) t (haction ▸ h)

/-- An action from which the holder is not heard. -/
theorem suspected_concat_iff (h : ∀ t, event action ≠ some (.renew t)) :
    Suspected limits event granted (actions ++ [action]) ↔
      Suspected limits event granted actions ∨
      ∃ t, event action = some (.sweep t) ∧
        limits.suspects (lastHeard event granted actions) t = true := by
  constructor
  · intro hsuspected
    obtain ⟨earlier, a, s, later, heq, ha, hlater, hs⟩ := hsuspected
    rcases List.eq_nil_or_concat later with hnil | hconcat
    · subst hnil
      obtain ⟨rfl, hlast⟩ := List.append_inj' heq rfl
      have haction : action = a := by simpa using hlast
      exact Or.inr ⟨s, haction ▸ ha, hs⟩
    · obtain ⟨before, last, rfl⟩ := hconcat
      have hends : actions ++ [action] = (earlier ++ a :: before) ++ [last] := by simpa using heq
      obtain ⟨hactions, -⟩ := List.append_inj' hends rfl
      refine Or.inl ⟨earlier, a, s, before, hactions, ha, ?_, hs⟩
      intro b hb
      exact hlater b (by simp [hb])
  · intro hcases
    rcases hcases with hbefore | hnow
    · obtain ⟨earlier, a, s, later, rfl, ha, hlater, hs⟩ := hbefore
      refine ⟨earlier, a, s, later ++ [action], by simp, ha, ?_, hs⟩
      intro b hb
      rcases List.mem_append.mp hb with hmem | hmem
      · exact hlater b hmem
      · rw [List.mem_singleton.mp hmem]
        exact h
    · obtain ⟨t, ht, hs⟩ := hnow
      exact ⟨actions, action, t, [], rfl, ht, by simp, hs⟩

/-- A lease is described by when its holder was heard of and by whether it is under suspicion. -/
private theorem exists_held_iff {K S : Prop} [Decidable S] {heard : τ}
    {next : Held τ → Option (Held τ)} :
    (∃ before : Held τ, (K ∧ before.heard = heard ∧ (before.suspected = true ↔ S)) ∧
      next before = some held) ↔ K ∧ next ⟨heard, decide S⟩ = some held := by
  constructor
  · intro h
    obtain ⟨⟨before, suspected⟩, ⟨hkept, rfl, hsuspected⟩, hnext⟩ := h
    have hbool : suspected = decide S := by
      rw [Bool.eq_iff_iff, hsuspected, decide_eq_true_iff]
    exact ⟨hkept, hbool ▸ hnext⟩
  · intro h
    exact ⟨⟨heard, decide S⟩, ⟨h.1, rfl, decide_eq_true_iff⟩, h.2⟩

private theorem decide_eq_iff {S : Prop} [Decidable S] {b : Bool} :
    decide S = b ↔ (b = true ↔ S) := by
  cases b <;> simp

/-- A lease is held after the actions just when it has been kept, and then its holder is under
suspicion just when a sweep has found it silent since it was last heard of. -/
theorem run_eq_some_iff : Run.run (step limits event) ⟨granted, false⟩ actions = some held ↔
    Kept limits event granted actions ∧ held.heard = lastHeard event granted actions ∧
      (held.suspected = true ↔ Suspected limits event granted actions) := by
  classical
  induction actions using List.reverseRecOn generalizing held with
  | nil =>
    obtain ⟨heard, suspected⟩ := held
    have hkept : Kept limits event granted [] := by simp [Kept]
    have hnone : ¬ Suspected limits event granted [] := by simp [Suspected]
    simp only [Run.run, Option.some.injEq, Held.mk.injEq, hkept, hnone, lastHeard,
      List.foldl_nil, true_and, iff_false, Bool.not_eq_true]
    constructor <;> intro h <;> exact ⟨h.1.symm, h.2.symm⟩
  | append_singleton actions action ih =>
    obtain ⟨heard, suspected⟩ := held
    rw [Run.run_concat, Option.bind_eq_some_iff, kept_concat_iff]
    simp only [ih]
    rw [exists_held_iff, and_assoc, and_congr_right_iff]
    intro hkept
    cases hevent : event action with
    | none =>
      have hquiet : ∀ t, event action ≠ some (.renew t) := by simp [hevent]
      rw [lastHeard_concat hquiet, suspected_concat_iff hquiet]
      simp [step, hevent, decide_eq_iff, eq_comm (a := heard)]
    | some e =>
      cases e with
      | renew t =>
        rw [lastHeard_concat_renew hevent, iff_false_right (suspected_concat_of_renew hevent)]
        cases suspected <;> simp [step, hevent, eq_comm (a := heard)]
      | release => simp [step, hevent]
      | sweep t =>
        have hquiet : ∀ t, event action ≠ some (.renew t) := by simp [hevent]
        rw [lastHeard_concat hquiet, suspected_concat_iff hquiet]
        have hbool : (decide (Suspected limits event granted actions) ||
            limits.suspects (lastHeard event granted actions) t) = suspected ↔
            (suspected = true ↔ (Suspected limits event granted actions ∨
              limits.suspects (lastHeard event granted actions) t = true)) := by
          rw [← decide_eq_iff, Bool.decide_or, Bool.decide_eq_true]
        simp [step, hevent, hbool, eq_comm (a := heard)]

end RustLake.Lease
