import Mathlib.Data.Int.ConditionallyCompleteOrder
import Mathlib.Data.List.MinMax
import Mathlib.Order.ConditionallyCompleteLattice.Basic

/-! A loop that keeps the first element with the greatest key, among those that have a key. -/
namespace RustLake.Best

variable {α K : Type} [LT K] [DecidableLT K]

/-- One turn of the loop: the best key so far and the element that has it. -/
def better (key : α → Option K) (best : K × Option α) (a : α) : K × Option α :=
  match key a with
  | some k => if best.1 < k then (k, some a) else best
  | none => best

/-- The element that a loop over the list ends with, where only keys above the start count. -/
def pick (key : α → Option K) (start : K) (l : List α) : Option α :=
  (l.foldl (better key) (start, none)).2

section Spec
variable {key : α → Option K} {start : K} (val : K → ℤ)

/-- The key of an element as a number; elements whose keys do not count come below all others. -/
def rank (key : α → Option K) (start : K) (a : α) : ℤ :=
  match key a with
  | some k => max (val k) (val start)
  | none => val start

variable {val} (hval : ∀ a b : K, a < b ↔ val a < val b)
include hval

omit [DecidableLT K] in
theorem rank_of_lt {a : α} {k : K} (hkey : key a = some k) (hlt : start < k) :
    rank val key start a = val k := by
  have hle := (hval start k).mp hlt
  unfold rank
  rw [hkey]
  exact max_eq_left hle.le

variable (key start) in
/-- The loop keeps the rank of what it has. -/
theorem foldl_better (l : List α) :
    (∀ a ∈ l, rank val key start a = val start) ∧ l.foldl (better key) (start, none) = (start, none) ∨
      ∃ m k, l.argmax (rank val key start) = some m ∧ key m = some k ∧ start < k ∧
        l.foldl (better key) (start, none) = (k, some m) := by
  induction l using List.reverseRecOn with
  | nil => exact Or.inl ⟨fun _ ha => absurd ha List.not_mem_nil, rfl⟩
  | append_singleton l a ih =>
    rw [List.foldl_append, List.foldl_cons, List.foldl_nil, List.argmax_concat]
    rcases ih with ⟨hlow, hfold⟩ | ⟨m, k, hm, hkey, hlt, hfold⟩
    · rw [hfold]
      by_cases hcounts : ∃ k, key a = some k ∧ start < k
      · obtain ⟨k, hkey, hlt⟩ := hcounts
        have hrank := rank_of_lt hval hkey hlt
        refine Or.inr ⟨a, k, ?_, hkey, hlt, by simp [better, hkey, hlt]⟩
        cases hbest : l.argmax (rank val key start) with
        | none => rfl
        | some c =>
          have hc := hlow c (List.argmax_mem hbest)
          have hle := (hval start k).mp hlt
          dsimp only
          rw [if_pos (by omega)]
      · have hrank : rank val key start a = val start := by
          unfold rank
          cases hkey : key a with
          | none => rfl
          | some k =>
            have hle : ¬ val start < val k := fun hlt => hcounts ⟨k, hkey, (hval start k).mpr hlt⟩
            exact max_eq_right (not_lt.mp hle)
        left
        constructor
        · intro b hb
          rcases List.mem_append.mp hb with hold | hnew
          · exact hlow b hold
          · rw [List.mem_singleton.mp hnew]
            exact hrank
        · unfold better
          cases hkey : key a with
          | none => rfl
          | some k => exact if_neg fun hlt => hcounts ⟨k, hkey, hlt⟩
    · rw [hfold, hm]
      have hrank := rank_of_lt hval hkey hlt
      have hstart := (hval start k).mp hlt
      right
      dsimp only
      by_cases hbetter : ∃ k', key a = some k' ∧ k < k'
      · obtain ⟨k', hkey', hlt'⟩ := hbetter
        have hmore := (hval k k').mp hlt'
        have habove : start < k' := (hval start k').mpr (by omega)
        have hrank' := rank_of_lt hval hkey' habove
        refine ⟨a, k', ?_, hkey', habove, by simp [better, hkey', hlt']⟩
        rw [if_pos (by omega)]
      · refine ⟨m, k, if_neg ?_, hkey, hlt, ?_⟩
        · unfold rank at hrank ⊢
          cases hkey' : key a with
          | none =>
            dsimp only
            rw [hrank]
            omega
          | some k' =>
            have hle : ¬ val k < val k' := fun hlt' => hbetter ⟨k', hkey', (hval k k').mpr hlt'⟩
            dsimp only
            rw [hrank]
            omega
        · unfold better
          cases hkey' : key a with
          | none => rfl
          | some k' => exact if_neg fun hlt' => hbetter ⟨k', hkey', hlt'⟩

variable (key start) in
/-- What the loop ends with: nothing when no key counts, and else the first of the greatest keys. -/
theorem pick_cases (l : List α) :
    (∀ a ∈ l, ∀ k, key a = some k → ¬ start < k) ∧ pick key start l = none ∨
      ∃ m k, pick key start l = some m ∧ l.argmax (rank val key start) = some m ∧
        key m = some k ∧ start < k := by
  rcases foldl_better key start hval l with ⟨hlow, hfold⟩ | ⟨m, k, hm, hkey, hlt, hfold⟩
  · left
    refine ⟨fun a ha k hkey hlt => ?_, congrArg Prod.snd hfold⟩
    have hrank := rank_of_lt hval hkey hlt
    have hle := (hval start k).mp hlt
    have hequal := hlow a ha
    omega
  · exact Or.inr ⟨m, k, congrArg Prod.snd hfold, hm, hkey, hlt⟩

/-- What is picked has a key that no other one exceeds. -/
theorem pick_max {l : List α} {m : α} (h : pick key start l = some m) :
    m ∈ l ∧ ∃ k, key m = some k ∧ start < k ∧ ∀ a ∈ l, ∀ k', key a = some k' → val k' ≤ val k := by
  rcases pick_cases key start hval l with ⟨-, hnone⟩ | ⟨m', k, hpick, hm, hkey, hlt⟩
  · rw [hnone] at h
    cases h
  · obtain rfl : m' = m := Option.some.inj (hpick.symm.trans h)
    refine ⟨List.argmax_mem hm, k, hkey, hlt, fun a ha k' hkey' => ?_⟩
    have hle := List.le_of_mem_argmax ha hm
    rw [rank_of_lt hval hkey hlt] at hle
    unfold rank at hle
    rw [hkey'] at hle
    exact (le_max_left _ _).trans hle

/-- An element that counts and whose key exceeds those of all others is picked. -/
theorem pick_of_greatest {l : List α} {m : α} {k : K} (hm : m ∈ l) (hkey : key m = some k)
    (hlt : start < k) (hmax : ∀ a ∈ l, a ≠ m → ∀ k', key a = some k' → val k' < val k) :
    pick key start l = some m := by
  rcases pick_cases key start hval l with ⟨hlow, -⟩ | ⟨m', k', hpick, hm', hkey', -⟩
  · exact absurd hlt (hlow m hm k hkey)
  · by_cases hsame : m' = m
    · rw [hpick, hsame]
    · obtain ⟨hmem, other, hother, -, hle⟩ := pick_max hval hpick
      have hbelow := hmax m' hmem hsame other hother
      have habove := hle m hm k hkey
      omega

/-- Something is picked when a key counts. -/
theorem exists_pick {l : List α} {a : α} {k : K} (ha : a ∈ l) (hkey : key a = some k)
    (hlt : start < k) : ∃ m, pick key start l = some m := by
  rcases pick_cases key start hval l with ⟨hlow, -⟩ | ⟨m, _, hpick, -⟩
  · exact absurd hlt (hlow a ha k hkey)
  · exact ⟨m, hpick⟩

/-- The first element gives way only to a greater key. -/
theorem pick_cons {l : List α} {a m : α} {k k' : K} (hkey : key a = some k) (hlt : start < k)
    (h : pick key start (a :: l) = some m) (hm : key m = some k') : m = a ∨ val k < val k' := by
  rcases pick_cases key start hval (a :: l) with ⟨-, hnone⟩ |
    ⟨m', other, hpick, hbest, hother, hcounts⟩
  · rw [hnone] at h
    cases h
  · obtain rfl : m' = m := Option.some.inj (hpick.symm.trans h)
    obtain rfl : other = k' := Option.some.inj (hother.symm.trans hm)
    have hra := rank_of_lt hval hkey hlt
    have hrm := rank_of_lt hval hother hcounts
    by_cases hle : val other ≤ val k
    · left
      rw [List.argmax_cons] at hbest
      cases hrest : l.argmax (rank val key start) with
      | none =>
        rw [hrest] at hbest
        exact (Option.some.inj hbest).symm
      | some c =>
        rw [hrest] at hbest
        dsimp only at hbest
        split at hbest
        · rename_i hmore
          obtain rfl : c = m' := Option.some.inj hbest
          omega
        · exact (Option.some.inj hbest).symm
    · right
      omega

end Spec
end RustLake.Best
