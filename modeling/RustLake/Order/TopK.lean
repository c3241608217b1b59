import Mathlib.Data.List.Pairwise
import Mathlib.Data.List.Sort

/-! Stable sorting by a key, and the first elements of a list in that order. -/
namespace RustLake.TopK

variable {α K K' : Type} [LinearOrder K] [LinearOrder K']

/-- Elements with smaller keys first, and those with one key as they stood. -/
def sortBy (key : α → K) (l : List α) : List α := l.insertionSort fun a b => key a ≤ key b

/-- The first is put before the second, where `R` says how elements stood. -/
def Sooner (key : α → K) (R : α → α → Prop) (a b : α) : Prop := key a < key b ∨ key a = key b ∧ R a b

/-- Some of the elements, so many that either `k` or all are there, in the order of their keys, and
no other has a smaller key. -/
structure IsTopK (key : α → K) (l : List α) (k : ℕ) (best : List α) : Prop where
  length : best.length = min k l.length
  sorted : best.Pairwise fun a b => key a ≤ key b
  rest : ∃ others, (best ++ others).Perm l ∧ ∀ a ∈ best, ∀ b ∈ others, key a ≤ key b

variable {key : α → K} {key' : α → K'} {R : α → α → Prop} {l : List α}

theorem perm_sortBy (key : α → K) (l : List α) : (sortBy key l).Perm l := List.perm_insertionSort _ l

theorem Sooner.le {a b : α} (h : Sooner key R a b) : key a ≤ key b := by
  rcases h with hlt | ⟨heq, -⟩
  · exact hlt.le
  · exact heq.le

theorem sooner_of_le {a b : α} (hle : key a ≤ key b) (h : R a b) : Sooner key R a b :=
  hle.lt_or_eq.imp_right fun heq => ⟨heq, h⟩

/-- An element is put before those with its key. -/
theorem sooner_orderedInsert {a : α} (ha : ∀ b ∈ l, R a b) (h : l.Pairwise (Sooner key R)) :
    (l.orderedInsert (fun a b => key a ≤ key b) a).Pairwise (Sooner key R) := by
  induction l with
  | nil => exact List.pairwise_singleton _ a
  | cons b l ih =>
    obtain ⟨hb, hl⟩ := List.pairwise_cons.mp h
    rw [List.orderedInsert]
    split_ifs with hle
    · refine List.pairwise_cons.mpr ⟨fun c hc => ?_, h⟩
      have hkey : key b ≤ key c := by
        rcases List.mem_cons.mp hc with rfl | hc
        · exact le_refl _
        · exact (hb c hc).le
      exact sooner_of_le (hle.trans hkey) (ha c hc)
    · refine List.pairwise_cons.mpr ⟨fun c hc => ?_, ih (fun c hc => ha c (List.mem_cons_of_mem b hc)) hl⟩
      rcases List.mem_cons.mp ((List.perm_orderedInsert _ a l).mem_iff.mp hc) with rfl | hc
      · exact Or.inl (not_le.mp hle)
      · exact hb c hc

/-- The sort is stable. -/
theorem sooner_sortBy (h : l.Pairwise R) : (sortBy key l).Pairwise (Sooner key R) := by
  induction l with
  | nil => exact List.Pairwise.nil
  | cons a l ih =>
    obtain ⟨ha, hl⟩ := List.pairwise_cons.mp h
    refine sooner_orderedInsert (fun b hb => ha b ?_) (ih hl)
    exact (perm_sortBy key l).mem_iff.mp hb

theorem pairwise_sortBy (key : α → K) (l : List α) :
    (sortBy key l).Pairwise fun a b => key a ≤ key b :=
  (sooner_sortBy (List.pairwise_of_forall fun _ _ => trivial)).imp Sooner.le

/-- The first elements after sorting are the best ones. -/
theorem isTopK_take (key : α → K) (l : List α) (k : ℕ) :
    IsTopK key l k ((sortBy key l).take k) := by
  have hsorted := pairwise_sortBy key l
  rw [← List.take_append_drop k (sortBy key l), List.pairwise_append] at hsorted
  obtain ⟨hfirst, -, hacross⟩ := hsorted
  refine ⟨?_, hfirst, (sortBy key l).drop k, ?_, hacross⟩
  · rw [List.length_take, (perm_sortBy key l).length_eq]
  · rw [List.take_append_drop]
    exact perm_sortBy key l

/-- The first of the least elements comes first. -/
theorem exists_split_of_sortBy {l : List α} {a : α} {rest : List α} (h : sortBy key l = a :: rest) :
    ∃ before after, l = before ++ a :: after ∧ (∀ b ∈ before, key a < key b) ∧
      ∀ b ∈ after, key a ≤ key b := by
  induction l generalizing a rest with
  | nil => cases h
  | cons x l ih =>
    have hinsert : sortBy key (x :: l) =
        (sortBy key l).orderedInsert (fun a b => key a ≤ key b) x := rfl
    rw [hinsert] at h
    cases hsorted : sortBy key l with
    | nil =>
      have hnil : l = [] := by
        rw [← List.length_eq_zero_iff, ← (perm_sortBy key l).length_eq, hsorted, List.length_nil]
      rw [hsorted, List.orderedInsert_nil] at h
      obtain ⟨rfl, -⟩ := List.cons.inj h
      exact ⟨[], [], by rw [hnil, List.nil_append], by simp, by simp⟩
    | cons y ys =>
      obtain ⟨before, after, hl, hbefore, hafter⟩ := ih hsorted
      rw [hsorted, List.orderedInsert_cons] at h
      split_ifs at h with hle
      · obtain ⟨rfl, -⟩ := List.cons.inj h
        refine ⟨[], l, rfl, by simp, fun b hb => ?_⟩
        rw [hl] at hb
        rcases List.mem_append.mp hb with hb | hb
        · exact hle.trans (hbefore b hb).le
        · rcases List.mem_cons.mp hb with rfl | hb
          · exact hle
          · exact hle.trans (hafter b hb)
      · obtain ⟨rfl, -⟩ := List.cons.inj h
        refine ⟨x :: before, after, by rw [hl, List.cons_append], fun b hb => ?_, hafter⟩
        rcases List.mem_cons.mp hb with rfl | hb
        · exact not_le.mp hle
        · exact hbefore b hb

theorem map_sortBy {β : Type} (f : β → α) (l : List β) :
    (sortBy (fun b => key (f b)) l).map f = sortBy key (l.map f) :=
  List.map_insertionSort _ _ f l fun _ _ _ _ => Iff.rfl

theorem rel_or_rel (h : l.Pairwise R) {a b : α} (ha : a ∈ l) (hb : b ∈ l) (hne : a ≠ b) :
    R a b ∨ R b a := by
  have hsymm : Std.Symm fun a b => R a b ∨ R b a := ⟨fun _ _ => Or.symm⟩
  have hboth : l.Pairwise fun a b => R a b ∨ R b a := h.imp Or.inl
  exact hboth.forall ha hb hne

/-- Two keys put the elements in the same order exactly when they agree on which of them are moved
before elements in front. -/
theorem sortBy_eq_iff (hirrefl : ∀ a b, R a b → ¬ R b a) (h : l.Pairwise R) :
    sortBy key l = sortBy key' l ↔
      ∀ a ∈ l, ∀ b ∈ l, R a b → (key b < key a ↔ key' b < key' a) := by
  have hsooner : (sortBy key l).Pairwise (Sooner key R) := sooner_sortBy h
  have hsooner' : (sortBy key' l).Pairwise (Sooner key' R) := sooner_sortBy h
  constructor
  · intro heq a ha b hb hab
    rw [← heq] at hsooner'
    have hne : a ≠ b := by
      rintro rfl
      exact hirrefl a a hab hab
    have hmem : ∀ {c}, c ∈ sortBy key l ↔ c ∈ l := (perm_sortBy key l).mem_iff
    have hnotback : ∀ {K : Type} [LinearOrder K] {key : α → K}, Sooner key R b a → key b < key a := by
      intro _ _ _ hback
      rcases hback with hlt | ⟨-, hR⟩
      · exact hlt
      · exact absurd hR (hirrefl a b hab)
    rcases rel_or_rel (hsooner.and hsooner') (hmem.mpr ha) (hmem.mpr hb) hne with ⟨h₁, h₂⟩ | ⟨h₁, h₂⟩
    · exact iff_of_false (not_lt.mpr h₁.le) (not_lt.mpr h₂.le)
    · exact iff_of_true (hnotback h₁) (hnotback h₂)
  · intro hagree
    have hsame : (sortBy key' l).Pairwise (Sooner key R) := by
      refine hsooner'.imp_of_mem fun {a b} ha hb hab => ?_
      rw [(perm_sortBy key' l).mem_iff] at ha hb
      rcases hab with hlt | ⟨heq, hR⟩
      · have hne : a ≠ b := by
          rintro rfl
          exact lt_irrefl _ hlt
        rcases rel_or_rel h ha hb hne with hR | hR
        · have hle := not_lt.mp (mt (hagree a ha b hb hR).mp hlt.not_gt)
          exact sooner_of_le hle hR
        · exact Or.inl ((hagree b hb a ha hR).mpr hlt)
      · have hle := not_lt.mp (mt (hagree a ha b hb hR).mp heq.not_gt)
        exact sooner_of_le hle hR
    refine List.Perm.eq_of_pairwise ?_ hsooner hsame ((perm_sortBy key l).trans (perm_sortBy key' l).symm)
    intro a b _ _ hab hba
    rcases hab with hlt | ⟨heq, hR⟩
    · exact absurd hlt hba.le.not_gt
    · rcases hba with hlt | ⟨-, hR'⟩
      · exact absurd hlt heq.le.not_gt
      · exact absurd hR' (hirrefl a b hR)

end RustLake.TopK
