import Mathlib.Data.List.Nodup
import Mathlib.Data.List.Perm.Basic

/-! Repeated passes over a list, each of which takes the elements that need only what is taken
already, in the order of the list. -/
namespace RustLake.Passes
variable {ι K : Type} [DecidableEq K] (key : ι → K) (needs : ι → List K)

/-- What a pass takes, and what it leaves to the next one. -/
def pass : List K → List ι → List ι × List ι
  | _, [] => ([], [])
  | done, a :: rest =>
    if ∀ k ∈ needs a, k ∈ done then
      let (taken, left) := pass (done ++ [key a]) rest
      (a :: taken, left)
    else
      let (taken, left) := pass done rest
      (taken, a :: left)

def passes (l : List ι) : ℕ → List ι × List ι
  | 0 => ([], l)
  | n + 1 =>
    let (taken, left) := passes l n
    let (more, left) := pass key needs (taken.map key) left
    (taken ++ more, left)

/-- The first element stands in the list before the second. -/
def Before (l : List ι) (b a : ι) : Prop := (l.map key).idxOf (key b) < (l.map key).idxOf (key a)

instance (l : List ι) (b a : ι) : Decidable (Before key l b a) :=
  inferInstanceAs (Decidable (_ < _))

/-- The element is at the end of a chain of needs with so many steps against the order of the list. -/
inductive Late (l : List ι) : ℕ → ι → Prop
  | zero {a : ι} : a ∈ l → Late l 0 a
  | ahead {n : ℕ} {a b : ι} : a ∈ l → Late l n b → key b ∈ needs a → Before key l b a → Late l n a
  | behind {n : ℕ} {a b : ι} : a ∈ l → Late l n b → key b ∈ needs a → ¬ Before key l b a →
      Late l (n + 1) a

section Spec
variable {key needs} {l : List ι}

theorem Late.mem {n : ℕ} {a : ι} (h : Late key needs l n a) : a ∈ l := by
  cases h <;> assumption

theorem Late.mono {m n : ℕ} {a : ι} (h : Late key needs l m a) (hn : n ≤ m) :
    Late key needs l n a := by
  induction h generalizing n with
  | zero ha =>
    obtain rfl := Nat.le_zero.mp hn
    exact .zero ha
  | ahead ha _ hneeds hbefore ih => exact .ahead ha (ih hn) hneeds hbefore
  | behind ha _ hneeds hbefore ih =>
    cases n with
    | zero => exact .zero ha
    | succ n => exact .behind ha (ih (Nat.le_of_succ_le_succ hn)) hneeds hbefore

theorem before_iff {x y : List ι} {a b : ι} (hl : l = x ++ a :: y) (hnodup : (l.map key).Nodup) :
    Before key l b a ↔ key b ∈ x.map key := by
  have hkeys : l.map key = x.map key ++ key a :: y.map key := by rw [hl, List.map_append, List.map_cons]
  have ha : key a ∉ x.map key := by
    intro hmem
    rw [hkeys] at hnodup
    exact (List.nodup_append.mp hnodup).2.2 _ hmem _ List.mem_cons_self rfl
  unfold Before
  rw [hkeys, List.idxOf_append, List.idxOf_append, if_neg ha, List.idxOf_cons_self]
  split_ifs with hb
  · exact iff_of_true (by simpa using List.idxOf_lt_length_of_mem hb) hb
  · exact iff_of_false (by omega) hb

/-- A later pass is needed for an element exactly when some need is not taken by the time the pass
comes to it. -/
theorem late_succ_iff {n : ℕ} {a : ι} (ha : a ∈ l) : Late key needs l (n + 1) a ↔
    ∃ b, key b ∈ needs a ∧
      (Late key needs l n b ∧ (Before key l b a → Late key needs l (n + 1) b)) := by
  constructor
  · intro h
    cases h with
    | ahead _ hb hneeds hbefore => exact ⟨_, hneeds, hb.mono (Nat.le_succ n), fun _ => hb⟩
    | behind _ hb hneeds hbefore => exact ⟨_, hneeds, hb, fun h => absurd h hbefore⟩
  · rintro ⟨b, hneeds, hb, hahead⟩
    by_cases hbefore : Before key l b a
    · exact .ahead ha (hahead hbefore) hneeds hbefore
    · exact .behind ha hb hneeds hbefore

open Classical in
/-- What a pass takes and leaves of the rest of the list, when it has come so far. -/
theorem pass_late (hnodup : (l.map key).Nodup)
    (hclosed : ∀ a ∈ l, ∀ k ∈ needs a, ∃ b ∈ l, key b = k) (n : ℕ) {x y : List ι} (hl : l = x ++ y)
    {done : List K} (hdone : ∀ b ∈ l, key b ∈ done ↔
      ¬ Late key needs l n b ∨ b ∈ x ∧ ¬ Late key needs l (n + 1) b) :
    pass key needs done (y.filter fun a => Late key needs l n a) =
      (y.filter fun a => Late key needs l n a ∧ ¬ Late key needs l (n + 1) a,
        y.filter fun a => Late key needs l (n + 1) a) := by
  induction y generalizing x done with
  | nil => rfl
  | cons a y ih =>
    have ha : a ∈ l := by simp [hl]
    have hsplit : l = (x ++ [a]) ++ y := by simp [hl]
    have hsame : ∀ b ∈ l, key b = key a → b = a := fun b hb heq =>
      List.inj_on_of_nodup_map hnodup hb ha heq
    by_cases hlate : Late key needs l n a
    · have hready : (∀ k ∈ needs a, k ∈ done) ↔ ¬ Late key needs l (n + 1) a := by
        rw [late_succ_iff ha]
        constructor
        · rintro h ⟨b, hneeds, hb, hahead⟩
          rcases (hdone b hb.mem).mp (h _ hneeds) with hnot | ⟨hbx, hnot⟩
          · exact hnot hb
          · exact hnot (hahead ((before_iff hl hnodup).mpr (List.mem_map_of_mem hbx)))
        · intro h k hk
          obtain ⟨b, hb, rfl⟩ := hclosed a ha k hk
          refine (hdone b hb).mpr ?_
          by_contra hcon
          rw [not_or, not_not, not_and, not_not] at hcon
          refine h ⟨b, hk, hcon.1, fun hbefore => hcon.2 ?_⟩
          obtain ⟨b', hb', heq⟩ := List.mem_map.mp ((before_iff hl hnodup).mp hbefore)
          have hmem : b' ∈ l := by simp [hl, hb']
          rwa [← List.inj_on_of_nodup_map hnodup hmem hb heq]
      rw [List.filter_cons_of_pos (by simpa using hlate), pass, if_congr hready rfl rfl]
      by_cases hnext : Late key needs l (n + 1) a
      · rw [if_neg (by simpa using hnext), ih hsplit fun b hb => ?_]
        · simp [hlate, hnext]
        · rw [hdone b hb]
          refine or_congr_right ?_
          constructor
          · exact fun h => ⟨List.mem_append_left _ h.1, h.2⟩
          · rintro ⟨hmem, hnot⟩
            rcases List.mem_append.mp hmem with hbx | hba
            · exact ⟨hbx, hnot⟩
            · rw [List.mem_singleton.mp hba] at hnot
              exact absurd hnext hnot
      · rw [if_pos hnext, ih hsplit fun b hb => ?_]
        · simp [hlate, hnext]
        · rw [List.mem_append, hdone b hb, List.mem_singleton, List.mem_append, List.mem_singleton]
          constructor
          · rintro ((hnot | ⟨hbx, hnot⟩) | heq)
            · exact Or.inl hnot
            · exact Or.inr ⟨Or.inl hbx, hnot⟩
            · obtain rfl := hsame b hb heq
              exact Or.inr ⟨Or.inr rfl, hnext⟩
          · rintro (hnot | ⟨hbx | rfl, hnot⟩)
            · exact Or.inl (Or.inl hnot)
            · exact Or.inl (Or.inr ⟨hbx, hnot⟩)
            · exact Or.inr rfl
    · have hnext : ¬ Late key needs l (n + 1) a := fun h => hlate (h.mono (Nat.le_succ n))
      rw [List.filter_cons_of_neg (by simpa using hlate), ih hsplit fun b hb => ?_]
      · simp [hlate, hnext]
      · rw [hdone b hb]
        constructor
        · rintro (hnot | ⟨hbx, hnot⟩)
          · exact Or.inl hnot
          · exact Or.inr ⟨List.mem_append_left _ hbx, hnot⟩
        · rintro (hnot | ⟨hmem, hnot⟩)
          · exact Or.inl hnot
          · rcases List.mem_append.mp hmem with hbx | hba
            · exact Or.inr ⟨hbx, hnot⟩
            · rw [List.mem_singleton.mp hba]
              exact Or.inl hlate

variable (key needs) in
theorem pass_perm (done : List K) (l : List ι) :
    ((pass key needs done l).1 ++ (pass key needs done l).2).Perm l := by
  induction l generalizing done with
  | nil => exact .refl _
  | cons a rest ih =>
    unfold pass
    split_ifs
    · exact (ih _).cons a
    · exact List.perm_middle.trans ((ih _).cons a)

variable (key needs l) in
theorem passes_perm (n : ℕ) :
    ((passes key needs l n).1 ++ (passes key needs l n).2).Perm l := by
  induction n with
  | zero => exact .refl _
  | succ n ih =>
    unfold passes
    dsimp only
    rw [List.append_assoc]
    exact ((pass_perm key needs _ _).append_left _).trans ih

/-- What is taken needs only what was taken before. -/
theorem needs_of_pass {done : List K} {x y : List ι} {a : ι}
    (h : (pass key needs done l).1 = x ++ a :: y) : ∀ k ∈ needs a, k ∈ done ++ x.map key := by
  induction l generalizing done x with
  | nil => simp [pass] at h
  | cons b rest ih =>
    unfold pass at h
    split_ifs at h with hready
    · rcases x with _ | ⟨c, x⟩
      · obtain ⟨rfl, -⟩ := List.cons.inj h
        simpa using hready
      · obtain ⟨rfl, htail⟩ := List.cons.inj h
        intro k hk
        have hmem := ih htail k hk
        simpa using hmem
    · exact ih h

theorem needs_of_passes {n : ℕ} {x y : List ι} {a : ι}
    (h : (passes key needs l n).1 = x ++ a :: y) : ∀ k ∈ needs a, k ∈ x.map key := by
  induction n generalizing x y with
  | zero => simp [passes] at h
  | succ n ih =>
    unfold passes at h
    dsimp only at h
    rcases List.append_eq_append_iff.mp h with ⟨as, has, hmore⟩ | ⟨cs, hcs, htail⟩
    · intro k hk
      rw [has, List.map_append]
      exact needs_of_pass hmore k hk
    · rcases List.cons_eq_append_iff.mp htail with ⟨rfl, hmore⟩ | ⟨cs, rfl, -⟩
      · intro k hk
        have hmem := needs_of_pass (x := []) hmore k hk
        rw [List.append_nil] at hcs
        simpa [hcs] using hmem
      · exact ih hcs

theorem nodup_passes (hnodup : (l.map key).Nodup) (n : ℕ) :
    ((passes key needs l n).1.map key).Nodup := by
  have hperm := (passes_perm key needs l n).map key
  rw [List.map_append] at hperm
  exact (List.nodup_append.mp (hperm.nodup_iff.mpr hnodup)).1

open Classical in
/-- What so many passes leave is what is that late. -/
theorem passes_late (hnodup : (l.map key).Nodup)
    (hclosed : ∀ a ∈ l, ∀ k ∈ needs a, ∃ b ∈ l, key b = k) (n : ℕ) :
    (passes key needs l n).2 = l.filter fun a => Late key needs l n a := by
  induction n with
  | zero =>
    refine (List.filter_eq_self.mpr fun a ha => ?_).symm
    exact decide_eq_true (.zero ha)
  | succ n ih =>
    have hdone : ∀ b ∈ l, key b ∈ (passes key needs l n).1.map key ↔
        ¬ Late key needs l n b ∨ b ∈ [] ∧ ¬ Late key needs l (n + 1) b := by
      intro b hb
      have hperm := passes_perm key needs l n
      rw [ih] at hperm
      have hdisjoint := hperm.map key
      rw [List.map_append] at hdisjoint
      have hnot := (List.nodup_append.mp (hdisjoint.nodup_iff.mpr hnodup)).2.2
      constructor
      · intro hmem
        refine Or.inl fun hlate => hnot _ hmem (key b) (List.mem_map_of_mem ?_) rfl
        exact List.mem_filter.mpr ⟨hb, decide_eq_true hlate⟩
      · rintro (hlate | ⟨hmem, -⟩)
        · rcases List.mem_append.mp (hperm.mem_iff.mpr hb) with hmem | hmem
          · exact List.mem_map_of_mem hmem
          · exact absurd (of_decide_eq_true (List.mem_filter.mp hmem).2) hlate
        · cases hmem
    unfold passes
    dsimp only
    rw [ih, pass_late hnodup hclosed n (x := []) rfl hdone]

/-- So many passes take what is not that late. -/
theorem mem_passes_iff (hnodup : (l.map key).Nodup)
    (hclosed : ∀ a ∈ l, ∀ k ∈ needs a, ∃ b ∈ l, key b = k) {n : ℕ} {a : ι} :
    a ∈ (passes key needs l n).1 ↔ a ∈ l ∧ ¬ Late key needs l n a := by
  classical
  have hperm := passes_perm key needs l n
  rw [passes_late hnodup hclosed] at hperm
  have hdisjoint := (List.nodup_append.mp (hperm.nodup_iff.mpr hnodup.of_map)).2.2
  constructor
  · intro hmem
    refine ⟨hperm.mem_iff.mp (List.mem_append_left _ hmem), fun hlate => ?_⟩
    exact hdisjoint a hmem a (List.mem_filter.mpr ⟨hlate.mem, decide_eq_true hlate⟩) rfl
  · rintro ⟨ha, hlate⟩
    rcases List.mem_append.mp (hperm.mem_iff.mpr ha) with hmem | hmem
    · exact hmem
    · exact absurd (of_decide_eq_true (List.mem_filter.mp hmem).2) hlate

end Spec
end RustLake.Passes
