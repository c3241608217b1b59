import Mathlib.Data.List.Chain
import Mathlib.Data.List.Infix

/-! Texts with macros that a loop replaces one after the other, searching from the front each time.
Macros that stand apart are replaced each by itself. -/
namespace RustLake.Text
variable {α : Type}

/-- No occurrence of a pattern begins in a text, read on into what comes behind it. -/
def Clear (pat : List α) : List α → List α → Prop
  | [], _ => True
  | c :: x, y => ¬ pat <+: c :: (x ++ y) ∧ Clear pat x y

instance decidableClear [DecidableEq α] (pat : List α) : ∀ x y, Decidable (Clear pat x y)
  | [], _ => inferInstanceAs (Decidable True)
  | _ :: x, y =>
    have := decidableClear pat x y
    inferInstanceAs (Decidable (_ ∧ _))

variable {pat x y z : List α}

theorem clear_append (x x' y : List α) :
    Clear pat (x ++ x') y ↔ Clear pat x (x' ++ y) ∧ Clear pat x' y := by
  induction x with
  | nil => exact (and_iff_right trivial).symm
  | cons c x ih =>
    rw [List.cons_append, Clear, Clear, ih, List.append_assoc, and_assoc]

theorem clear_of_append (h : Clear pat x (y ++ z)) : Clear pat x y := by
  induction x with
  | nil => trivial
  | cons c x ih =>
    refine ⟨fun hfound => h.1 (hfound.trans ?_), ih h.2⟩
    rw [← List.append_assoc]
    exact List.prefix_append (c :: (x ++ y)) z

/-- A text that begins as no end of the pattern does completes no occurrence. -/
theorem clear_before {mid : List α}
    (hmid : ∀ u ∈ pat.tail.tails, u ≠ [] → ¬ u <+: mid ∧ ¬ mid <+: u) (h : Clear pat x y)
    (z : List α) : Clear pat x (y ++ (mid ++ z)) := by
  induction x with
  | nil => trivial
  | cons c x ih =>
    refine ⟨?_, ih h.2⟩
    intro hfound
    have hfront : c :: (x ++ y) <+: c :: (x ++ (y ++ (mid ++ z))) := by
      rw [← List.append_assoc x]
      exact List.prefix_append (c :: (x ++ y)) (mid ++ z)
    rcases List.prefix_or_prefix_of_prefix hfound hfront with hshort | ⟨u, hlong⟩
    · exact h.1 hshort
    · have hne : u ≠ [] := by
        rintro rfl
        rw [List.append_nil] at hlong
        exact h.1 (hlong ▸ List.prefix_refl _)
      have hend : u ∈ pat.tail.tails := by
        rw [← hlong, List.cons_append, List.tail_cons]
        exact (List.mem_tails _ _).mpr (List.suffix_append (x ++ y) u)
      rw [← hlong, ← List.append_assoc x] at hfound
      have hend' := (List.prefix_append_right_inj (c :: (x ++ y))).mp hfound
      exact (List.prefix_or_prefix_of_prefix hend' (List.prefix_append mid z)).elim
        (hmid u hend hne).1 (hmid u hend hne).2

/-- A text no end of which is the beginning of the pattern. -/
theorem clear_of_apart (h : ∀ t ∈ x.tails, t ≠ [] → ¬ t <+: pat ∧ ¬ pat <+: t) (y : List α) :
    Clear pat x y := by
  induction x with
  | nil => trivial
  | cons c x ih =>
    have hfront := h (c :: x) ((List.mem_tails _ _).mpr (List.suffix_refl _)) (List.cons_ne_nil c x)
    refine ⟨?_, ih fun t ht => h t ((List.mem_tails _ _).mpr
      (((List.mem_tails _ _).mp ht).trans (List.suffix_cons c x)))⟩
    intro hfound
    exact (List.prefix_or_prefix_of_prefix hfound (List.prefix_append (c :: x) y)).elim
      hfront.2 hfront.1

/-- A text before a letter that the pattern does not have. -/
theorem clear_of_letter {q : α} (hq : q ∉ pat) (h : ¬ pat <:+: x) (z : List α) :
    Clear pat x (q :: z) := by
  induction x with
  | nil => trivial
  | cons c x ih =>
    rw [List.infix_cons_iff, not_or] at h
    refine ⟨?_, ih h.2⟩
    intro hfound
    have hfront : c :: (x ++ [q]) <+: c :: (x ++ q :: z) := by
      rw [List.append_cons x q z]
      exact List.prefix_append (c :: (x ++ [q])) z
    rcases List.prefix_or_prefix_of_prefix hfound hfront with hshort | hlong
    · rw [← List.cons_append, List.prefix_concat_iff] at hshort
      rcases hshort with rfl | hshort
      · exact hq (by simp)
      · exact h.1 hshort
    · exact hq (hlong.subset (by simp))

theorem not_infix_of_clear (hpat : pat ≠ []) (h : Clear pat x y) : ¬ pat <:+: x := by
  induction x with
  | nil => simpa using hpat
  | cons c x ih =>
    rw [List.infix_cons_iff, not_or]
    exact ⟨fun hfound => h.1 (hfound.trans (List.prefix_append (c :: x) y)), ih h.2⟩

theorem clear_nil_iff (hpat : pat ≠ []) : Clear pat x [] ↔ ¬ pat <:+: x := by
  induction x with
  | nil => exact iff_of_true trivial (by simp [hpat])
  | cons c x ih => rw [Clear, ih, List.append_nil, List.infix_cons_iff, not_or]

/-- Two letters do not follow each other in a text. -/
theorem not_pair_infix_iff {p q : α} :
    ¬ [p, q] <:+: x ↔ x.IsChain fun u v => ¬ (u = p ∧ v = q) := by
  rw [List.isChain_iff_forall_rel_of_append_cons_cons]
  constructor
  · rintro h u v before after rfl ⟨rfl, rfl⟩
    exact h ⟨before, after, by simp⟩
  · rintro h ⟨before, after, rfl⟩
    exact h (by simp : _ = before ++ p :: q :: after) ⟨rfl, rfl⟩

/-- A text without the first of two letters. -/
theorem chain_append_iff {p q : α} (hp : p ∉ x) :
    (x ++ y).IsChain (fun u v => ¬ (u = p ∧ v = q)) ↔ y.IsChain fun u v => ¬ (u = p ∧ v = q) := by
  induction x with
  | nil => exact Iff.rfl
  | cons c x ih =>
    rw [List.mem_cons, not_or] at hp
    rw [List.cons_append, List.isChain_cons, ih hp.2]
    exact and_iff_right fun v _ h => hp.1 h.1.symm

/-- What holds of every split of a list, place by place. -/
theorem forall_split_iff {β : Type} {l : List β} {P : List β → List β → Prop} :
    (∀ before after, before ++ after = l → P before after) ↔
      ∀ n ∈ List.range (l.length + 1), P (l.take n) (l.drop n) := by
  constructor
  · intro h n _
    exact h _ _ (List.take_append_drop n l)
  · rintro h before after rfl
    have hn : before.length ∈ List.range ((before ++ after).length + 1) := by
      rw [List.mem_range, List.length_append]
      omega
    have hsplit := h before.length hn
    rwa [List.take_left, List.drop_left] at hsplit

section Loop
variable {ι β : Type} {written replaced : ι → List α} {f : ℕ → List α → β} {items : List ι}
  {tail : List α}

/-- A loop that replaces the first macro of a text, and makes something of each, replaces all that
stand apart, if no occurrence of its pattern begins in what it leaves behind. -/
theorem loop_foldr (out : ι → β → β)
    (hstep : ∀ i ∈ items, (replaced i = written i ∧ ∀ b, out i b = b) ∨
      (replaced i).length < (written i).length ∧ ∀ turns x y, Clear pat x (written i ++ y) →
        f (turns + 1) (x ++ (written i ++ y)) = out i (f turns (x ++ (replaced i ++ y))))
    (hclear : ∀ before after, before ++ after = items →
      Clear pat (before.flatMap replaced) (after.flatMap written ++ tail))
    {turns : ℕ} (hturns : (items.flatMap written ++ tail).length ≤ turns) :
    ∃ turns', (items.flatMap replaced ++ tail).length ≤ turns' ∧
      f turns (items.flatMap written ++ tail) =
        items.foldr out (f turns' (items.flatMap replaced ++ tail)) := by
  have hrun : ∀ before after, before ++ after = items → ∀ turns,
      (before.flatMap replaced ++ (after.flatMap written ++ tail)).length ≤ turns →
      ∃ turns', (items.flatMap replaced ++ tail).length ≤ turns' ∧
        f turns (before.flatMap replaced ++ (after.flatMap written ++ tail)) =
          after.foldr out (f turns' (items.flatMap replaced ++ tail)) := by
    intro before after
    induction after generalizing before with
    | nil =>
      rintro rfl turns hturns
      rw [List.flatMap_nil, List.nil_append] at hturns ⊢
      rw [List.append_nil] at *
      exact ⟨turns, hturns, rfl⟩
    | cons i after ih =>
      intro hitems turns hturns
      have hnext : (before ++ [i]) ++ after = items := by rw [List.append_assoc]; exact hitems
      have hreplaced : before.flatMap replaced ++ (replaced i ++ (after.flatMap written ++ tail)) =
          (before ++ [i]).flatMap replaced ++ (after.flatMap written ++ tail) := by
        simp
      have hmem : i ∈ items := hitems ▸ List.mem_append_right before List.mem_cons_self
      have hnow := hclear before (i :: after) hitems
      rw [List.flatMap_cons, List.append_assoc] at hturns hnow ⊢
      rcases hstep i hmem with ⟨hplain, hout⟩ | ⟨hshorter, hwhole⟩
      · rw [← hplain, hreplaced] at hturns ⊢
        obtain ⟨turns', hturns', hrest⟩ := ih _ hnext turns hturns
        exact ⟨turns', hturns', by rw [List.foldr_cons, hout, hrest]⟩
      · obtain ⟨turns, rfl⟩ : ∃ n, turns = n + 1 := by
          refine Nat.exists_eq_add_one.mpr ?_
          simp only [List.length_append] at hturns
          omega
        have hleft : ((before ++ [i]).flatMap replaced ++
            (after.flatMap written ++ tail)).length ≤ turns := by
          rw [← hreplaced]
          simp only [List.length_append] at hturns ⊢
          omega
        obtain ⟨turns', hturns', hrest⟩ := ih _ hnext turns hleft
        exact ⟨turns', hturns', by rw [hwhole turns _ _ hnow, hreplaced, hrest, List.foldr_cons]⟩
  exact hrun [] items rfl turns hturns

/-- The same of a loop that only replaces. -/
theorem loop_apart
    (hstep : ∀ i ∈ items, replaced i = written i ∨ (replaced i).length < (written i).length ∧
      ∀ turns x y, Clear pat x (written i ++ y) →
        f (turns + 1) (x ++ (written i ++ y)) = f turns (x ++ (replaced i ++ y)))
    (hclear : ∀ before after, before ++ after = items →
      Clear pat (before.flatMap replaced) (after.flatMap written ++ tail))
    {turns : ℕ} (hturns : (items.flatMap written ++ tail).length ≤ turns) :
    ∃ turns', (items.flatMap replaced ++ tail).length ≤ turns' ∧
      f turns (items.flatMap written ++ tail) = f turns' (items.flatMap replaced ++ tail) := by
  have hloop := loop_foldr (fun _ b => b)
    (fun i hi => (hstep i hi).imp_left fun hplain => ⟨hplain, fun b => rfl⟩) hclear hturns
  simpa only [List.foldr_fixed] using hloop

end Loop

end RustLake.Text
