import Mathlib.Data.List.Induction
import Mathlib.Data.List.Sort

/-! Lists in the order of a time: the latest element up to a moment, and what is left of it when
a first part of the list is dropped. -/
namespace RustLake.Timeline
variable {α T : Type} [LinearOrder T] {time : α → T}

/-- Each element is later than those before it. -/
def Ordered (time : α → T) (l : List α) : Prop := l.Pairwise fun a b => time a < time b

/-- Of the elements with the greatest time the last one. -/
def latest (time : α → T) (l : List α) : Option α :=
  l.foldl (fun best a => match best with
    | some b => if time b ≤ time a then some a else some b
    | none => some a) none

/-- The latest element that is not after a moment. -/
def asOf (time : α → T) (t : T) (l : List α) : Option α := latest time (l.filter fun a => time a ≤ t)

theorem Ordered.append_left {a b : List α} (h : Ordered time (a ++ b)) : Ordered time a :=
  (List.pairwise_append.mp h).1

theorem Ordered.append_right {a b : List α} (h : Ordered time (a ++ b)) : Ordered time b :=
  (List.pairwise_append.mp h).2.1

theorem Ordered.lt_of_append {l m : List α} (h : Ordered time (l ++ m)) {a b : α} (ha : a ∈ l)
    (hb : b ∈ m) : time a < time b := (List.pairwise_append.mp h).2.2 a ha b hb

theorem ordered_concat {l : List α} {a : α} (h : Ordered time l) (ha : ∀ b ∈ l, time b < time a) :
    Ordered time (l ++ [a]) := by
  refine List.pairwise_append.mpr ⟨h, List.pairwise_singleton _ _, fun b hb c hc => ?_⟩
  rw [List.mem_singleton.mp hc]
  exact ha b hb

theorem latest_concat_eq (l : List α) (a : α) :
    latest time (l ++ [a]) = match latest time l with
      | some b => if time b ≤ time a then some a else some b
      | none => some a := by
  unfold latest
  rw [List.foldl_append]
  rfl

theorem latest_eq_none_iff {l : List α} : latest time l = none ↔ l = [] := by
  rcases List.eq_nil_or_concat l with rfl | ⟨init, a, rfl⟩
  · exact iff_of_true rfl rfl
  · rw [List.concat_eq_append, latest_concat_eq]
    refine iff_of_false ?_ (by simp)
    split
    · split_ifs <;> simp
    · simp

/-- None before the latest element is later, and all behind it are earlier. -/
theorem latest_split {l : List α} {m : α} (h : latest time l = some m) :
    ∃ before after, l = before ++ m :: after ∧ (∀ b ∈ before, time b ≤ time m) ∧
      ∀ b ∈ after, time b < time m := by
  induction l using List.reverseRecOn generalizing m with
  | nil => cases h
  | append_singleton l a ih =>
    rw [latest_concat_eq] at h
    cases hl : latest time l with
    | none =>
      rw [hl] at h
      obtain rfl := Option.some.inj h
      exact ⟨l, [], rfl, by simp [latest_eq_none_iff.mp hl], by simp⟩
    | some b =>
      obtain ⟨before, after, hsplit, hbefore, hafter⟩ := ih hl
      rw [hl] at h
      dsimp only at h
      split_ifs at h with hle
      · obtain rfl := Option.some.inj h
        refine ⟨l, [], rfl, fun c hc => ?_, by simp⟩
        rw [hsplit] at hc
        rcases List.mem_append.mp hc with hc | hc
        · exact (hbefore c hc).trans hle
        · rcases List.mem_cons.mp hc with rfl | hc
          · exact hle
          · exact (hafter c hc).le.trans hle
      · obtain rfl := Option.some.inj h
        refine ⟨before, after ++ [a], by rw [hsplit, List.append_assoc, List.cons_append], hbefore,
          fun c hc => ?_⟩
        rcases List.mem_append.mp hc with hc | hc
        · exact hafter c hc
        · rw [List.mem_singleton.mp hc]
          exact not_le.mp hle

/-- The latest element is of a kind exactly when each element of another kind has one of the kind
that is later, or stands behind it with a time that is not earlier. -/
theorem forall_latest_iff {P : α → Prop} {l : List α} :
    (∀ m, latest time l = some m → P m) ↔ ∀ before a after, l = before ++ a :: after →
      P a ∨ ∃ b, P b ∧ (b ∈ l ∧ time a < time b ∨ b ∈ after ∧ time a ≤ time b) := by
  constructor
  · intro h before a after hl
    cases hm : latest time l with
    | none => simp [latest_eq_none_iff.mp hm] at hl
    | some m =>
      have hP := h m hm
      obtain ⟨front, back, hsplit, hfront, hback⟩ := latest_split hm
      rcases List.append_eq_append_iff.mp (hl.symm.trans hsplit) with
        ⟨as, has, hrest⟩ | ⟨cs, hcs, hrest⟩
      · rcases List.cons_eq_append_iff.mp hrest with ⟨-, heq⟩ | ⟨as, rfl, hafter⟩
        · rw [(List.cons.inj heq).1] at hP
          exact Or.inl hP
        · have ha : a ∈ front := by simp [has]
          refine Or.inr ⟨m, hP, Or.inr ⟨?_, hfront a ha⟩⟩
          simp [hafter]
      · rcases List.cons_eq_append_iff.mp hrest with ⟨-, heq⟩ | ⟨cs, rfl, hafter⟩
        · rw [← (List.cons.inj heq).1] at hP
          exact Or.inl hP
        · have ha : a ∈ back := by simp [hafter]
          refine Or.inr ⟨m, hP, Or.inl ⟨?_, hback a ha⟩⟩
          simp [hsplit]
  · intro h m hm
    obtain ⟨before, after, hl, hbefore, hafter⟩ := latest_split hm
    rcases h before m after hl with hP | ⟨b, hP, ⟨hb, hlt⟩ | ⟨hb, hle⟩⟩
    · exact hP
    · have hle : time b ≤ time m := by
        rw [hl] at hb
        rcases List.mem_append.mp hb with hb | hb
        · exact hbefore b hb
        · rcases List.mem_cons.mp hb with rfl | hb
          · exact le_rfl
          · exact (hafter b hb).le
      exact absurd hlt hle.not_gt
    · exact absurd (hafter b hb) hle.not_gt

/-- The same for the latest of the elements that meet a condition. -/
theorem forall_latest_filter_iff {P : α → Prop} {p : α → Bool} {l : List α} :
    (∀ m, latest time (l.filter p) = some m → P m) ↔
      ∀ before a after, l = before ++ a :: after → p a →
        P a ∨ ∃ b, P b ∧ p b ∧ (b ∈ l ∧ time a < time b ∨ b ∈ after ∧ time a ≤ time b) := by
  rw [forall_latest_iff]
  constructor
  · intro h before a after hl ha
    have hfilter : l.filter p = before.filter p ++ a :: after.filter p := by
      rw [hl, List.filter_append, List.filter_cons_of_pos ha]
    rcases h _ a _ hfilter with hP | ⟨b, hP, ⟨hb, hlt⟩ | ⟨hb, hle⟩⟩
    · exact Or.inl hP
    · exact Or.inr ⟨b, hP, (List.mem_filter.mp hb).2, Or.inl ⟨(List.mem_filter.mp hb).1, hlt⟩⟩
    · exact Or.inr ⟨b, hP, (List.mem_filter.mp hb).2, Or.inr ⟨(List.mem_filter.mp hb).1, hle⟩⟩
  · intro h before a after hl
    obtain ⟨front, rest, rfl, -, hrest⟩ := List.filter_eq_append_iff.mp hl
    obtain ⟨skipped, back, rfl, -, ha, hback⟩ := List.filter_eq_cons_iff.mp hrest
    rcases h (front ++ skipped) a back (by simp) ha with hP | ⟨b, hP, hb, ⟨hmem, hlt⟩ | ⟨hmem, hle⟩⟩
    · exact Or.inl hP
    · exact Or.inr ⟨b, hP, Or.inl ⟨List.mem_filter.mpr ⟨hmem, hb⟩, hlt⟩⟩
    · refine Or.inr ⟨b, hP, Or.inr ⟨?_, hle⟩⟩
      rw [← hback]
      exact List.mem_filter.mpr ⟨hmem, hb⟩

theorem latest_concat {l : List α} {a : α} (h : ∀ b ∈ l, time b ≤ time a) :
    latest time (l ++ [a]) = some a := by
  rw [latest_concat_eq]
  cases hl : latest time l with
  | none => rfl
  | some b =>
    obtain ⟨before, after, hsplit, -, -⟩ := latest_split hl
    have hb : b ∈ l := by
      rw [hsplit]
      exact List.mem_append_right _ List.mem_cons_self
    exact if_pos (h b hb)

/-- In an ordered list the latest element is the last one. -/
theorem Ordered.latest_eq {l : List α} (h : Ordered time l) : latest time l = l.getLast? := by
  rcases List.eq_nil_or_concat l with rfl | ⟨init, a, rfl⟩
  · rfl
  · rw [List.concat_eq_append] at h ⊢
    rw [latest_concat fun b hb => (h.lt_of_append hb (by simp)).le]
    simp

theorem Ordered.asOf_eq {l : List α} (h : Ordered time l) (t : T) :
    asOf time t l = (l.filter fun a => time a ≤ t).getLast? :=
  Ordered.latest_eq (List.Pairwise.filter _ h)

/-- Dropping a first part of the list either leaves the latest element up to a moment, or leaves
nothing up to that moment. -/
theorem Ordered.asOf_drop {dropped kept : List α} (h : Ordered time (dropped ++ kept)) (t : T) :
    (∃ a ∈ kept, asOf time t (dropped ++ kept) = some a ∧ asOf time t kept = some a) ∨
      asOf time t kept = none ∧ ∀ a, asOf time t (dropped ++ kept) = some a → a ∉ kept := by
  have hkept : asOf time t kept = _ := h.append_right.asOf_eq t
  rw [hkept, h.asOf_eq, List.filter_append]
  cases hlast : (kept.filter fun a => time a ≤ t).getLast? with
  | some a =>
    have hmem := List.mem_of_mem_filter (List.mem_of_getLast? hlast)
    exact Or.inl ⟨a, hmem, by rw [List.getLast?_append, hlast]; rfl, rfl⟩
  | none =>
    have hnil := List.getLast?_eq_none_iff.mp hlast
    refine Or.inr ⟨rfl, fun a ha hmem => ?_⟩
    rw [hnil, List.append_nil] at ha
    -- The element found is in both parts, and so before itself.
    have hdropped := List.mem_of_mem_filter (List.mem_of_getLast? ha)
    exact lt_irrefl _ (h.lt_of_append hdropped hmem)

/-- The early elements among the first ones of an ordered list are a first part of it. -/
theorem Ordered.filter_take_prefix {l : List α} (h : Ordered time l) (n : ℕ) (bound : T) :
    (l.take n).filter (fun a => time a < bound) <+: l := by
  have hfilter : ∀ m : List α, Ordered time m →
      m.filter (fun a => time a < bound) <+: m := by
    intro m hm
    induction m with
    | nil => exact List.nil_prefix
    | cons a m ih =>
      obtain ⟨ha, hm⟩ := List.pairwise_cons.mp hm
      by_cases hlt : time a < bound
      · rw [List.filter_cons_of_pos (by simpa using hlt)]
        exact List.cons_prefix_cons.mpr ⟨rfl, ih hm⟩
      · have hnil : m.filter (fun b => time b < bound) = [] := by
          refine List.filter_eq_nil_iff.mpr fun b hb => ?_
          have hle := not_lt.mp hlt
          simpa using hle.trans (ha b hb).le
        rw [List.filter_cons_of_neg (by simpa using hlt), hnil]
        exact List.nil_prefix
  have htake : Ordered time (l.take n) :=
    Ordered.append_left (b := l.drop n) (by rwa [List.take_append_drop])
  exact (hfilter _ htake).trans (List.take_prefix n l)

end RustLake.Timeline
