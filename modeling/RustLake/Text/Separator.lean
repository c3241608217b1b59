import Mathlib.Data.List.TakeWhile
import RustLake.Text.Replace

/-! Texts put together with separators, where the parts can be told apart, and the words that texts
begin with. -/
namespace RustLake.Text
variable {α : Type}

theorem ne_nil_of_notInfix {sep p : List α} (h : ¬ sep <:+: p) : sep ≠ [] := by
  rintro rfl
  exact h List.nil_infix

/-- No separator begins before the end of a part that has none in it, also not one that begins in
it. -/
theorem length_le_of_append_sep {sep p q x y : List α} (hp : ¬ sep <:+: p ++ sep.dropLast)
    (h : q ++ sep ++ y = p ++ sep ++ x) : p.length ≤ q.length := by
  have hpos := List.length_pos_iff.mpr (ne_nil_of_notInfix hp)
  by_contra hlt
  have hfirst : q ++ sep <+: p ++ sep ++ x := ⟨y, h⟩
  have hbegin : p ++ sep.dropLast <+: p ++ sep ++ x := by
    rw [List.append_assoc]
    exact (List.prefix_append_right_inj p).mpr
      ((List.dropLast_prefix sep).trans (List.prefix_append _ _))
  have hle : (q ++ sep).length ≤ (p ++ sep.dropLast).length := by
    simp only [List.length_append, List.length_dropLast]
    omega
  have hinside := List.prefix_of_prefix_length_le hfirst hbegin hle
  exact hp ((List.suffix_append q sep).isInfix.trans hinside.isInfix)

/-- Two parts in front of a separator, neither with a separator that begins in it, are equal. -/
theorem eq_of_append_sep {sep p q x y : List α} (hp : ¬ sep <:+: p ++ sep.dropLast)
    (hq : ¬ sep <:+: q ++ sep.dropLast) (h : p ++ sep ++ x = q ++ sep ++ y) : p = q := by
  have hlength : p.length = q.length :=
    le_antisymm (length_le_of_append_sep hp h.symm) (length_le_of_append_sep hq h)
  rw [List.append_assoc, List.append_assoc] at h
  exact List.append_inj_left h hlength

/-- Where the separator stands in one place only, the text is cut there in every way. -/
theorem eq_of_single_sep {sep p q x y : List α} (hp : ¬ sep <:+: p ++ sep.dropLast)
    (hx : ¬ sep <:+: sep.tail ++ x) (h : q ++ sep ++ y = p ++ sep ++ x) : q = p := by
  have hpos := List.length_pos_iff.mpr (ne_nil_of_notInfix hp)
  have hle := length_le_of_append_sep hp h
  have hsum := congrArg List.length h
  simp only [List.length_append] at hsum
  have hge : q.length ≤ p.length := by
    by_contra hlt
    have hlast : sep ++ y <:+ p ++ sep ++ x := ⟨q, by rw [← List.append_assoc, h]⟩
    have hend : sep.tail ++ x <:+ p ++ sep ++ x := by
      rw [List.append_assoc]
      obtain ⟨u, hu⟩ := List.tail_suffix sep
      exact ⟨p ++ u, by rw [List.append_assoc, ← List.append_assoc u, hu]⟩
    have hshort : (sep ++ y).length ≤ (sep.tail ++ x).length := by
      simp only [List.length_append, List.length_tail]
      omega
    have hinside := List.suffix_of_suffix_length_le hlast hend hshort
    exact hx ((List.prefix_append sep y).isInfix.trans hinside.isInfix)
  rw [List.append_assoc, List.append_assoc] at h
  exact List.append_inj_left h (le_antisymm hge hle)

/-- A text in which the pattern does not stand is not changed by replacing it. -/
theorem replaceAll_of_not_infix [DecidableEq α] {pat rep s : List α} (h : ¬ pat <:+: s) :
    replaceAll pat rep s = s := by
  have hstay : replaceAll pat rep (s ++ []) = s ++ replaceAll pat rep [] := by
    apply replaceAll_append
    intro y _ hsuffix hmatch
    rw [List.append_nil] at hmatch
    exact h (hmatch.isInfix.trans hsuffix.isInfix)
  simpa [replaceAll, replaceFrom] using hstay

/-- A pattern without the separator stands on one side of it. -/
theorem infix_append_cons {pat a b : List α} {sep : α} (hsep : sep ∉ pat)
    (h : pat <:+: a ++ sep :: b) : pat <:+: a ∨ pat <:+: b := by
  obtain ⟨u, v, heq⟩ := h
  rw [List.append_assoc] at heq
  rcases List.append_eq_append_iff.mp heq with ⟨w, ha, hrest⟩ | ⟨w, hu, hrest⟩
  · rcases List.append_eq_append_iff.mp hrest with ⟨z, hw, -⟩ | ⟨z, hpat, hcons⟩
    · left
      exact ⟨u, z, by rw [ha, hw, List.append_assoc]⟩
    · cases z with
      | nil =>
        left
        rw [List.append_nil] at hpat
        exact ⟨u, [], by rw [ha, hpat, List.append_nil]⟩
      | cons c z =>
        obtain ⟨rfl, -⟩ := List.cons_eq_cons.mp hcons
        exact absurd (by rw [hpat]; exact List.mem_append_right _ List.mem_cons_self) hsep
  · cases w with
    | nil =>
      rw [List.nil_append] at hrest
      cases pat with
      | nil => exact Or.inl (List.nil_infix)
      | cons c pat =>
        obtain ⟨rfl, -⟩ := List.cons_eq_cons.mp hrest
        exact absurd List.mem_cons_self hsep
    | cons c w =>
      obtain ⟨-, hb⟩ := List.cons_eq_cons.mp hrest
      right
      exact ⟨w, v, (List.append_assoc w pat v).trans hb.symm⟩

/-- A pattern without the separator stands inside one of the parts. -/
theorem infix_intercalate {pat : List α} {sep : α} (hsep : sep ∉ pat) (hne : pat ≠ [])
    {parts : List (List α)} (h : pat <:+: [sep].intercalate parts) : ∃ l ∈ parts, pat <:+: l := by
  induction parts with
  | nil => exact absurd (List.infix_nil.mp h) hne
  | cons l rest ih =>
    cases rest with
    | nil =>
      rw [List.intercalate_singleton] at h
      exact ⟨l, List.mem_cons_self, h⟩
    | cons l' rest =>
      rw [List.intercalate_cons_cons, List.append_assoc, List.singleton_append] at h
      rcases infix_append_cons hsep h with hl | hrest
      · exact ⟨l, List.mem_cons_self, hl⟩
      · obtain ⟨part, hpart, hin⟩ := ih hrest
        exact ⟨part, List.mem_cons_of_mem _ hpart, hin⟩

/-- Exchanging the separator, when it stands in no part. -/
theorem map_intercalate [DecidableEq α] {sep new : α} {parts : List (List α)}
    (h : ∀ l ∈ parts, sep ∉ l) : ([sep].intercalate parts).map (fun c => if c = sep then new else c) =
      [new].intercalate parts := by
  have hpart : ∀ l ∈ parts, l.map (fun c => if c = sep then new else c) = l := by
    intro l hl
    have hsame : l.map (fun c => if c = sep then new else c) = l.map id := by
      apply List.map_congr_left
      intro c hc
      apply if_neg
      rintro rfl
      exact h l hl hc
    rw [hsame, List.map_id]
  induction parts with
  | nil => rfl
  | cons l rest ih =>
    have hrest := ih (fun l' hl' => h l' (List.mem_cons_of_mem _ hl'))
      (fun l' hl' => hpart l' (List.mem_cons_of_mem _ hl'))
    cases rest with
    | nil => simpa using hpart l List.mem_cons_self
    | cons l' rest =>
      rw [List.intercalate_cons_cons, List.intercalate_cons_cons, List.map_append, List.map_append,
        hrest, hpart l List.mem_cons_self]
      simp

/-- The first word of a text, and that it ends there. -/
theorem takeWhile_eq_iff {p : α → Bool} {s word : List α} :
    s.takeWhile p = word ↔
      ∃ rest, s = word ++ rest ∧ (∀ c ∈ word, p c) ∧ ∀ c ∈ rest.head?, p c = false := by
  constructor
  · rintro rfl
    refine ⟨s.dropWhile p, List.takeWhile_append_dropWhile.symm, ?_, ?_⟩
    · intro c hc
      exact List.mem_takeWhile_imp hc
    · intro c hc
      have hnot := List.head?_dropWhile_not p s
      rw [Option.mem_def.mp hc] at hnot
      exact hnot
  · rintro ⟨rest, rfl, hword, hrest⟩
    rw [List.takeWhile_append_of_pos hword]
    cases rest with
    | nil => simp
    | cons c rest =>
      have hc : p c = false := hrest c rfl
      simp [hc]

/-- A word goes no further than a letter of another kind. -/
theorem prefix_of_word {p : α → Bool} {word rest front tail : List α} {sep : α}
    (hword : ∀ c ∈ word, p c) (hsep : p sep = false)
    (h : front ++ sep :: tail <+: word ++ rest) : word <+: front := by
  have hfront : front <+: word ++ rest := (List.prefix_append front _).trans h
  rcases List.prefix_or_prefix_of_prefix (List.prefix_append word rest) hfront with hle | hle
  · exact hle
  · obtain ⟨more, rfl⟩ := hle
    rw [List.append_assoc] at h
    have hcons : sep :: tail <+: more ++ rest := (List.prefix_append_right_inj front).mp h
    cases more with
    | nil => simp
    | cons c more =>
      have hc : sep = c := (List.cons_prefix_cons.mp hcons).1
      have hpc : p c = true := hword c (by simp)
      rw [← hc, hsep] at hpc
      cases hpc

end RustLake.Text
