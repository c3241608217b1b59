import RustLake.Rust.Basic

/-! Byte positions at which a text can be sliced, and those of the occurrences of a pattern. -/
namespace RustLake

/-- The position is within the text and not inside a character. -/
def IsBoundary (n : ℕ) (s : List Char) : Prop :=
  ∃ before after, s = before ++ after ∧ byteLength before = n

/-- `&s[n..m]`. -/
def slice? (n m : ℕ) (s : List Char) : Option (List Char) :=
  (splitAtByte? m s).bind fun parts => (splitAtByte? n parts.1).map Prod.snd

section
variable {n m : ℕ} {pat s : List Char}

theorem byteLength_cons (c : Char) (s : List Char) :
    byteLength (c :: s) = c.utf8Size + byteLength s := by
  simp [byteLength]

/-- Only the empty text has no bytes. -/
theorem eq_nil_of_byteLength (h : byteLength s = 0) : s = [] := by
  cases s with
  | nil => rfl
  | cons c s =>
    have hsize := c.utf8Size_pos
    rw [byteLength_cons] at h
    omega

theorem splitAtByte?_eq_some_iff {before after : List Char} :
    splitAtByte? n s = some (before, after) ↔ s = before ++ after ∧ byteLength before = n := by
  constructor
  · intro h
    induction s generalizing n before with
    | nil =>
      cases n with
      | zero =>
        cases h
        exact ⟨rfl, rfl⟩
      | succ n => cases h
    | cons c s ih =>
      cases n with
      | zero =>
        cases h
        exact ⟨rfl, rfl⟩
      | succ n =>
        rw [splitAtByte?] at h
        split_ifs at h with hsize
        obtain ⟨⟨front, back⟩, hsplit, hparts⟩ := Option.map_eq_some_iff.mp h
        cases hparts
        obtain ⟨rfl, hlength⟩ := ih hsplit
        refine ⟨rfl, ?_⟩
        rw [byteLength_cons, hlength]
        omega
  · rintro ⟨rfl, rfl⟩
    exact splitAtByte?_append before after

theorem splitAtByte?_isSome_iff : (splitAtByte? n s).isSome ↔ IsBoundary n s := by
  constructor
  · intro h
    obtain ⟨⟨before, after⟩, hsplit⟩ := Option.isSome_iff_exists.mp h
    exact ⟨before, after, splitAtByte?_eq_some_iff.mp hsplit⟩
  · rintro ⟨before, after, hs, hn⟩
    rw [splitAtByte?_eq_some_iff.mpr ⟨hs, hn⟩]
    rfl

theorem find_eq_some (h : find pat s = some n) :
    ∃ before after, s = before ++ (pat ++ after) ∧ byteLength before = n := by
  induction s generalizing n with
  | nil =>
    rw [find] at h
    split_ifs at h with hpat
    cases h
    exact ⟨[], [], by rw [hpat]; rfl, rfl⟩
  | cons c s ih =>
    rw [find] at h
    split_ifs at h with hpat
    · cases h
      obtain ⟨after, hafter⟩ := hpat
      exact ⟨[], after, hafter.symm, rfl⟩
    · obtain ⟨m, hm, rfl⟩ := Option.map_eq_some_iff.mp h
      obtain ⟨before, after, rfl, hlength⟩ := ih hm
      exact ⟨c :: before, after, rfl, by rw [byteLength_cons, hlength]⟩

theorem find_eq_none_iff : find pat s = none ↔ ¬ pat <:+: s := by
  induction s with
  | nil =>
    rw [find, List.infix_nil]
    split_ifs with hpat
    · exact iff_of_false (fun h => by cases h) (not_not.mpr hpat)
    · exact iff_of_true rfl hpat
  | cons c s ih =>
    rw [find, List.infix_cons_iff]
    split_ifs with hpat
    · exact iff_of_false (fun h => by cases h) (not_not.mpr (Or.inl hpat))
    · rw [Option.map_eq_none_iff, ih, not_or]
      exact (and_iff_right hpat).symm

/-- An occurrence can be cut off in the text that it was found in. -/
theorem splitAtByte?_find (h : find pat s = some n) :
    ∃ before after, s = before ++ (pat ++ after) ∧
      splitAtByte? (n + byteLength pat) s = some (before ++ pat, after) := by
  obtain ⟨before, after, rfl, hlength⟩ := find_eq_some h
  refine ⟨before, after, rfl, splitAtByte?_eq_some_iff.mpr ⟨?_, ?_⟩⟩
  · rw [List.append_assoc]
  · rw [byteLength_append, hlength]

/-- A text has one beginning of each length. -/
theorem append_inj_byteLength {a b c d : List Char} (h : a ++ b = c ++ d)
    (hlength : byteLength a = byteLength c) : a = c ∧ b = d := by
  have ha := splitAtByte?_append a b
  rw [h, hlength, splitAtByte?_append] at ha
  cases ha
  exact ⟨rfl, rfl⟩

theorem isBoundary_append_iff {before after : List Char} :
    IsBoundary (byteLength before + n) (before ++ after) ↔ IsBoundary n after := by
  constructor
  · rintro ⟨front, back, h, hlength⟩
    rcases List.append_eq_append_iff.mp h with ⟨inner, rfl, hafter⟩ | ⟨inner, rfl, hback⟩
    · rw [byteLength_append] at hlength
      exact ⟨inner, back, hafter, by omega⟩
    · rw [byteLength_append] at hlength
      exact ⟨[], after, rfl, by rw [show n = 0 by omega]; rfl⟩
  · rintro ⟨front, back, rfl, rfl⟩
    exact ⟨before ++ front, back, (List.append_assoc _ _ _).symm, byteLength_append _ _⟩

theorem slice?_eq_some_iff {inner : List Char} :
    slice? n m s = some inner ↔ ∃ before after, s = before ++ (inner ++ after) ∧
      byteLength before = n ∧ byteLength (before ++ inner) = m := by
  constructor
  · intro h
    obtain ⟨⟨front, after⟩, hfront, h⟩ := Option.bind_eq_some_iff.mp h
    obtain ⟨⟨before, inner'⟩, hbefore, rfl⟩ := Option.map_eq_some_iff.mp h
    obtain ⟨rfl, hm⟩ := splitAtByte?_eq_some_iff.mp hfront
    obtain ⟨rfl, hn⟩ := splitAtByte?_eq_some_iff.mp hbefore
    exact ⟨before, after, List.append_assoc _ _ _, hn, hm⟩
  · rintro ⟨before, after, rfl, rfl, rfl⟩
    rw [slice?, ← List.append_assoc, splitAtByte?_append, Option.bind_some, splitAtByte?_append]
    rfl

section
variable {c : Char} {before after : List Char}

theorem find_char (h : c ∉ before) :
    find [c] (before ++ c :: after) = some (byteLength before) := by
  induction before with
  | nil =>
    rw [List.nil_append, find, if_pos (List.cons_prefix_cons.mpr ⟨rfl, List.nil_prefix⟩)]
    rfl
  | cons d before ih =>
    obtain ⟨hne, hrest⟩ := not_or.mp (mt List.mem_cons.mpr h)
    rw [List.cons_append, find, if_neg fun hpat => hne (List.cons_prefix_cons.mp hpat).1, ih hrest,
      byteLength_cons]
    rfl

theorem rfind_char (h : c ∉ after) :
    rfind [c] (before ++ c :: after) = some (byteLength before) := by
  have hafter : ¬ [c] <:+: after := fun hwithin => h (hwithin.subset (List.mem_singleton.mpr rfl))
  have hlast := rfind_last List.not_mem_nil before hafter
  rwa [List.append_assoc] at hlast

end

/-- What is found is the first occurrence. -/
theorem find_le (h : find pat s = some n) {before after : List Char}
    (hs : s = before ++ (pat ++ after)) : n ≤ byteLength before := by
  induction s generalizing n before with
  | nil =>
    rw [find] at h
    split_ifs at h
    cases h
    exact Nat.zero_le _
  | cons c s ih =>
    rw [find] at h
    split_ifs at h with hpat
    · cases h
      exact Nat.zero_le _
    · obtain ⟨m, hm, rfl⟩ := Option.map_eq_some_iff.mp h
      cases before with
      | nil => exact absurd ⟨after, hs.symm⟩ hpat
      | cons d before =>
        obtain ⟨rfl, hrest⟩ := List.cons.inj hs
        have hle := ih hm hrest
        rw [byteLength_cons]
        omega

/-- A word with no repeated beginning does not overlap itself. -/
theorem occurrences_cases {c : Char} {p : List Char} (hc : c ∉ p) {a b x y : List Char}
    (h : a ++ ((c :: p) ++ b) = x ++ ((c :: p) ++ y)) :
    a = x ∨ (∃ d, x = a ++ ((c :: p) ++ d)) ∨ ∃ d, a = x ++ ((c :: p) ++ d) := by
  have hlater : ∀ {a b x y : List Char}, x ++ ((c :: p) ++ y) = a ++ ((c :: p) ++ b) →
      ∀ d, x = a ++ d → a = x ∨ ∃ d, x = a ++ ((c :: p) ++ d) := by
    rintro a b x y h d rfl
    rw [List.append_assoc] at h
    rcases List.append_eq_append_iff.mp (List.append_cancel_left h) with ⟨e, he, hrest⟩ | ⟨e, he, -⟩
    · cases d with
      | nil => exact Or.inl (List.append_nil a).symm
      | cons d₀ d =>
        cases e with
        | nil => exact Or.inr ⟨[], by rw [he, List.append_nil, List.append_nil]⟩
        | cons e₀ e =>
          have hp : p = d ++ (e₀ :: e) := (List.cons.inj he).2
          have hfirst : c = e₀ := (List.cons.inj hrest).1
          exact absurd (by rw [hp, hfirst]; exact List.mem_append_right d List.mem_cons_self) hc
    · exact Or.inr ⟨e, by rw [he]⟩
  rcases List.append_eq_append_iff.mp h with ⟨d, hx, -⟩ | ⟨d, ha, -⟩
  · exact (hlater h.symm d hx).imp_right Or.inl
  · rcases hlater h d ha with hsame | hafter
    · exact Or.inl hsame.symm
    · exact Or.inr (Or.inr hafter)

end
end RustLake
