import RustLake.Auth.Permissions

/-! Patterns for table names: a name has the form of a pattern if it is the pattern with some text
in place of each star. -/
namespace RustLake.Auth

/-- A pattern with texts in place of its stars: `fill` has the text for each of them. -/
def filled : (ℕ → List Char) → List Char → List Char
  | _, [] => []
  | fill, c :: pattern =>
    if c = '*' then fill 0 ++ filled (fun i => fill (i + 1)) pattern else c :: filled fill pattern

/-- The parts stand in the text one after another to its end, each after any characters. -/
def Follow : List (List Char) → List Char → Prop
  | [], s => s = []
  | part :: parts, s => ∃ before rest, s = before ++ part ++ rest ∧ Follow parts rest

/-- The text begins with the first part, and the others follow. -/
def Fits : List (List Char) → List Char → Prop
  | [], _ => False
  | part :: parts, s => ∃ rest, s = part ++ rest ∧ Follow parts rest

section
variable {part s : List Char} {parts : List (List Char)}

theorem follow_iff_fits (h : parts ≠ []) :
    Follow parts s ↔ ∃ before rest, s = before ++ rest ∧ Fits parts rest := by
  obtain ⟨part, parts, rfl⟩ := List.exists_cons_of_ne_nil h
  constructor
  · rintro ⟨before, rest, rfl, hrest⟩
    exact ⟨before, part ++ rest, List.append_assoc _ _ _, rest, rfl, hrest⟩
  · rintro ⟨before, -, rfl, rest, rfl, hrest⟩
    exact ⟨before, rest, (List.append_assoc _ _ _).symm, hrest⟩

theorem fits_modifyHead (c : Char) :
    Fits (parts.modifyHead (c :: ·)) s ↔ ∃ rest, s = c :: rest ∧ Fits parts rest := by
  cases parts with
  | nil =>
    constructor
    · intro h
      cases h
    · rintro ⟨rest, -, h⟩
      cases h
  | cons part parts =>
    constructor
    · rintro ⟨rest, rfl, hrest⟩
      exact ⟨part ++ rest, rfl, rest, rfl, hrest⟩
    · rintro ⟨-, rfl, rest, rfl, hrest⟩
      exact ⟨rest, rfl, hrest⟩

/-- The parts between the stars of a pattern say what has its form. -/
theorem exists_filled_iff (pattern s : List Char) :
    (∃ fill, s = filled fill pattern) ↔ Fits (pattern.splitOn '*') s := by
  induction pattern generalizing s with
  | nil =>
    rw [List.splitOn_nil]
    constructor
    · rintro ⟨fill, rfl⟩
      exact ⟨[], rfl, rfl⟩
    · rintro ⟨rest, rfl, rfl⟩
      exact ⟨fun _ => [], rfl⟩
  | cons c pattern ih =>
    have hne : pattern.splitOn '*' ≠ [] := List.splitOnP_ne_nil _ _
    rw [List.splitOn, List.splitOnP_cons_eq_if_modifyHead]
    by_cases hc : c = '*'
    · rw [if_pos (beq_iff_eq.mpr hc)]
      constructor
      · rintro ⟨fill, rfl⟩
        rw [filled, if_pos hc]
        refine ⟨_, rfl, (follow_iff_fits hne).mpr ⟨fill 0, _, rfl, ?_⟩⟩
        exact (ih _).mp ⟨_, rfl⟩
      · rintro ⟨rest, rfl, hrest⟩
        obtain ⟨before, rest, rfl, hfits⟩ := (follow_iff_fits hne).mp hrest
        obtain ⟨fill, rfl⟩ := (ih rest).mpr hfits
        refine ⟨fun i => i.casesOn before fill, ?_⟩
        rw [filled, if_pos hc]
        rfl
    · rw [if_neg (by simpa using hc)]
      refine Iff.trans ?_ (fits_modifyHead c).symm
      constructor
      · rintro ⟨fill, rfl⟩
        rw [filled, if_neg hc]
        exact ⟨_, rfl, (ih _).mp ⟨fill, rfl⟩⟩
      · rintro ⟨rest, rfl, hfits⟩
        obtain ⟨fill, rfl⟩ := (ih rest).mpr hfits
        refine ⟨fill, ?_⟩
        rw [filled, if_neg hc]

/-- More characters in front are characters that the first part stands after. -/
theorem Follow.append (more : List Char) (h : Follow (part :: parts) s) :
    Follow (part :: parts) (more ++ s) := by
  obtain ⟨before, rest, rfl, hrest⟩ := h
  exact ⟨more ++ before, rest, by simp only [List.append_assoc], hrest⟩

theorem follow_nil_cons {next : List Char} :
    Follow ([] :: next :: parts) s ↔ Follow (next :: parts) s := by
  constructor
  · rintro ⟨before, rest, rfl, hrest⟩
    rw [List.append_nil]
    exact hrest.append before
  · intro h
    exact ⟨[], s, rfl, h⟩

theorem follow_singleton : Follow [part] s ↔ part <:+ s := by
  constructor
  · rintro ⟨before, -, rfl, rfl⟩
    exact ⟨before, (List.append_nil _).symm⟩
  · rintro ⟨before, rfl⟩
    exact ⟨before, [], (List.append_nil _).symm, rfl⟩

theorem afterPart?_eq_some {rest : List Char} (h : afterPart? part s = some rest) :
    ∃ before, s = before ++ part ++ rest := by
  induction s with
  | nil =>
    rw [afterPart?] at h
    split_ifs at h with hpart
    cases h
    exact ⟨[], by rw [hpart]; rfl⟩
  | cons c s ih =>
    rw [afterPart?] at h
    split_ifs at h with hpart
    · cases h
      refine ⟨[], ?_⟩
      rw [List.nil_append]
      exact (List.prefix_iff_eq_append.mp hpart).symm
    · obtain ⟨before, rfl⟩ := ih h
      exact ⟨c :: before, rfl⟩

/-- The first occurrence of a part comes no later than any other, so that the characters after an
occurrence are among those after the first one. -/
theorem afterPart?_append (part before rest : List Char) :
    ∃ more, afterPart? part (before ++ part ++ rest) = some (more ++ rest) := by
  have hfirst : ∀ before : List Char, (before ++ part ++ rest).drop part.length =
      (before ++ part).drop part.length ++ rest := by
    intro before
    apply List.drop_append_of_le_length
    rw [List.length_append]
    omega
  induction before with
  | nil =>
    refine ⟨([] ++ part).drop part.length, ?_⟩
    rw [← hfirst]
    cases hs : [] ++ part ++ rest with
    | nil =>
      obtain ⟨hpart, -⟩ := List.append_eq_nil_iff.mp hs
      rw [List.nil_append] at hpart
      rw [afterPart?, if_pos hpart, List.drop_nil]
    | cons c s =>
      have hprefix' : part <+: c :: s := ⟨rest, by rw [← hs, List.nil_append]⟩
      rw [afterPart?, if_pos hprefix']
  | cons c before ih =>
    by_cases hpart : part <+: c :: (before ++ part ++ rest)
    · refine ⟨(c :: before ++ part).drop part.length, ?_⟩
      rw [← hfirst]
      simp only [List.cons_append] at hpart ⊢
      rw [afterPart?, if_pos hpart]
    · obtain ⟨more, hmore⟩ := ih
      refine ⟨more, ?_⟩
      simp only [List.cons_append] at hpart ⊢
      rw [afterPart?, if_neg hpart, hmore]

end

/-- The loop from a place after the first: to take each part where it comes first misses nothing,
as any characters may stand in front of the next one. -/
theorem matchParts_iff {last i : ℕ} {part s : List Char} {parts : List (List Char)} (hi : i ≠ 0)
    (hlast : i + parts.length = last) :
    matchParts last i (part :: parts) s = true ↔ Follow (part :: parts) s := by
  induction parts generalizing i part s with
  | nil =>
    have hend : i = last := hlast
    rw [follow_singleton, matchParts]
    by_cases hpart : part = []
    · rw [if_pos hpart, hpart]
      exact iff_of_true rfl (List.nil_suffix)
    · rw [if_neg hpart, if_neg hi, if_pos hend, matchParts, Bool.and_true, decide_eq_true_eq]
  | cons next parts ih =>
    have hnext : i + 1 + parts.length = last := by
      rw [← hlast, List.length_cons]
      omega
    have hne : i ≠ last := by omega
    rw [matchParts]
    by_cases hpart : part = []
    · rw [if_pos hpart, hpart, follow_nil_cons, ih (Nat.succ_ne_zero i) hnext]
    · rw [if_neg hpart, if_neg hi, if_neg hne]
      cases hafter : afterPart? part s with
      | none =>
        refine iff_of_false Bool.false_ne_true ?_
        rintro ⟨before, rest, rfl, -⟩
        obtain ⟨more, hmore⟩ := afterPart?_append part before rest
        rw [hmore] at hafter
        cases hafter
      | some rest =>
        simp only
        rw [ih (Nat.succ_ne_zero i) hnext]
        constructor
        · intro hrest
          obtain ⟨before, rfl⟩ := afterPart?_eq_some hafter
          exact ⟨before, rest, rfl, hrest⟩
        · rintro ⟨before, rest', rfl, hrest⟩
          obtain ⟨more, hmore⟩ := afterPart?_append part before rest'
          rw [hmore] at hafter
          cases hafter
          exact hrest.append more

/-- The whole loop over two parts or more. -/
theorem matchParts_zero {part next s : List Char} {parts : List (List Char)} :
    matchParts (parts.length + 1) 0 (part :: next :: parts) s = true ↔
      Fits (part :: next :: parts) s := by
  have hlater : ∀ rest, matchParts (parts.length + 1) 1 (next :: parts) rest = true ↔
      Follow (next :: parts) rest := fun rest =>
    matchParts_iff Nat.one_ne_zero (Nat.add_comm 1 parts.length)
  rw [matchParts]
  by_cases hpart : part = []
  · rw [if_pos hpart, hpart, hlater]
    constructor
    · intro h
      exact ⟨s, rfl, h⟩
    · rintro ⟨rest, rfl, h⟩
      exact h
  · rw [if_neg hpart, if_pos rfl, Bool.and_eq_true, decide_eq_true_eq, hlater]
    constructor
    · rintro ⟨⟨rest, rfl⟩, h⟩
      rw [List.drop_left] at h
      exact ⟨rest, rfl, h⟩
    · rintro ⟨rest, rfl, h⟩
      refine ⟨List.prefix_append _ _, ?_⟩
      rw [List.drop_left]
      exact h

/-- A pattern matches the names that it becomes with texts in place of its stars, and no others. -/
theorem patternMatches_iff_filled (pattern table : List Char) :
    patternMatches pattern table = true ↔ ∃ fill, table = filled fill pattern := by
  rw [exists_filled_iff]
  unfold patternMatches
  by_cases hstar : pattern = ['*']
  · rw [if_pos hstar, hstar]
    refine iff_of_true rfl ⟨table, rfl, ?_⟩
    exact follow_singleton.mpr List.nil_suffix
  · rw [if_neg hstar]
    have hwhole : ['*'].intercalate (pattern.splitOn '*') = pattern := List.intercalate_splitOn '*'
    cases hparts : pattern.splitOn '*' with
    | nil => exact absurd hparts (List.splitOnP_ne_nil _ _)
    | cons part later =>
      cases later with
      | nil =>
        rw [hparts, List.intercalate_singleton] at hwhole
        simp only [List.length_singleton, if_true, decide_eq_true_eq]
        constructor
        · rintro rfl
          exact ⟨[], by rw [hwhole, List.append_nil], rfl⟩
        · rintro ⟨-, rfl, rfl⟩
          rw [hwhole, List.append_nil]
      | cons next parts =>
        have hlength : (part :: next :: parts).length ≠ 1 := by simp
        simp only [if_neg hlength]
        exact matchParts_zero

example : patternMatches "a*bc*c".toList "abbcbcc".toList = true := by decide +kernel

end RustLake.Auth
