import RustLake.Text.Pieces
import Mathlib.Data.Char

/-! Letters that are written as codes: by replacing one after the other, and how they are read back;
and replacing the first occurrence of a part only. -/
namespace RustLake.Text

section
variable {α : Type}

/-- The part does not begin in a text, whatever comes after it. -/
def BeginsNowhere (pat x : List α) : Prop := ∀ y ≠ [], y <:+ x → ∀ t, ¬ pat <+: y ++ t

theorem BeginsNowhere.append {pat a b : List α} (ha : BeginsNowhere pat a)
    (hb : BeginsNowhere pat b) : BeginsNowhere pat (a ++ b) := by
  intro y hy hsuffix t
  obtain ⟨before, heq⟩ := hsuffix
  rcases List.append_eq_append_iff.mp heq with hlonger | hlast
  · obtain ⟨rest, ha', hy'⟩ := hlonger
    rw [hy', List.append_assoc]
    by_cases hrest : rest = []
    · rw [hrest, List.nil_append] at hy'
      have hb' := hb y hy ⟨[], hy'⟩ t
      rw [hy'] at hb'
      rwa [hrest, List.nil_append]
    · exact ha rest hrest ⟨before, ha'.symm⟩ _
  · obtain ⟨rest, -, hb'⟩ := hlast
    exact hb y hy ⟨rest, hb'.symm⟩ t

/-- A word that does not have the part, and a letter that the part does not have. -/
theorem beginsNowhere_word {pat w : List α} {d : α} (hword : ¬ pat <:+: w) (hd : d ∉ pat) :
    BeginsNowhere pat (w ++ [d]) := by
  intro y hy hsuffix t hbegins
  have hlast : ∃ v, y = v ++ [d] ∧ v <:+ w := by
    obtain ⟨before, heq⟩ := hsuffix
    obtain ⟨v, last, rfl⟩ := (List.eq_nil_or_concat y).resolve_left hy
    rw [List.concat_eq_append, ← List.append_assoc] at heq
    obtain ⟨hw, hends⟩ := List.append_inj' heq rfl
    exact ⟨v, by rw [List.concat_eq_append, hends], ⟨before, hw⟩⟩
  obtain ⟨v, rfl, hv⟩ := hlast
  -- A part that reaches the letter has it.
  have hshort : pat.length ≤ v.length := by
    by_contra hlong
    have hmem : d ∈ pat := by
      have hv' : v ++ [d] <+: pat := by
        apply List.prefix_of_prefix_length_le ⟨t, rfl⟩ hbegins
        simp
        omega
      exact hv'.subset (by simp)
    exact hd hmem
  have hinside : pat <+: v := by
    apply List.prefix_of_prefix_length_le hbegins _ hshort
    rw [List.append_assoc]
    exact List.prefix_append _ _
  exact hword (hinside.isInfix.trans hv.isInfix)

variable [DecidableEq α]

/-- Replace all letters of each rule, one rule after the other. -/
def replaceLetters (rules : List (α × List α)) (s : List α) : List α :=
  replaceEach (rules.map fun rule => ([rule.1], rule.2)) s

/-- The code of a letter by the first rule for it. -/
def codeOf (rules : List (α × List α)) (c : α) : List α :=
  ((rules.find? (·.1 = c)).map (·.2)).getD [c]

/-- No rule is for a letter in the code of an earlier one. -/
def Layered (rules : List (α × List α)) : Prop := rules.Pairwise fun rule later => later.1 ∉ rule.2

theorem codeOf_cons (rule : α × List α) (rules : List (α × List α)) (c : α) :
    codeOf (rule :: rules) c = if rule.1 = c then rule.2 else codeOf rules c := by
  rw [codeOf, List.find?_cons]
  split_ifs with hc
  · simp [hc]
  · simp [hc, codeOf]

/-- Letters without a rule stay. -/
theorem flatMap_codeOf_self {rules : List (α × List α)} {s : List α}
    (h : ∀ rule ∈ rules, rule.1 ∉ s) : s.flatMap (codeOf rules) = s := by
  have hletter : ∀ c ∈ s, codeOf rules c = [c] := by
    intro c hc
    have hnone : rules.find? (·.1 = c) = none := by
      apply List.find?_eq_none.mpr
      intro rule hrule heq
      exact h rule hrule (by simpa using of_decide_eq_true heq ▸ hc)
    rw [codeOf, hnone]
    rfl
  calc s.flatMap (codeOf rules) = s.flatMap fun c => [c] := List.flatMap_congr hletter
    _ = s := by simp

/-- Replacing one letter after the other gives each letter its code. -/
theorem replaceLetters_eq {rules : List (α × List α)} (h : Layered rules) (s : List α) :
    replaceLetters rules s = s.flatMap (codeOf rules) := by
  induction rules generalizing s with
  | nil =>
    have hnone : s.flatMap (codeOf []) = s := flatMap_codeOf_self (by simp)
    rw [hnone]
    rfl
  | cons rule rules ih =>
    obtain ⟨hfirst, hrest⟩ := List.pairwise_cons.mp h
    have hstep : replaceLetters (rule :: rules) s = replaceLetters rules (replaceAll [rule.1] rule.2 s) :=
      rfl
    rw [hstep, ih hrest, replaceAll_singleton, List.flatMap_assoc]
    apply List.flatMap_congr
    intro c _
    rw [codeOf_cons]
    by_cases hc : c = rule.1
    · rw [if_pos hc, if_pos hc.symm]
      exact flatMap_codeOf_self hfirst
    · rw [if_neg hc, if_neg (Ne.symm hc)]
      simp

theorem replaceLetters_append {rules : List (α × List α)} (h : Layered rules) (s t : List α) :
    replaceLetters rules (s ++ t) = replaceLetters rules s ++ replaceLetters rules t := by
  rw [replaceLetters_eq h, replaceLetters_eq h, replaceLetters_eq h, List.flatMap_append]

/-- A letter that has a code, and is in no code, is gone. -/
theorem notMem_replaceLetters {rules : List (α × List α)} (h : Layered rules) {d : α}
    (hrule : ∃ rule ∈ rules, rule.1 = d) (hcodes : ∀ rule ∈ rules, d ∉ rule.2) (s : List α) :
    d ∉ replaceLetters rules s := by
  rw [replaceLetters_eq h]
  intro hmem
  obtain ⟨c, -, hc⟩ := List.mem_flatMap.mp hmem
  cases hfound : rules.find? (·.1 = c) with
  | none =>
    have hself : d = c := by simpa [codeOf, hfound] using hc
    obtain ⟨rule, hmem', heq⟩ := hrule
    exact List.find?_eq_none.mp hfound rule hmem' (by simpa [← hself] using heq)
  | some rule =>
    have hcode : d ∈ rule.2 := by simpa [codeOf, hfound] using hc
    exact hcodes rule (List.mem_of_find?_eq_some hfound) hcode

/-- A letter without a rule that is in no code stands where it stood. -/
theorem mem_of_mem_replaceLetters {rules : List (α × List α)} (h : Layered rules) {d : α}
    (hcodes : ∀ rule ∈ rules, d ∉ rule.2) {s : List α} (hmem : d ∈ replaceLetters rules s) : d ∈ s := by
  rw [replaceLetters_eq h] at hmem
  obtain ⟨c, hc, hcode⟩ := List.mem_flatMap.mp hmem
  cases hfound : rules.find? (·.1 = c) with
  | none =>
    have hself : d = c := by simpa [codeOf, hfound] using hcode
    exact hself ▸ hc
  | some rule =>
    have hin : d ∈ rule.2 := by simpa [codeOf, hfound] using hcode
    exact absurd hin (hcodes rule (List.mem_of_find?_eq_some hfound))

/-- Replace the first occurrence. -/
def replaceFirst (pat rep : List α) : List α → List α
  | [] => if pat = [] then rep else []
  | c :: s => if pat <+: c :: s then rep ++ (c :: s).drop pat.length else c :: replaceFirst pat rep s

/-- What follows a text in which the part occurs is not touched. -/
theorem replaceFirst_append {pat : List α} (rep : List α) {x : List α} (h : pat <:+: x)
    (s : List α) : replaceFirst pat rep (x ++ s) = replaceFirst pat rep x ++ s := by
  induction x with
  | nil =>
    have hempty : pat = [] := List.infix_nil.mp h
    cases s <;> simp [replaceFirst, hempty]
  | cons c x ih =>
    rw [List.cons_append, replaceFirst, replaceFirst]
    by_cases hx : pat <+: c :: x
    · have hlonger : pat <+: c :: (x ++ s) := hx.trans ⟨s, rfl⟩
      have hlength : pat.length ≤ (c :: x).length := hx.length_le
      rw [if_pos hx, if_pos hlonger, ← List.cons_append, List.drop_append_of_le_length hlength,
        List.append_assoc]
    · have hnot : ¬ pat <+: c :: (x ++ s) := by
        intro hlonger
        have hwhole : c :: x <+: c :: (x ++ s) := ⟨s, rfl⟩
        exact hx (List.prefix_of_prefix_length_le hlonger hwhole h.length_le)
      have hlater : pat <:+: x := by
        rcases List.infix_cons_iff.mp h with hfirst | hrest
        · exact absurd hfirst hx
        · exact hrest
      rw [if_neg hx, if_neg hnot, ih hlater, List.cons_append]

theorem replaceFirst_at {pat x : List α} (hpat : pat ≠ []) (h : BeginsNowhere pat x)
    (rep s : List α) : replaceFirst pat rep (x ++ (pat ++ s)) = x ++ (rep ++ s) := by
  induction x with
  | nil =>
    obtain ⟨c, rest, rfl⟩ := List.exists_cons_of_ne_nil hpat
    have hmatch : c :: rest <+: c :: (rest ++ s) := ⟨s, rfl⟩
    rw [List.nil_append, List.cons_append, replaceFirst, if_pos hmatch]
    simp
  | cons c x ih =>
    have hnot : ¬ pat <+: c :: (x ++ (pat ++ s)) :=
      h (c :: x) (List.cons_ne_nil _ _) (List.suffix_refl _) _
    have hlater : BeginsNowhere pat x := fun y hy hsuffix t =>
      h y hy (hsuffix.trans (List.suffix_cons c x)) t
    rw [List.cons_append, replaceFirst, if_neg hnot, ih hlater, List.cons_append]

end

/-- The value of a hexadecimal digit. -/
def hexValue (c : Char) : Option ℕ :=
  if c.isDigit then some (c.toNat - 48)
  else if 'A' ≤ c ∧ c ≤ 'F' then some (c.toNat - 55)
  else if 'a' ≤ c ∧ c ≤ 'f' then some (c.toNat - 87)
  else none

/-- Codes of ASCII letters, of two hexadecimal digits after a percent sign, are read as the letters;
all else stays. -/
def percentDecode : List Char → List Char
  | [] => []
  | c :: s =>
    if c = '%' then match s with
      | a :: b :: rest => match hexValue a, hexValue b with
        | some x, some y =>
          if 16 * x + y < 128 then Char.ofNat (16 * x + y) :: percentDecode rest
          else c :: percentDecode (a :: b :: rest)
        | _, _ => c :: percentDecode (a :: b :: rest)
      | rest => c :: rest
    else c :: percentDecode s

theorem percentDecode_cons {c : Char} (hc : c ≠ '%') (s : List Char) :
    percentDecode (c :: s) = c :: percentDecode s := by
  conv_lhs => unfold percentDecode
  rw [if_neg hc]

/-- Each code is the percent code of its letter, and percent signs have one. -/
structure PercentRules (rules : List (Char × List Char)) : Prop where
  layered : Layered rules
  decodes : ∀ rule ∈ rules, ∀ s, percentDecode (rule.2 ++ s) = rule.1 :: percentDecode s
  percent : ∃ rule ∈ rules, rule.1 = '%'

theorem percentDecode_codes {rules : List (Char × List Char)} (h : PercentRules rules)
    (s t : List Char) :
    percentDecode (replaceLetters rules s ++ t) = s ++ percentDecode t := by
  rw [replaceLetters_eq h.layered]
  induction s with
  | nil => rfl
  | cons c s ih =>
    have hletter : ∀ t, percentDecode (codeOf rules c ++ t) = c :: percentDecode t := by
      intro t
      cases hrule : rules.find? (·.1 = c) with
      | none =>
        have hc : c ≠ '%' := by
          rintro rfl
          obtain ⟨rule, hmem, heq⟩ := h.percent
          exact List.find?_eq_none.mp hrule rule hmem (by simpa using heq)
        have hself : codeOf rules c = [c] := by simp [codeOf, hrule]
        rw [hself]
        exact percentDecode_cons hc t
      | some rule =>
        have heq : rule.1 = c := by simpa using List.find?_some hrule
        have hdecode := h.decodes rule (List.mem_of_find?_eq_some hrule) t
        simp [codeOf, hrule, hdecode, heq]
    rw [List.flatMap_cons, List.append_assoc, hletter, ih, List.cons_append]

theorem percentDecode_replaceLetters {rules : List (Char × List Char)} (h : PercentRules rules)
    (s : List Char) : percentDecode (replaceLetters rules s) = s := by
  have hdecode := percentDecode_codes h s []
  simpa [percentDecode] using hdecode

end RustLake.Text
