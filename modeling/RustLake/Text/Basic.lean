import Mathlib.Algebra.Order.Ring.Int
import Mathlib.Algebra.Order.Ring.Nat

/-! Text as lists of characters: the last and the later part around a separator,
and decimal numbers with the signs and bounds of the machine integers they are
read into. -/
namespace RustLake.Text

/-- What stands after the last separator; the whole text when there is none. -/
def afterLast (sep : Char) : List Char → List Char
  | [] => []
  | c :: cs => if sep ∈ cs then afterLast sep cs else if c = sep then cs else c :: cs

/-- What stands after the first separator. -/
def afterFirst? (sep : Char) : List Char → Option (List Char)
  | [] => none
  | c :: cs => if c = sep then some cs else afterFirst? sep cs

theorem afterFirst?_append {sep : Char} {a : List Char} (ha : sep ∉ a) (b : List Char) :
    afterFirst? sep (a ++ sep :: b) = some b := by
  induction a with
  | nil => simp [afterFirst?]
  | cons c cs ih =>
    obtain ⟨hc, hcs⟩ := not_or.mp (mt List.mem_cons.mpr ha)
    rw [List.cons_append, afterFirst?, if_neg (Ne.symm hc), ih hcs]

/-- What stands after the first separator comes after text without one. -/
theorem append_of_afterFirst? {sep : Char} {s b : List Char} (h : afterFirst? sep s = some b) :
    ∃ a, sep ∉ a ∧ s = a ++ sep :: b := by
  induction s with
  | nil => cases h
  | cons c cs ih =>
    rw [afterFirst?] at h
    split_ifs at h with hc
    · cases h
      exact ⟨[], List.not_mem_nil, by rw [hc]; rfl⟩
    · obtain ⟨a, ha, rfl⟩ := ih h
      refine ⟨c :: a, ?_, rfl⟩
      rw [List.mem_cons, not_or]
      exact ⟨Ne.symm hc, ha⟩

theorem afterLast_of_notMem {sep : Char} {s : List Char} (hs : sep ∉ s) :
    afterLast sep s = s := by
  cases s with
  | nil => rfl
  | cons c cs =>
    obtain ⟨hc, hcs⟩ := not_or.mp (mt List.mem_cons.mpr hs)
    rw [afterLast, if_neg hcs, if_neg (Ne.symm hc)]

@[simp] theorem afterLast_append_cons {sep : Char} (a : List Char) {b : List Char}
    (hb : sep ∉ b) : afterLast sep (a ++ sep :: b) = b := by
  induction a with
  | nil => simp [afterLast, hb]
  | cons c cs ih =>
    have hmem : sep ∈ cs ++ sep :: b := List.mem_append_right _ List.mem_cons_self
    rw [List.cons_append, afterLast, if_pos hmem, ih]

theorem sep_notMem_afterLast (sep : Char) (s : List Char) : sep ∉ afterLast sep s := by
  induction s with
  | nil => exact List.not_mem_nil
  | cons c cs ih =>
    by_cases hcs : sep ∈ cs
    · rwa [afterLast, if_pos hcs]
    · rw [afterLast, if_neg hcs]
      split_ifs with hc
      · exact hcs
      · simp [hcs, Ne.symm hc]

/-- A text is its last segment, alone or after what ends in a separator. -/
theorem eq_afterLast_or_exists_append (sep : Char) (s : List Char) :
    s = afterLast sep s ∨ ∃ a, s = a ++ sep :: afterLast sep s := by
  induction s with
  | nil => exact Or.inl rfl
  | cons c cs ih =>
    by_cases hcs : sep ∈ cs
    · rw [afterLast, if_pos hcs]
      rcases ih with h | ⟨a, h⟩
      · exact absurd (h ▸ hcs) (sep_notMem_afterLast sep cs)
      · exact Or.inr ⟨c :: a, by rw [List.cons_append, ← h]⟩
    · by_cases hc : c = sep
      · exact Or.inr ⟨[], by simp [afterLast, hcs, hc]⟩
      · exact Or.inl (by rw [afterLast, if_neg hcs, if_neg hc])

/-- A nonempty run of decimal digits. -/
def parseDigits (s : List Char) : Option ℕ :=
  if s ≠ [] ∧ s.all Char.isDigit then some (Nat.ofDigitChars 10 s 0) else none

theorem parseDigits_toDigits (n : ℕ) : parseDigits (Nat.toDigits 10 n) = some n := by
  have hall : (Nat.toDigits 10 n).all Char.isDigit = true :=
    List.all_eq_true.mpr fun c hc => Nat.isDigit_of_mem_toDigits (by decide) (by decide) hc
  rw [parseDigits, if_pos ⟨Nat.toDigits_ne_nil, hall⟩, Nat.ofDigitChars_ten_toDigits]

/-- `str::parse::<i32>`: an optional sign, digits, and the bounds of `i32`. -/
def parseI32 (s : List Char) : Option Int32 :=
  match s with
  | '-' :: ds => (parseDigits ds).bind fun n =>
      if n ≤ 2 ^ 31 then some (Int32.ofInt (-n)) else none
  | '+' :: ds => (parseDigits ds).bind fun n =>
      if n < 2 ^ 31 then some (Int32.ofInt n) else none
  | ds => (parseDigits ds).bind fun n =>
      if n < 2 ^ 31 then some (Int32.ofInt n) else none

/-- `str::parse::<u64>`: an optional plus sign, digits, and the bound of `u64`. -/
def parseU64 (s : List Char) : Option UInt64 :=
  match s with
  | '+' :: ds => (parseDigits ds).bind fun n =>
      if n < 2 ^ 64 then some (UInt64.ofNat n) else none
  | ds => (parseDigits ds).bind fun n =>
      if n < 2 ^ 64 then some (UInt64.ofNat n) else none

/-- `str::parse::<u8>`. -/
def parseU8 (s : List Char) : Option UInt8 :=
  match s with
  | '+' :: ds => (parseDigits ds).bind fun n => if n < 2 ^ 8 then some (UInt8.ofNat n) else none
  | ds => (parseDigits ds).bind fun n => if n < 2 ^ 8 then some (UInt8.ofNat n) else none

/-- `str::parse::<i8>`. -/
def parseI8 (s : List Char) : Option Int8 :=
  match s with
  | '-' :: ds => (parseDigits ds).bind fun n =>
      if n ≤ 2 ^ 7 then some (Int8.ofInt (-n)) else none
  | '+' :: ds => (parseDigits ds).bind fun n => if n < 2 ^ 7 then some (Int8.ofInt n) else none
  | ds => (parseDigits ds).bind fun n => if n < 2 ^ 7 then some (Int8.ofInt n) else none

private theorem toDigits_ne_sign (n : ℕ) {c : Char} (hc : c.isDigit = false) (ds : List Char) :
    Nat.toDigits 10 n ≠ c :: ds := by
  intro h
  have hmem : c ∈ Nat.toDigits 10 n := h ▸ List.mem_cons_self
  simp [Nat.isDigit_of_mem_toDigits (by decide) (by decide) hmem] at hc

/-- Decimal texts of different numbers differ. -/
theorem toString_nat_inj {m n : ℕ} (h : toString m = toString n) : m = n := by
  have hlist : (toString m).toList = (toString n).toList := congrArg String.toList h
  have htext : ∀ k : ℕ, (toString k).toList = Nat.toDigits 10 k := fun k => Nat.toList_repr
  rw [htext, htext] at hlist
  have hparse := congrArg parseDigits hlist
  rw [parseDigits_toDigits, parseDigits_toDigits] at hparse
  exact Option.some.inj hparse

theorem toString_int_inj {m n : Int} (h : toString m = toString n) : m = n := by
  have hsign : ∀ a b : ℕ, toString a ≠ "-" ++ toString b := by
    intro a b heq
    have hmem : '-' ∈ (toString a).toList := by
      rw [heq, String.toList_append]
      exact List.mem_append_left _ (by decide)
    have htext : (toString a).toList = Nat.toDigits 10 a := Nat.toList_repr
    rw [htext] at hmem
    have hdigit := Nat.isDigit_of_mem_toDigits (by decide) (by decide) hmem
    exact absurd hdigit (by decide)
  cases m with
  | ofNat a =>
    cases n with
    | ofNat b => exact congrArg Int.ofNat (toString_nat_inj h)
    | negSucc b => exact absurd h (hsign a (b + 1))
  | negSucc a =>
    cases n with
    | ofNat b => exact absurd h.symm (hsign b (a + 1))
    | negSucc b =>
      have hsucc := toString_nat_inj ((String.append_right_inj "-").mp h)
      exact congrArg Int.negSucc (Nat.succ.inj hsucc)
/-- Reading back the decimal text of a number that an `i32` holds. -/
theorem parseI32_toString {n : ℕ} (h : n < 2 ^ 31) :
    parseI32 (toString n).toList = some (Int32.ofNat n) := by
  have hs : (toString n).toList = Nat.toDigits 10 n := Nat.toList_repr
  rw [hs]
  unfold parseI32
  split
  · rename_i ds heq
    exact absurd heq (toDigits_ne_sign _ (by decide) _)
  · rename_i ds heq
    exact absurd heq (toDigits_ne_sign _ (by decide) _)
  · rw [parseDigits_toDigits, Option.bind_some, if_pos h, Int32.ofInt_eq_ofNat]

/-- Reading back the decimal text of a `u64`. -/
@[simp] theorem parseU64_toString (u : UInt64) : parseU64 (toString u).toList = some u := by
  have hs : (toString u).toList = Nat.toDigits 10 u.toNat := Nat.toList_repr
  rw [hs]
  unfold parseU64
  split
  · rename_i ds h
    exact absurd h (toDigits_ne_sign _ (by decide) _)
  · rw [parseDigits_toDigits]
    simp [u.toNat_lt]

end RustLake.Text
