import Mathlib.Algebra.Order.Ring.Int
import Mathlib.Algebra.Order.Ring.Nat
import Mathlib.Data.Char
import Mathlib.Data.List.DropRight
import Mathlib.Data.List.Lex
import Mathlib.Data.UInt

/-! What the models take over from Rust: how code that returns no value ends, text cut at byte
positions, and white space. -/
namespace RustLake

/-- How code that returns no value ends: with an `Err`, or with a panic. -/
inductive Failure where
  | error (message : String)
  | panic
deriving DecidableEq, Repr

instance lawfulBEqText : LawfulBEq (List Char) := inferInstance

instance lawfulBEqPair : LawfulBEq (String × String) := inferInstance

/-- `Ord::max` of `i32`. -/
instance lawfulOrderMaxInt32 : Std.LawfulOrderMax Int32 where
  max_eq_or a b := by
    have hmax : max a b = if a ≤ b then b else a := rfl
    rw [hmax]
    split_ifs
    · exact Or.inr rfl
    · exact Or.inl rfl
  max_le_iff a b c := by
    have hmax : max a b = if a ≤ b then b else a := rfl
    rw [hmax]
    simp only [Int32.le_iff_toInt_le]
    split_ifs <;> omega

/-- `Ord::max` of `u32`. -/
instance lawfulOrderMaxUInt32 : Std.LawfulOrderMax UInt32 where
  max_eq_or a b := by
    have hmax : max a b = if a ≤ b then b else a := rfl
    rw [hmax]
    split_ifs
    · exact Or.inr rfl
    · exact Or.inl rfl
  max_le_iff a b c := by
    have hmax : max a b = if a ≤ b then b else a := rfl
    rw [hmax]
    simp only [UInt32.le_iff_toNat_le]
    split_ifs <;> omega

/-- The order in which a hash set or map goes through its elements. -/
structure HashOrder (α : Type) where
  elements : List α → List α
  perm : ∀ l, (elements l).Perm l

def byteLength (s : List Char) : ℕ := (s.map Char.utf8Size).sum

/-- The text before and after a number of bytes; none when they end inside a character or
past the end, where slicing panics. -/
def splitAtByte? : ℕ → List Char → Option (List Char × List Char)
  | 0, s => some ([], s)
  | _ + 1, [] => none
  | n + 1, c :: s =>
    if c.utf8Size ≤ n + 1 then
      (splitAtByte? (n + 1 - c.utf8Size) s).map fun parts => (c :: parts.1, parts.2)
    else none

/-- `&s[..n]`. -/
def sliceTo? (s : String) (n : ℕ) : Option String :=
  (splitAtByte? n s.toList).map fun parts => String.ofList parts.1

/-- `char::is_whitespace`: the Unicode property `White_Space`. -/
def isWhitespace (c : Char) : Bool :=
  decide (9 ≤ c.toNat ∧ c.toNat ≤ 13) || decide (0x2000 ≤ c.toNat ∧ c.toNat ≤ 0x200A) ||
    [0x20, 0x85, 0xA0, 0x1680, 0x2028, 0x2029, 0x202F, 0x205F, 0x3000].contains c.toNat

def trimStart (s : List Char) : List Char := s.dropWhile isWhitespace

def trimEnd (s : List Char) : List Char := s.rdropWhile isWhitespace

def trim (s : List Char) : List Char := trimEnd (trimStart s)

/-- `str::find`: the byte position of the first occurrence. -/
def find (pat : List Char) : List Char → Option ℕ
  | [] => if pat = [] then some 0 else none
  | c :: s => if pat <+: c :: s then some 0 else (find pat s).map (c.utf8Size + ·)

/-- `str::rfind`: the byte position of the last occurrence. -/
def rfind (pat : List Char) : List Char → Option ℕ
  | [] => if pat = [] then some 0 else none
  | c :: s => match rfind pat s with
    | some n => some (c.utf8Size + n)
    | none => if pat <+: c :: s then some 0 else none

/-- What `str::to_lowercase` makes of each character. ASCII letters become their small forms;
nothing is said of other characters. (The capital sigma at the end of a word, which becomes
another letter of the same length there, is taken like any other.) -/
structure Lowercase where
  char : Char → List Char
  ascii : ∀ c, c.toNat < 128 → char c = [c.toLower]

def Lowercase.text (lower : Lowercase) (s : List Char) : List Char := s.flatMap lower.char

theorem toNat_lt_of_toLower {c d : Char} (hd : d.toNat < 128) (h : c.toLower = d) :
    c.toNat < 128 := by
  unfold Char.toLower at h
  split at h
  · rename_i hupper
    have hbound : c.val.toNat ≤ 90 := UInt32.le_iff_toNat_le.mp hupper.2
    change c.val.toNat < 128
    omega
  · exact h ▸ hd

@[simp] theorem Lowercase.text_append (lower : Lowercase) (a b : List Char) :
    lower.text (a ++ b) = lower.text a ++ lower.text b := by
  simp [Lowercase.text]

theorem Lowercase.text_ascii (lower : Lowercase) {s : List Char} (h : ∀ c ∈ s, c.toNat < 128) :
    lower.text s = s.map Char.toLower := by
  induction s with
  | nil => rfl
  | cons c s ih =>
    obtain ⟨hc, hs⟩ := List.forall_mem_cons.mp h
    have hstep : lower.text (c :: s) = lower.char c ++ lower.text s := rfl
    rw [hstep, ih hs, lower.ascii c hc]
    rfl

theorem byteLength_ascii {s : List Char} (h : ∀ c ∈ s, c.toNat < 128) :
    byteLength s = s.length := by
  induction s with
  | nil => rfl
  | cons c s ih =>
    obtain ⟨hc, hs⟩ := List.forall_mem_cons.mp h
    have hsize : c.utf8Size = 1 :=
      Char.utf8Size_eq_one_iff.mpr (UInt32.le_iff_toNat_le.mpr (Nat.le_of_lt_succ hc))
    have hlen : byteLength (c :: s) = c.utf8Size + byteLength s := by simp [byteLength]
    rw [hlen, hsize, ih hs, List.length_cons, Nat.add_comm]

theorem byteLength_append (a b : List Char) :
    byteLength (a ++ b) = byteLength a + byteLength b := by
  simp [byteLength]

theorem splitAtByte?_append (a b : List Char) :
    splitAtByte? (byteLength a) (a ++ b) = some (a, b) := by
  induction a with
  | nil => cases b <;> rfl
  | cons c a ih =>
    have hlen : byteLength (c :: a) = c.utf8Size + byteLength a := by simp [byteLength]
    obtain ⟨n, hn⟩ : ∃ n, byteLength (c :: a) = n + 1 :=
      Nat.exists_eq_succ_of_ne_zero (by have := c.utf8Size_pos; omega)
    have hle : c.utf8Size ≤ n + 1 := by omega
    have hrest : n + 1 - c.utf8Size = byteLength a := by omega
    rw [hn, List.cons_append, splitAtByte?, if_pos hle, hrest, ih]
    rfl

/-- A word stands on one side of a letter that it does not hold. -/
theorem not_infix_append_cons {pat a b : List Char} {c : Char} (hc : c ∉ pat)
    (ha : ¬ pat <:+: a) (hb : ¬ pat <:+: b) : ¬ pat <:+: a ++ c :: b := by
  rintro ⟨x, y, hxy⟩
  rw [List.append_assoc] at hxy
  rcases List.append_eq_append_iff.mp hxy with ⟨d, hd, hrest⟩ | ⟨d, hd, hrest⟩
  · -- The word begins in the left part.
    rcases List.append_eq_append_iff.mp hrest with ⟨e, he, -⟩ | ⟨e, he, hcons⟩
    · exact ha ⟨x, e, by rw [hd, he, List.append_assoc]⟩
    · cases e with
      | nil => exact ha ⟨x, [], by rw [hd, he]; simp⟩
      | cons c' e =>
        have hcc : c = c' := (List.cons.inj hcons).1
        exact hc (by rw [he, hcc]; simp)
  · cases d with
    | nil =>
      cases pat with
      | nil => exact ha List.nil_infix
      | cons p ps =>
        have hcp : c = p := by simpa using congrArg List.head? hrest
        exact hc (hcp ▸ List.mem_cons_self)
    | cons c' d =>
      have hbrest : b = d ++ (pat ++ y) := (List.cons.inj hrest).2
      exact hb ⟨d, y, by rw [hbrest, List.append_assoc]⟩

theorem rfind_eq_none {pat s : List Char} (h : ¬ pat <:+: s) : rfind pat s = none := by
  induction s with
  | nil =>
    have hpat : pat ≠ [] := by
      rintro rfl
      exact h List.infix_rfl
    simp [rfind, hpat]
  | cons c s ih =>
    have hrest : ¬ pat <:+: s := fun hs => h (hs.trans (List.suffix_cons c s).isInfix)
    have hhere : ¬ pat <+: c :: s := fun hs => h hs.isInfix
    simp [rfind, ih hrest, hhere]

/-- A word with no repeated beginning, followed by text without it, is found there. -/
theorem rfind_last {c : Char} {p : List Char} (hc : c ∉ p) (a : List Char) {b : List Char}
    (hb : ¬ (c :: p) <:+: b) : rfind (c :: p) (a ++ (c :: p) ++ b) = some (byteLength a) := by
  have hlater : ¬ (c :: p) <:+: p ++ b := by
    have hdrop : ∀ q : List Char, c ∉ q → ¬ (c :: p) <:+: q ++ b := by
      intro q hq
      induction q with
      | nil => exact hb
      | cons d q ih =>
        obtain ⟨hd, hq⟩ := not_or.mp (mt List.mem_cons.mpr hq)
        intro hinfix
        rcases List.infix_cons_iff.mp hinfix with hprefix | hrest
        · exact hd (List.cons_prefix_cons.mp hprefix).1
        · exact ih hq hrest
    exact hdrop p hc
  induction a with
  | nil =>
    have hhere : (c :: p) <+: c :: (p ++ b) := ⟨b, rfl⟩
    rw [List.nil_append, List.cons_append, rfind, rfind_eq_none hlater]
    simp [hhere, byteLength]
  | cons d a ih =>
    rw [List.cons_append, List.cons_append, rfind, ih]
    simp [byteLength]

end RustLake
