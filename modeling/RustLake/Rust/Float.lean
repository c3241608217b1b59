import Mathlib.Data.Nat.Log
import Mathlib.Data.List.Basic
import Mathlib.Algebra.Order.Ring.Int

/-! `f64` as far as conversions to it and comparisons go. -/
namespace RustLake

/-- A number of type `f64`, by its bits. -/
structure F64 where
  bits : UInt64
deriving DecidableEq

namespace F64

/-- The bits without the sign. -/
def magnitude (x : F64) : ℕ := x.bits.toNat % 2 ^ 63

/-- Exponents are biased by 1023, above 52 bits of the fraction. -/
def isNan (x : F64) : Prop := 2047 * 2 ^ 52 < x.magnitude

/-- Numbers are ordered as the magnitudes with their signs are; the two zeros are equal. -/
def key (x : F64) : ℤ := if x.bits.toNat < 2 ^ 63 then x.magnitude else -x.magnitude

instance (x : F64) : Decidable x.isNan := inferInstanceAs (Decidable (_ < _))

/-- `a < b`, which is false of NaN. -/
def Lt (x y : F64) : Prop := ¬ x.isNan ∧ ¬ y.isNan ∧ x.key < y.key

instance (x y : F64) : Decidable (x.Lt y) := inferInstanceAs (Decidable (_ ∧ _ ∧ _))

/-- `a <= b`, which is false of NaN. -/
def Le (x y : F64) : Prop := ¬ x.isNan ∧ ¬ y.isNan ∧ x.key ≤ y.key

instance (x y : F64) : Decidable (x.Le y) := inferInstanceAs (Decidable (_ ∧ _ ∧ _))

/-- `f64::min`, which drops NaN. Of two zeros it gives the first; Rust may give either. -/
def min (x y : F64) : F64 :=
  if x.isNan then y else if y.isNan then x else if y.key < x.key then y else x

/-- `f64::max`. -/
def max (x y : F64) : F64 :=
  if x.isNan then y else if y.isNan then x else if x.key < y.key then y else x

theorem min_lt {x y z : F64} : (x.min y).Lt z ↔ x.Lt z ∨ y.Lt z := by
  unfold min Lt
  by_cases hx : x.isNan
  · simp [hx]
  · by_cases hy : y.isNan
    · simp [hx, hy]
    · by_cases hyx : y.key < x.key
      · rw [if_neg hx, if_neg hy, if_pos hyx]
        constructor
        · exact Or.inr
        · rintro (⟨-, hz, hlt⟩ | h)
          · exact ⟨hy, hz, hyx.trans hlt⟩
          · exact h
      · rw [if_neg hx, if_neg hy, if_neg hyx]
        constructor
        · exact Or.inl
        · rintro (h | ⟨-, hz, hlt⟩)
          · exact h
          · exact ⟨hx, hz, (not_lt.mp hyx).trans_lt hlt⟩

theorem lt_max {x y z : F64} : z.Lt (x.max y) ↔ z.Lt x ∨ z.Lt y := by
  unfold max Lt
  by_cases hx : x.isNan
  · simp [hx]
  · by_cases hy : y.isNan
    · simp [hx, hy]
    · by_cases hxy : x.key < y.key
      · rw [if_neg hx, if_neg hy, if_pos hxy]
        constructor
        · exact Or.inr
        · rintro (⟨hz, -, hlt⟩ | h)
          · exact ⟨hz, hy, hlt.trans hxy⟩
          · exact h
      · rw [if_neg hx, if_neg hy, if_neg hxy]
        constructor
        · exact Or.inl
        · rintro (h | ⟨hz, -, hlt⟩)
          · exact h
          · exact ⟨hz, hx, hlt.trans_le (not_lt.mp hxy)⟩

theorem not_isNan_max {x y : F64} (hy : ¬ y.isNan) : ¬ (x.max y).isNan := by
  unfold max
  split_ifs with hx hlt
  · exact hy
  · exact hy
  · exact hx

/-- The quotient, rounded to the nearest integer, and to the even one of two. -/
def roundedDiv (n d : ℕ) : ℕ :=
  if d < 2 * (n % d) ∨ (2 * (n % d) = d ∧ (n / d) % 2 = 1) then n / d + 1 else n / d

/-- The magnitude nearest to an integer. The leading bit of the fraction counts for one in the
exponent, as does a fraction that is rounded up to a power of two. -/
def magnitudeOf (n : ℕ) : ℕ :=
  if n = 0 then 0
  else (n.log2 + 1022) * 2 ^ 52 +
    if n.log2 ≤ 52 then n * 2 ^ (52 - n.log2) else roundedDiv n (2 ^ (n.log2 - 52))

def ofMagnitude (negative : Bool) (m : ℕ) : F64 :=
  ⟨UInt64.ofNat (if negative then 2 ^ 63 + m else m)⟩

/-- An integer `as f64`. -/
def ofInt (n : ℤ) : F64 := ofMagnitude (decide (n < 0)) (magnitudeOf n.natAbs)

/-- An `f32`, by its bits, `as f64`: eight bits of the exponent above 23 of the fraction. -/
def ofF32 (bits : UInt32) : F64 :=
  let exponent := bits.toNat / 2 ^ 23 % 2 ^ 8
  let fraction := bits.toNat % 2 ^ 23
  ofMagnitude (decide (2 ^ 31 ≤ bits.toNat))
    (if exponent = 255 then 2047 * 2 ^ 52 + fraction * 2 ^ 29
    else if exponent = 0 then
      if fraction = 0 then 0
      else (fraction.log2 + 873) * 2 ^ 52 + fraction * 2 ^ (52 - fraction.log2)
    else (exponent + 896) * 2 ^ 52 + fraction * 2 ^ 29)

/-- One more than `2 ^ 53` is rounded to it. -/
example : ofInt (2 ^ 53 + 1) = ofInt (2 ^ 53) := by decide

example : ofF32 0xC0200000 = ⟨0xC004000000000000⟩ := by decide

end F64
end RustLake
