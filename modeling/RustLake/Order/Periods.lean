import Mathlib.Order.Bounds.Basic
import Mathlib.Tactic.Ring

/-! Times of an allowed offset in an allowed period, where all periods have one length: when the
next time at a fixed offset is the next one of all of them. -/
namespace RustLake.Periods
variable {length first now : ℤ} {allowed offsets : ℤ → Prop}

/-- A time at one of the offsets of an allowed period. -/
def Hits (length : ℤ) (allowed offsets : ℤ → Prop) (m : ℤ) : Prop :=
  allowed (m / length) ∧ offsets (m % length)

/-- The next time at the offset: in this period, or in the next one. -/
def next (length first now : ℤ) : ℤ :=
  if now % length < first then now / length * length + first
  else (now / length + 1) * length + first

/-- No allowed time comes before the next time at the offset, and that one is allowed: the offset
is still to come in this period, which is allowed, and is the first one left of it; or it is over,
the next period is allowed, the offset is the first one of all, and nothing is left of this period
if it is allowed. -/
def InTurn (length : ℤ) (allowed offsets : ℤ → Prop) (first now : ℤ) : Prop :=
  if now % length < first then
    allowed (now / length) ∧ ∀ t, offsets t → now % length < t → first ≤ t
  else
    allowed (now / length + 1) ∧ (∀ t, offsets t → first ≤ t) ∧
      (allowed (now / length) → ∀ t, offsets t → t ≤ now % length)

theorem ediv_add_of_lt {k t : ℤ} (ht : 0 ≤ t) (hlt : t < length) : (k * length + t) / length = k := by
  have hpos : 0 < length := lt_of_le_of_lt ht hlt
  rw [add_comm, Int.add_mul_ediv_right _ _ hpos.ne', Int.ediv_eq_zero_of_lt ht hlt, zero_add]

theorem emod_add_of_lt {k t : ℤ} (ht : 0 ≤ t) (hlt : t < length) : (k * length + t) % length = t := by
  rw [add_comm, Int.add_mul_emod_self_right, Int.emod_eq_of_lt ht hlt]

theorem hits_add_iff {k t : ℤ} (ht : 0 ≤ t) (hlt : t < length) :
    Hits length allowed offsets (k * length + t) ↔ allowed k ∧ offsets t := by
  unfold Hits
  rw [ediv_add_of_lt ht hlt, emod_add_of_lt ht hlt]

theorem lt_next (hfirst : 0 ≤ first) (hlt : first < length) : now < next length first now := by
  have hnow := Int.mul_ediv_add_emod now length
  have hrest := Int.emod_lt_of_pos now (lt_of_le_of_lt hfirst hlt)
  have hcomm := mul_comm length (now / length)
  unfold next
  split_ifs with h
  · omega
  · have hmul : (now / length + 1) * length = now / length * length + length := by ring
    omega

/-- The next time at the offset is the earliest allowed one exactly when the offset is an allowed
one and in turn. -/
theorem isLeast_next_iff (hoffsets : ∀ t, offsets t → 0 ≤ t ∧ t < length) (hfirst : 0 ≤ first)
    (hlt : first < length) :
    IsLeast {m | now < m ∧ Hits length allowed offsets m} (next length first now) ↔
      offsets first ∧ InTurn length allowed offsets first now := by
  have hpos : 0 < length := lt_of_le_of_lt hfirst hlt
  have hnow := Int.mul_ediv_add_emod now length
  have hrest := Int.emod_lt_of_pos now hpos
  have hcomm := mul_comm length (now / length)
  have hsucc : (now / length + 1) * length = now / length * length + length := by ring
  constructor
  · rintro ⟨⟨-, hhits⟩, hleast⟩
    have hbefore : ∀ k t, allowed k → offsets t → now < k * length + t →
        next length first now ≤ k * length + t := by
      intro k t hk ht hlater
      obtain ⟨h0, h1⟩ := hoffsets t ht
      exact hleast ⟨hlater, (hits_add_iff h0 h1).mpr ⟨hk, ht⟩⟩
    unfold next at hhits hbefore
    unfold InTurn
    split_ifs at hhits hbefore ⊢ with h
    · obtain ⟨hallowed, hoffset⟩ := (hits_add_iff hfirst hlt).mp hhits
      refine ⟨hoffset, hallowed, fun t ht hlater => ?_⟩
      have hle := hbefore _ t hallowed ht (by omega)
      omega
    · obtain ⟨hallowed, hoffset⟩ := (hits_add_iff hfirst hlt).mp hhits
      refine ⟨hoffset, hallowed, fun t ht => ?_, fun hthis t ht => ?_⟩
      · obtain ⟨h0, -⟩ := hoffsets t ht
        have hle := hbefore _ t hallowed ht (by omega)
        omega
      · by_contra hlater
        obtain ⟨-, h1⟩ := hoffsets t ht
        have hle := hbefore _ t hthis ht (by omega)
        omega
  · rintro ⟨hoffset, hturn⟩
    refine ⟨⟨lt_next hfirst hlt, ?_⟩, ?_⟩
    · unfold InTurn at hturn
      unfold next
      split_ifs at hturn ⊢ with h
      · exact (hits_add_iff hfirst hlt).mpr ⟨hturn.1, hoffset⟩
      · exact (hits_add_iff hfirst hlt).mpr ⟨hturn.1, hoffset⟩
    · rintro m ⟨hlater, hallowed, hm⟩
      have hsplit := Int.mul_ediv_add_emod m length
      have hmcomm := mul_comm length (m / length)
      have hmrest := Int.emod_lt_of_pos m hpos
      have hle : now / length ≤ m / length := Int.ediv_le_ediv hpos hlater.le
      unfold InTurn at hturn
      unfold next
      -- `m` is in this period, in the next one, or in a later one
      rcases eq_or_lt_of_le hle with hsame | hmore
      · rw [← hsame] at hallowed hsplit hmcomm
        split_ifs at hturn ⊢ with h
        · have hfirst' := hturn.2 _ hm (by omega)
          omega
        · have hover := hturn.2.2 hallowed _ hm
          omega
      · have hperiods : (now / length + 1) * length ≤ m / length * length :=
          Int.mul_le_mul_of_nonneg_right hmore hpos.le
        have hmnonneg := Int.emod_nonneg m hpos.ne'
        split_ifs at hturn ⊢ with h
        · omega
        · have hfirst' := hturn.2.1 _ hm
          omega

end RustLake.Periods
