import RustLake.Scheduler.NextRun

/-! For which texts the computation of the next run returns, and with a time that is still to
come. -/
namespace RustLake.NextRun
open Text

/-- The time returned, if any, is later than a reading of the clock. -/
def ReturnsLater (now : ℤ) (next : Except Failure (Option ℤ)) : Prop :=
  ∃ run, next = .ok run ∧ ∀ t, run = some t → now < t

/-- The words that are short for a time from now. -/
def named (trimmed : List Char) : Option ℤ :=
  if trimmed = "@hourly".toList then some hour
  else if trimmed = "@daily".toList ∨ trimmed = "@midnight".toList then some day
  else if trimmed = "@weekly".toList then some (7 * day)
  else if trimmed = "@monthly".toList then some (30 * day)
  else if trimmed = "@yearly".toList ∨ trimmed = "@annually".toList then some (365 * day)
  else none

/-- The fields of the minute and the hour, where there are five to seven fields. -/
def timeFields (trimmed : List Char) : Option (List Char × List Char) :=
  match splitWhitespace trimmed with
  | [minF, hourF, _, _, _] => some (minF, hourF)
  | [_, minF, hourF, _, _, _] => some (minF, hourF)
  | [_, minF, hourF, _, _, _, _] => some (minF, hourF)
  | _ => none

/-- The time that two fields aim at, and after how long they do so again. -/
def aim (now : ℤ) (minF hourF : List Char) : Option ℤ × ℤ :=
  match target hourF, target minF with
  | some h, some m => (andHmsOpt (now / day) h.toNat m.toNat, day)
  | some h, none => (andHmsOpt (now / day) h.toNat 0, day)
  | none, some m => (andHmsOpt (now / day) (now % day / hour).toNat m.toNat, hour)
  | none, none => (some now, minute)

def unitLength (unit : Char) : Option ℤ :=
  if unit = 's' then some second
  else if unit = 'm' then some minute
  else if unit = 'h' then some hour
  else if unit = 'd' then some day
  else none

/-- The last reading of the clock: there is one more for fields. -/
def lastReading (now fieldsNow : ℤ) (cron : List Char) : ℤ :=
  if "every ".toList <+: trim cron then now
  else
    match named (trim cron), timeFields (trim cron) with
    | none, some _ => fieldsNow
    | _, _ => now

/-- The interval does not end in a letter of several bytes, and where it ends in a unit, its number
is positive, or 1 for want of a number, and the sum can be held. -/
def IntervalFits (now : ℤ) (rest : List Char) : Prop :=
  ∀ numStr unit, rest = numStr ++ [unit] → unit.utf8Size = 1 ∧
    ∀ length, unitLength unit = some length →
      0 < ((Sql.parseI64 numStr).getD 1).toInt ∧
        Holds (now + ((Sql.parseI64 numStr).getD 1).toInt * length)

/-- An interval fits, and all other texts need is that the time can be held. -/
def Fits (now fieldsNow : ℤ) (cron : List Char) : Prop :=
  if "every ".toList <+: trim cron then IntervalFits now (trim ((trim cron).drop 6))
  else
    match named (trim cron), timeFields (trim cron) with
    | some delay, _ => Holds (now + delay)
    | none, some (minF, hourF) => ∀ t, (aim fieldsNow minF hourF).1 = some t →
        fieldsNow < t ∨ Holds (t + (aim fieldsNow minF hourF).2)
    | none, none => Holds (now + hour)

section Spec
variable {now fieldsNow : ℤ} {cron rest : List Char}

theorem parseCronFields_eq (minF hourF domF monthF dowF : List Char) :
    parseCronFields now minF hourF domF monthF dowF =
      nextOrAfter now (aim now minF hourF).1 (aim now minF hourF).2 := by
  unfold parseCronFields aim
  cases target hourF with
  | some h =>
    cases target minF with
    | some m => rfl
    | none => rfl
  | none =>
    cases target minF with
    | some m => rfl
    | none => exact (if_neg (lt_irrefl now)).symm

/-- What the text leads to, by its kind. -/
theorem nextCronRun_eq : nextCronRun now fieldsNow cron =
    if "every ".toList <+: trim cron then every now (trim ((trim cron).drop 6))
    else match named (trim cron), timeFields (trim cron) with
      | some delay, _ => plus now delay
      | none, some (minF, hourF) =>
        nextOrAfter fieldsNow (aim fieldsNow minF hourF).1 (aim fieldsNow minF hourF).2
      | none, none => plus now hour := by
  have hwords : ∀ trimmed : List Char,
      (match splitWhitespace trimmed with
        | [minF, hourF, domF, monthF, dowF] => parseCronFields fieldsNow minF hourF domF monthF dowF
        | [_, minF, hourF, domF, monthF, dowF] =>
          parseCronFields fieldsNow minF hourF domF monthF dowF
        | [_, minF, hourF, domF, monthF, dowF, _] =>
          parseCronFields fieldsNow minF hourF domF monthF dowF
        | _ => plus now hour) =
      match timeFields trimmed with
        | some (minF, hourF) =>
          nextOrAfter fieldsNow (aim fieldsNow minF hourF).1 (aim fieldsNow minF hourF).2
        | none => plus now hour := by
    intro trimmed
    unfold timeFields
    split
    · exact parseCronFields_eq _ _ _ _ _
    · exact parseCronFields_eq _ _ _ _ _
    · exact parseCronFields_eq _ _ _ _ _
    · rfl
  unfold nextCronRun named
  dsimp only
  split_ifs
  any_goals rfl
  refine (hwords (trim cron)).trans ?_
  cases timeFields (trim cron) <;> rfl

theorem plus_returnsLater_iff {duration : ℤ} :
    ReturnsLater now (plus now duration) ↔ 0 < duration ∧ Holds (now + duration) := by
  unfold ReturnsLater plus
  split_ifs with hholds
  · constructor
    · rintro ⟨run, hrun, hlater⟩
      have hlt := hlater (now + duration) (Except.ok.inj hrun).symm
      exact ⟨by omega, hholds⟩
    · rintro ⟨hpos, -⟩
      refine ⟨_, rfl, fun t ht => ?_⟩
      rw [← Option.some.inj ht]
      omega
  · constructor
    · rintro ⟨run, hrun, -⟩
      cases hrun
    · rintro ⟨-, h⟩
      exact absurd h hholds

theorem named_pos {trimmed : List Char} {delay : ℤ} (h : named trimmed = some delay) :
    0 < delay := by
  unfold named at h
  split_ifs at h
  all_goals
    obtain rfl := Option.some.inj h
    decide

/-- A time that is aimed at comes again after the reading of the clock. -/
theorem lt_aim {minF hourF : List Char} {t : ℤ} (h : (aim now minF hourF).1 = some t) :
    now < t + (aim now minF hourF).2 := by
  have hms : ∀ {date : ℤ} {h m : ℕ}, andHmsOpt date h m = some t →
      t = date * day + h * hour + m * minute := by
    intro date h m ht
    unfold andHmsOpt at ht
    split_ifs at ht
    exact (Option.some.inj ht).symm
  have hnow := Int.mul_ediv_add_emod now day
  have hlast := Int.emod_lt_of_pos now (by decide : (0 : ℤ) < day)
  have hzero := Int.emod_nonneg now (by decide : day ≠ 0)
  unfold aim at h ⊢
  cases hhour : target hourF with
  | some hr =>
    have hfrom : ∀ m : ℕ, now < now / day * day + hr.toNat * hour + m * minute + day := by
      intro m
      unfold day hour minute second at *
      omega
    cases hminute : target minF with
    | some m =>
      rw [hhour, hminute] at h
      rw [hms h]
      exact hfrom _
    | none =>
      rw [hhour, hminute] at h
      rw [hms h]
      exact hfrom _
  | none =>
    cases hminute : target minF with
    | some m =>
      rw [hhour, hminute] at h
      rw [hms h]
      dsimp only
      have hnat : 0 ≤ now % day / hour := Int.ediv_nonneg hzero (by decide)
      rw [Int.toNat_of_nonneg hnat]
      unfold day hour minute second at *
      omega
    | none =>
      rw [hhour, hminute] at h
      rw [← Option.some.inj h]
      dsimp only
      unfold minute second
      omega

theorem nextOrAfter_returnsLater_iff {aimed : Option ℤ} {later : ℤ}
    (h : ∀ t, aimed = some t → now < t + later) :
    ReturnsLater now (nextOrAfter now aimed later) ↔
      ∀ t, aimed = some t → now < t ∨ Holds (t + later) := by
  unfold nextOrAfter
  cases aimed with
  | none => exact iff_of_true ⟨none, rfl, fun t ht => by cases ht⟩ fun t ht => by cases ht
  | some t =>
    dsimp only
    have hlater := h t rfl
    have hcond : (∀ s, some t = some s → now < s ∨ Holds (s + later)) ↔
        now < t ∨ Holds (t + later) :=
      ⟨fun hall => hall t rfl, fun hone s hs => Option.some.inj hs ▸ hone⟩
    rw [hcond]
    split_ifs with hnow
    · exact iff_of_true ⟨_, rfl, fun s hs => Option.some.inj hs ▸ hnow⟩ (Or.inl hnow)
    · rw [or_iff_right hnow]
      unfold ReturnsLater plus
      split_ifs with hholds
      · exact iff_of_true ⟨_, rfl, fun s hs => Option.some.inj hs ▸ hlater⟩ hholds
      · refine iff_of_false ?_ hholds
        rintro ⟨run, hrun, -⟩
        cases hrun

/-- Text can be cut before its last byte where that is a letter of its own. -/
theorem splitAtByte?_last (numStr : List Char) (unit : Char) :
    splitAtByte? (byteLength (numStr ++ [unit]) - 1) (numStr ++ [unit]) =
      if unit.utf8Size = 1 then some (numStr, [unit]) else none := by
  have hlength : byteLength (numStr ++ [unit]) = byteLength numStr + unit.utf8Size := by
    rw [byteLength_append]
    simp [byteLength]
  rw [hlength]
  by_cases hone : unit.utf8Size = 1
  · rw [if_pos hone, hone, Nat.add_sub_cancel]
    exact splitAtByte?_append numStr [unit]
  · rw [if_neg hone]
    have hpos := unit.utf8Size_pos
    induction numStr with
    | nil =>
      have hbytes : byteLength ([] : List Char) = 0 := rfl
      obtain ⟨n, hn⟩ : ∃ n, unit.utf8Size = n + 2 := ⟨unit.utf8Size - 2, by omega⟩
      rw [hbytes, hn, List.nil_append, Nat.zero_add, Nat.add_sub_assoc (by omega), splitAtByte?,
        if_neg (by omega)]
    | cons c numStr ih =>
      have hcons : byteLength (c :: numStr) = c.utf8Size + byteLength numStr := by simp [byteLength]
      have hc := c.utf8Size_pos
      obtain ⟨n, hn⟩ : ∃ n, byteLength (c :: numStr) + unit.utf8Size - 1 = n + 1 :=
        ⟨byteLength (c :: numStr) + unit.utf8Size - 2, by omega⟩
      have hrest : n + 1 - c.utf8Size = byteLength numStr + unit.utf8Size - 1 := by omega
      rw [hn, List.cons_append, splitAtByte?, if_pos (by omega), hrest, ih (by
        rw [byteLength_append]
        simp [byteLength])]
      rfl

theorem every_eq_of_unit {numStr : List Char} {unit : Char} (hone : unit.utf8Size = 1) :
    every now (numStr ++ [unit]) =
      match unitLength unit with
      | some length => plus now (((Sql.parseI64 numStr).getD 1).toInt * length)
      | none => .ok none := by
  unfold every unitLength
  rw [splitAtByte?_last, if_pos hone]
  simp only [List.cons.injEq, and_true]
  split_ifs <;> rfl

theorem unitLength_pos {unit : Char} {length : ℤ} (h : unitLength unit = some length) :
    0 < length := by
  unfold unitLength at h
  split_ifs at h
  all_goals
    obtain rfl := Option.some.inj h
    decide

theorem every_returnsLater_iff : ReturnsLater now (every now rest) ↔ IntervalFits now rest := by
  rcases List.eq_nil_or_concat rest with rfl | ⟨numStr, unit, rfl⟩
  · refine iff_of_true ⟨none, rfl, fun t ht => by cases ht⟩ fun numStr unit hnil => ?_
    exact absurd hnil.symm (by simp)
  · have hfits : IntervalFits now (numStr ++ [unit]) ↔ unit.utf8Size = 1 ∧
        ∀ length, unitLength unit = some length →
          0 < ((Sql.parseI64 numStr).getD 1).toInt ∧
            Holds (now + ((Sql.parseI64 numStr).getD 1).toInt * length) := by
      constructor
      · exact fun h => h numStr unit rfl
      · intro h numStr' unit' heq
        obtain ⟨rfl, hunit⟩ := List.append_inj' heq rfl
        obtain rfl := (List.cons.inj hunit).1
        exact h
    rw [List.concat_eq_append, hfits]
    by_cases hone : unit.utf8Size = 1
    · rw [every_eq_of_unit hone, and_iff_right hone]
      cases hlength : unitLength unit with
      | none => exact iff_of_true ⟨none, rfl, fun t ht => by cases ht⟩ fun length h => by cases h
      | some length =>
        dsimp only
        have hpos : ∀ n : ℤ, 0 < n * length ↔ 0 < n := fun n =>
          mul_pos_iff_of_pos_right (unitLength_pos hlength)
        rw [plus_returnsLater_iff, hpos]
        constructor
        · intro h length' hlength'
          rwa [← Option.some.inj hlength']
        · exact fun h => h length rfl
    · refine iff_of_false ?_ fun h => hone h.1
      rintro ⟨run, hrun, -⟩
      unfold every at hrun
      rw [splitAtByte?_last, if_neg hone] at hrun
      cases hrun

end Spec

/-- A call of `next_cron_run` returns, and with a time later than the last reading of the clock if
with one at all, exactly when its interval fits and the time can be held. -/
theorem returnsLater_iff (now fieldsNow : ℤ) (cron : List Char) :
    ReturnsLater (lastReading now fieldsNow cron) (nextCronRun now fieldsNow cron) ↔
      Fits now fieldsNow cron := by
  rw [nextCronRun_eq]
  unfold lastReading Fits
  split_ifs with hevery
  · exact every_returnsLater_iff
  · cases hnamed : named (trim cron) with
    | some delay => exact plus_returnsLater_iff.trans (and_iff_right (named_pos hnamed))
    | none =>
      cases htime : timeFields (trim cron) with
      | some fields => exact nextOrAfter_returnsLater_iff fun t => lt_aim
      | none => exact plus_returnsLater_iff.trans (and_iff_right (by decide))

/-- An interval of nothing is due at once, and one of ten thousand million days panics. -/
theorem not_returnsLater_every :
    ¬ ReturnsLater (lastReading fridayMorning fridayMorning "every 0m".toList)
        (nextCronRun fridayMorning fridayMorning "every 0m".toList) ∧
      nextCronRun fridayMorning fridayMorning "every 9999999999d".toList = .error .panic := by
  have hzero : nextCronRun fridayMorning fridayMorning "every 0m".toList =
      .ok (some fridayMorning) := by decide +kernel
  refine ⟨?_, by decide +kernel⟩
  rintro ⟨run, hrun, hlater⟩
  have hread : lastReading fridayMorning fridayMorning "every 0m".toList = fridayMorning := by
    decide +kernel
  rw [hzero] at hrun
  have hlt := hlater fridayMorning (Except.ok.inj hrun).symm
  rw [hread] at hlt
  exact lt_irrefl _ hlt

end RustLake.NextRun
