import RustLake.Order.Periods
import RustLake.Scheduler.Cron
import RustLake.Sql.AsOf
import RustLake.Text.Separator

/-! When a job runs next, as the scheduler reads its cron expression, and how often that is the next
minute that the expression allows. A time is a number of nanoseconds since the beginning of 1970. -/
namespace RustLake.NextRun
open Text Cron

def second : ℤ := 1000000000
def minute : ℤ := 60 * second
def hour : ℤ := 60 * minute
def day : ℤ := 24 * hour

/-- The times that a `DateTime<Utc>` can hold. -/
def Holds (t : ℤ) : Prop := -8334601228800 * second ≤ t ∧ t < 8210266876800 * second

instance (t : ℤ) : Decidable (Holds t) := inferInstanceAs (Decidable (_ ∧ _))

/-- `t + duration`, which panics when the sum cannot be held. -/
def plus (t duration : ℤ) : Except Failure (Option ℤ) :=
  if Holds (t + duration) then .ok (some (t + duration)) else .error .panic

/-- `str::parse::<u32>`. -/
def parseU32 (s : List Char) : Option UInt32 :=
  match s with
  | '+' :: ds => (parseDigits ds).bind fun n => if n < 2 ^ 32 then some (UInt32.ofNat n) else none
  | ds => (parseDigits ds).bind fun n => if n < 2 ^ 32 then some (UInt32.ofNat n) else none

/-- `str::split_once`, without what follows. -/
def beforeFirst? (sep : Char) (s : List Char) : Option (List Char) :=
  if sep ∈ s then some (s.takeWhile (· ≠ sep)) else none

/-- The first number of a field. -/
def parseCronValue (field : List Char) : Option UInt32 :=
  if field = ['?'] then none
  else
    match parseU32 field with
    | some v => some v
    | none =>
      match beforeFirst? '-' field with
      | some first => parseU32 first
      | none => (beforeFirst? ',' field).bind parseU32

/-- `NaiveDate::and_hms_opt` of a day, with no seconds. -/
def andHmsOpt (date : ℤ) (h m : ℕ) : Option ℤ :=
  if h < 24 ∧ m < 60 then some (date * day + h * hour + m * minute) else none

def target (field : List Char) : Option UInt32 :=
  if field = ['*'] then none else parseCronValue field

/-- A time that is still to come, or else the same some while later. -/
def nextOrAfter (now : ℤ) (t : Option ℤ) (later : ℤ) : Except Failure (Option ℤ) :=
  match t with
  | none => .ok none
  | some t => if now < t then .ok (some t) else plus t later

def parseCronFields (now : ℤ) (minF hourF _domF _monthF _dowF : List Char) :
    Except Failure (Option ℤ) :=
  match target hourF, target minF with
  | some h, some m => nextOrAfter now (andHmsOpt (now / day) h.toNat m.toNat) day
  | some h, none => nextOrAfter now (andHmsOpt (now / day) h.toNat 0) day
  | none, some m =>
    nextOrAfter now (andHmsOpt (now / day) (now % day / hour).toNat m.toNat) hour
  | none, none => plus now minute

/-- `every 5m` and the like; the last byte is the unit. -/
def every (now : ℤ) (rest : List Char) : Except Failure (Option ℤ) :=
  match splitAtByte? (byteLength rest - 1) rest with
  | none => .error .panic
  | some (numStr, unit) =>
    let num := ((Sql.parseI64 numStr).getD 1).toInt
    if unit = ['s'] then plus now (num * second)
    else if unit = ['m'] then plus now (num * minute)
    else if unit = ['h'] then plus now (num * hour)
    else if unit = ['d'] then plus now (num * day)
    else .ok none

/-- The clock is read once more for the fields. -/
def nextCronRun (now fieldsNow : ℤ) (cron : List Char) : Except Failure (Option ℤ) :=
  let trimmed := trim cron
  if "every ".toList <+: trimmed then every now (trim (trimmed.drop 6))
  else if trimmed = "@hourly".toList then plus now hour
  else if trimmed = "@daily".toList ∨ trimmed = "@midnight".toList then plus now day
  else if trimmed = "@weekly".toList then plus now (7 * day)
  else if trimmed = "@monthly".toList then plus now (30 * day)
  else if trimmed = "@yearly".toList ∨ trimmed = "@annually".toList then plus now (365 * day)
  else
    match splitWhitespace trimmed with
    | [minF, hourF, domF, monthF, dowF] => parseCronFields fieldsNow minF hourF domF monthF dowF
    | [_, minF, hourF, domF, monthF, dowF] => parseCronFields fieldsNow minF hourF domF monthF dowF
    | [_, minF, hourF, domF, monthF, dowF, _] =>
      parseCronFields fieldsNow minF hourF domF monthF dowF
    | _ => plus now hour

/-- A text spells an expression: its words are the fields. -/
def Spells (cron : List Char) (e : Expression) : Prop := splitWhitespace cron = e.fields

/-- The next run is the earliest minute after the current time that matches all five fields. -/
def RunsNext (e : Expression) (now : ℤ) (next : Except Failure (Option ℤ)) : Prop :=
  ∃ m, next = .ok (some (m * minute)) ∧ IsLeast {m | now < m * minute ∧ e.Matches m} m

/-- The next time at an offset is in turn, and chrono can hold it. -/
def OnTime (length : ℤ) (allowed offsets : ℤ → Prop) (first now : ℤ) : Prop :=
  Periods.InTurn length allowed offsets first (now / minute) ∧
    (now / minute % length < first ∨ Holds (Periods.next length first (now / minute) * minute))

/-- When the next run is right, by the first numbers of the first two fields. With a number for
the hour, that hour and minute of the day have to be in turn among those of the allowed days; with
one for the minute alone, it has to be in turn among the minutes of the allowed hours; and with
none, the clock has to be at a full minute and the next one allowed. -/
def Punctual (e : Expression) (now : ℤ) : Prop :=
  match target e.hour.text, target e.minute.text with
  | some h, some m => OnTime 1440 e.AllowsDay e.HasTime (60 * h.toNat + m.toNat) now
  | some h, none => e.minute.Has 0 ∧ OnTime 1440 e.AllowsDay e.HasTime (60 * h.toNat) now
  | none, some m => OnTime 60 e.AllowsHour e.minute.Has m.toNat now
  | none, none => now % minute = 0 ∧ e.Matches (now / minute + 1) ∧ Holds (now + minute)

section Fields
variable {b : Bounds} {field : List Char} {v : UInt32}

theorem parseU32_eq_some (h : parseU32 field = some v) :
    ∃ ds, (field = '+' :: ds ∨ field = ds) ∧ parseDigits ds = some v.toNat := by
  have hread : ∀ ds, ((parseDigits ds).bind fun n => if n < 2 ^ 32 then some (UInt32.ofNat n) else none) =
      some v → parseDigits ds = some v.toNat := by
    intro ds hds
    obtain ⟨n, hn, hv⟩ := Option.bind_eq_some_iff.mp hds
    split_ifs at hv with hlt
    rw [hn, ← Option.some.inj hv, UInt32.toNat_ofNat_of_lt' hlt]
  unfold parseU32 at h
  split at h
  · exact ⟨_, Or.inl rfl, hread _ h⟩
  · exact ⟨_, Or.inr rfl, hread _ h⟩

theorem beforeFirst?_eq_some {sep : Char} {first : List Char}
    (h : beforeFirst? sep field = some first) :
    ∃ rest, field = first ++ rest ∧ ∀ c ∈ rest.head?, c = sep := by
  unfold beforeFirst? at h
  split_ifs at h with hmem
  obtain ⟨rest, hfield, -, hrest⟩ := takeWhile_eq_iff.mp (Option.some.inj h)
  exact ⟨rest, hfield, fun c hc => by simpa using hrest c hc⟩

/-- A number is read from the beginning of the field, up to a sign that is no digit. -/
theorem parseCronValue_eq_some (h : parseCronValue field = some v) :
    ∃ first rest, field = first ++ rest ∧ (∀ c ∈ rest.head?, c.isDigit = false) ∧
      parseU32 first = some v := by
  have hsep : ∀ {sep first}, beforeFirst? sep field = some first → sep.isDigit = false →
      parseU32 first = some v → ∃ first rest, field = first ++ rest ∧
        (∀ c ∈ rest.head?, c.isDigit = false) ∧ parseU32 first = some v := by
    intro sep first hfirst hdigit hv
    obtain ⟨rest, hfield, hrest⟩ := beforeFirst?_eq_some hfirst
    exact ⟨first, rest, hfield, fun c hc => hrest c hc ▸ hdigit, hv⟩
  unfold parseCronValue at h
  split_ifs at h with hany
  split at h
  · rename_i w hw
    obtain rfl := Option.some.inj h
    exact ⟨field, [], (List.append_nil _).symm, fun c hc => (by cases hc), hw⟩
  · split at h
    · rename_i first hfirst
      exact hsep hfirst (by decide) h
    · obtain ⟨first, hfirst, hv⟩ := Option.bind_eq_some_iff.mp h
      exact hsep hfirst (by decide) hv

theorem digits_of_parseDigits {ds : List Char} {n : ℕ} (h : parseDigits ds = some n) :
    ds ≠ [] ∧ ∀ c ∈ ds, c.isDigit = true := by
  unfold parseDigits at h
  split_ifs at h with hds
  exact ⟨hds.1, List.all_eq_true.mp hds.2⟩

theorem parseDigits_value (hb : b.names = []) (value : Value b) :
    parseDigits value.text = some value.number ∧ b.low ≤ value.number ∧ value.number ≤ b.high := by
  have hreads := value.reads
  unfold Bounds.read at hreads
  rw [hb] at hreads
  split at hreads
  · rename_i n hn
    split_ifs at hreads with hbounds
    obtain rfl := Option.some.inj hreads
    exact ⟨hn, hbounds⟩
  · cases hreads

/-- After the first range of a field comes a slash or a comma, if anything. -/
theorem text_eq_range_append (f : Field b) :
    ∃ tail, f.text = f.first.range.text ++ tail ∧ ∀ c ∈ tail.head?, c.isDigit = false := by
  have hothers : ∀ c ∈ (f.others.flatMap (',' :: ·.text)).head?, c.isDigit = false := by
    intro c hc
    cases hcase : f.others with
    | nil =>
      rw [hcase] at hc
      cases hc
    | cons i others =>
      rw [hcase] at hc
      obtain rfl : ',' = c := Option.some.inj hc
      decide
  unfold Field.text Item.text
  cases hstep : f.first.step with
  | none => exact ⟨_, rfl, hothers⟩
  | some step =>
    refine ⟨'/' :: step.text ++ f.others.flatMap (',' :: ·.text), ?_, ?_⟩
    · exact List.append_assoc _ _ _
    · intro c hc
      obtain rfl : '/' = c := Option.some.inj hc
      decide

theorem has_low {i : Item b} (h : i.low ≤ i.high) : i.Has i.low := by
  have hhigh : (i.low : ℤ) ≤ i.high := by exact_mod_cast h
  exact ⟨le_rfl, hhigh, by rw [sub_self, Int.zero_emod]⟩

/-- What the text of a field begins with: a star, or the digits of a number that the field has. -/
theorem text_cases (hb : b.names = []) (f : Field b) :
    (∃ tail, f.text = '*' :: tail) ∨
      ∃ digits tail n, f.text = digits ++ tail ∧ (∀ c ∈ tail.head?, c.isDigit = false) ∧
        parseDigits digits = some n ∧ f.Has n := by
  obtain ⟨tail, htext, htail⟩ := text_eq_range_append f
  have hfirst : f.first.low ≤ f.first.high → f.Has f.first.low := fun h =>
    ⟨f.first, List.mem_cons_self, has_low h⟩
  unfold Item.low Item.high at hfirst
  cases hrange : f.first.range with
  | all =>
    rw [hrange] at htext
    exact Or.inl ⟨tail, htext⟩
  | only value =>
    rw [hrange] at htext hfirst
    obtain ⟨hdigits, -, hhigh⟩ := parseDigits_value hb value
    refine Or.inr ⟨value.text, tail, value.number, htext, htail, hdigits, hfirst ?_⟩
    dsimp only
    split_ifs
    · exact hhigh
    · exact le_rfl
  | between first last ordered =>
    rw [hrange] at htext hfirst
    obtain ⟨hdigits, -, -⟩ := parseDigits_value hb first
    refine Or.inr ⟨first.text, '-' :: last.text ++ tail, first.number, ?_, ?_, hdigits, hfirst ordered⟩
    · rw [htext, Range.text, List.append_assoc]
    · intro c hc
      obtain rfl : '-' = c := Option.some.inj hc
      decide

/-- The number that the code takes from a field of numbers is one of them. -/
theorem has_of_target (hb : b.names = []) {f : Field b} (h : target f.text = some v) :
    f.Has v.toNat := by
  unfold target at h
  split_ifs at h with hstar
  obtain ⟨first, rest, hsplit, hrest, hparse⟩ := parseCronValue_eq_some h
  obtain ⟨ds, hfirst, hds⟩ := parseU32_eq_some hparse
  obtain ⟨hne, hdigits⟩ := digits_of_parseDigits hds
  have hword : ∀ {word tail}, f.text = word ++ tail → (∀ c ∈ word, c.isDigit = true) →
      (∀ c ∈ tail.head?, c.isDigit = false) → f.text.takeWhile Char.isDigit = word :=
    fun htext hword htail => takeWhile_eq_iff.mpr ⟨_, htext, hword, htail⟩
  rcases hfirst with rfl | rfl
  · -- a field does not begin with a plus sign
    rcases text_cases hb f with ⟨tail, htext⟩ | ⟨digits, tail, n, htext, -, hn, -⟩
    · cases hsplit.symm.trans htext
    · obtain ⟨hne', hdigits'⟩ := digits_of_parseDigits hn
      obtain ⟨c, digits, rfl⟩ := List.exists_cons_of_ne_nil hne'
      have hplus : '+' = c := (List.cons.inj (hsplit.symm.trans htext)).1
      have hdigit := hdigits' c List.mem_cons_self
      rw [← hplus] at hdigit
      cases hdigit
  · have hread := hword hsplit hdigits hrest
    rcases text_cases hb f with ⟨tail, htext⟩ | ⟨digits, tail, n, htext, htail, hn, hhas⟩
    · rw [htext] at hread
      exact absurd hread.symm hne
    · have hsame := hword htext (digits_of_parseDigits hn).2 htail
      obtain rfl : first = digits := hread.symm.trans hsame
      rwa [Option.some.inj (hds.symm.trans hn)]

/-- A number that a field has is within its bounds. -/
theorem bounds_of_has (hb : b.names = []) {f : Field b} {n : ℤ} (h : f.Has n) :
    b.low ≤ n ∧ n ≤ b.high := by
  obtain ⟨i, -, hlow, hhigh, -⟩ := h
  have hbounds : b.low ≤ i.low ∧ i.high ≤ b.high := by
    unfold Item.low Item.high
    cases i.range with
    | all => exact ⟨le_rfl, le_rfl⟩
    | only value =>
      obtain ⟨-, hvalue⟩ := parseDigits_value hb value
      dsimp only
      split_ifs
      · exact ⟨hvalue.1, le_rfl⟩
      · exact hvalue
    | between first last _ =>
      exact ⟨(parseDigits_value hb first).2.1, (parseDigits_value hb last).2.2⟩
  omega

end Fields

section Words

/-- White space at the ends makes no words. -/
theorem splitWhitespace_trim (s : List Char) : splitWhitespace (trim s) = splitWhitespace s := by
  have hstart : ∀ s, splitWhitespace (trimStart s) = splitWhitespace s := by
    intro s
    induction s with
    | nil => rfl
    | cons c s ih =>
      unfold trimStart at ih ⊢
      by_cases hc : isWhitespace c
      · rw [List.dropWhile_cons_of_pos hc, ih]
        have hsplit := List.splitOnP_append_cons [] s hc
        unfold splitWhitespace
        rw [List.nil_append] at hsplit
        rw [hsplit]
        rfl
      · rw [List.dropWhile_cons_of_neg hc]
  have hend : ∀ s, splitWhitespace (trimEnd s) = splitWhitespace s := by
    intro s
    induction s using List.reverseRecOn with
    | nil => rfl
    | append_singleton s c ih =>
      unfold trimEnd at ih ⊢
      by_cases hc : isWhitespace c
      · rw [List.rdropWhile_concat_pos _ _ _ hc, ih]
        unfold splitWhitespace
        rw [List.splitOnP_append_cons s [] hc, List.filter_append]
        exact (List.append_nil _).symm
      · rw [List.rdropWhile_concat_neg _ _ _ hc]
  rw [trim, hend, hstart]

theorem splitWhitespace_word_append {word rest : List Char} (hword : ∀ c ∈ word, isWhitespace c = false)
    (hne : word ≠ []) : splitWhitespace (word ++ ' ' :: rest) = word :: splitWhitespace rest := by
  have hspace : isWhitespace ' ' = true := by decide
  unfold splitWhitespace
  rw [List.splitOnP_append_cons word rest hspace, List.splitOnP_eq_singleton hword,
    List.singleton_append, List.filter_cons_of_pos (by simpa using hne)]

/-- The fields of an expression are read as such. -/
theorem nextCronRun_fields {cron : List Char} {e : Expression} (h : Spells cron e) (now fieldsNow : ℤ) :
    nextCronRun now fieldsNow cron = parseCronFields fieldsNow e.minute.text e.hour.text
      e.dayOfMonth.text e.month.text e.dayOfWeek.text := by
  have hwords : splitWhitespace (trim cron) = e.fields := (splitWhitespace_trim cron).trans h
  have hspecial : ∀ text : String, (splitWhitespace text.toList).length = 1 →
      trim cron ≠ text.toList := by
    intro text hone htext
    rw [← htext, hwords] at hone
    cases hone
  have hevery : ¬ "every ".toList <+: trim cron := by
    rintro ⟨rest, hrest⟩
    have hletters : ("every".toList.all fun c => !isWhitespace c) = true := by decide
    have hword : ∀ c ∈ "every".toList, isWhitespace c = false := fun c hc => by
      simpa using List.all_eq_true.mp hletters c hc
    have hfirst : splitWhitespace ("every".toList ++ ' ' :: rest) =
        "every".toList :: splitWhitespace rest := splitWhitespace_word_append hword (by decide)
    have hsame : e.minute.text = "every".toList := by
      rw [← hrest] at hwords
      exact (List.cons.inj (hwords.symm.trans hfirst)).1
    rcases text_cases rfl e.minute with ⟨tail, htext⟩ | ⟨digits, tail, n, htext, -, hn, -⟩
    · cases hsame.symm.trans htext
    · obtain ⟨hne, hdigits⟩ := digits_of_parseDigits hn
      obtain ⟨c, digits, rfl⟩ := List.exists_cons_of_ne_nil hne
      obtain rfl : 'e' = c := (List.cons.inj (hsame.symm.trans htext)).1
      cases hdigits 'e' List.mem_cons_self
  unfold nextCronRun
  dsimp only
  rw [if_neg hevery, if_neg (hspecial _ (by decide)),
    if_neg (not_or.mpr ⟨hspecial _ (by decide), hspecial _ (by decide)⟩),
    if_neg (hspecial _ (by decide)), if_neg (hspecial _ (by decide)),
    if_neg (not_or.mpr ⟨hspecial _ (by decide), hspecial _ (by decide)⟩), hwords]
  rfl

end Words

section Times
variable {e : Expression} {now length first : ℤ} {allowed offsets : ℤ → Prop}

theorem lt_mul_minute_iff {m : ℤ} : now < m * minute ↔ now / minute < m :=
  (Int.ediv_lt_iff_lt_mul (by decide : 0 < minute)).symm

theorem nextOrAfter_eq :
    nextOrAfter now (some ((now / minute / length * length + first) * minute)) (length * minute) =
      if now / minute % length < first ∨ Holds (Periods.next length first (now / minute) * minute) then
        .ok (some (Periods.next length first (now / minute) * minute))
      else .error .panic := by
  have hsplit := Int.mul_ediv_add_emod (now / minute) length
  have hcomm := mul_comm length (now / minute / length)
  have hlater : now < (now / minute / length * length + first) * minute ↔
      now / minute % length < first := lt_mul_minute_iff.trans (by omega)
  unfold nextOrAfter Periods.next plus
  dsimp only
  by_cases h : now / minute % length < first
  · rw [if_pos (hlater.mpr h), if_pos (Or.inl h), if_pos h]
  · have hsum : (now / minute / length * length + first) * minute + length * minute =
        ((now / minute / length + 1) * length + first) * minute := by ring
    rw [if_neg (mt hlater.mp h), if_neg h, hsum]
    simp only [h, false_or]

/-- What the code takes for the next time at an offset is the next run exactly when the offset is
an allowed one and on time. -/
theorem runsNext_nextOrAfter_iff (hmatches : ∀ m, e.Matches m ↔ Periods.Hits length allowed offsets m)
    (hoffsets : ∀ t, offsets t → 0 ≤ t ∧ t < length) (hfirst : 0 ≤ first) (hlt : first < length) :
    RunsNext e now (nextOrAfter now (some ((now / minute / length * length + first) * minute))
      (length * minute)) ↔ offsets first ∧ OnTime length allowed offsets first now := by
  have hset : {m | now < m * minute ∧ e.Matches m} =
      {m | now / minute < m ∧ Periods.Hits length allowed offsets m} := by
    ext m
    exact and_congr lt_mul_minute_iff (hmatches m)
  have hinj : ∀ {m m' : ℤ}, m * minute = m' * minute → m = m' := fun h =>
    Int.eq_of_mul_eq_mul_right (by decide) h
  unfold RunsNext OnTime
  rw [nextOrAfter_eq, hset, ← and_assoc, ← Periods.isLeast_next_iff hoffsets hfirst hlt]
  split_ifs with h
  · rw [and_iff_left h]
    constructor
    · rintro ⟨m, hm, hleast⟩
      rwa [hinj (Option.some.inj (Except.ok.inj hm))]
    · exact fun hleast => ⟨_, rfl, hleast⟩
  · rw [iff_false_right fun hand => h hand.2]
    rintro ⟨m, hm, -⟩
    cases hm

/-- The minutes that match, by the day and the minute of the day. -/
theorem matches_iff_day (m : ℤ) : e.Matches m ↔ Periods.Hits 1440 e.AllowsDay e.HasTime m := by
  have hhour : m % 1440 / 60 = m / 60 % 24 := by omega
  have hminute : m % 1440 % 60 = m % 60 := by omega
  unfold Expression.Matches Periods.Hits Expression.HasTime
  rw [hhour, hminute]
  tauto

/-- The minutes that match, by the hour and the minute of the hour. -/
theorem matches_iff_hour (m : ℤ) : e.Matches m ↔ Periods.Hits 60 e.AllowsHour e.minute.Has m := by
  have hday : m / 60 / 24 = m / 1440 := by omega
  unfold Expression.Matches Periods.Hits Expression.AllowsHour
  rw [hday]
  tauto

theorem hasTime_bounds {t : ℤ} (h : e.HasTime t) : 0 ≤ t ∧ t < 1440 := by
  have hhour : 0 ≤ t / 60 ∧ t / 60 ≤ 23 := bounds_of_has rfl h.1
  omega

theorem hasMinute_bounds {t : ℤ} (h : e.minute.Has t) : 0 ≤ t ∧ t < 60 := by
  have hminute : 0 ≤ t ∧ t ≤ 59 := bounds_of_has rfl h
  omega

/-- The time of the day that the code aims at. -/
theorem andHmsOpt_day {h m : ℕ} (hh : e.hour.Has h) (hm : m < 60) :
    andHmsOpt (now / day) h m =
      some ((now / minute / 1440 * 1440 + (60 * h + m)) * minute) := by
  have hhour : (0 : ℤ) ≤ h ∧ (h : ℤ) ≤ 23 := bounds_of_has rfl hh
  have hday : now / day = now / minute / 1440 := by
    unfold day hour minute second
    omega
  have hsum : now / day * day + h * hour + m * minute =
      (now / minute / 1440 * 1440 + (60 * h + m)) * minute := by
    rw [hday]
    unfold day hour
    ring
  unfold andHmsOpt
  rw [if_pos ⟨by omega, hm⟩, hsum]

/-- The time of the hour that the code aims at. -/
theorem andHmsOpt_hour {m : ℕ} (hm : e.minute.Has m) :
    andHmsOpt (now / day) (now % day / hour).toNat m =
      some ((now / minute / 60 * 60 + m) * minute) := by
  obtain ⟨-, hminute⟩ := hasMinute_bounds hm
  have hhour : 0 ≤ now % day / hour ∧ now % day / hour < 24 ∧
      now / day * 24 + now % day / hour = now / minute / 60 := by
    unfold day hour minute second
    omega
  obtain ⟨h0, h1, hhours⟩ := hhour
  have hsum : now / day * day + (now % day / hour).toNat * hour + m * minute =
      (now / minute / 60 * 60 + m) * minute := by
    rw [← hhours, Int.toNat_of_nonneg h0]
    unfold day hour
    ring
  unfold andHmsOpt
  rw [if_pos ⟨by omega, by omega⟩, hsum]

theorem runsNext_day_iff {h m : ℕ} (hh : e.hour.Has h) (hm : m < 60) :
    RunsNext e now (nextOrAfter now (andHmsOpt (now / day) h m) day) ↔
      e.minute.Has m ∧ OnTime 1440 e.AllowsDay e.HasTime (60 * h + m) now := by
  have hhour : (0 : ℤ) ≤ h ∧ (h : ℤ) ≤ 23 := bounds_of_has rfl hh
  have hdiv : (60 * h + m : ℤ) / 60 = h := by omega
  have hmod : (60 * h + m : ℤ) % 60 = m := by omega
  have htime : e.HasTime (60 * h + m) ↔ e.minute.Has m := by
    unfold Expression.HasTime
    rw [hdiv, hmod]
    exact and_iff_right hh
  have hlength : day = 1440 * minute := rfl
  rw [andHmsOpt_day hh hm, hlength, ← htime]
  exact runsNext_nextOrAfter_iff matches_iff_day (fun _ => hasTime_bounds) (by omega) (by omega)

theorem runsNext_hour_iff {m : ℕ} (hm : e.minute.Has m) :
    RunsNext e now (nextOrAfter now (andHmsOpt (now / day) (now % day / hour).toNat m) hour) ↔
      OnTime 60 e.AllowsHour e.minute.Has m now := by
  obtain ⟨h0, hlt⟩ := hasMinute_bounds hm
  have hlength : hour = 60 * minute := rfl
  rw [andHmsOpt_hour hm, hlength]
  exact (runsNext_nextOrAfter_iff matches_iff_hour (fun _ => hasMinute_bounds) h0 hlt).trans
    (and_iff_right hm)

theorem runsNext_minute_iff :
    RunsNext e now (plus now minute) ↔
      now % minute = 0 ∧ e.Matches (now / minute + 1) ∧ Holds (now + minute) := by
  unfold RunsNext plus
  split_ifs with hholds
  · constructor
    · rintro ⟨m, hm, ⟨-, hmatches⟩, -⟩
      have hsum : now + minute = m * minute := Option.some.inj (Except.ok.inj hm)
      have hnext : now % minute = 0 ∧ now / minute + 1 = m := by
        unfold minute second at hsum ⊢
        omega
      rw [hnext.2]
      exact ⟨hnext.1, hmatches, hholds⟩
    · rintro ⟨hfull, hmatches, -⟩
      have hsum : now + minute = (now / minute + 1) * minute := by
        unfold minute second at hfull ⊢
        omega
      refine ⟨now / minute + 1, by rw [hsum], ⟨?_, hmatches⟩, fun m hm => ?_⟩
      · exact lt_mul_minute_iff.mpr (by omega)
      · have hlater := lt_mul_minute_iff.mp hm.1
        omega
  · constructor
    · rintro ⟨m, hm, -⟩
      cases hm
    · rintro ⟨-, -, h⟩
      exact absurd h hholds

end Times

/-- The next run of a job is the earliest minute that its cron expression allows exactly when the
first numbers of the expression are in turn. -/
theorem runsNext_iff {cron : List Char} {e : Expression} (h : Spells cron e) (now fieldsNow : ℤ) :
    RunsNext e fieldsNow (nextCronRun now fieldsNow cron) ↔ Punctual e fieldsNow := by
  rw [nextCronRun_fields h]
  unfold parseCronFields Punctual
  cases hhour : target e.hour.text with
  | some h =>
    have hh : e.hour.Has h.toNat := has_of_target rfl hhour
    cases hminute : target e.minute.text with
    | some m =>
      have hm : e.minute.Has m.toNat := has_of_target rfl hminute
      obtain ⟨-, hlt⟩ := hasMinute_bounds hm
      exact (runsNext_day_iff hh (by omega)).trans (and_iff_right hm)
    | none =>
      have hiff : RunsNext e fieldsNow _ ↔ e.minute.Has 0 ∧ _ := runsNext_day_iff hh (by decide)
      rwa [Nat.cast_zero, add_zero] at hiff
  | none =>
    cases hminute : target e.minute.text with
    | some m => exact runsNext_hour_iff (has_of_target rfl hminute)
    | none => exact runsNext_minute_iff

/-- What runs once every day is always right. -/
theorem punctual_of_daily {e : Expression} {now : ℤ} {h m : UInt32}
    (hhour : target e.hour.text = some h) (hminute : target e.minute.text = some m)
    (hdays : ∀ d, e.AllowsDay d) (honce : ∀ t, e.HasTime t → t = 60 * h.toNat + m.toNat)
    (hnow : Holds now) (htomorrow : Holds (now + day)) : Punctual e now := by
  unfold Punctual
  rw [hhour, hminute]
  dsimp only
  have hfirst : (0 : ℤ) ≤ 60 * h.toNat + m.toNat := by omega
  generalize (60 * h.toNat + m.toNat : ℤ) = first at honce hfirst ⊢
  constructor
  · unfold Periods.InTurn
    split_ifs with hlater
    · exact ⟨hdays _, fun t ht _ => (honce t ht).ge⟩
    · refine ⟨hdays _, fun t ht => (honce t ht).ge, fun _ t ht => ?_⟩
      rw [honce t ht]
      exact not_lt.mp hlater
  · by_cases hlater : now / minute % 1440 < first
    · exact Or.inl hlater
    · right
      unfold Periods.next Holds at *
      rw [if_neg hlater]
      unfold day hour minute second at *
      omega

/-- Nine o'clock from Monday to Friday. -/
def weekdayMornings : Expression where
  minute := ⟨⟨.only ⟨['0'], 0, rfl⟩, none⟩, []⟩
  hour := ⟨⟨.only ⟨['9'], 9, rfl⟩, none⟩, []⟩
  dayOfMonth := ⟨⟨.all, none⟩, []⟩
  month := ⟨⟨.all, none⟩, []⟩
  dayOfWeek := ⟨⟨.between ⟨['1'], 1, rfl⟩ ⟨['5'], 5, rfl⟩ (by decide), none⟩, []⟩

/-- 17 July 2026, a Friday, at ten. -/
def fridayMorning : ℤ := 20651 * day + 10 * hour

theorem spells_weekdayMornings : Spells "0 9 * * 1-5".toList weekdayMornings := by
  unfold Spells
  decide

theorem runsNext_iff_weekdayMornings :
    RunsNext weekdayMornings fridayMorning
        (nextCronRun fridayMorning fridayMorning "0 9 * * 1-5".toList) ↔
      Punctual weekdayMornings fridayMorning :=
  runsNext_iff spells_weekdayMornings fridayMorning fridayMorning

/-- On a Friday at ten the next run of what runs from Monday to Friday is Saturday at nine. -/
theorem not_runsNext_saturday :
    ¬ RunsNext weekdayMornings fridayMorning
      (nextCronRun fridayMorning fridayMorning "0 9 * * 1-5".toList) := by
  rintro ⟨m, hm, ⟨-, hmatches⟩, -⟩
  have hsaturday : nextCronRun fridayMorning fridayMorning "0 9 * * 1-5".toList =
      .ok (some ((20652 * 1440 + 540) * minute)) := by decide +kernel
  have hsame : (20652 * 1440 + 540) * minute = m * minute :=
    Option.some.inj (Except.ok.inj (hsaturday.symm.trans hm))
  have hminute : 20652 * 1440 + 540 = m := Int.eq_of_mul_eq_mul_right (by decide) hsame
  rw [← hminute] at hmatches
  exact absurd hmatches (by decide +kernel)

end RustLake.NextRun
