import RustLake.Text.Basic

/-! Cron expressions of five fields and the minutes that they allow. A minute, an hour and a day are
counted from the beginning of 1970, in UTC. -/
namespace RustLake.Cron
open Text

/-- The numbers that a field can hold, and the names that stand for some of them. -/
structure Bounds where
  low : ℕ
  high : ℕ
  names : List (List Char × ℕ)

namespace Bounds

def minute : Bounds := ⟨0, 59, []⟩
def hour : Bounds := ⟨0, 23, []⟩
def dayOfMonth : Bounds := ⟨1, 31, []⟩

def month : Bounds where
  low := 1
  high := 12
  names := ["jan", "feb", "mar", "apr", "may", "jun", "jul", "aug", "sep", "oct", "nov",
    "dec"].zipIdx.map fun name => (name.1.toList, name.2 + 1)

/-- Sunday is 0, and 7 as well. -/
def dayOfWeek : Bounds where
  low := 0
  high := 7
  names := ["sun", "mon", "tue", "wed", "thu", "fri", "sat"].zipIdx.map fun name =>
    (name.1.toList, name.2)

/-- The number that a text stands for: digits, or a name in letters of either case. -/
def read (b : Bounds) (text : List Char) : Option ℕ :=
  match parseDigits text with
  | some n => if b.low ≤ n ∧ n ≤ b.high then some n else none
  | none => b.names.lookup (text.map Char.toLower)

end Bounds

variable {b : Bounds}

/-- A number as it is written in a field. -/
structure Value (b : Bounds) where
  text : List Char
  number : ℕ
  reads : b.read text = some number

/-- The number after a slash. -/
structure Step where
  text : List Char
  number : ℕ
  reads : parseDigits text = some number
  pos : 0 < number

/-- All numbers, those from one on, or those between two. -/
inductive Range (b : Bounds) where
  | all
  | only (value : Value b)
  | between (first last : Value b) (ordered : first.number ≤ last.number)

/-- One part of a list. -/
structure Item (b : Bounds) where
  range : Range b
  step : Option Step

/-- A list of one part or more. -/
structure Field (b : Bounds) where
  first : Item b
  others : List (Item b)

def Range.text : Range b → List Char
  | .all => ['*']
  | .only value => value.text
  | .between first last _ => first.text ++ '-' :: last.text

def Item.text (i : Item b) : List Char :=
  match i.step with
  | none => i.range.text
  | some step => i.range.text ++ '/' :: step.text

def Field.text (f : Field b) : List Char := f.first.text ++ f.others.flatMap (',' :: ·.text)

def Item.low (i : Item b) : ℕ :=
  match i.range with
  | .all => b.low
  | .only value => value.number
  | .between first _ _ => first.number

/-- One number with a step stands for those from it on. -/
def Item.high (i : Item b) : ℕ :=
  match i.range with
  | .all => b.high
  | .only value => if i.step.isSome then b.high else value.number
  | .between _ last _ => last.number

def Item.stride (i : Item b) : ℕ :=
  match i.step with
  | none => 1
  | some step => step.number

def Item.Has (i : Item b) (n : ℤ) : Prop :=
  i.low ≤ n ∧ n ≤ i.high ∧ (n - i.low) % i.stride = 0

def Field.Has (f : Field b) (n : ℤ) : Prop := ∃ i ∈ f.first :: f.others, i.Has n

instance (i : Item b) (n : ℤ) : Decidable (i.Has n) :=
  inferInstanceAs (Decidable (_ ∧ _ ∧ _))

instance (f : Field b) (n : ℤ) : Decidable (f.Has n) :=
  inferInstanceAs (Decidable (∃ i ∈ f.first :: f.others, i.Has n))

structure Date where
  year : ℤ
  month : ℤ
  day : ℤ
deriving DecidableEq, Repr

/-- The date of a day of a year, where years begin on the first of March. -/
def Date.ofDayOfYear (year day : ℤ) : Date :=
  let mp := (5 * day + 2) / 153
  let month := if mp < 10 then mp + 3 else mp - 9
  { year := if month ≤ 2 then year + 1 else year
    month
    day := day - (153 * mp + 2) / 5 + 1 }

/-- The date of a day; eras are 400 years long. -/
def Date.ofDay (n : ℤ) : Date :=
  let era := (n + 719468) / 146097
  let doe := (n + 719468) % 146097
  let yoe := (doe - doe / 1460 + doe / 36524 - doe / 146096) / 365
  Date.ofDayOfYear (yoe + era * 400) (doe - (365 * yoe + yoe / 4 - yoe / 100))

/-- 0 is Sunday. -/
def weekday (n : ℤ) : ℤ := (n + 4) % 7

structure Expression where
  minute : Field .minute
  hour : Field .hour
  dayOfMonth : Field .dayOfMonth
  month : Field .month
  dayOfWeek : Field .dayOfWeek

namespace Expression

def fields (e : Expression) : List (List Char) :=
  [e.minute.text, e.hour.text, e.dayOfMonth.text, e.month.text, e.dayOfWeek.text]

def AllowsDay (e : Expression) (day : ℤ) : Prop :=
  e.dayOfMonth.Has (Date.ofDay day).day ∧ e.month.Has (Date.ofDay day).month ∧
    (e.dayOfWeek.Has (weekday day) ∨ weekday day = 0 ∧ e.dayOfWeek.Has 7)

/-- A minute matches all five fields. -/
def Matches (e : Expression) (m : ℤ) : Prop :=
  e.minute.Has (m % 60) ∧ e.hour.Has (m / 60 % 24) ∧ e.AllowsDay (m / 1440)

/-- An hour, counted like the minutes, that the fields but the first allow. -/
def AllowsHour (e : Expression) (h : ℤ) : Prop := e.hour.Has (h % 24) ∧ e.AllowsDay (h / 24)

/-- A minute of the day that the first two fields allow. -/
def HasTime (e : Expression) (t : ℤ) : Prop := e.hour.Has (t / 60) ∧ e.minute.Has (t % 60)

instance (e : Expression) (m : ℤ) : Decidable (e.Matches m) :=
  inferInstanceAs (Decidable (_ ∧ _ ∧ _ ∧ _ ∧ (_ ∨ _ ∧ _)))

end Expression

/-- The day of a date, from the lengths of months and years. -/
def Date.toDay (d : Date) : ℤ :=
  let y := if d.month ≤ 2 then d.year - 1 else d.year
  let mp := if d.month ≤ 2 then d.month + 9 else d.month - 3
  365 * y + y / 4 - y / 100 + y / 400 + (153 * mp + 2) / 5 + d.day - 1 - 719468

end RustLake.Cron
