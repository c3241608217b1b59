import RustLake.Iceberg.Resolve
import RustLake.Rust.Unicode

/-! Queries of a table as of a snapshot or a time: the clause is read and taken out of the text. -/
namespace RustLake.Sql
open RustLake.Iceberg RustLake.Text

/-- `chrono`: the milliseconds of a date and time in a format, and of a date at one second before
midnight. -/
structure Chrono where
  dateTime : String → List Char → Option Int64
  endOfDate : String → List Char → Option Int64

structure TimeTravelQuery where
  table : List Char
  snapshotRef : SnapshotRef
  rewrittenSql : List Char
deriving DecidableEq, Repr

/-- `str::parse::<i64>`. -/
def parseI64 (s : List Char) : Option Int64 :=
  match s with
  | '-' :: ds => (parseDigits ds).bind fun n => if n ≤ 2 ^ 63 then some (Int64.ofInt (-n)) else none
  | '+' :: ds => (parseDigits ds).bind fun n => if n < 2 ^ 63 then some (Int64.ofInt n) else none
  | ds => (parseDigits ds).bind fun n => if n < 2 ^ 63 then some (Int64.ofInt n) else none

def parseTimestamp (chrono : Chrono) (tsStr : List Char) : Option Int64 :=
  ((chrono.dateTime "%Y-%m-%d %H:%M:%S" tsStr).or
    (chrono.dateTime "%Y-%m-%dT%H:%M:%S" tsStr)).or (chrono.endOfDate "%Y-%m-%d" tsStr)

/-- What stands before and after a clause that begins at a position and whose words have a
length, and the last word before it; no table when there is none. The outer option is none where
slicing panics. -/
def aroundClause (sql : List Char) (pos words : ℕ) :
    Option (Option (List Char × List Char × List Char)) := do
  let (before, _) ← splitAtByte? pos sql
  let before := trimEnd before
  match (splitWhitespace before).getLast? with
  | none => return none
  | some table =>
    let (_, after) ← splitAtByte? (pos + words) sql
    return some (before, table, trimStart after)

/-- `VERSION AS OF <id>`, without what follows a bad id. -/
def versionClause (before table after : List Char) : Option TimeTravelQuery := do
  let snapshotIdStr ← (splitWhitespace after).head?
  let snapshotId ← parseI64 snapshotIdStr
  let rest := trimStart ((after.dropPrefix? snapshotIdStr).getD [])
  return ⟨table, .byId snapshotId, trim (before ++ ' ' :: rest)⟩

/-- The time of a `FOR SYSTEM_TIME AS OF` clause, in quotes or one word, and what follows it. -/
def timestampText (after : List Char) : Option (List Char × List Char) :=
  match after with
  | '\'' :: quoted => (afterFirst? '\'' quoted).map fun rest => (quoted.takeWhile (· ≠ '\''), rest)
  | _ => (splitWhitespace after).head?.map fun word => (word, after.drop word.length)

def systemTimeClause (chrono : Chrono) (before table after : List Char) :
    Option TimeTravelQuery := do
  let (tsStr, rest) ← timestampText after
  let timestampMs ← parseTimestamp chrono tsStr
  return ⟨table, .byTimestamp timestampMs, trim (before ++ ' ' :: trimStart rest)⟩

/-- None where slicing panics. -/
def parseTimeTravel (unicode : Unicode) (chrono : Chrono) (sql : List Char) :
    Option (Option TimeTravelQuery) :=
  let upper := unicode.upper.text sql
  match find "VERSION AS OF".toList upper with
  | some verPos => (aroundClause sql verPos 13).map fun found =>
    found.bind fun (before, table, after) => versionClause before table after
  | none => match find "FOR SYSTEM_TIME AS OF".toList upper with
    | some tsPos => (aroundClause sql tsPos 21).map fun found =>
      found.bind fun (before, table, after) => systemTimeClause chrono before table after
    | none => some none

end RustLake.Sql
