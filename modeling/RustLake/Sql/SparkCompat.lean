import RustLake.Rust.Unicode

/-! Spark SQL that is translated before it is executed: functions under other names, and clauses
that are dropped or take another word. Positions found in the upper-cased text cut the text
itself; none stands for the panic where they do not fit. -/
namespace RustLake.Sql

structure TranslationResult where
  original : List Char
  translated : List Char
  wasTranslated : Bool
  translationsApplied : List String
deriving DecidableEq, Repr

def functionMap : List (String × String × String) :=
  [ -- Null handling
   ("NVL(", "COALESCE(", "NVL → COALESCE"),
   ("NVL2(", "CASE WHEN", "NVL2 → CASE WHEN (manual)"),
   ("IFNULL(", "COALESCE(", "IFNULL → COALESCE"),
   -- String functions
   ("INSTR(", "STRPOS(", "INSTR → STRPOS"),
   ("LOCATE(", "STRPOS(", "LOCATE → STRPOS"),
   ("LEN(", "LENGTH(", "LEN → LENGTH"),
   ("SUBSTR(", "SUBSTRING(", "SUBSTR → SUBSTRING"),
   ("LPAD(", "LPAD(", "LPAD (compatible)"),
   ("RPAD(", "RPAD(", "RPAD (compatible)"),
   ("INITCAP(", "INITCAP(", "INITCAP (compatible)"),
   ("FORMAT_STRING(", "FORMAT(", "FORMAT_STRING → FORMAT"),
   ("CONCAT_WS(", "CONCAT_WS(", "CONCAT_WS (compatible)"),
   -- Date and time functions
   ("DATEDIFF(", "DATE_DIFF('day', ", "DATEDIFF → DATE_DIFF"),
   ("DATE_ADD(", "DATE_ADD(", "DATE_ADD (compatible)"),
   ("DATE_SUB(", "DATE_SUB(", "DATE_SUB (compatible)"),
   ("ADD_MONTHS(", "DATE_ADD(", "ADD_MONTHS → DATE_ADD (months)"),
   ("MONTHS_BETWEEN(", "DATE_DIFF('month', ", "MONTHS_BETWEEN → DATE_DIFF"),
   ("TO_DATE(", "CAST(", "TO_DATE → CAST AS DATE"),
   ("TO_TIMESTAMP(", "CAST(", "TO_TIMESTAMP → CAST AS TIMESTAMP"),
   ("UNIX_TIMESTAMP(", "EXTRACT(EPOCH FROM ", "UNIX_TIMESTAMP → EXTRACT EPOCH"),
   ("FROM_UNIXTIME(", "TO_TIMESTAMP(", "FROM_UNIXTIME → TO_TIMESTAMP"),
   ("DATE_FORMAT(", "STRFTIME(", "DATE_FORMAT → STRFTIME"),
   ("CURRENT_DATE()", "CURRENT_DATE", "CURRENT_DATE() → CURRENT_DATE"),
   ("CURRENT_TIMESTAMP()", "NOW()", "CURRENT_TIMESTAMP() → NOW()"),
   -- Aggregate functions
   ("COLLECT_LIST(", "ARRAY_AGG(", "COLLECT_LIST → ARRAY_AGG"),
   ("COLLECT_SET(", "ARRAY_AGG(DISTINCT ", "COLLECT_SET → ARRAY_AGG(DISTINCT)"),
   ("SIZE(", "ARRAY_LENGTH(", "SIZE → ARRAY_LENGTH"),
   ("EXPLODE(", "UNNEST(", "EXPLODE → UNNEST"),
   -- Math
   ("RAND()", "RANDOM()", "RAND() → RANDOM()"),
   ("SHIFTLEFT(", "BIT_SHIFT_LEFT(", "SHIFTLEFT → BIT_SHIFT_LEFT"),
   ("SHIFTRIGHT(", "BIT_SHIFT_RIGHT(", "SHIFTRIGHT → BIT_SHIFT_RIGHT"),
   -- Type casting
   ("BOOLEAN(", "CAST(", "BOOLEAN() → CAST AS BOOLEAN"),
   ("INT(", "CAST(", "INT() → CAST AS INT"),
   ("BIGINT(", "CAST(", "BIGINT() → CAST AS BIGINT"),
   ("DOUBLE(", "CAST(", "DOUBLE() → CAST AS DOUBLE"),
   ("STRING(", "CAST(", "STRING() → CAST AS VARCHAR")]

section
variable (unicode : Unicode)

/-- The loop over the occurrences of a function. Each one that is replaced is at least one letter,
so that as many rounds as there are letters are enough. -/
def replaceFunction (sparkFn dfFn : List Char) : ℕ → List Char → Option (List Char)
  | 0, remaining => some remaining
  | rounds + 1, remaining =>
    match find (unicode.upper.text sparkFn) (unicode.upper.text remaining) with
    | none => some remaining
    | some pos => do
      let (before, _) ← splitAtByte? pos remaining
      let (_, rest) ← splitAtByte? (pos + byteLength sparkFn) remaining
      let replaced ← replaceFunction sparkFn dfFn rounds rest
      return before ++ dfFn ++ replaced

/-- One entry of the map, applied to the text and the translations so far. -/
def translateFunction (done : List Char × List String) (entry : String × String × String) :
    Option (List Char × List String) :=
  let (sparkFn, dfFn, desc) := entry
  let (translated, translations) := done
  if unicode.upper.text sparkFn.toList <:+: unicode.upper.text translated then
    if sparkFn = dfFn then some done
    else do
      let result ← replaceFunction unicode sparkFn.toList dfFn.toList translated.length translated
      return (result, if desc ∈ translations then translations else translations ++ [desc])
  else some done

/-- Replace without regard to case: the positions are found in one upper-cased text. -/
def caseInsensitiveReplaceFrom (pattern replacement : List Char) :
    ℕ → List Char → List Char → Option (List Char)
  | 0, remaining, _ => some remaining
  | rounds + 1, remaining, remainingUpper =>
    let upperPattern := unicode.upper.text pattern
    match find upperPattern remainingUpper with
    | none => some remaining
    | some pos => do
      let (before, _) ← splitAtByte? pos remaining
      let (_, rest) ← splitAtByte? (pos + byteLength pattern) remaining
      let (_, restUpper) ← splitAtByte? (pos + byteLength upperPattern) remainingUpper
      let replaced ← caseInsensitiveReplaceFrom pattern replacement rounds rest restUpper
      return before ++ replacement ++ replaced

def caseInsensitiveReplace (input pattern replacement : List Char) : Option (List Char) :=
  let upperInput := unicode.upper.text input
  caseInsensitiveReplaceFrom unicode pattern replacement upperInput.length input upperInput

/-- `DISTRIBUTE BY` goes with its columns, up to a semicolon or a parenthesis. -/
def dropDistributeBy (done : List Char × List String) : Option (List Char × List String) :=
  match find "DISTRIBUTE BY".toList (unicode.upper.text done.1) with
  | none => some done
  | some pos => do
    let (before, rest) ← splitAtByte? pos done.1
    return (before ++ rest.dropWhile (fun c => c ≠ ';' ∧ c ≠ ')'),
      done.2 ++ ["DISTRIBUTE BY removed (DataFusion handles automatically)"])

def clusterBy (done : List Char × List String) : Option (List Char × List String) :=
  if "CLUSTER BY".toList <:+: unicode.upper.text done.1 then do
    let translated ← caseInsensitiveReplace unicode done.1 "CLUSTER BY".toList "ORDER BY".toList
    return (translated, done.2 ++ ["CLUSTER BY → ORDER BY"])
  else some done

def sortBy (done : List Char × List String) : Option (List Char × List String) :=
  let upper := unicode.upper.text done.1
  if "SORT BY".toList <:+: upper ∧ ¬ "ORDER BY".toList <:+: upper then do
    let translated ← caseInsensitiveReplace unicode done.1 "SORT BY".toList "ORDER BY".toList
    return (translated, done.2 ++ ["SORT BY → ORDER BY"])
  else some done

/-- What is only noted. -/
def noteUnsupported (done : List Char × List String) : List Char × List String :=
  let upper := unicode.upper.text done.1
  let translations := done.2 ++ if "TABLESAMPLE".toList <:+: upper then
    ["TABLESAMPLE not supported — full table scan used"] else []
  (done.1, translations ++ if "LATERAL VIEW".toList <:+: upper then
    ["LATERAL VIEW → CROSS JOIN UNNEST (manual rewrite may be needed)"] else [])

def translateSparkSql (sql : List Char) : Option TranslationResult := do
  let done ← functionMap.foldlM (translateFunction unicode) (sql, [])
  let done ← dropDistributeBy unicode done
  let done ← clusterBy unicode done
  let done ← sortBy unicode done
  let (translated, translations) := noteUnsupported unicode done
  return ⟨sql, translated, !translations.isEmpty, translations⟩

def sparkIndicators : List String :=
  ["NVL(", "DATEDIFF(", "COLLECT_LIST(", "COLLECT_SET(",
   "EXPLODE(", "DISTRIBUTE BY", "CLUSTER BY", "SORT BY",
   "LATERAL VIEW", "TABLESAMPLE", "STRING(",
   "UNIX_TIMESTAMP(", "FROM_UNIXTIME(", "DATE_FORMAT(",
   "FORMAT_STRING(", "INSTR(", "LOCATE("]

def looksLikeSparkSql (sql : List Char) : Bool :=
  let upper := unicode.upper.text sql
  sparkIndicators.any fun indicator => indicator.toList <:+: upper

/-- Cutting at a position behind the start leaves less. -/
theorem length_lt_of_splitAtByte? {n : ℕ} (hn : 0 < n) {s before rest : List Char}
    (h : splitAtByte? n s = some (before, rest)) : rest.length < s.length := by
  induction s generalizing n before with
  | nil =>
    obtain ⟨m, rfl⟩ := Nat.exists_eq_succ_of_ne_zero (by omega : n ≠ 0)
    cases h
  | cons c s ih =>
    obtain ⟨m, rfl⟩ := Nat.exists_eq_succ_of_ne_zero (by omega : n ≠ 0)
    rw [splitAtByte?] at h
    split at h
    · obtain ⟨⟨front, back⟩, hsplit, hparts⟩ := Option.map_eq_some_iff.mp h
      obtain rfl : back = rest := congrArg Prod.snd hparts
      have hstep : back.length ≤ s.length := by
        by_cases hzero : m + 1 - c.utf8Size = 0
        · rw [hzero] at hsplit
          have hback : s = back := by simpa [splitAtByte?] using congrArg (·.map Prod.snd) hsplit
          exact le_of_eq (congrArg List.length hback.symm)
        · exact le_of_lt (ih (by omega) hsplit)
      rw [List.length_cons]
      omega
    · cases h

theorem byteLength_pos {s : List Char} (h : s ≠ []) : 0 < byteLength s := by
  obtain ⟨c, s, rfl⟩ := List.exists_cons_of_ne_nil h
  have hlength : byteLength (c :: s) = c.utf8Size + byteLength s := by simp [byteLength]
  have hsize := c.utf8Size_pos
  omega

/-- The loop ends by itself: more rounds than letters change nothing. -/
theorem replaceFunction_rounds {sparkFn : List Char} (hfn : sparkFn ≠ [])
    (hupper : unicode.upper.text sparkFn ≠ []) (dfFn : List Char) {rounds : ℕ}
    {remaining : List Char} (h : remaining.length ≤ rounds) :
    replaceFunction unicode sparkFn dfFn (rounds + 1) remaining =
      replaceFunction unicode sparkFn dfFn rounds remaining := by
  induction rounds generalizing remaining with
  | zero =>
    obtain rfl : remaining = [] := List.length_eq_zero_iff.mp (by omega)
    have hfind : find (unicode.upper.text sparkFn) (unicode.upper.text []) = none := by
      simp [Uppercase.text, find] at hupper ⊢
      exact hupper
    have hstep : replaceFunction unicode sparkFn dfFn 1 [] = some [] := by
      rw [replaceFunction, hfind]
    exact hstep
  | succ rounds ih =>
    rw [replaceFunction]
    conv_rhs => rw [replaceFunction]
    cases find (unicode.upper.text sparkFn) (unicode.upper.text remaining) with
    | none => rfl
    | some pos =>
      dsimp only
      cases hcut : splitAtByte? (pos + byteLength sparkFn) remaining with
      | none => cases splitAtByte? pos remaining <;> rfl
      | some parts =>
        have hpos : 0 < pos + byteLength sparkFn := by
          have := byteLength_pos hfn
          omega
        have hshorter : parts.2.length < remaining.length := length_lt_of_splitAtByte? hpos hcut
        have hle : parts.2.length ≤ rounds := by omega
        have hrest := ih hle
        dsimp only [Option.bind_eq_bind, Option.bind_some]
        rw [hrest]

end
end RustLake.Sql
