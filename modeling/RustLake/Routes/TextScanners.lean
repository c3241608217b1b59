import RustLake.Auth.RowFilter
import RustLake.Scheduler.ColumnLineage

/-! Where the scanners of SQL text cut: row filters, the lineage of columns, and that of tables.
None stands for the panic where a slice does not fit. -/
namespace RustLake.Routes
open RustLake.Auth RustLake.Scheduler

section
variable (lower : Lowercase)

/-- Where a filter is put in: six bytes behind the start of the last "where", or before the first
clause that follows the table. -/
def cutPosition (sqlLower : List Char) : ℕ :=
  match rfind whereText sqlLower with
  | some wherePos => wherePos + 6
  | none => findClauseBoundary sqlLower

/-- In each step that puts in a filter, the position found in the lower-cased text cuts the text. -/
def FiltersAligned (username : List Char) : List TablePolicy → List Char → Prop
  | [], _ => True
  | policy :: policies, result =>
    (policy.rowFilterSql.isSome → policy.tableName ≠ [] →
      lower.text policy.tableName <:+: lower.text result →
      IsBoundary (cutPosition (lower.text result)) result) ∧
    ∀ result', applyPolicy lower username result policy = some result' →
      FiltersAligned username policies result'

end

section
variable (unicode : Unicode)

/-- The table whose name begins a text, unless that is a query or a string. -/
def lineageTable (rest : List Char) : List (List Char) :=
  let table := (trimStart rest).takeWhile fun c =>
    !isWhitespace c && c ≠ ',' && c ≠ ')' && c ≠ ';' && c ≠ '('
  if table ≠ [] && !"SELECT".toList.isPrefixOf (unicode.upper.text table) &&
      !(List.isPrefixOf ['('] (unicode.upper.text table)) && !(List.isPrefixOf ['\''] table) then [table]
  else []

/-- The loop over the occurrences of a keyword in the upper-cased text. Each round leaves less of
it; none when the rounds are used up. -/
def lineageTablesFrom (sql sqlUpper keyword : List Char) : ℕ → ℕ → Option (List (List Char))
  | 0, _ => none
  | rounds + 1, searchFrom =>
    (splitAtByte? searchFrom sqlUpper).bind fun searched =>
      match find keyword searched.2 with
      | none => some []
      | some pos =>
        let absPos := searchFrom + pos + byteLength keyword
        let found := if absPos < byteLength sql then
          (splitAtByte? absPos sql).map fun parts => lineageTable unicode parts.2 else some []
        found.bind fun tables =>
          (lineageTablesFrom sql sqlUpper keyword rounds absPos).map (tables ++ ·)

def lineageKeywords : List (List Char) := ["FROM ".toList, "JOIN ".toList]

def extractLineageTables (sql : List Char) : Option (List String) :=
  let upper := unicode.upper.text sql
  (lineageKeywords.mapM fun keyword =>
    lineageTablesFrom unicode sql upper keyword (upper.length + 1) 0).map fun tables =>
      ((tables.flatten.map String.ofList).mergeSort (· ≤ ·)).destutter (· ≠ ·)

end

/-- Each occurrence of a word, so many bytes behind the start, ends at a boundary of the text or not
before the text ends. -/
def EndsFit (sql keyword : List Char) (n : ℕ) (rest : List Char) : Prop :=
  ∀ before after, rest = before ++ (keyword ++ after) →
    n + byteLength (before ++ keyword) < byteLength sql →
    IsBoundary (n + byteLength (before ++ keyword)) sql

/-- The ends of the keywords in the upper-cased text cut the text itself. -/
def TablesAligned (unicode : Unicode) (sql : List Char) : Prop :=
  ∀ keyword ∈ lineageKeywords, EndsFit sql keyword 0 (unicode.upper.text sql)

section
variable {lower : Lowercase} {username : List Char}

theorem injectFilter_isSome_iff (resolvedFilter result : List Char) :
    (injectFilter lower resolvedFilter result).isSome ↔
      IsBoundary (cutPosition (lower.text result)) result := by
  unfold injectFilter cutPosition
  cases rfind whereText (lower.text result) with
  | none =>
    dsimp only
    rw [Option.isSome_map, splitAtByte?_isSome_iff]
  | some wherePos =>
    dsimp only
    rw [Option.isSome_map, splitAtByte?_isSome_iff]

theorem applyPolicy_isSome_iff (result : List Char) (policy : TablePolicy) :
    (applyPolicy lower username result policy).isSome ↔
      (policy.rowFilterSql.isSome → policy.tableName ≠ [] →
        lower.text policy.tableName <:+: lower.text result →
        IsBoundary (cutPosition (lower.text result)) result) := by
  unfold applyPolicy
  cases policy.rowFilterSql with
  | none => exact iff_of_true rfl fun h => by cases h
  | some filter =>
    have hfilter : (some filter).isSome = true := rfl
    dsimp only
    rw [forall_prop_of_true hfilter]
    split_ifs with hempty hfound
    · exact iff_of_true rfl fun h => absurd hempty h
    · rw [forall_prop_of_true hempty, forall_prop_of_true hfound]
      exact injectFilter_isSome_iff _ _
    · exact iff_of_true rfl fun _ h => absurd h hfound

/-- All filters are put in exactly if each of them can be, in the text that those before it left. -/
theorem applyPolicies_isSome_iff (policies : List TablePolicy) (result : List Char) :
    (policies.foldlM (applyPolicy lower username) result).isSome ↔
      FiltersAligned lower username policies result := by
  induction policies generalizing result with
  | nil => exact iff_of_true rfl trivial
  | cons policy policies ih =>
    rw [List.foldlM_cons, FiltersAligned, ← applyPolicy_isSome_iff]
    cases applyPolicy lower username result policy with
    | none => exact iff_of_false (fun h => by cases h) (fun h => by cases h.1)
    | some result' =>
      constructor
      · intro h
        refine ⟨rfl, fun result'' hsome => ?_⟩
        cases hsome
        exact (ih result').mp h
      · intro h
        exact (ih result').mpr (h.2 result' rfl)

end

section
variable {unicode : Unicode} {sql keyword : List Char} {n : ℕ} {rest : List Char}

theorem EndsFit.of_find_none (h : find keyword rest = none) : EndsFit sql keyword n rest := by
  intro before after hrest
  refine absurd ?_ (find_eq_none_iff.mp h)
  exact ⟨before, after, by rw [hrest, List.append_assoc]⟩

/-- The occurrences are the first one and those behind it. -/
theorem endsFit_iff_of_find {c : Char} {p before after : List Char} (hc : c ∉ p)
    (hrest : rest = before ++ ((c :: p) ++ after))
    (hfind : find (c :: p) rest = some (byteLength before)) :
    EndsFit sql (c :: p) n rest ↔
      (n + byteLength (before ++ (c :: p)) < byteLength sql →
        IsBoundary (n + byteLength (before ++ (c :: p))) sql) ∧
      EndsFit sql (c :: p) (n + byteLength (before ++ (c :: p))) after := by
  constructor
  · intro h
    refine ⟨h before after hrest, fun front back hafter => ?_⟩
    have hbehind := h (before ++ ((c :: p) ++ front)) back (by rw [hrest, hafter]; simp)
    have hlength : n + byteLength (before ++ ((c :: p) ++ front) ++ (c :: p)) =
        n + byteLength (before ++ (c :: p)) + byteLength (front ++ (c :: p)) := by
      simp only [byteLength_append]
      omega
    rwa [hlength] at hbehind
  · rintro ⟨hfirst, hbehind⟩ front back hfront
    rcases occurrences_cases hc (hrest.symm.trans hfront) with rfl | ⟨d, rfl⟩ | ⟨d, hd⟩
    · exact hfirst
    · have hafter : after = d ++ ((c :: p) ++ back) := by
        rw [hrest] at hfront
        simpa using hfront
      have hlength : n + byteLength (before ++ ((c :: p) ++ d) ++ (c :: p)) =
          n + byteLength (before ++ (c :: p)) + byteLength (d ++ (c :: p)) := by
        simp only [byteLength_append]
        omega
      rw [hlength]
      exact hbehind d back hafter
    · -- The word would be found earlier.
      have hle := find_le hfind hfront
      have hsize := c.utf8Size_pos
      rw [hd, byteLength_append, byteLength_append, byteLength_cons] at hle
      omega

/-- The loop ends, and cuts where it can, exactly if the occurrences that are left end so. -/
theorem lineageTablesFrom_isSome_iff {c : Char} {p : List Char} (hc : c ∉ p) {rounds : ℕ}
    {done : List Char} (h : rest.length < rounds) :
    (lineageTablesFrom unicode sql (done ++ rest) (c :: p) rounds (byteLength done)).isSome ↔
      EndsFit sql (c :: p) (byteLength done) rest := by
  induction rounds generalizing done rest with
  | zero => omega
  | succ rounds ih =>
    rw [lineageTablesFrom, splitAtByte?_append, Option.bind_some]
    dsimp only
    cases hfind : find (c :: p) rest with
    | none => exact iff_of_true rfl (.of_find_none hfind)
    | some pos =>
      obtain ⟨before, after, rfl, rfl⟩ := find_eq_some hfind
      rw [endsFit_iff_of_find hc rfl hfind]
      have hpos : byteLength done + byteLength before + byteLength (c :: p) =
          byteLength (done ++ (before ++ (c :: p))) := by
        simp only [byteLength_append]
        omega
      have hshorter : after.length < rounds := by
        simp only [List.length_append, List.length_cons] at h
        omega
      have hnext : (lineageTablesFrom unicode sql (done ++ (before ++ (c :: p)) ++ after) (c :: p)
          rounds (byteLength (done ++ (before ++ (c :: p))))).isSome ↔
            EndsFit sql (c :: p) (byteLength (done ++ (before ++ (c :: p)))) after := ih hshorter
      have htext : done ++ (before ++ (c :: p)) ++ after =
          done ++ (before ++ ((c :: p) ++ after)) := by simp
      rw [htext, byteLength_append done] at hnext
      dsimp only
      rw [hpos, byteLength_append done, ← hnext]
      split_ifs with hbefore
      · rw [forall_prop_of_true hbefore, ← splitAtByte?_isSome_iff]
        cases splitAtByte? (byteLength done + byteLength (before ++ (c :: p))) sql with
        | none => exact iff_of_false (fun h => by cases h) (fun h => by cases h.1)
        | some parts =>
          rw [Option.map_some, Option.bind_some, Option.isSome_map]
          exact (and_iff_right rfl).symm
      · rw [Option.bind_some, Option.isSome_map]
        exact (and_iff_right fun h => absurd h hbefore).symm

theorem extractLineageTables_isSome_iff (sql : List Char) :
    (extractLineageTables unicode sql).isSome ↔ TablesAligned unicode sql := by
  unfold extractLineageTables
  dsimp only
  rw [Option.isSome_map, mapM_isSome_iff]
  refine forall₂_congr fun keyword hkeyword => ?_
  obtain ⟨c, p, rfl, hc⟩ : ∃ c p, keyword = c :: p ∧ c ∉ p := by
    simp only [lineageKeywords, List.mem_cons, List.not_mem_nil, or_false] at hkeyword
    rcases hkeyword with rfl | rfl
    · exact ⟨'F', "ROM ".toList, rfl, by decide⟩
    · exact ⟨'J', "OIN ".toList, rfl, by decide⟩
  have hloop : (lineageTablesFrom unicode sql ([] ++ unicode.upper.text sql) (c :: p)
      ((unicode.upper.text sql).length + 1) (byteLength [])).isSome ↔
        EndsFit sql (c :: p) (byteLength []) (unicode.upper.text sql) :=
    lineageTablesFrom_isSome_iff hc (Nat.lt_succ_self _)
  exact hloop

/-- The scanners return, with all their loops ended, exactly if each position found in a copy of
the text in another case cuts the text itself, and the parentheses of each column are nested. -/
theorem scanners_return_iff (unicode : Unicode) :
    (∀ sql policies claims, (applyRowFilter unicode.lower sql policies claims).isSome ↔
      "admin".toList ∈ claims.roles ∨
        FiltersAligned unicode.lower claims.username policies sql) ∧
    (∀ sql inputTables, (parseSqlColumnLineage unicode sql inputTables).isSome ↔
      ColumnsAligned unicode sql) ∧
    ∀ sql, (extractLineageTables unicode sql).isSome ↔ TablesAligned unicode sql := by
  refine ⟨fun sql policies claims => ?_, parseSqlColumnLineage_isSome_iff,
    extractLineageTables_isSome_iff⟩
  unfold applyRowFilter
  split_ifs with hadmin
  · exact iff_of_true rfl (Or.inl hadmin)
  · rw [applyPolicies_isSome_iff, or_iff_right hadmin]

/-- The mappings of the ASCII letters, and of a letter of two bytes that becomes two characters of
three bytes. -/
def apostrophed : Unicode where
  lower := Unicode.asciiOnly.lower
  upper := ⟨fun c => if c = 'ŉ' then ['ʼ', 'N'] else [c.toUpper], fun c hc => if_neg (by
    rintro rfl
    revert hc
    decide)⟩
  isAlphanumeric := Unicode.asciiOnly.isAlphanumeric
  ascii := Unicode.asciiOnly.ascii

/-- A table whose name ends in "where", two calls in one column, no `SELECT` at all, and a keyword
behind a letter that grows. -/
theorem scanners_panic :
    applyRowFilter apostrophed.lower "select * from nowhere".toList
      [⟨"nowhere".toList, some "owner = 'me'".toList⟩] ⟨"me".toList, []⟩ = none ∧
    parseSqlColumnLineage apostrophed "SELECT f(a) + g(b) FROM t".toList [] = none ∧
    parseSqlColumnLineage apostrophed [] [] = none ∧
    extractLineageTables apostrophed "ŉFROM ñ".toList = none := by
  decide +kernel

end
end RustLake.Routes
