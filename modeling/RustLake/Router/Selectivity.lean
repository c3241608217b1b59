import Mathlib.Data.Rat.Floor
import RustLake.Router.Profiler
import RustLake.Transform.Compiler

/-! The share of rows that the predicates of a query are estimated to keep, in exact arithmetic, and
what it makes of the rows and bytes of the tables. -/
namespace RustLake.Router
open Transform (around?)

/-- `str::split` with a separator that is not empty; as many turns as the text has letters are
enough. -/
def splitText (sep : List Char) : ℕ → List Char → List (List Char)
  | 0, s => [s]
  | turns + 1, s =>
    match around? sep s with
    | none => [s]
    | some (before, rest) => before :: splitText sep turns rest

/-- The loop of `has_top_level_or`, with the depth of parentheses so far. -/
def hasTopLevelOr : Int32 → List Char → Bool
  | _, [] => false
  | depth, c :: clause =>
    let depth := if c = '(' then depth + 1 else if c = ')' then depth - 1 else depth
    if depth = 0 ∧ " OR ".toList <+: c :: clause then true else hasTopLevelOr depth clause

/-- The column on the left of the first operator of the list that is there. -/
def extractColumnFromPredicate (unicode : Unicode) (pred : List Char) : List Char :=
  let operators := [">=", "<=", "!=", "<>", "=", ">", "<"]
  match operators.findSome? fun op => around? op.toList pred with
  | none => []
  | some (before, _) =>
    let col := (trim before).rtakeWhile (· ≠ '.')
    let mark := fun c => !unicode.isAlphanumeric c && c ≠ '_'
    unicode.upper.text (((trim col).dropWhile mark).rdropWhile mark)

/-- One of so many values, where it is known how many there are. -/
def columnEqualitySelectivity (colName : List Char) (profile : TableProfileStats) : ℚ :=
  if colName = [] then 1 / 100
  else match profile.distinctCounts.lookup (String.ofList colName) with
    | some dc => if 0 < dc then 1 / (dc.toNat : ℚ) else 1 / 100
    | none => 1 / 100

def estimatePredicateSelectivity (unicode : Unicode) (profile : TableProfileStats)
    (predicate : List Char) : ℚ :=
  let pred := trim predicate
  let equality := columnEqualitySelectivity (extractColumnFromPredicate unicode pred) profile
  if "LIKE".toList <:+: pred then 1 / 10
  else if "BETWEEN".toList <:+: pred then 33 / 100
  else if " IN ".toList <:+: pred ∨ " IN(".toList <:+: pred then
    let numValues : ℚ := pred.count ',' + 1
    min (equality * numValues) 1
  else if ">=".toList <:+: pred ∨ "<=".toList <:+: pred ∨ " > ".toList <:+: pred ∨
      " < ".toList <:+: pred then 33 / 100
  else if '=' ∈ pred ∧ ¬ "!=".toList <:+: pred ∧ ¬ "<>".toList <:+: pred then equality
  else if "!=".toList <:+: pred ∨ "<>".toList <:+: pred then 1 - equality
  else 1 / 2

/-- `x.clamp(0.0, 1.0)`. -/
def clamp (x : ℚ) : ℚ := max 0 (min x 1)

/-- The text after `WHERE` up to the first keyword that ends the clause. -/
def whereClause? (upper : List Char) : Option (List Char) :=
  (around? "WHERE".toList upper).map fun (_, afterWhere) =>
    let ends := ["GROUP BY", "ORDER BY", "LIMIT", "HAVING", ";"].filterMap fun kw =>
      (around? kw.toList afterWhere).map (·.1.length)
    afterWhere.take (ends.min?.getD afterWhere.length)

/-- What `OR` makes of the predicates between, before it is cut to the range. -/
def anyOf (unicode : Unicode) (profile : TableProfileStats) (parts : List (List Char)) : ℚ :=
  1 - parts.foldl
    (fun product part => product * (1 - estimatePredicateSelectivity unicode profile (trim part))) 1

/-- What `AND` makes of the predicates between, before it is cut to the range. -/
def allOf (unicode : Unicode) (profile : TableProfileStats) (parts : List (List Char)) : ℚ :=
  parts.foldl
    (fun combined part => combined * estimatePredicateSelectivity unicode profile (trim part)) 1

def estimateSelectivity (unicode : Unicode) (sql : String) (profile : TableProfileStats) : ℚ :=
  match whereClause? (unicode.upper.text sql.toList) with
  | none => 1
  | some clause =>
    if hasTopLevelOr 0 clause then
      clamp (anyOf unicode profile (splitText " OR ".toList clause.length clause))
    else clamp (allOf unicode profile (splitText " AND ".toList clause.length clause))

/-- The profiles of the tables of a query that have one. -/
def profiledTables (unicode : Unicode) (profiler : QueryProfiler) (sql : String) :
    List TableProfileStats :=
  (extractTableNames unicode sql).filterMap profiler.tableProfiles

/-- `(n as f64 * selectivity).ceil() as u64`. -/
def scaled (n : UInt64) (selectivity : ℚ) : UInt64 :=
  .ofNat (min ⌈(n.toNat : ℚ) * selectivity⌉₊ (2 ^ 64 - 1))

/-- The rows and bytes that `profile_query` estimates. The sums are those of `u64`. -/
def estimatedSize (unicode : Unicode) (profiler : QueryProfiler) (sql : String) :
    UInt64 × UInt64 :=
  let profiles := profiledTables unicode profiler sql
  let combinedSelectivity :=
    profiles.foldl (fun combined tp => combined * estimateSelectivity unicode sql tp) 1
  (scaled (profiles.map (·.totalRows)).sum combinedSelectivity,
    scaled (profiles.map (·.totalBytes)).sum combinedSelectivity)

/-- A share of a whole. -/
def IsShare (x : ℚ) : Prop := 0 ≤ x ∧ x ≤ 1

section
variable {x y : ℚ}

theorem isShare_one : IsShare 1 := ⟨zero_le_one, le_refl 1⟩

theorem IsShare.mul (hx : IsShare x) (hy : IsShare y) : IsShare (x * y) :=
  ⟨mul_nonneg hx.1 hy.1, mul_le_one₀ hx.2 hy.1 hy.2⟩

theorem IsShare.compl (hx : IsShare x) : IsShare (1 - x) :=
  ⟨sub_nonneg.mpr hx.2, sub_le_self 1 hx.1⟩

theorem isShare_min (hx : 0 ≤ x) : IsShare (min x 1) := ⟨le_min hx zero_le_one, min_le_right x 1⟩

/-- A product of shares, factor after factor. -/
theorem isShare_foldl {α : Type} {f : α → ℚ} (h : ∀ a, IsShare (f a)) (l : List α)
    (hx : IsShare x) : IsShare (l.foldl (fun product a => product * f a) x) := by
  induction l generalizing x with
  | nil => exact hx
  | cons a l ih => exact ih (hx.mul (h a))

theorem clamp_eq (hx : IsShare x) : clamp x = x := by
  rw [clamp, min_eq_left hx.2, max_eq_right hx.1]

end

variable {unicode : Unicode}

theorem isShare_columnEqualitySelectivity (colName : List Char) (profile : TableProfileStats) :
    IsShare (columnEqualitySelectivity colName profile) := by
  have hdefault : IsShare (1 / 100) := by
    constructor <;> norm_num
  unfold columnEqualitySelectivity
  split_ifs with hempty
  · exact hdefault
  · split
    · split_ifs with hpos
      · rename_i dc _
        have hone : 1 ≤ dc.toNat := UInt64.lt_iff_toNat_lt.mp hpos
        have hcast : (1 : ℚ) ≤ dc.toNat := by exact_mod_cast hone
        exact ⟨div_nonneg zero_le_one (by linarith), (div_le_one (by linarith)).mpr hcast⟩
      · exact hdefault
    · exact hdefault

/-- Whatever kind of predicate it is, a share of the rows passes it. -/
theorem isShare_estimatePredicateSelectivity (profile : TableProfileStats) (predicate : List Char) :
    IsShare (estimatePredicateSelectivity unicode profile predicate) := by
  have hequality := isShare_columnEqualitySelectivity
    (extractColumnFromPredicate unicode (trim predicate)) profile
  unfold estimatePredicateSelectivity
  dsimp only
  split_ifs
  · constructor <;> norm_num
  · constructor <;> norm_num
  · exact isShare_min (mul_nonneg hequality.1 (by positivity))
  · constructor <;> norm_num
  · exact hequality
  · exact hequality.compl
  · constructor <;> norm_num

theorem isShare_anyOf (profile : TableProfileStats) (parts : List (List Char)) :
    IsShare (anyOf unicode profile parts) :=
  (isShare_foldl (fun part => (isShare_estimatePredicateSelectivity profile (trim part)).compl) parts
    isShare_one).compl

theorem isShare_allOf (profile : TableProfileStats) (parts : List (List Char)) :
    IsShare (allOf unicode profile parts) :=
  isShare_foldl (fun part => isShare_estimatePredicateSelectivity profile (trim part)) parts
    isShare_one

/-- Both ways to combine predicates stay in the range, so that nothing is cut. -/
theorem isShare_estimateSelectivity (sql : String) (profile : TableProfileStats) :
    IsShare (estimateSelectivity unicode sql profile) := by
  unfold estimateSelectivity
  split
  · exact isShare_one
  · split_ifs
    · rw [clamp_eq (isShare_anyOf profile _)]
      exact isShare_anyOf profile _
    · rw [clamp_eq (isShare_allOf profile _)]
      exact isShare_allOf profile _

theorem scaled_le {selectivity : ℚ} (h : IsShare selectivity) (n : UInt64) :
    (scaled n selectivity).toNat ≤ n.toNat := by
  have hle : ⌈(n.toNat : ℚ) * selectivity⌉₊ ≤ n.toNat :=
    Nat.ceil_le.mpr (mul_le_of_le_one_right (Nat.cast_nonneg _) h.2)
  have hlt := n.toNat_lt
  rw [scaled, UInt64.toNat_ofNat']
  omega

/-- A sum of `u64` is no more than the sum of the numbers. -/
theorem toNat_sum_le (l : List UInt64) : l.sum.toNat ≤ (l.map UInt64.toNat).sum := by
  induction l with
  | nil => exact le_refl 0
  | cons n l ih =>
    rw [List.sum_cons, List.map_cons, List.sum_cons, UInt64.toNat_add]
    omega

/-- The share is between nothing and the whole, and no more rows or bytes are estimated than the
tables with a profile have. -/
theorem estimates_bounded (unicode : Unicode) :
    (∀ sql profile, 0 ≤ estimateSelectivity unicode sql profile ∧
      estimateSelectivity unicode sql profile ≤ 1) ∧
    ∀ profiler sql,
      (estimatedSize unicode profiler sql).1.toNat ≤
        ((profiledTables unicode profiler sql).map (·.totalRows.toNat)).sum ∧
      (estimatedSize unicode profiler sql).2.toNat ≤
        ((profiledTables unicode profiler sql).map (·.totalBytes.toNat)).sum := by
  refine ⟨isShare_estimateSelectivity, fun profiler sql => ?_⟩
  have heach : ∀ tp, IsShare (estimateSelectivity unicode sql tp) := isShare_estimateSelectivity sql
  have hshare := isShare_foldl heach (profiledTables unicode profiler sql) isShare_one
  constructor
  · refine (scaled_le hshare _).trans ((toNat_sum_le _).trans ?_)
    rw [List.map_map]
    exact le_refl _
  · refine (scaled_le hshare _).trans ((toNat_sum_le _).trans ?_)
    rw [List.map_map]
    exact le_refl _

end RustLake.Router
