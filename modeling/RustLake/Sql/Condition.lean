import RustLake.Sql.Boolean

/-! Conditions of comparisons and null tests: their three-valued meaning on a row, and how they
are read from tokens. -/
namespace RustLake.Sql

@[match_pattern] def Token.is : Token := .word ['i', 's']
@[match_pattern] def Token.null : Token := .word ['n', 'u', 'l', 'l']

inductive Val where
  | null
  | bool (b : Bool)
  | int (n : ℤ)
  | str (s : List Char)
deriving DecidableEq, Repr

namespace Val

def truth : Val → Truth
  | .bool b => some b
  | _ => none

def ofTruth : Truth → Val
  | some b => .bool b
  | none => .null

/-- How two values of one type compare; nothing compares with null. -/
def compare : Val → Val → Option Ordering
  | .bool a, .bool b => some (Ord.compare a b)
  | .int a, .int b => some (Ord.compare a b)
  | .str a, .str b => some (Ord.compare a b)
  | _, _ => none

end Val

def Comparison.holds : Comparison → Ordering → Bool
  | .eq, o => o = .eq
  | .notEq, o => o ≠ .eq
  | .lt, o => o = .lt
  | .ltEq, o => o ≠ .gt
  | .gt, o => o = .gt
  | .gtEq, o => o ≠ .lt

inductive Condition where
  | column (name : List Char)
  | lit (v : Val)
  | cmp (op : Comparison) (a b : Condition)
  | isNull (a : Condition)
  | isNotNull (a : Condition)
  | not (a : Condition)
  | and (a b : Condition)
  | or (a b : Condition)
deriving DecidableEq, Repr

abbrev Row := List Char → Val

def Condition.eval (row : Row) : Condition → Val
  | .column name => row name
  | .lit v => v
  | .cmp op a b => .ofTruth (((a.eval row).compare (b.eval row)).map op.holds)
  | .isNull a => .bool (a.eval row = .null)
  | .isNotNull a => .bool (a.eval row ≠ .null)
  | .not a => .ofTruth (a.eval row).truth.not
  | .and a b => .ofTruth ((a.eval row).truth.and (b.eval row).truth)
  | .or a b => .ofTruth ((a.eval row).truth.or (b.eval row).truth)

/-- Rows on which a condition is false or unknown are left out. -/
def Condition.IsTrue (row : Row) (c : Condition) : Prop := c.eval row = .bool true

instance (row : Row) (c : Condition) : Decidable (c.IsTrue row) :=
  inferInstanceAs (Decidable (_ = _))

theorem Val.ofTruth_eq_true {t : Truth} : Val.ofTruth t = .bool true ↔ t = some true := by
  rcases t with _ | _ | _ <;> simp [Val.ofTruth]

theorem Val.truth_eq_true {v : Val} : v.truth = some true ↔ v = .bool true := by
  cases v <;> simp [Val.truth]

theorem Condition.isTrue_and {row : Row} {a b : Condition} :
    (Condition.and a b).IsTrue row ↔ a.IsTrue row ∧ b.IsTrue row := by
  unfold IsTrue
  rw [eval, Val.ofTruth_eq_true, Truth.and_eq_true, Val.truth_eq_true, Val.truth_eq_true]

/-- Words that begin a clause and are part of no expression. -/
def clauseWords : List (List Char) :=
  ["select", "from", "where", "group", "having", "order", "limit", "union", "intersect",
    "except"].map String.toList

/-- Words that are no names of columns. -/
def reserved : List (List Char) :=
  ["and", "or", "not", "is", "null", "true", "false"].map String.toList ++ clauseWords

def digitsValue (ds : List Char) : ℤ := Nat.ofDigitChars 10 ds 0

/-- A value: a name, a literal, or an expression in parentheses. -/
def readValue (f : List Token → Option (Condition × List Token)) :
    List Token → Option (Condition × List Token)
  | .sym '(' :: ts => (f ts).bind fun r => match r.2 with
    | .sym ')' :: rest => some (r.1, rest)
    | _ => none
  | .ident name :: ts => some (.column name, ts)
  | .str s :: ts => some (.lit (.str s), ts)
  | .num ds :: ts => some (.lit (.int (digitsValue ds)), ts)
  | .sym '-' :: .num ds :: ts => some (.lit (.int (-digitsValue ds)), ts)
  | .word w :: ts =>
    if w = "null".toList then some (.lit .null, ts)
    else if w = "true".toList then some (.lit (.bool true), ts)
    else if w = "false".toList then some (.lit (.bool false), ts)
    else if w ∈ reserved then none
    else some (.column w, ts)
  | _ => none

/-- What may follow a value: one comparison with another value, or one null test. -/
def readTest (f : List Token → Option (Condition × List Token)) (a : Condition) :
    List Token → Option (Condition × List Token)
  | .cmp op :: ts => (readValue f ts).map fun r => (.cmp op a r.1, r.2)
  | .is :: .null :: ts => some (.isNull a, ts)
  | .is :: .not :: .null :: ts => some (.isNotNull a, ts)
  | ts => some (a, ts)

def readPredicate (f : List Token → Option (Condition × List Token)) (ts : List Token) :
    Option (Condition × List Token) := (readValue f ts).bind fun r => readTest f r.1 r.2

section
variable {f g : List Token → Option (Condition × List Token)}

theorem readValue_mono (hfg : ∀ ts x, f ts = some x → g ts = some x) {ts : List Token}
    {x : Condition × List Token} (h : readValue f ts = some x) : readValue g ts = some x := by
  unfold readValue at h ⊢
  split at h
  · obtain ⟨r, hr, hx⟩ := Option.bind_eq_some_iff.mp h
    exact Option.bind_eq_some_iff.mpr ⟨r, hfg _ _ hr, hx⟩
  all_goals exact h

theorem readTest_mono (hfg : ∀ ts x, f ts = some x → g ts = some x) {a : Condition}
    {ts : List Token} {x : Condition × List Token} (h : readTest f a ts = some x) :
    readTest g a ts = some x := by
  unfold readTest at h ⊢
  split at h
  · obtain ⟨r, hr, hx⟩ := Option.map_eq_some_iff.mp h
    exact Option.map_eq_some_iff.mpr ⟨r, readValue_mono hfg hr, hx⟩
  all_goals exact h

theorem readPredicate_mono (hfg : ∀ ts x, f ts = some x → g ts = some x) {ts : List Token}
    {x : Condition × List Token} (h : readPredicate f ts = some x) :
    readPredicate g ts = some x := by
  obtain ⟨r, hr, hx⟩ := Option.bind_eq_some_iff.mp h
  exact Option.bind_eq_some_iff.mpr ⟨r, readValue_mono hfg hr, readTest_mono hfg hx⟩

end

/-- The grammar of conditions. -/
def conditions : Grammar Condition where
  not := .not
  and := .and
  or := .or
  operand := readPredicate
  operand_mono := readPredicate_mono

/-- A value stands at the front of some tokens. -/
def ReadsValue (ts : List Token) (a : Condition) (rest : List Token) : Prop :=
  ∃ n, readValue (conditions.read n .or) ts = some (a, rest)

/-- Tokens after which nothing more belongs to a value. -/
def EndsValue (ts : List Token) : Prop :=
  (∀ op, ts.head? ≠ some (.cmp op)) ∧ ts.head? ≠ some .is

namespace ReadsValue
variable {ts ts' rest : List Token} {a b : Condition}

theorem paren (h : conditions.Reads .or ts a (.sym ')' :: rest)) :
    ReadsValue (.sym '(' :: ts) a rest := by
  obtain ⟨n, hn⟩ := h
  exact ⟨n, Option.bind_eq_some_iff.mpr ⟨(a, .sym ')' :: rest), hn, rfl⟩⟩

theorem reads_test (h : ReadsValue ts a ts') (hnot : ts.head? ≠ some .not) {n : ℕ}
    (htest : readTest (conditions.read n .or) a ts' = some (b, rest)) :
    conditions.Reads .not ts b rest := by
  obtain ⟨m, hm⟩ := h
  have hmono : ∀ k ≤ max m n, ∀ ts x, conditions.read k .or ts = some x →
      conditions.read (max m n) .or ts = some x := fun k hk ts x hx => Grammar.read_mono hk hx
  refine Grammar.Reads.operand (n := max m n) hnot ?_
  have hvalue := readValue_mono (hmono m (le_max_left m n)) hm
  have htest' := readTest_mono (hmono n (le_max_right m n)) htest
  exact Option.bind_eq_some_iff.mpr ⟨(a, ts'), hvalue, htest'⟩

theorem alone (h : ReadsValue ts a rest) (hnot : ts.head? ≠ some .not) (hends : EndsValue rest) :
    conditions.Reads .not ts a rest := by
  refine h.reads_test (n := 0) hnot ?_
  unfold readTest
  split
  · exact absurd rfl (hends.1 _)
  · exact absurd rfl hends.2
  · exact absurd rfl hends.2
  · rfl

theorem cmp {op : Comparison} (h : ReadsValue ts a (.cmp op :: ts'))
    (hnot : ts.head? ≠ some .not) (hb : ReadsValue ts' b rest) :
    conditions.Reads .not ts (.cmp op a b) rest := by
  obtain ⟨n, hn⟩ := hb
  exact h.reads_test hnot (n := n) (Option.map_eq_some_iff.mpr ⟨(b, rest), hn, rfl⟩)

theorem isNull (h : ReadsValue ts a (.is :: .null :: rest)) (hnot : ts.head? ≠ some .not) :
    conditions.Reads .not ts (.isNull a) rest := h.reads_test (n := 0) hnot rfl

theorem isNotNull (h : ReadsValue ts a (.is :: .not :: .null :: rest))
    (hnot : ts.head? ≠ some .not) : conditions.Reads .not ts (.isNotNull a) rest :=
  h.reads_test (n := 0) hnot rfl

end ReadsValue
end RustLake.Sql
