import RustLake.Sql.Condition
import RustLake.Text.Replace

/-! Filters pushed down to Trino: their text in the `WHERE` clause that a scan sends, and the
rows on which that clause, as Trino reads it, is true. -/
namespace RustLake.Trino
open RustLake.Sql RustLake.Text

/-- The literals that `expr_to_sql` tells apart; floats are kept by their printed text. -/
inductive ScalarValue where
  | utf8 (s : Option (List Char))
  | largeUtf8 (s : Option (List Char))
  | int8 (n : Option Int8)
  | int16 (n : Option Int16)
  | int32 (n : Option Int32)
  | int64 (n : Option Int64)
  | float32 (n : Option (List Char))
  | float64 (n : Option (List Char))
  | boolean (b : Option Bool)
  | null
  | other
deriving DecidableEq

inductive Operator where
  | eq | notEq | lt | ltEq | gt | gtEq | and | or | other
deriving DecidableEq

inductive Expr where
  | binaryExpr (left : Expr) (op : Operator) (right : Expr)
  | column (name : List Char)
  | literal (v : ScalarValue)
  | not (inner : Expr)
  | isNull (inner : Expr)
  | isNotNull (inner : Expr)
  | other
deriving DecidableEq

def Operator.text : Operator → Option (List Char)
  | .eq => some "=".toList
  | .notEq => some "!=".toList
  | .lt => some "<".toList
  | .ltEq => some "<=".toList
  | .gt => some ">".toList
  | .gtEq => some ">=".toList
  | .and => some "AND".toList
  | .or => some "OR".toList
  | .other => none

def intText (n : ℤ) : List Char := (toString n).toList

def ScalarValue.toSql : ScalarValue → Option (List Char)
  | .utf8 (some s) | .largeUtf8 (some s) =>
    some ('\'' :: replaceAll ['\''] ['\'', '\''] s ++ ['\''])
  | .int8 (some n) => some (intText n.toInt)
  | .int16 (some n) => some (intText n.toInt)
  | .int32 (some n) => some (intText n.toInt)
  | .int64 (some n) => some (intText n.toInt)
  | .float32 (some n) | .float64 (some n) => some n
  | .boolean (some b) => some (if b then "TRUE" else "FALSE").toList
  | .null => some "NULL".toList
  | _ => none

def exprToSql : Expr → Option (List Char)
  | .binaryExpr left op right => do
    let left ← exprToSql left
    let right ← exprToSql right
    let op ← op.text
    return '(' :: (left ++ ' ' :: (op ++ ' ' :: right)) ++ [')']
  | .column name => some ('"' :: name ++ ['"'])
  | .literal v => v.toSql
  | .not inner => (exprToSql inner).map ("NOT ".toList ++ ·)
  | .isNull inner => (exprToSql inner).map (· ++ " IS NULL".toList)
  | .isNotNull inner => (exprToSql inner).map (· ++ " IS NOT NULL".toList)
  | .other => none

inductive FilterPushDown where
  | inexact | unsupported
deriving DecidableEq

def supportsFiltersPushdown (filters : List Expr) : List FilterPushDown :=
  filters.map fun f => if (exprToSql f).isSome then .inexact else .unsupported

structure TrinoTableProvider where
  catalog : List Char
  schemaName : List Char
  tableName : List Char
  arrowSchema : List (List Char)

def quoted (name : List Char) : List Char := '"' :: name ++ ['"']

def TrinoTableProvider.trinoFqn (t : TrinoTableProvider) : List Char :=
  quoted t.catalog ++ '.' :: quoted t.schemaName ++ '.' :: quoted t.tableName ++ ['\n']

def whereClause (filters : List Expr) : List Char :=
  let whereParts := filters.filterMap exprToSql
  if whereParts.isEmpty then []
  else " WHERE ".toList ++ " AND ".toList.intercalate whereParts

/-- The statement of a scan; none where a projected column is not in the schema. -/
def TrinoTableProvider.scan (t : TrinoTableProvider) (projection : Option (List ℕ))
    (filters : List Expr) (limit : Option ℕ) : Option (List Char) := do
  let selectCols ← match projection with
    | some indices => do
      let names ← indices.mapM fun i => t.arrowSchema[i]?
      pure (", ".toList.intercalate (names.map quoted))
    | none => pure ['*']
  let limitClause := match limit with
    | some n => " LIMIT ".toList ++ intText n
    | none => []
  return "SELECT ".toList ++ selectCols ++ " FROM ".toList ++ t.trinoFqn ++
    whereClause filters ++ limitClause

/-! What the filters mean, and which of them their text says. -/

def Operator.comparison : Operator → Option Comparison
  | .eq => some .eq
  | .notEq => some .notEq
  | .lt => some .lt
  | .ltEq => some .ltEq
  | .gt => some .gt
  | .gtEq => some .gtEq
  | _ => none

/-- Floats are left out. -/
def ScalarValue.val : ScalarValue → Option Val
  | .utf8 (some s) | .largeUtf8 (some s) => some (.str s)
  | .int8 (some n) => some (.int n.toInt)
  | .int16 (some n) => some (.int n.toInt)
  | .int32 (some n) => some (.int n.toInt)
  | .int64 (some n) => some (.int n.toInt)
  | .boolean (some b) => some (.bool b)
  | .null => some .null
  | _ => none

/-- The condition that a filter is, by its own structure. -/
def Expr.condition : Expr → Option Condition
  | .binaryExpr left op right => do
    let a ← left.condition
    let b ← right.condition
    match op with
    | .and => some (.and a b)
    | .or => some (.or a b)
    | op => op.comparison.map fun op => .cmp op a b
  | .column name => some (.column name)
  | .literal v => v.val.map .lit
  | .not inner => inner.condition.map .not
  | .isNull inner => inner.condition.map .isNull
  | .isNotNull inner => inner.condition.map .isNotNull
  | .other => none

def Expr.TrueOn (row : Row) (e : Expr) : Prop := ∃ c, e.condition = some c ∧ c.IsTrue row

@[match_pattern] def tokenWhere : Token := .word ['w', 'h', 'e', 'r', 'e']

/-- The clause is empty, or Trino reads a condition in it that is true on the row. -/
def ClauseHolds (row : Row) (clause : List Char) : Prop :=
  clause = [] ∨ ∃ ts c, tokens clause = some (tokenWhere :: ts) ∧ conditions.ReadsAs ts c ∧
    c.IsTrue row

/-- The clause is true on every row on which all the filters are. -/
def KeepsRows (filters : List Expr) : Prop :=
  ∀ row, (∀ f ∈ filters, f.TrueOn row) → ClauseHolds row (whereClause filters)

/-- Expressions whose text is a value: names, literals and what is put in parentheses. -/
def Expr.isValue : Expr → Bool
  | .binaryExpr _ _ _ | .column _ | .literal _ => true
  | _ => false

/-- Column names are not empty and hold no double quote, and neither `NOT` nor a null test is an
operand of a comparison or a null test. -/
def Expr.Printable : Expr → Prop
  | .binaryExpr left op right =>
    left.Printable ∧ right.Printable ∧
      (op.comparison.isSome → left.isValue = true ∧ right.isValue = true)
  | .column name => name ≠ [] ∧ '"' ∉ name
  | .literal _ => True
  | .not inner => inner.Printable
  | .isNull inner | .isNotNull inner => inner.Printable ∧ inner.isValue = true
  | .other => True

/-- A text that reads as a condition before anything that ends a value. -/
def Says (x : List Char) (c : Condition) : Prop :=
  ∃ ts, Spells x ts ∧ ∀ rest, EndsValue rest → conditions.Reads .not (ts ++ rest) c rest

/-- A text that reads as a value, whatever follows. -/
def SaysValue (x : List Char) (c : Condition) : Prop :=
  ∃ t ts, t ≠ .not ∧ Spells x (t :: ts) ∧ ∀ rest, ReadsValue (t :: ts ++ rest) c rest

theorem SaysValue.toSays {x : List Char} {c : Condition} (h : SaysValue x c) : Says x c := by
  obtain ⟨t, ts, ht, hspells, hreads⟩ := h
  exact ⟨t :: ts, hspells, fun rest hends => (hreads rest).alone (by simpa using ht) hends⟩

theorem endsValue_close (rest : List Token) : EndsValue (.sym ')' :: rest) :=
  ⟨fun op h => by simp at h, fun h => by simp [Token.is] at h⟩

/-- A text in parentheses. -/
theorem SaysValue.paren {x : List Char} {c : Condition} {ts : List Token} (hspells : Spells x ts)
    (hreads : ∀ rest, conditions.Reads .or (ts ++ .sym ')' :: rest) c (.sym ')' :: rest)) :
    SaysValue ('(' :: x ++ [')']) c := by
  refine ⟨.sym '(', ts ++ [.sym ')'], by simp [Token.not], by simpa using hspells.paren, fun rest => ?_⟩
  have hparen := ReadsValue.paren (hreads rest)
  simpa using hparen

theorem spells_cmp {op : Operator} {k : Comparison} {text : List Char}
    (hop : op.comparison = some k) (htext : op.text = some text) : Spells text [.cmp k] := by
  cases op <;> simp only [Operator.comparison, Operator.text, Option.some.injEq, reduceCtorEq]
    at hop htext
  all_goals
    subst hop htext
    first
      | exact @spells_of_read _ [.cmp _] [] _ rfl rfl (by decide)
      | exact @spells_of_read _ [] [.cmp _] _ rfl rfl (by decide)

theorem saysValue_cmp {op : Operator} {k : Comparison} {x y text : List Char} {a b : Condition}
    (hop : op.comparison = some k) (htext : op.text = some text) (hx : SaysValue x a)
    (hy : SaysValue y b) :
    SaysValue ('(' :: (x ++ ' ' :: (text ++ ' ' :: y)) ++ [')']) (.cmp k a b) := by
  obtain ⟨t, ts, ht, hspells, hreads⟩ := hx
  obtain ⟨u, us, -, hspells', hreads'⟩ := hy
  refine .paren (hspells.space ((spells_cmp hop htext).space hspells')) fun rest => ?_
  have hleft := hreads (.cmp k :: (u :: us ++ .sym ')' :: rest))
  have htest := hleft.cmp (by simpa using ht) (hreads' (.sym ')' :: rest))
  simpa using htest.of_not (by simp [Token.and]) (by simp [Token.or])

theorem saysValue_and {x y : List Char} {a b : Condition} (hx : Says x a) (hy : Says y b) :
    SaysValue ('(' :: (x ++ ' ' :: ("AND".toList ++ ' ' :: y)) ++ [')']) (.and a b) := by
  obtain ⟨ts, hspells, hreads⟩ := hx
  obtain ⟨us, hspells', hreads'⟩ := hy
  have hop : Spells "AND".toList [.and] :=
    @spells_of_read _ [] [.and] _ rfl rfl (by decide)
  refine .paren (hspells.space (hop.space hspells')) fun rest => ?_
  have hleft := hreads (.and :: (us ++ .sym ')' :: rest))
    ⟨fun op h => by simp [Token.and] at h, fun h => by simp [Token.and, Token.is] at h⟩
  have hright := hreads' (.sym ')' :: rest) (endsValue_close rest)
  have hboth := hleft.and (hright.andRest (.andRest_stop (by simp [Token.and])))
  have hwhole : conditions.Reads .or (ts ++ .and :: (us ++ .sym ')' :: rest)) (.and a b)
      (.sym ')' :: rest) := hboth.or (.orRest_stop (by simp [Token.or]))
  simpa using hwhole

theorem saysValue_or {x y : List Char} {a b : Condition} (hx : Says x a) (hy : Says y b) :
    SaysValue ('(' :: (x ++ ' ' :: ("OR".toList ++ ' ' :: y)) ++ [')']) (.or a b) := by
  obtain ⟨ts, hspells, hreads⟩ := hx
  obtain ⟨us, hspells', hreads'⟩ := hy
  have hop : Spells "OR".toList [.or] :=
    @spells_of_read _ [] [.or] _ rfl rfl (by decide)
  refine .paren (hspells.space (hop.space hspells')) fun rest => ?_
  have hleft := hreads (.or :: (us ++ .sym ')' :: rest))
    ⟨fun op h => by simp [Token.or] at h, fun h => by simp [Token.or, Token.is] at h⟩
  have hright := hreads' (.sym ')' :: rest) (endsValue_close rest)
  have hand := hleft.and (.andRest_stop (by simp [Token.and, Token.or]))
  have hand' := hright.and (.andRest_stop (by simp [Token.and]))
  have hwhole : conditions.Reads .or (ts ++ .or :: (us ++ .sym ')' :: rest)) (.or a b)
      (.sym ')' :: rest) := hand.or (hand'.orRest (.orRest_stop (by simp [Token.or])))
  simpa using hwhole

theorem saysValue_column {name : List Char} (hne : name ≠ []) (hname : '"' ∉ name) :
    SaysValue ('"' :: name ++ ['"']) (.column name) :=
  ⟨.ident name, [], by simp [Token.not], spells_ident hne hname, fun _ => ⟨0, rfl⟩⟩

theorem saysValue_str (s : List Char) :
    SaysValue ('\'' :: replaceAll ['\''] ['\'', '\''] s ++ ['\'']) (.lit (.str s)) := by
  rw [replaceAll_singleton]
  exact ⟨.str s, [], by simp [Token.not], spells_str s, fun _ => ⟨0, rfl⟩⟩

theorem saysValue_int (n : ℤ) : SaysValue (intText n) (.lit (.int n)) := by
  have hdigits : ∀ m : ℕ, ∀ c ∈ Nat.toDigits 10 m, c.isDigit = true := fun m c hc =>
    Nat.isDigit_of_mem_toDigits (by decide) (by decide) hc
  have hvalue : ∀ m : ℕ, digitsValue (Nat.toDigits 10 m) = m := fun m => by
    rw [digitsValue, Nat.ofDigitChars_ten_toDigits]
  cases n with
  | ofNat m =>
    have htext : intText (.ofNat m) = Nat.toDigits 10 m := Nat.toList_repr
    refine ⟨.num (Nat.toDigits 10 m), [], by simp [Token.not], ?_, fun rest => ⟨0, ?_⟩⟩
    · rw [htext]
      exact spells_num Nat.toDigits_ne_nil (hdigits m)
    · simp [readValue, hvalue]
  | negSucc m =>
    have htext : intText (.negSucc m) = '-' :: Nat.toDigits 10 (m + 1) := by
      change ("-" ++ toString (m + 1)).toList = _
      simp
    refine ⟨.sym '-', [.num (Nat.toDigits 10 (m + 1))], by simp [Token.not], ?_,
      fun rest => ⟨0, ?_⟩⟩
    · rw [htext]
      exact spells_minus Nat.toDigits_ne_nil (hdigits (m + 1))
    · simp [readValue, hvalue, Int.negSucc_eq]

theorem saysValue_scalar {v : ScalarValue} {value : Val} {x : List Char}
    (hval : v.val = some value) (hx : v.toSql = some x) : SaysValue x (.lit value) := by
  cases v with
  | utf8 s | largeUtf8 s =>
    cases s with
    | none => cases hval
    | some s =>
      cases hval
      cases hx
      exact saysValue_str _
  | int8 n | int16 n | int32 n | int64 n =>
    cases n with
    | none => cases hval
    | some n =>
      cases hval
      cases hx
      exact saysValue_int _
  | boolean b =>
    match b with
    | none => cases hval
    | some true =>
      cases hval
      cases hx
      exact ⟨.word "true".toList, [], by decide, @spells_of_read _ [] _ _ rfl rfl (by decide),
        fun _ => ⟨0, rfl⟩⟩
    | some false =>
      cases hval
      cases hx
      exact ⟨.word "false".toList, [], by decide, @spells_of_read _ [] _ _ rfl rfl (by decide),
        fun _ => ⟨0, rfl⟩⟩
  | null =>
    cases hval
    cases hx
    exact ⟨.null, [], by decide, @spells_of_read _ [] _ _ rfl rfl (by decide), fun _ => ⟨0, rfl⟩⟩
  | _ => cases hval

theorem says_not {x : List Char} {c : Condition} (h : Says x c) :
    Says ("NOT ".toList ++ x) (.not c) := by
  obtain ⟨ts, hspells, hreads⟩ := h
  have hnot : Spells "NOT".toList [.not] := @spells_of_read _ [] [.not] _ rfl rfl (by decide)
  have htext : "NOT ".toList ++ x = "NOT".toList ++ ' ' :: x := by
    rw [(by decide : "NOT ".toList = "NOT".toList ++ [' ']), List.append_assoc]
    rfl
  rw [htext]
  exact ⟨.not :: ts, hnot.space hspells, fun rest hends => (hreads rest hends).not⟩

theorem spells_null : Spells "NULL".toList [.null] :=
  @spells_of_read _ [] [.null] _ rfl rfl (by decide)

theorem spells_is : Spells "IS".toList [.is] := @spells_of_read _ [] [.is] _ rfl rfl (by decide)

theorem says_isNull {x : List Char} {c : Condition} (h : SaysValue x c) :
    Says (x ++ " IS NULL".toList) (.isNull c) := by
  obtain ⟨t, ts, ht, hspells, hreads⟩ := h
  have htext : " IS NULL".toList = ' ' :: ("IS".toList ++ ' ' :: "NULL".toList) := by decide
  rw [htext]
  have hsuffix : Spells ("IS".toList ++ ' ' :: "NULL".toList) [.is, .null] :=
    spells_is.space spells_null
  refine ⟨t :: ts ++ [.is, .null], hspells.space hsuffix, fun rest _ => ?_⟩
  have htest := (hreads (.is :: .null :: rest)).isNull (by simpa using ht)
  simpa using htest

theorem says_isNotNull {x : List Char} {c : Condition} (h : SaysValue x c) :
    Says (x ++ " IS NOT NULL".toList) (.isNotNull c) := by
  obtain ⟨t, ts, ht, hspells, hreads⟩ := h
  have hnot : Spells "NOT".toList [.not] := @spells_of_read _ [] [.not] _ rfl rfl (by decide)
  have htext : " IS NOT NULL".toList =
      ' ' :: ("IS".toList ++ ' ' :: ("NOT".toList ++ ' ' :: "NULL".toList)) := by decide
  rw [htext]
  have hsuffix : Spells ("IS".toList ++ ' ' :: ("NOT".toList ++ ' ' :: "NULL".toList))
      [.is, .not, .null] := spells_is.space (hnot.space spells_null)
  refine ⟨t :: ts ++ [.is, .not, .null], hspells.space hsuffix, fun rest _ => ?_⟩
  have htest := (hreads (.is :: .not :: .null :: rest)).isNotNull (by simpa using ht)
  simpa using htest

/-- The text of a printable filter reads as its condition, as a value where it is one. -/
theorem exprToSql_says {e : Expr} (hprintable : e.Printable) {c : Condition} {x : List Char}
    (hc : e.condition = some c) (hx : exprToSql e = some x) :
    Says x c ∧ (e.isValue = true → SaysValue x c) := by
  have hvalue : SaysValue x c → Says x c ∧ (e.isValue = true → SaysValue x c) :=
    fun h => ⟨h.toSays, fun _ => h⟩
  induction e generalizing c x with
  | binaryExpr left op right ihl ihr =>
    obtain ⟨hl, hr, hoperands⟩ := hprintable
    simp only [Expr.condition, Option.bind_eq_bind, Option.bind_eq_some_iff] at hc
    simp only [exprToSql, Option.bind_eq_bind, Option.bind_eq_some_iff] at hx
    obtain ⟨a, ha, b, hb, hc⟩ := hc
    obtain ⟨y, hy, z, hz, text, htext, hx⟩ := hx
    cases hx
    obtain ⟨hyl, hyv⟩ := ihl hl ha hy fun h => ⟨h.toSays, fun _ => h⟩
    obtain ⟨hzl, hzv⟩ := ihr hr hb hz fun h => ⟨h.toSays, fun _ => h⟩
    apply hvalue
    cases hop : op.comparison with
    | some k =>
      obtain ⟨hlv, hrv⟩ := hoperands (by rw [hop]; rfl)
      have hcmp : c = .cmp k a b := by
        cases op <;> simp_all [Operator.comparison]
      rw [hcmp]
      exact saysValue_cmp hop htext (hyv hlv) (hzv hrv)
    | none =>
      cases op <;> simp [Operator.comparison, Operator.text] at hop htext hc
      · subst hc htext
        exact saysValue_and hyl hzl
      · subst hc htext
        exact saysValue_or hyl hzl
  | column name =>
    cases hc
    cases hx
    exact hvalue (saysValue_column hprintable.1 hprintable.2)
  | literal v =>
    obtain ⟨value, hval, rfl⟩ := Option.map_eq_some_iff.mp hc
    exact hvalue (saysValue_scalar hval hx)
  | not inner ih =>
    obtain ⟨a, ha, rfl⟩ := Option.map_eq_some_iff.mp hc
    obtain ⟨y, hy, rfl⟩ := Option.map_eq_some_iff.mp hx
    have hinner := ih hprintable ha hy fun h => ⟨h.toSays, fun _ => h⟩
    exact ⟨says_not hinner.1, fun h => by cases h⟩
  | isNull inner ih =>
    obtain ⟨a, ha, rfl⟩ := Option.map_eq_some_iff.mp hc
    obtain ⟨y, hy, rfl⟩ := Option.map_eq_some_iff.mp hx
    have hinner := ih hprintable.1 ha hy fun h => ⟨h.toSays, fun _ => h⟩
    exact ⟨says_isNull (hinner.2 hprintable.2), fun h => by cases h⟩
  | isNotNull inner ih =>
    obtain ⟨a, ha, rfl⟩ := Option.map_eq_some_iff.mp hc
    obtain ⟨y, hy, rfl⟩ := Option.map_eq_some_iff.mp hx
    have hinner := ih hprintable.1 ha hy fun h => ⟨h.toSays, fun _ => h⟩
    exact ⟨says_isNotNull (hinner.2 hprintable.2), fun h => by cases h⟩
  | other => cases hc

theorem intercalate_cons (sep x : List Char) (xs : List (List Char)) :
    sep.intercalate (x :: xs) = x ++ xs.flatMap (sep ++ ·) := by
  induction xs generalizing x with
  | nil => simp
  | cons y ys ih =>
    rw [List.intercalate_cons_cons, ih, List.flatMap_cons]
    simp

/-- Texts added to a conjunction add their conditions. -/
theorem reads_conjuncts (parts : List (List Char × Condition)) (hparts : ∀ p ∈ parts, Says p.1 p.2)
    (a : Condition) :
    ∃ ts c, tokens (parts.flatMap fun p => " AND ".toList ++ p.1) = some ts ∧
      EndsValue ts ∧ Delimited (parts.flatMap fun p => " AND ".toList ++ p.1) ∧
      conditions.Reads (.andRest a) ts c [] ∧
      ∀ row, c.IsTrue row ↔ a.IsTrue row ∧ ∀ p ∈ parts, p.2.IsTrue row := by
  induction parts generalizing a with
  | nil =>
    refine ⟨[], a, rfl, ⟨by simp, by simp⟩, Or.inl rfl, .andRest_stop (by simp), fun row => ?_⟩
    simp
  | cons p parts ih =>
    obtain ⟨hp, hparts⟩ := List.forall_mem_cons.mp hparts
    obtain ⟨us, hspells, hreads⟩ := hp
    obtain ⟨ts, c, hts, hends, hdelimited, hrest, htrue⟩ := ih hparts (.and a p.2)
    have hand : Spells "AND".toList [.and] := @spells_of_read _ [] [.and] _ rfl rfl (by decide)
    have htext : (p :: parts).flatMap (fun p => " AND ".toList ++ p.1) =
        ' ' :: (("AND".toList ++ ' ' :: p.1) ++ parts.flatMap fun p => " AND ".toList ++ p.1) := by
      rw [List.flatMap_cons, (by decide : " AND ".toList = ' ' :: ("AND".toList ++ [' ']))]
      simp
    refine ⟨.and :: (us ++ ts), c, ?_, ⟨by simp [Token.and], by simp [Token.and, Token.is]⟩, ?_,
      (hreads ts hends).andRest hrest, fun row => ?_⟩
    · rw [htext, tokens_space, hand.space hspells _ hdelimited, hts]
      simp
    · rw [htext]
      exact delimited_space _
    · rw [htrue row, Condition.isTrue_and, List.forall_mem_cons, and_assoc]

/-- A pushed-down clause loses no row when its filters are printable: it reads as their
conjunction. -/
theorem keepsRows_of_printable {filters : List Expr}
    (h : ∀ f ∈ filters, (exprToSql f).isSome → f.Printable) : KeepsRows filters := by
  intro row htrue
  have hparts : ∃ parts : List (List Char × Condition), filters.filterMap exprToSql = parts.map (·.1) ∧
      ∀ p ∈ parts, Says p.1 p.2 ∧ p.2.IsTrue row := by
    induction filters with
    | nil => exact ⟨[], rfl, by simp⟩
    | cons f filters ih =>
      obtain ⟨⟨c, hc, hctrue⟩, hrest⟩ := List.forall_mem_cons.mp htrue
      obtain ⟨hf, hprintable⟩ := List.forall_mem_cons.mp h
      obtain ⟨parts, hmap, hsays⟩ := ih hprintable hrest
      cases hx : exprToSql f with
      | none => exact ⟨parts, by rw [List.filterMap_cons_none hx, hmap], hsays⟩
      | some x =>
        have hsome := exprToSql_says (hf (by rw [hx]; rfl)) hc hx
        refine ⟨(x, c) :: parts, by rw [List.filterMap_cons_some hx, hmap]; rfl, ?_⟩
        exact List.forall_mem_cons.mpr ⟨⟨hsome.1, hctrue⟩, hsays⟩
  obtain ⟨parts, hmap, hsays⟩ := hparts
  unfold whereClause
  rw [hmap]
  cases parts with
  | nil => exact Or.inl rfl
  | cons p parts =>
    right
    obtain ⟨⟨⟨us, hspells, hreads⟩, hp⟩, hrest⟩ := List.forall_mem_cons.mp hsays
    obtain ⟨ts, c, hts, hends, hdelimited, hreads', htrue'⟩ :=
      reads_conjuncts parts (fun q hq => (hrest q hq).1) p.2
    have hwhere : Spells "WHERE".toList [tokenWhere] :=
      @spells_of_read _ [] [tokenWhere] _ rfl rfl (by decide)
    have htext : " WHERE ".toList ++ " AND ".toList.intercalate ((p :: parts).map (·.1)) =
        ' ' :: (("WHERE".toList ++ ' ' :: p.1) ++ parts.flatMap fun p => " AND ".toList ++ p.1) := by
      rw [List.map_cons, intercalate_cons, List.flatMap_map,
        (by decide : " WHERE ".toList = ' ' :: ("WHERE".toList ++ [' ']))]
      simp
    refine ⟨us ++ ts, c, ?_, ?_, ?_⟩
    · simp only [List.map_cons, List.isEmpty_cons] at htext ⊢
      rw [if_neg (by simp), htext, tokens_space, hwhere.space hspells _ hdelimited, hts]
      simp
    · have hfirst := (hreads ts hends).and hreads'
      exact hfirst.or (.orRest_stop (by simp))
    · exact (htrue' row).mpr ⟨hp, fun q hq => (hrest q hq).2⟩

section Orders

/-- `age > 30 AND NOT (name IS NULL)` and `NOT closed`. -/
def ordersFilters : List Expr := [
  .binaryExpr (.binaryExpr (.column "age".toList) .gt (.literal (.int32 (some 30)))) .and
    (.not (.isNull (.column "name".toList))),
  .not (.column "closed".toList)]

theorem keepsRows_orders : KeepsRows ordersFilters := by
  refine keepsRows_of_printable fun f hf _ => ?_
  simp only [ordersFilters, List.mem_cons, List.not_mem_nil, or_false] at hf
  rcases hf with rfl | rfl
  · simp [Expr.Printable, Expr.isValue, Operator.comparison]
  · simp [Expr.Printable]

theorem not_clauseHolds {row : Row} {clause : List Char} {ts rest : List Token} {c : Condition}
    {n : ℕ} (htokens : tokens clause = some (tokenWhere :: ts))
    (hread : conditions.read n .or ts = some (c, rest))
    (hfalse : c.eval row ≠ .bool true ∨ rest ≠ []) : ¬ ClauseHolds row clause := by
  rintro (rfl | ⟨us, d, hus, hd, htrue⟩)
  · exact absurd htokens (by simp [tokens, Mode.tokens, Mode.finish])
  · rw [htokens, Option.some.injEq, List.cons.injEq] at hus
    obtain ⟨-, rfl⟩ := hus
    obtain ⟨rfl, hrest⟩ := Grammar.Reads.unique ⟨n, hread⟩ hd
    rcases hfalse with hc | hne
    · exact hc htrue
    · exact hne hrest

/-- `(NOT closed) IS NULL` is sent as `NOT "closed" IS NULL`, which Trino reads as
`NOT ("closed" IS NULL)`; a null test of a null test does not read; a double quote in a column
name ends it. -/
theorem not_keepsRows_orders :
    ¬ KeepsRows [.isNull (.not (.column "closed".toList))] ∧
      ¬ KeepsRows [.isNotNull (.isNull (.column "closed".toList))] ∧
      ¬ KeepsRows [.column "is \"closed".toList] := by
  refine ⟨fun h => ?_, fun h => ?_, fun h => ?_⟩
  · have hclause := h (fun _ => .null) (by simp [Expr.TrueOn, Expr.condition]; decide)
    have htokens : tokens (whereClause [.isNull (.not (.column "closed".toList))]) =
        some (tokenWhere :: [.not, .ident "closed".toList, .is, .null]) := by decide +kernel
    have hread : conditions.read 9 .or [.not, .ident "closed".toList, .is, .null] =
        some (.not (.isNull (.column "closed".toList)), []) := by decide +kernel
    exact not_clauseHolds htokens hread (Or.inl (by decide +kernel)) hclause
  · have hclause := h (fun _ => .null) (by simp [Expr.TrueOn, Expr.condition]; decide)
    have htokens : tokens (whereClause [.isNotNull (.isNull (.column "closed".toList))]) =
        some (tokenWhere :: [.ident "closed".toList, .is, .null, .is, .not, .null]) := by
      decide +kernel
    have hread : conditions.read 9 .or [.ident "closed".toList, .is, .null, .is, .not, .null] =
        some (.isNull (.column "closed".toList), [.is, .not, .null]) := by decide +kernel
    exact not_clauseHolds htokens hread (Or.inr (by decide)) hclause
  · have hclause := h (fun _ => .bool true) (by simp [Expr.TrueOn, Expr.condition]; decide)
    rcases hclause with hnil | ⟨ts, c, hts, -⟩
    · exact absurd hnil (by decide +kernel)
    · have hnone : tokens (whereClause [.column "is \"closed".toList]) = none := by decide +kernel
      rw [hnone] at hts
      cases hts

end Orders
end RustLake.Trino
