import RustLake.Sql.Condition

/-! Grammars of boolean expressions with a meaning: what is read before a closing parenthesis or
the next clause, and conjunctions put in front. -/
namespace RustLake.Sql

def Token.isClause : Token → Bool
  | .word w => w ∈ clauseWords
  | _ => false

/-- Tokens that no expression goes on with. -/
def Stops (ts : List Token) : Prop :=
  ∃ t rest, ts = t :: rest ∧ (t = .sym ')' ∨ t.isClause = true)

theorem Stops.head_ne {ts : List Token} (h : Stops ts) {t : Token} (hsym : t ≠ .sym ')')
    (hclause : t.isClause = false) : ts.head? ≠ some t := by
  obtain ⟨u, rest, rfl, rfl | hu⟩ := h
  · simpa using Ne.symm hsym
  · rintro heq
    have hut : u = t := by simpa using heq
    simp [hut, hclause] at hu

/-- Other tokens at the front of a longer list were at its front before. -/
theorem Stops.front {extra ts us front : List Token} (h : Stops extra)
    (hfront : ∀ t ∈ front, t ≠ .sym ')' ∧ t.isClause = false)
    (heq : ts ++ extra = front ++ us) : ∃ rest, ts = front ++ rest := by
  rcases List.append_eq_append_iff.mp heq with ⟨a, hfirst, hextra⟩ | ⟨a, hts, -⟩
  · cases a with
    | nil => exact ⟨[], by simpa using hfirst.symm⟩
    | cons t a =>
      obtain ⟨hsym, hclause⟩ := hfront t (by simp [hfirst])
      exact absurd (by rw [hextra]; rfl) (h.head_ne hsym hclause)
  · exact ⟨a, hts⟩

/-- A grammar whose expressions are true, false or unknown on a row. `AND` and parentheses mean
what they do in SQL, and an operand is read the same when something follows that it cannot go
on with. -/
structure Logic (E Row : Type) extends Grammar E where
  holds : E → Row → Truth
  holds_and : ∀ a b row, holds (and a b) row = (holds a row).and (holds b row)
  operand_paren : ∀ {f : List Token → Option (E × List Token)} {ts rest : List Token} {a : E},
    f ts = some (a, .sym ')' :: .and :: rest) →
      operand f (.sym '(' :: ts) = some (a, .and :: rest)
  operand_append : ∀ {f f' : List Token → Option (E × List Token)} {extra : List Token},
    Stops extra → (∀ ts x, f ts = some x → f' (ts ++ extra) = some (x.1, x.2 ++ extra)) →
      ∀ {ts x}, operand f ts = some x → operand f' (ts ++ extra) = some (x.1, x.2 ++ extra)

namespace Logic
variable {E Row : Type} {S : Logic E Row} {ts ts' rest extra : List Token} {a b c : E}

theorem read_append (hextra : Stops extra) {n : ℕ} {level : Level E} {x : E × List Token}
    (h : S.read n level ts = some x) :
    S.read n level (ts ++ extra) = some (x.1, x.2 ++ extra) := by
  induction n generalizing level ts x with
  | zero => cases h
  | succ n ih =>
    cases level with
    | or =>
      obtain ⟨r, hr, hrest⟩ := Option.bind_eq_some_iff.mp h
      exact Option.bind_eq_some_iff.mpr ⟨_, ih hr, ih hrest⟩
    | and =>
      obtain ⟨r, hr, hrest⟩ := Option.bind_eq_some_iff.mp h
      exact Option.bind_eq_some_iff.mpr ⟨_, ih hr, ih hrest⟩
    | orRest a =>
      unfold Grammar.read at h ⊢
      split at h
      · obtain ⟨r, hr, hrest⟩ := Option.bind_eq_some_iff.mp h
        exact Option.bind_eq_some_iff.mpr ⟨_, ih hr, ih hrest⟩
      · rename_i hne
        obtain rfl := Option.some.inj h
        split
        · rename_i us heq
          have hplain : ∀ t ∈ [Token.or], t ≠ .sym ')' ∧ t.isClause = false := by decide
          obtain ⟨rest, hfront⟩ := hextra.front hplain heq
          exact absurd hfront (hne rest)
        · rfl
    | andRest a =>
      unfold Grammar.read at h ⊢
      split at h
      · obtain ⟨r, hr, hrest⟩ := Option.bind_eq_some_iff.mp h
        exact Option.bind_eq_some_iff.mpr ⟨_, ih hr, ih hrest⟩
      · rename_i hne
        obtain rfl := Option.some.inj h
        split
        · rename_i us heq
          have hplain : ∀ t ∈ [Token.and], t ≠ .sym ')' ∧ t.isClause = false := by decide
          obtain ⟨rest, hfront⟩ := hextra.front hplain heq
          exact absurd hfront (hne rest)
        · rfl
    | not =>
      unfold Grammar.read at h ⊢
      split at h
      · obtain ⟨r, hr, rfl⟩ := Option.map_eq_some_iff.mp h
        exact Option.map_eq_some_iff.mpr ⟨_, ih hr, rfl⟩
      · rename_i hne
        split
        · rename_i us heq
          have hplain : ∀ t ∈ [Token.not], t ≠ .sym ')' ∧ t.isClause = false := by decide
          obtain ⟨rest, hfront⟩ := hextra.front hplain heq
          exact absurd hfront (hne rest)
        · exact S.operand_append hextra (fun ts x hx => ih hx) h

/-- What reads by itself reads the same before something that no expression goes on with. -/
theorem reads_append (hextra : Stops extra) {level : Level E} (h : S.Reads level ts a rest) :
    S.Reads level (ts ++ extra) a (rest ++ extra) := by
  obtain ⟨n, hn⟩ := h
  exact ⟨n, read_append hextra hn⟩

/-- An expression in parentheses before `AND`. -/
theorem reads_paren (h : S.ReadsAs ts a) :
    S.Reads .not (.sym '(' :: ts ++ .sym ')' :: .and :: rest) a (.and :: rest) := by
  have hclose : Stops (.sym ')' :: .and :: rest) := ⟨_, _, rfl, Or.inl rfl⟩
  obtain ⟨n, hn⟩ := reads_append hclose h
  exact Grammar.Reads.operand (n := n) (by simp [Token.not]) (S.operand_paren hn)

/-- A conjunction read after a longer first part holds where both do. -/
theorem andRest_front (h : S.Reads (.andRest a) ts c rest) {d : E}
    (hd : ∀ row, S.holds d row = some true → S.holds b row = some true ∧ S.holds a row = some true) :
    ∃ e, S.Reads (.andRest d) ts e rest ∧ ∀ row, S.holds e row = some true →
      S.holds b row = some true ∧ S.holds c row = some true := by
  obtain ⟨n, hn⟩ := h
  induction n generalizing a ts d with
  | zero => cases hn
  | succ n ih =>
    unfold Grammar.read at hn
    split at hn
    · rename_i us
      obtain ⟨r, hr, hrest⟩ := Option.bind_eq_some_iff.mp hn
      have hstep : ∀ row, S.holds (S.and d r.1) row = some true →
          S.holds b row = some true ∧ S.holds (S.and a r.1) row = some true := by
        intro row hrow
        rw [S.holds_and, Truth.and_eq_true] at hrow
        obtain ⟨hb, ha⟩ := hd row hrow.1
        rw [S.holds_and, Truth.and_eq_true]
        exact ⟨hb, ha, hrow.2⟩
      obtain ⟨e, he, hholds⟩ := ih hstep hrest
      exact ⟨e, Grammar.Reads.andRest ⟨n, hr⟩ he, hholds⟩
    · rename_i hne
      obtain ⟨rfl, rfl⟩ := Prod.mk.inj (Option.some.inj hn)
      refine ⟨d, .andRest_stop fun hhead => ?_, hd⟩
      cases ts with
      | nil => cases hhead
      | cons t ts => exact hne ts (congrArg (· :: ts) (Option.some.inj hhead))

/-- A conjunction with an expression put in front of it, in parentheses. -/
theorem reads_and_front (hb : S.ReadsAs ts b) (hc : S.Reads .and ts' c rest) :
    ∃ e, S.Reads .and (.sym '(' :: ts ++ .sym ')' :: .and :: ts') e rest ∧
      ∀ row, S.holds e row = some true → S.holds b row = some true ∧ S.holds c row = some true := by
  obtain ⟨n, hn⟩ := hc
  cases n with
  | zero => cases hn
  | succ n =>
    obtain ⟨r, hr, hrest⟩ := Option.bind_eq_some_iff.mp hn
    have hboth : ∀ row, S.holds (S.and b r.1) row = some true →
        S.holds b row = some true ∧ S.holds r.1 row = some true := by
      intro row hrow
      rwa [S.holds_and, Truth.and_eq_true] at hrow
    obtain ⟨e, he, hholds⟩ := andRest_front ⟨n, hrest⟩ hboth
    exact ⟨e, (reads_paren hb).and (.andRest ⟨n, hr⟩ he), hholds⟩

end Logic

section
variable {f f' : List Token → Option (Condition × List Token)} {extra : List Token}

theorem readValue_append (hf : ∀ ts x, f ts = some x → f' (ts ++ extra) = some (x.1, x.2 ++ extra))
    {ts : List Token} {x : Condition × List Token} (h : readValue f ts = some x) :
    readValue f' (ts ++ extra) = some (x.1, x.2 ++ extra) := by
  unfold readValue at h
  split at h
  · obtain ⟨r, hr, hx⟩ := Option.bind_eq_some_iff.mp h
    split at hx
    · rename_i rest hclose
      obtain rfl := Option.some.inj hx
      refine Option.bind_eq_some_iff.mpr ⟨_, hf _ _ hr, ?_⟩
      simp [hclose]
    · cases hx
  · obtain rfl := Option.some.inj h
    rfl
  · obtain rfl := Option.some.inj h
    rfl
  · obtain rfl := Option.some.inj h
    rfl
  · obtain rfl := Option.some.inj h
    rfl
  · rename_i w us
    rw [List.cons_append, readValue]
    split_ifs at h ⊢
    all_goals
      obtain rfl := Option.some.inj h
      rfl
  · cases h

theorem readTest_append (hextra : Stops extra)
    (hf : ∀ ts x, f ts = some x → f' (ts ++ extra) = some (x.1, x.2 ++ extra)) {a : Condition}
    {ts : List Token} {x : Condition × List Token} (h : readTest f a ts = some x) :
    readTest f' a (ts ++ extra) = some (x.1, x.2 ++ extra) := by
  unfold readTest at h
  split at h
  · obtain ⟨r, hr, rfl⟩ := Option.map_eq_some_iff.mp h
    exact Option.map_eq_some_iff.mpr ⟨_, readValue_append hf hr, rfl⟩
  · obtain rfl := Option.some.inj h
    rfl
  · obtain rfl := Option.some.inj h
    rfl
  · rename_i hcmp hnull hnotnull
    obtain rfl := Option.some.inj h
    unfold readTest
    split
    · rename_i op us heq
      have hplain : ∀ t ∈ [Token.cmp op], t ≠ .sym ')' ∧ t.isClause = false := by simp [Token.isClause]
      obtain ⟨rest, hfront⟩ := hextra.front hplain heq
      exact absurd hfront (hcmp op rest)
    · rename_i us heq
      have hplain : ∀ t ∈ [Token.is, .null], t ≠ .sym ')' ∧ t.isClause = false := by decide
      obtain ⟨rest, hfront⟩ := hextra.front hplain heq
      exact absurd hfront (hnull rest)
    · rename_i us heq
      have hplain : ∀ t ∈ [Token.is, .not, .null], t ≠ .sym ')' ∧ t.isClause = false := by decide
      obtain ⟨rest, hfront⟩ := hextra.front hplain heq
      exact absurd hfront (hnotnull rest)
    · rfl

end

/-- Conditions hold on a row when their value there is true. -/
def conditionLogic : Logic Condition Row where
  toGrammar := conditions
  holds c row := (c.eval row).truth
  holds_and a b row := by
    have htruth : ∀ t : Truth, (Val.ofTruth t).truth = t := by
      rintro (_ | _ | _) <;> rfl
    exact htruth _
  operand_paren h := by
    have hvalue : readValue _ (.sym '(' :: _) = some (_, .and :: _) :=
      Option.bind_eq_some_iff.mpr ⟨_, h, rfl⟩
    exact Option.bind_eq_some_iff.mpr ⟨_, hvalue, rfl⟩
  operand_append hextra hf _ _ h := by
    obtain ⟨r, hr, hx⟩ := Option.bind_eq_some_iff.mp h
    exact Option.bind_eq_some_iff.mpr
      ⟨_, readValue_append hf hr, readTest_append hextra hf hx⟩

end RustLake.Sql

/-! Queries on one table: a projection, the table, an optional condition, and the clauses that
group, order and limit the rows. -/
namespace RustLake.Sql

@[match_pattern] def Token.selectWord : Token := .word ['s', 'e', 'l', 'e', 'c', 't']
@[match_pattern] def Token.fromWord : Token := .word ['f', 'r', 'o', 'm']
@[match_pattern] def Token.whereWord : Token := .word ['w', 'h', 'e', 'r', 'e']

structure Select (E : Type) where
  projection : List Token
  table : List Token
  cond : Option E
  tail : List Token
deriving DecidableEq

def isProjection (ts : List Token) : Bool := !ts.isEmpty && ts.all fun t => !t.isClause

/-- A name, qualified or with an alias, and no second table. -/
def isTable (ts : List Token) : Bool :=
  !ts.isEmpty && ts.all fun t => match t with
    | .word w => !t.isClause && decide (w ≠ "join".toList)
    | .ident _ => true
    | t => decide (t = .sym '.')

/-- Nothing, or clauses after the condition that begin no other query. -/
def isTail (ts : List Token) : Bool :=
  (ts.head?.all fun t => t.isClause) &&
    ts.all fun t => t ≠ .sym ';' ∧
      t ∉ ["select", "from", "where", "union", "intersect", "except"].map fun w => .word w.toList

/-- The query with these parts and what follows its table. -/
def readClauses {E : Type} (g : Grammar E) (n : ℕ) (projection table : List Token) :
    List Token → Option (Select E)
  | .whereWord :: ts => (g.read n .or ts).bind fun r =>
    if isProjection projection && isTable table && isTail r.2 then
      some ⟨projection, table, some r.1, r.2⟩
    else none
  | tail =>
    if isProjection projection && isTable table && isTail tail then
      some ⟨projection, table, none, tail⟩
    else none

def readTable {E : Type} (g : Grammar E) (n : ℕ) (projection : List Token) :
    List Token → Option (Select E)
  | .fromWord :: ts => readClauses g n projection (ts.takeWhile fun t => !t.isClause)
      (ts.dropWhile fun t => !t.isClause)
  | _ => none

def readSelect {E : Type} (g : Grammar E) (n : ℕ) : List Token → Option (Select E)
  | .selectWord :: ts =>
    readTable g n (ts.takeWhile (· ≠ .fromWord)) (ts.dropWhile (· ≠ .fromWord))
  | _ => none

/-- The tokens are a query on one table. -/
def Grammar.ReadsSelect {E : Type} (g : Grammar E) (ts : List Token) (q : Select E) : Prop :=
  ∃ n, readSelect g n ts = some q

/-- The rows of its table that a query reads. -/
def Select.Passes {E Row : Type} (S : Logic E Row) (q : Select E) (row : Row) : Prop :=
  ∀ c, q.cond = some c → S.holds c row = some true

variable {E : Type} {g : Grammar E}

theorem readClauses_mono {n m : ℕ} (hle : n ≤ m) {projection table ts : List Token} {q : Select E}
    (h : readClauses g n projection table ts = some q) :
    readClauses g m projection table ts = some q := by
  unfold readClauses at h ⊢
  split at h
  · obtain ⟨r, hr, hq⟩ := Option.bind_eq_some_iff.mp h
    exact Option.bind_eq_some_iff.mpr ⟨r, Grammar.read_mono hle hr, hq⟩
  · exact h

theorem readSelect_mono {n m : ℕ} (hle : n ≤ m) {ts : List Token} {q : Select E}
    (h : readSelect g n ts = some q) : readSelect g m ts = some q := by
  unfold readSelect at h ⊢
  split at h
  · unfold readTable at h ⊢
    split at h
    · exact readClauses_mono hle h
    · cases h
  · cases h

theorem Grammar.ReadsSelect.unique {ts : List Token} {p q : Select E} (hp : g.ReadsSelect ts p)
    (hq : g.ReadsSelect ts q) : p = q := by
  obtain ⟨n, hn⟩ := hp
  obtain ⟨m, hm⟩ := hq
  have hsame := (readSelect_mono (le_max_left n m) hn).symm.trans
    (readSelect_mono (le_max_right n m) hm)
  exact Option.some.inj hsame

/-- The part of a query up to its table. -/
structure Header where
  projection : List Token
  table : List Token
  isProjection : isProjection projection = true
  isTable : isTable table = true

def Header.tokens (h : Header) : List Token :=
  .selectWord :: h.projection ++ .fromWord :: h.table

theorem Header.no_from (h : Header) : ∀ t ∈ h.projection, decide (t ≠ .fromWord) = true := by
  intro t ht
  have hproj := h.isProjection
  simp only [Sql.isProjection, Bool.and_eq_true, List.all_eq_true] at hproj
  have hclause := hproj.2 t ht
  rw [decide_eq_true_eq]
  rintro rfl
  exact absurd hclause (by decide)

theorem Header.no_clause (h : Header) : ∀ t ∈ h.table, (!t.isClause) = true := by
  intro t ht
  have htable := h.isTable
  simp only [Sql.isTable, Bool.and_eq_true, List.all_eq_true] at htable
  have hkind := htable.2 t ht
  cases t with
  | word w => exact (Bool.and_eq_true_iff.mp hkind).1
  | _ => rfl

/-- What follows the table of a query decides how it reads. -/
theorem readSelect_header (h : Header) (n : ℕ) {rest : List Token}
    (hrest : rest.head?.all fun t => t.isClause) :
    readSelect g n (h.tokens ++ rest) = readClauses g n h.projection h.table rest := by
  have htext : h.tokens ++ rest =
      .selectWord :: (h.projection ++ .fromWord :: (h.table ++ rest)) := by
    simp [Header.tokens]
  have hstop : rest.takeWhile (fun t => !t.isClause) = [] ∧
      rest.dropWhile (fun t => !t.isClause) = rest := by
    cases rest with
    | nil => exact ⟨rfl, rfl⟩
    | cons t rest =>
      have ht : t.isClause = true := by simpa using hrest
      simp [ht]
  have hfrom : (h.projection ++ .fromWord :: (h.table ++ rest)).takeWhile (· ≠ .fromWord) =
        h.projection ∧
      (h.projection ++ .fromWord :: (h.table ++ rest)).dropWhile (· ≠ .fromWord) =
        .fromWord :: (h.table ++ rest) := by
    rw [List.takeWhile_append_of_pos h.no_from, List.dropWhile_append_of_pos h.no_from]
    simp
  have htable : (h.table ++ rest).takeWhile (fun t => !t.isClause) = h.table ∧
      (h.table ++ rest).dropWhile (fun t => !t.isClause) = rest := by
    rw [List.takeWhile_append_of_pos h.no_clause, List.dropWhile_append_of_pos h.no_clause,
      hstop.1, hstop.2, List.append_nil]
    exact ⟨rfl, rfl⟩
  rw [htext]
  change readTable g n ((h.projection ++ .fromWord :: (h.table ++ rest)).takeWhile (· ≠ .fromWord))
    ((h.projection ++ .fromWord :: (h.table ++ rest)).dropWhile (· ≠ .fromWord)) = _
  rw [hfrom.1, hfrom.2]
  change readClauses g n h.projection ((h.table ++ rest).takeWhile fun t => !t.isClause)
    ((h.table ++ rest).dropWhile fun t => !t.isClause) = _
  rw [htable.1, htable.2]

/-- A query with a condition. -/
theorem readsSelect_where (h : Header) {ts tail : List Token} {c : E}
    (hc : g.Reads .or ts c tail) (htail : isTail tail = true) :
    g.ReadsSelect (h.tokens ++ .whereWord :: ts) ⟨h.projection, h.table, some c, tail⟩ := by
  obtain ⟨n, hn⟩ := hc
  refine ⟨n, ?_⟩
  rw [readSelect_header h n (by rfl)]
  refine Option.bind_eq_some_iff.mpr ⟨(c, tail), hn, ?_⟩
  simp [h.isProjection, h.isTable, htail]

/-- A query without a condition. -/
theorem readsSelect_plain (h : Header) {tail : List Token} (htail : isTail tail = true) :
    g.ReadsSelect (h.tokens ++ tail) ⟨h.projection, h.table, none, tail⟩ := by
  refine ⟨0, ?_⟩
  rw [readSelect_header h 0 (Bool.and_eq_true_iff.mp htail).1]
  unfold readClauses
  split
  · exact absurd htail (by simp [isTail])
  · simp [h.isProjection, h.isTable, htail]

end RustLake.Sql
