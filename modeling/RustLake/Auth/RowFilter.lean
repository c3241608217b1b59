import RustLake.Sql.Logic
import RustLake.Text.Replace

/-! Row-level security as `apply_row_filter` adds it to the text of a query, and the rows that
the query reads then. -/
namespace RustLake.Auth
open RustLake.Sql RustLake.Text

structure TablePolicy where
  tablePattern : List Char
  rowFilterSql : Option (List Char)
deriving DecidableEq

structure Claims where
  username : List Char
  roles : List (List Char)
deriving DecidableEq

def whereText : List Char := "where".toList

def placeholder : List Char := "\x7busername\x7d".toList

def boundaries : List (List Char) :=
  ["group by", "order by", "having", "limit", "union", "intersect", "except"].map String.toList

/-- Where a `WHERE` clause can be inserted: before the first of these words, or at the end. -/
def findClauseBoundary (sqlLower : List Char) : ℕ :=
  boundaries.foldl (fun earliest kw => match find kw sqlLower with
    | some pos => if pos < earliest then pos else earliest
    | none => earliest) (byteLength sqlLower)

/-- Put a filter into a query; none where the slicing panics. -/
def injectFilter (lower : Lowercase) (resolvedFilter result : List Char) : Option (List Char) :=
  match rfind whereText (lower.text result) with
  | some wherePos => (splitAtByte? (wherePos + 6) result).map fun parts =>
    parts.1 ++ " (".toList ++ resolvedFilter ++ ") AND ".toList ++ parts.2
  | none => (splitAtByte? (findClauseBoundary (lower.text result)) result).map fun parts =>
    parts.1 ++ " WHERE ".toList ++ resolvedFilter ++ parts.2

/-- The table pattern without its wildcards. -/
def TablePolicy.tableName (policy : TablePolicy) : List Char :=
  policy.tablePattern.filter (· ≠ '*')

def resolve (username filter : List Char) : List Char := replaceAll placeholder username filter

def applyPolicy (lower : Lowercase) (username : List Char) (result : List Char)
    (policy : TablePolicy) : Option (List Char) :=
  match policy.rowFilterSql with
  | none => some result
  | some filter =>
    if policy.tableName = [] then some result
    else if lower.text policy.tableName <:+: lower.text result then
      injectFilter lower (resolve username filter) result
    else some result

def applyRowFilter (lower : Lowercase) (sql : List Char) (policies : List TablePolicy)
    (claims : Claims) : Option (List Char) :=
  if "admin".toList ∈ claims.roles then some sql
  else policies.foldlM (applyPolicy lower claims.username) sql

section
variable {E Row : Type} (S : Logic E Row) (lower : Lowercase)

/-- The user's name in place of the placeholder in a string. -/
def withUsername (username : List Char) : Token → Token
  | .str s => .str (resolve username s)
  | t => t

/-- The condition that a policy sets for a user. -/
def TablePolicy.Demands (policy : TablePolicy) (username : List Char) (f : E) : Prop :=
  ∃ filter ts, policy.rowFilterSql = some filter ∧ tokens filter = some ts ∧
    S.ReadsAs (ts.map (withUsername username)) f

/-- The text is a query on the table, and reads only rows that satisfy all policies. -/
def Guarded (table : List Token) (policies : List TablePolicy) (username : List Char)
    (result : List Char) : Prop :=
  ∃ ts q, tokens result = some ts ∧ S.ReadsSelect ts q ∧ q.table = table ∧
    ∀ row, q.Passes S row → ∀ policy ∈ policies, ∀ f, policy.Demands S username f →
      S.holds f row = some true

/-- The policy is found to be about the table named in a text; the user's name changes only
strings of its filter, which stands by itself and does not hold the word "where". -/
structure TablePolicy.Fits (policy : TablePolicy) (username head filter : List Char)
    (ts : List Token) (f : E) : Prop where
  filter_eq : policy.rowFilterSql = some filter
  named : policy.tableName ≠ []
  found : lower.text policy.tableName <:+: lower.text head
  tokens_eq : tokens filter = some ts
  spells : Spells (resolve username filter) (ts.map (withUsername username))
  reads : S.ReadsAs (ts.map (withUsername username)) f
  noWhere : ¬ whereText <:+: lower.text (resolve username filter)

/-- Each of the policies sets no filter or fits. -/
def AllFit (policies : List TablePolicy) (username head : List Char) : Prop :=
  ∀ policy ∈ policies, policy.rowFilterSql = none ∨
    ∃ filter ts f, policy.Fits S lower username head filter ts f

/-- A query whose last "where" is the keyword of its condition, with one blank after it. -/
structure WhereQuery where
  header : Header
  head : List Char
  keyword : List Char
  blank : Char
  body : List Char
  bodyTokens : List Token
  cond : E
  tail : List Token
  isBlank : blank.toNat < 128
  isKeyword : keyword.map Char.toLower = whereText
  read_head : Mode.start.read (head ++ keyword ++ [blank]) =
    (header.tokens ++ [.whereWord], .start)
  tokens_body : tokens body = some bodyTokens
  reads : S.Reads .or bodyTokens cond tail
  isTail : isTail tail = true
  sameLength : byteLength (lower.text head) = byteLength head
  noWhere : ¬ whereText <:+: lower.text (blank :: body)

/-- A query without "where", cut before the clauses that follow the table. -/
structure PlainQuery where
  header : Header
  head : List Char
  tail : List Char
  tailTokens : List Token
  read_head : Mode.start.read (head ++ [' ']) = (header.tokens, .start)
  tokens_eq : tokens (head ++ tail) = some (header.tokens ++ tailTokens)
  isTail : isTail tailTokens = true
  boundary : findClauseBoundary (lower.text (head ++ tail)) = byteLength head
  noWhere : ¬ whereText <:+: lower.text (head ++ tail)

variable {S lower}

def WhereQuery.text (q : WhereQuery S lower) : List Char :=
  q.head ++ q.keyword ++ q.blank :: q.body

/-- Its condition is read without any `OR` outside parentheses. -/
def WhereQuery.Conjunctive (q : WhereQuery S lower) : Prop :=
  S.Reads .and q.bodyTokens q.cond q.tail

/-- The policies whose filters can be added to a query without a condition. The first filter
ends before the clauses that follow, and where more are added it must be a conjunction. -/
inductive PlainQuery.Takes (q : PlainQuery lower) (username : List Char) :
    List TablePolicy → Prop where
  | done : q.Takes username []
  | skip {policy policies} : policy.rowFilterSql = none → q.Takes username policies →
      q.Takes username (policy :: policies)
  | add {policy policies filter ts f} : policy.Fits S lower username q.head filter ts f →
      tokens (resolve username filter ++ q.tail) =
        some (ts.map (withUsername username) ++ q.tailTokens) →
      ¬ whereText <:+: lower.text (resolve username filter ++ q.tail) →
      byteLength (lower.text q.head) = byteLength q.head →
      S.Reads .and (ts.map (withUsername username)) f [] →
      AllFit S lower policies username q.head →
      q.Takes username (policy :: policies)
  | addLast {policy policies filter ts f} : policy.Fits S lower username q.head filter ts f →
      tokens (resolve username filter ++ q.tail) =
        some (ts.map (withUsername username) ++ q.tailTokens) →
      (∀ later ∈ policies, later.rowFilterSql = none) →
      q.Takes username (policy :: policies)

/-- The query is one to which the filters can be added as text. -/
inductive Takes (S : Logic E Row) (lower : Lowercase) (username : List Char)
    (policies : List TablePolicy) : List Char → List Token → Prop where
  | cond (q : WhereQuery S lower) : q.Conjunctive → AllFit S lower policies username q.head →
      Takes S lower username policies q.text q.header.table
  | plain (q : PlainQuery lower) : q.Takes (S := S) username policies →
      Takes S lower username policies (q.head ++ q.tail) q.header.table

end
end RustLake.Auth
