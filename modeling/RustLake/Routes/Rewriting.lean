import RustLake.Routes.Migration
import RustLake.Text.Pieces

/-! `migration_compare`: a query of Trino is rewritten for the tables that were registered, and for
tables and views over their files. -/
namespace RustLake.Routes
open RustLake.Text

/-- The `\w` of a pattern; nothing is said of other characters than those of ASCII. -/
structure WordChars where
  char : Char → Bool
  ascii : ∀ c, c.toNat < 128 → char c = (c.isAlphanum || c = '_')

def trinoName (catalog schema table : List Char) : List Char :=
  "trino_".toList ++ catalog ++ '.' :: schema ++ '_' :: table

def dotted (catalog schema table : List Char) : List Char :=
  catalog ++ '.' :: schema ++ '.' :: table

def sqlKeywords : List String :=
  ["GROUP", "ORDER", "SELECT", "FROM", "WHERE", "JOIN", "LEFT", "RIGHT",
   "INNER", "OUTER", "CROSS", "ON", "AND", "OR", "NOT", "AS", "LIMIT",
   "OFFSET", "HAVING", "UNION", "INSERT", "INTO", "VALUES", "UPDATE",
   "DELETE", "CREATE", "DROP", "ALTER", "TABLE", "INDEX", "VIEW"]

section
variable (unicode : Unicode) (words : WordChars)

def isKeyword (word : List Char) : Bool :=
  sqlKeywords.any fun keyword => keyword.toList = unicode.upper.text word

/-- `[a-zA-Z_]\w*`, which takes all word characters, and what follows. -/
def identAt : List Char → Option (List Char × List Char)
  | [] => none
  | c :: s =>
    if c.isAlpha || c = '_' then
      some ((c :: s).takeWhile words.char, (c :: s).dropWhile words.char)
    else none

def afterDot : List Char → Option (List Char)
  | '.' :: s => some s
  | _ => none

/-- The three words of a match of the pattern at the front of a text. -/
def fqnAt (s : List Char) : Option (List Char × List Char × List Char) := do
  let (catalog, rest) ← identAt words s
  let (schema, rest) ← identAt words (← afterDot rest)
  let (table, _) ← identAt words (← afterDot rest)
  return (catalog, schema, table)

/-- What a match is replaced by; a match with a keyword in it stays. -/
def rewrittenFqn (fqn : List Char × List Char × List Char) : List Char :=
  let (catalog, schema, table) := fqn
  if isKeyword unicode catalog || isKeyword unicode schema || isKeyword unicode table then
    dotted catalog schema table
  else trinoName catalog schema table

/-- `replace_all` of the pattern; the number counts the letters left to skip of the last match, and a
match does not begin behind a word character. -/
def autoRewriteFrom : ℕ → Bool → List Char → List Char
  | _, _, [] => []
  | n + 1, _, c :: s => autoRewriteFrom n (words.char c) s
  | 0, true, c :: s => c :: autoRewriteFrom 0 (words.char c) s
  | 0, false, c :: s =>
    match fqnAt words (c :: s) with
    | some (catalog, schema, table) => rewrittenFqn unicode (catalog, schema, table) ++
        autoRewriteFrom (catalog.length + schema.length + table.length + 1) (words.char c) s
    | none => c :: autoRewriteFrom 0 (words.char c) s

def autoRewrite (s : List Char) : List Char := autoRewriteFrom unicode words 0 false s

/-- The tables of a connection that have a name in Rake, with that name. -/
def registeredNames (connId : List Char) (tables : List MigrationTable) :
    List (List Char × List Char) :=
  tables.filterMap fun t => if t.connId = connId then t.rakeTableName.map fun name => (t.fqn, name)
    else none

/-- The statement for Rake where the request has none. -/
def rakeSql (connId : List Char) (tables : List MigrationTable) (sql : List Char) : List Char :=
  autoRewrite unicode words (replaceEach (registeredNames connId tables) sql)

end

/-- The names of the tables of a connection with locations, as the map of locations holds them; it
gives them out in some order. -/
def s3Tables (connId : List Char) (tables : List MigrationTable) : List (List Char) :=
  ((tables.filter fun t => t.connId = connId && t.location.isSome).map (·.fqn)).dedup

/-- `splitn(3, '.')`, where it gives three parts. -/
def dotParts (fqn : List Char) : Option (List Char × List Char × List Char) :=
  match fqn.dropWhile (· ≠ '.') with
  | [] => none
  | _ :: rest => match rest.dropWhile (· ≠ '.') with
    | [] => none
    | _ :: table => some (fqn.takeWhile (· ≠ '.'), rest.takeWhile (· ≠ '.'), table)

/-- The table over the files of a table. -/
def listingName (fqn : List Char) : List Char := "s3_".toList ++ replaceAll ['.'] ['_'] fqn

def listingReplacements (fqn : List Char) : List (List Char × List Char) :=
  match dotParts fqn with
  | some (catalog, schema, table) =>
    [(trinoName catalog schema table, listingName fqn),
      ("trino_".toList ++ catalog ++ '_' :: schema ++ '_' :: table, listingName fqn),
      (fqn, listingName fqn)]
  | none => [(fqn, listingName fqn)]

/-- The rewriting of `execute_df_s3_direct`. -/
def dfS3Sql (order : List (List Char)) (rakeSql : List Char) : List Char :=
  replaceEach (order.flatMap listingReplacements) rakeSql

def quotedDotted (catalog schema table : List Char) : List Char :=
  '"' :: catalog ++ "\".\"".toList ++ schema ++ "\".\"".toList ++ table ++ ['"']

/-- The view over the files of a table. -/
def viewName (fqn : List Char) : Option (List Char) :=
  (dotParts fqn).map fun (catalog, schema, table) =>
    "s3_".toList ++ catalog ++ '_' :: schema ++ '_' :: table

def viewReplacements (fqn : List Char) : List (List Char × List Char) :=
  match dotParts fqn, viewName fqn with
  | some (catalog, schema, table), some name =>
    [(fqn, name), (quotedDotted catalog schema table, name)]
  | _, _ => []

/-- The rewriting of `execute_duckdb_s3_direct`. -/
def duckdbS3Sql (order : List (List Char)) (sql : List Char) : List Char :=
  replaceEach (order.flatMap viewReplacements) sql

/-- The views, of which a later one takes the place of an earlier one of its name. -/
def views (order : List (List Char)) : List (List Char × List Char) :=
  (order.filterMap fun fqn => (viewName fqn).map fun name => (name, fqn)).reverse

end RustLake.Routes

/-! When the rewritings of `migration_compare` put the right name for every table and leave all else
as it is. -/
namespace RustLake.Routes
open RustLake.Text

section
variable (words : WordChars)

/-- The letters of a chain of names. -/
def isNameLetter (c : Char) : Bool := words.char c || c = '.'

def pieces (sql : List Char) : List (Piece Char) := cut (isNameLetter words) sql

end

section
variable (unicode : Unicode) (words : WordChars)

/-- A match of the pattern begins somewhere and is replaced. -/
def hasFqn : Bool → List Char → Bool
  | _, [] => false
  | behindWord, c :: s =>
    (!behindWord && (fqnAt words (c :: s)).any fun fqn =>
      rewrittenFqn unicode fqn ≠ dotted fqn.1 fqn.2.1 fqn.2.2) || hasFqn (words.char c) s

/-- Three plain words, none a keyword. -/
structure PlainName (catalog schema table : List Char) : Prop where
  starts : ∀ word ∈ [catalog, schema, table], word.head?.any (fun c => c.isAlpha || c = '_') = true
  words : ∀ word ∈ [catalog, schema, table], ∀ c ∈ word, words.char c = true
  keywords : ∀ word ∈ [catalog, schema, table], isKeyword unicode word = false

instance (catalog schema table : List Char) :
    Decidable (PlainName unicode words catalog schema table) :=
  decidable_of_iff ((∀ word ∈ [catalog, schema, table],
      word.head?.any (fun c => c.isAlpha || c = '_') = true) ∧
    (∀ word ∈ [catalog, schema, table], word.all words.char = true) ∧
    ∀ word ∈ [catalog, schema, table], isKeyword unicode word = false)
    ⟨fun h => ⟨h.1, fun word hword => List.all_eq_true.mp (h.2.1 word hword), h.2.2⟩,
      fun h => ⟨h.starts, fun word hword => List.all_eq_true.mpr (h.words word hword), h.keywords⟩⟩

/-- The parts of a name: within quotes a dot parts nothing. -/
def partsFrom : Bool → List Char → List Char → List (List Char)
  | _, part, [] => [part]
  | quoted, part, c :: s =>
    if c = '"' then partsFrom (!quoted) part s
    else if c = '.' ∧ quoted = false then part :: partsFrom false [] s
    else partsFrom quoted (part ++ [c]) s

/-- A name stands for a table with quotes or without, and whatever its case. -/
def standsFor (n catalog schema table : List Char) : Bool :=
  (partsFrom false [] n).map unicode.lower.text = [catalog, schema, table].map unicode.lower.text

end

/-- What a comparison is about: the tables that were discovered, and those that Trino has besides. -/
structure Comparison where
  connId : List Char
  tables : List MigrationTable
  others : List (List Char × List Char × List Char)

namespace Comparison
section
variable (c : Comparison) (unicode : Unicode) (words : WordChars)

/-- The discovered table of the connection that a name stands for. -/
def discovered (n : List Char) : Option MigrationTable :=
  c.tables.find? fun t =>
    t.connId = c.connId && standsFor unicode n t.catalog t.schemaName t.tableName

def registeredName (n : List Char) : Option (List Char) :=
  (c.discovered unicode n).bind (·.rakeTableName)

def tableOf (n : List Char) : Option (List Char × List Char × List Char) :=
  ((c.discovered unicode n).map fun t => (t.catalog, t.schemaName, t.tableName)).or
    (c.others.find? fun (catalog, schema, table) => standsFor unicode n catalog schema table)

/-- The name of a table in Rake is the one that it was registered under, or else the one that the
tables of a connection have there. -/
def nameInRake (n : List Char) : List Char :=
  (c.registeredName unicode n).getD
    ((c.tableOf unicode n).elim n fun (catalog, schema, table) => trinoName catalog schema table)

/-- The tables over whose files there are tables and views. -/
def located (n : List Char) : Option MigrationTable :=
  (c.discovered unicode n).filter (·.location.isSome)

def listing (n : List Char) : List Char :=
  ((c.located unicode n).map fun t => listingName t.fqn).getD (c.nameInRake unicode n)

def view (n : List Char) : List Char :=
  ((c.located unicode n).bind fun t => viewName t.fqn).getD n

/-- Each of the statements is the query with every name of a table replaced by the name that stands
for it there, and each view is over the files of its table. -/
structure Exact (order : List (List Char)) (sql : List Char) : Prop where
  rake : rakeSql unicode words c.connId c.tables sql =
    spell (c.nameInRake unicode) (pieces words sql)
  dataFusion : dfS3Sql order (rakeSql unicode words c.connId c.tables sql) =
    spell (c.listing unicode) (pieces words sql)
  duckdb : duckdbS3Sql order sql = spell (c.view unicode) (pieces words sql)
  views : ∀ fqn ∈ order, ∀ name, viewName fqn = some name → (views order).lookup name = some fqn

/-- The pattern matches a name where it should. -/
def MatchedRight (n : List Char) : Prop :=
  match c.registeredName unicode n, c.tableOf unicode n with
  | some name, _ => hasFqn unicode words false name = false
  | none, some (catalog, schema, table) =>
    n = dotted catalog schema table ∧ PlainName unicode words catalog schema table
  | none, none => hasFqn unicode words false n = false

instance (n : List Char) : Decidable (c.MatchedRight unicode words n) :=
  match hname : c.registeredName unicode n, htable : c.tableOf unicode n with
  | some name, _ => decidable_of_iff (hasFqn unicode words false name = false)
      (by rw [MatchedRight, hname])
  | none, some (catalog, schema, table) => decidable_of_iff (n = dotted catalog schema table ∧
      PlainName unicode words catalog schema table) (by rw [MatchedRight, hname, htable])
  | none, none => decidable_of_iff (hasFqn unicode words false n = false)
      (by rw [MatchedRight, hname, htable])

/-- The names of the replacements stand in the statement as complete names only, at every turn, and
mean the tables there that they are names of. -/
structure Clear (order : List (List Char)) (sql : List Char) : Prop where
  registered : InTurn (registeredNames c.connId c.tables) (pieces words sql)
  registeredAs : ∀ n ∈ names (pieces words sql),
    (registeredNames c.connId c.tables).lookup n = c.registeredName unicode n
  texts : ∀ piece ∈ pieces words sql, piece.name? = none →
    hasFqn unicode words false (piece.spelled id) = false
  matched : ∀ n ∈ names (pieces words sql), c.MatchedRight unicode words n
  listings : InTurn (order.flatMap listingReplacements)
    ((pieces words sql).map (Piece.onName (c.nameInRake unicode)))
  listedAs : ∀ n ∈ names (pieces words sql),
    (order.flatMap listingReplacements).lookup (c.nameInRake unicode n) =
      (c.located unicode n).map fun t => listingName t.fqn
  views : InTurn (order.flatMap viewReplacements) (pieces words sql)
  viewedAs : ∀ n ∈ names (pieces words sql),
    (order.flatMap viewReplacements).lookup n = (c.located unicode n).bind fun t => viewName t.fqn
  distinct : ∀ fqn ∈ order, ∀ other ∈ order, viewName fqn = viewName other → fqn = other

end
end Comparison

section Pattern
variable {unicode : Unicode} {words : WordChars}

theorem toNat_lt_of_isAlpha {c : Char} (h : c.isAlpha = true) : c.toNat < 128 := by
  have hval : c.toNat = c.val.toNat := rfl
  rcases Bool.or_eq_true_iff.mp h with hupper | hlower
  · have hbound : ('Z' : Char).val.toNat = 90 := rfl
    have hle := UInt32.le_iff_toNat_le.mp (of_decide_eq_true hupper).2
    omega
  · have hbound : ('z' : Char).val.toNat = 122 := rfl
    have hle := UInt32.le_iff_toNat_le.mp (of_decide_eq_true (Bool.and_eq_true_iff.mp hlower).2)
    omega

/-- The first letter of a word is one of its letters. -/
theorem char_of_start {c : Char} (h : (c.isAlpha || c = '_') = true) : words.char c = true := by
  rcases Bool.or_eq_true_iff.mp h with halpha | hline
  · rw [words.ascii c (toNat_lt_of_isAlpha halpha), Char.isAlphanum, halpha]
    rfl
  · rw [of_decide_eq_true hline, words.ascii '_' (by decide)]
    rfl

/-- A letter outside names is no dot and begins no word. -/
theorem outside_names {d : Char} (h : isNameLetter words d = false) :
    words.char d = false ∧ d ≠ '.' ∧ (d.isAlpha || d = '_') = false := by
  obtain ⟨hword, hdot⟩ := Bool.or_eq_false_iff.mp h
  refine ⟨hword, of_decide_eq_false hdot, Bool.eq_false_iff.mpr fun hstart => ?_⟩
  rw [char_of_start hstart] at hword
  cases hword

theorem while_append {p : Char → Bool} {d : Char} (hd : p d = false) (x y : List Char) :
    (x ++ d :: y).takeWhile p = x.takeWhile p ∧
      (x ++ d :: y).dropWhile p = x.dropWhile p ++ d :: y := by
  induction x with
  | nil => simp [hd]
  | cons c x ih =>
    by_cases hc : p c = true
    · simp [hc, ih]
    · simp [hc]

theorem identAt_cons (c : Char) (s : List Char) : identAt words (c :: s) =
    if (c.isAlpha || c = '_') = true then
      some ((c :: s).takeWhile words.char, (c :: s).dropWhile words.char)
    else none := rfl

theorem identAt_append {d : Char} (hd : isNameLetter words d = false) (x y : List Char) :
    identAt words (x ++ d :: y) =
      (identAt words x).map fun found => (found.1, found.2 ++ d :: y) := by
  obtain ⟨hword, -, hstart⟩ := outside_names hd
  cases x with
  | nil =>
    rw [List.nil_append, identAt_cons, hstart]
    rfl
  | cons c x =>
    obtain ⟨htake, hdrop⟩ := while_append hword (c :: x) y
    rw [List.cons_append] at htake hdrop ⊢
    rw [identAt_cons, identAt_cons, htake, hdrop]
    split_ifs
    · rfl
    · rfl

theorem afterDot_append {d : Char} (hd : isNameLetter words d = false) (x y : List Char) :
    afterDot (x ++ d :: y) = (afterDot x).map (· ++ d :: y) := by
  obtain ⟨-, hdot, -⟩ := outside_names hd
  cases x with
  | nil => simp [afterDot, hdot]
  | cons c x =>
    by_cases hc : c = '.'
    · subst hc
      rfl
    · simp [afterDot, hc]

theorem fqnAt_append {d : Char} (hd : isNameLetter words d = false) (x y : List Char) :
    fqnAt words (x ++ d :: y) = fqnAt words x := by
  unfold fqnAt
  rw [identAt_append hd]
  rcases identAt words x with - | ⟨catalog, afterCatalog⟩
  · rfl
  simp only [Option.map_some, Option.bind_eq_bind, Option.bind_some]
  rw [afterDot_append hd]
  rcases afterDot afterCatalog with - | fromSchema
  · rfl
  simp only [Option.map_some, Option.bind_some]
  rw [identAt_append hd]
  rcases identAt words fromSchema with - | ⟨schema, afterSchema⟩
  · rfl
  simp only [Option.map_some, Option.bind_some]
  rw [afterDot_append hd]
  rcases afterDot afterSchema with - | fromTable
  · rfl
  simp only [Option.map_some, Option.bind_some]
  rw [identAt_append hd]
  cases identAt words fromTable <;> rfl

theorem identAt_eq_some {s word rest : List Char} (h : identAt words s = some (word, rest)) :
    s = word ++ rest := by
  cases s with
  | nil => cases h
  | cons c s =>
    rw [identAt_cons] at h
    split_ifs at h
    obtain ⟨rfl, rfl⟩ := Prod.mk.inj (Option.some.inj h)
    exact List.takeWhile_append_dropWhile.symm

theorem afterDot_eq_some {s rest : List Char} (h : afterDot s = some rest) : s = '.' :: rest := by
  unfold afterDot at h
  split at h
  · rw [Option.some.inj h]
  · cases h

/-- A match is the front of the text. -/
theorem pfx_of_dotted {s catalog schema table : List Char}
    (h : fqnAt words s = some (catalog, schema, table)) : dotted catalog schema table <+: s := by
  unfold fqnAt at h
  obtain ⟨⟨catalog', rest₁⟩, hcatalog, h⟩ := Option.bind_eq_some_iff.mp h
  obtain ⟨rest₂, hdot, h⟩ := Option.bind_eq_some_iff.mp h
  obtain ⟨⟨schema', rest₃⟩, hschema, h⟩ := Option.bind_eq_some_iff.mp h
  obtain ⟨rest₄, hdot', h⟩ := Option.bind_eq_some_iff.mp h
  obtain ⟨⟨table', rest₅⟩, htable, h⟩ := Option.bind_eq_some_iff.mp h
  obtain ⟨rfl, rfl, rfl⟩ : catalog' = catalog ∧ schema' = schema ∧ table' = table := by
    simpa using h
  rw [identAt_eq_some hcatalog, afterDot_eq_some hdot, identAt_eq_some hschema,
    afterDot_eq_some hdot', identAt_eq_some htable]
  exact ⟨rest₅, by simp [dotted]⟩

theorem autoRewriteFrom_append {d : Char} (hd : isNameLetter words d = false) (x y : List Char)
    (n : ℕ) (hn : n ≤ x.length) (behindWord : Bool) :
    autoRewriteFrom unicode words n behindWord (x ++ d :: y) =
      autoRewriteFrom unicode words n behindWord x ++
        d :: autoRewriteFrom unicode words 0 false y := by
  obtain ⟨hword, -, hstart⟩ := outside_names hd
  induction x generalizing n behindWord with
  | nil =>
    obtain rfl : n = 0 := by simpa using hn
    have hnone : fqnAt words (d :: y) = none := by
      unfold fqnAt
      rw [identAt_cons, hstart]
      rfl
    cases behindWord with
    | true => simp [autoRewriteFrom, hword]
    | false => simp [autoRewriteFrom, hnone, hword]
  | cons c x ih =>
    cases n with
    | succ n => exact ih n (by simpa using hn) _
    | zero =>
      cases behindWord with
      | true =>
        have hrest := ih 0 (Nat.zero_le _) (words.char c)
        simp [autoRewriteFrom, hrest]
      | false =>
        have hsame : fqnAt words (c :: (x ++ d :: y)) = fqnAt words (c :: x) :=
          fqnAt_append hd (c :: x) y
        rw [List.cons_append, autoRewriteFrom, autoRewriteFrom, hsame]
        cases hfqn : fqnAt words (c :: x) with
        | none =>
          have hrest := ih 0 (Nat.zero_le _) (words.char c)
          simp [hrest]
        | some fqn =>
          obtain ⟨catalog, schema, table⟩ := fqn
          have hlength := (pfx_of_dotted hfqn).length_le
          simp only [dotted, List.length_append, List.length_cons] at hlength
          have hrest := ih (catalog.length + schema.length + table.length + 1) (by omega)
            (words.char c)
          simp [hrest]

/-- What stands between letters of no name is rewritten for itself. -/
theorem autoRewrite_cons {d : Char} (hd : isNameLetter words d = false) (x y : List Char) :
    autoRewrite unicode words (x ++ d :: y) =
      autoRewrite unicode words x ++ d :: autoRewrite unicode words y :=
  autoRewriteFrom_append hd x y 0 (Nat.zero_le _) false

/-- The pattern is replaced in each piece of a statement for itself. -/
theorem autoRewrite_spell {f : List Char → List Char} {parts : List (Piece Char)}
    (h : Parted (isNameLetter words) parts) : autoRewrite unicode words (spell f parts) =
      parts.flatMap fun piece => autoRewrite unicode words (piece.spelled f) := by
  induction parts with
  | nil => rfl
  | cons piece rest ih =>
    rw [spell_cons, List.flatMap_cons]
    cases piece with
    | text s =>
      obtain ⟨hend, hrest⟩ := h
      rw [← ih hrest]
      rcases hend with ⟨x, c, rfl, hc⟩ | rfl
      · have hfirst : autoRewrite unicode words (x ++ c :: []) =
            autoRewrite unicode words x ++ c :: autoRewrite unicode words [] :=
          autoRewrite_cons hc x []
        simp only [Piece.spelled]
        rw [List.append_assoc, List.singleton_append, autoRewrite_cons hc, hfirst]
        simp [autoRewrite, autoRewriteFrom]
      · simp [autoRewrite, autoRewriteFrom]
    | name n =>
      obtain ⟨hstart, hrest⟩ := h
      rw [← ih hrest]
      rcases hstart with rfl | ⟨c, s, later, rfl, hc⟩
      · simp [autoRewrite, autoRewriteFrom]
      · have hrestText : spell f (.text (c :: s) :: later) = c :: (s ++ spell f later) := rfl
        have hlater : autoRewrite unicode words ([] ++ c :: (s ++ spell f later)) =
            autoRewrite unicode words [] ++ c :: autoRewrite unicode words (s ++ spell f later) :=
          autoRewrite_cons hc [] _
        rw [hrestText, autoRewrite_cons hc]
        rw [List.nil_append] at hlater
        rw [hlater]
        rfl

/-- A text without the pattern stays. -/
theorem autoRewriteFrom_of_hasFqn {s : List Char} {behindWord : Bool}
    (h : hasFqn unicode words behindWord s = false) (n : ℕ) :
    autoRewriteFrom unicode words n behindWord s = s.drop n := by
  induction s generalizing behindWord n with
  | nil => cases n <;> rfl
  | cons c s ih =>
    obtain ⟨hhere, hlater⟩ := Bool.or_eq_false_iff.mp h
    cases n with
    | succ n => exact ih hlater n
    | zero =>
      cases behindWord with
      | true =>
        have hrest := ih hlater 0
        simpa [autoRewriteFrom] using hrest
      | false =>
        rw [autoRewriteFrom]
        cases hfqn : fqnAt words (c :: s) with
        | none =>
          have hrest := ih hlater 0
          simpa using hrest
        | some fqn =>
          obtain ⟨catalog, schema, table⟩ := fqn
          have hsame : rewrittenFqn unicode (catalog, schema, table) =
              dotted catalog schema table := by
            simpa [hfqn] using hhere
          obtain ⟨rest, hrest⟩ := pfx_of_dotted hfqn
          have hlength : (dotted catalog schema table).length =
              catalog.length + schema.length + table.length + 1 + 1 := by
            simp only [dotted, List.length_append, List.length_cons]
            omega
          have hskipped : s.drop (catalog.length + schema.length + table.length + 1) = rest := by
            rw [← List.drop_succ_cons (a := c), ← hrest, ← hlength, List.drop_left]
          dsimp only
          rw [hsame, ih hlater, hskipped, hrest]
          rfl

/-- A plain word up to a dot, or up to the end. -/
theorem identAt_word {c : Char} {s : List Char} (hstart : (c.isAlpha || c = '_') = true)
    (hword : ∀ letter ∈ c :: s, words.char letter = true) :
    identAt words (c :: s) = some (c :: s, []) ∧
      ∀ rest, identAt words (c :: s ++ '.' :: rest) = some (c :: s, '.' :: rest) := by
  have hdot : words.char '.' = false := by
    rw [words.ascii '.' (by decide)]
    rfl
  have htake : (c :: s).takeWhile words.char = c :: s := List.takeWhile_eq_self_iff.mpr hword
  have hdrop : (c :: s).dropWhile words.char = [] := List.dropWhile_eq_nil_iff.mpr hword
  refine ⟨?_, fun rest => ?_⟩
  · rw [identAt_cons, if_pos hstart, htake, hdrop]
  · obtain ⟨htake', hdrop'⟩ := while_append hdot (c :: s) rest
    rw [List.cons_append] at htake' hdrop' ⊢
    rw [identAt_cons, if_pos hstart, htake', hdrop', htake, hdrop]
    rfl

theorem autoRewriteFrom_skipped (n : ℕ) (behindWord : Bool) (s : List Char) (h : s.length ≤ n) :
    autoRewriteFrom unicode words n behindWord s = [] := by
  induction s generalizing n behindWord with
  | nil => cases n <;> rfl
  | cons c s ih =>
    cases n with
    | zero => simp at h
    | succ n => exact ih n _ (by simpa using h)

theorem cons_of_head?_any {p : Char → Bool} {word : List Char} (h : word.head?.any p = true) :
    ∃ c s, word = c :: s ∧ p c = true := by
  cases word with
  | nil => cases h
  | cons c s => exact ⟨c, s, rfl, h⟩

/-- Three plain words with dots between them are replaced. -/
theorem PlainName.autoRewrite_dotted {catalog schema table : List Char}
    (h : PlainName unicode words catalog schema table) :
    autoRewrite unicode words (dotted catalog schema table) = trinoName catalog schema table := by
  obtain ⟨c₁, s₁, hcatalog, hstart₁⟩ := cons_of_head?_any (h.starts catalog (by simp))
  obtain ⟨c₂, s₂, hschema, hstart₂⟩ := cons_of_head?_any (h.starts schema (by simp))
  obtain ⟨c₃, s₃, htable, hstart₃⟩ := cons_of_head?_any (h.starts table (by simp))
  have hword₁ := h.words catalog (by simp)
  have hword₂ := h.words schema (by simp)
  have hword₃ := h.words table (by simp)
  have hkeywords : (isKeyword unicode catalog || isKeyword unicode schema ||
      isKeyword unicode table) = false := by
    rw [h.keywords _ (by simp), h.keywords _ (by simp), h.keywords _ (by simp)]
    rfl
  have hrewritten : rewrittenFqn unicode (catalog, schema, table) =
      trinoName catalog schema table := by
    rw [rewrittenFqn, hkeywords]
    rfl
  have hfqn : fqnAt words (dotted catalog schema table) = some (catalog, schema, table) := by
    have htext : dotted catalog schema table =
        catalog ++ '.' :: (schema ++ '.' :: table) := by
      simp [dotted]
    rw [hcatalog] at hword₁
    rw [hschema] at hword₂
    rw [htable] at hword₃
    rw [htext, hcatalog, hschema, htable]
    unfold fqnAt
    rw [(identAt_word hstart₁ hword₁).2]
    simp only [Option.bind_eq_bind, Option.bind_some, afterDot]
    rw [(identAt_word hstart₂ hword₂).2]
    simp only [Option.bind_some]
    rw [(identAt_word hstart₃ hword₃).1]
    rfl
  obtain ⟨rest, hrest⟩ : ∃ rest, dotted catalog schema table = c₁ :: rest :=
    ⟨_, by rw [dotted, hcatalog]; rfl⟩
  have hlength : rest.length ≤ catalog.length + schema.length + table.length + 1 := by
    have hall := congrArg List.length hrest
    simp only [dotted, List.length_append, List.length_cons] at hall
    omega
  unfold autoRewrite
  rw [hrest] at hfqn ⊢
  rw [autoRewriteFrom, hfqn]
  dsimp only
  rw [hrewritten, autoRewriteFrom_skipped _ _ _ hlength, List.append_nil]

end Pattern

section Clear
variable {c : Comparison} {unicode : Unicode} {words : WordChars} {order : List (List Char)}
  {sql : List Char}

theorem isNameLetter_quote : isNameLetter words '\'' = false := by
  have hquote : words.char '\'' = false := by
    rw [words.ascii '\'' (by decide)]
    rfl
  unfold isNameLetter
  rw [hquote]
  rfl

theorem parted_pieces (sql : List Char) : Parted (isNameLetter words) (pieces words sql) :=
  parted_cut isNameLetter_quote sql

theorem spell_pieces (sql : List Char) : spell id (pieces words sql) = sql := spell_cut sql

/-- A text is replaced for what the pattern makes of its pieces. -/
theorem autoRewrite_pieces {f g : List Char → List Char}
    (htexts : ∀ piece ∈ pieces words sql, piece.name? = none →
      hasFqn unicode words false (piece.spelled id) = false)
    (hnames : ∀ n ∈ names (pieces words sql), autoRewrite unicode words (f n) = g n) :
    autoRewrite unicode words (spell f (pieces words sql)) = spell g (pieces words sql) := by
  rw [autoRewrite_spell (parted_pieces sql)]
  apply List.flatMap_congr
  intro piece hpiece
  cases piece with
  | text s => exact autoRewriteFrom_of_hasFqn (htexts (.text s) hpiece rfl) 0
  | name n => exact hnames n (List.mem_filterMap.mpr ⟨.name n, hpiece, rfl⟩)

namespace Comparison

theorem MatchedRight.autoRewrite {n : List Char} (h : c.MatchedRight unicode words n) :
    autoRewrite unicode words ((c.registeredName unicode n).getD n) = c.nameInRake unicode n := by
  unfold MatchedRight at h
  unfold nameInRake
  cases hname : c.registeredName unicode n with
  | some name =>
    rw [hname] at h
    exact autoRewriteFrom_of_hasFqn h 0
  | none =>
    cases htable : c.tableOf unicode n with
    | some table =>
      rw [hname, htable] at h
      obtain ⟨rfl, hplain⟩ := h
      exact hplain.autoRewrite_dotted
    | none =>
      rw [hname, htable] at h
      exact autoRewriteFrom_of_hasFqn h 0

theorem Clear.rake (h : c.Clear unicode words order sql) :
    rakeSql unicode words c.connId c.tables sql =
      spell (c.nameInRake unicode) (pieces words sql) := by
  have hkeys : ∀ entry ∈ registeredNames c.connId c.tables, entry.1 ≠ [] := by
    intro entry hentry
    obtain ⟨t, -, hname⟩ := List.mem_filterMap.mp hentry
    split_ifs at hname
    obtain ⟨name, -, rfl⟩ := Option.map_eq_some_iff.mp hname
    simp [MigrationTable.fqn]
  have hmapped : replaceEach (registeredNames c.connId c.tables) sql =
      spell (fun n => (c.registeredName unicode n).getD n) (pieces words sql) := by
    have hreplaced := replaceEach_spell hkeys h.registered
    rw [spell_pieces] at hreplaced
    rw [hreplaced]
    apply spell_congr
    intro n hn
    rw [renamed, h.registeredAs n hn]
  unfold rakeSql
  rw [hmapped]
  exact autoRewrite_pieces h.texts fun n hn => (h.matched n hn).autoRewrite

theorem listingReplacements_ne_nil {fqn : List Char} (hfqn : fqn ≠ []) :
    ∀ entry ∈ listingReplacements fqn, entry.1 ≠ [] := by
  unfold listingReplacements
  split
  · rw [List.forall_mem_cons, List.forall_mem_cons]
    constructor
    · exact List.append_ne_nil_of_right_ne_nil _ (List.cons_ne_nil _ _)
    constructor
    · exact List.append_ne_nil_of_right_ne_nil _ (List.cons_ne_nil _ _)
    · simpa using hfqn
  · simpa using hfqn

theorem viewReplacements_ne_nil {fqn : List Char} (hfqn : fqn ≠ []) :
    ∀ entry ∈ viewReplacements fqn, entry.1 ≠ [] := by
  unfold viewReplacements
  split
  · rw [List.forall_mem_cons]
    constructor
    · exact hfqn
    · simp [quotedDotted]
  · simp

theorem s3Tables_ne_nil {connId : List Char} {tables : List MigrationTable} {fqn : List Char}
    (h : fqn ∈ s3Tables connId tables) : fqn ≠ [] := by
  obtain ⟨t, -, rfl⟩ := List.mem_map.mp (List.mem_dedup.mp h)
  simp [MigrationTable.fqn]

theorem Clear.dataFusion (horder : order.Perm (s3Tables c.connId c.tables))
    (h : c.Clear unicode words order sql) :
    dfS3Sql order (rakeSql unicode words c.connId c.tables sql) =
      spell (c.listing unicode) (pieces words sql) := by
  have hkeys : ∀ entry ∈ order.flatMap listingReplacements, entry.1 ≠ [] := by
    intro entry hentry
    obtain ⟨fqn, hfqn, hentry⟩ := List.mem_flatMap.mp hentry
    exact listingReplacements_ne_nil (s3Tables_ne_nil (horder.mem_iff.mp hfqn)) entry hentry
  have hnamed : spell (c.nameInRake unicode) (pieces words sql) =
      spell id ((pieces words sql).map (Piece.onName (c.nameInRake unicode))) :=
    (spell_onName (c.nameInRake unicode) id (pieces words sql)).symm
  unfold dfS3Sql
  rw [h.rake, hnamed, replaceEach_spell hkeys h.listings, spell_onName]
  apply spell_congr
  intro n hn
  rw [renamed, h.listedAs n hn]
  rfl

theorem Clear.duckdb (horder : order.Perm (s3Tables c.connId c.tables))
    (h : c.Clear unicode words order sql) :
    duckdbS3Sql order sql = spell (c.view unicode) (pieces words sql) := by
  have hkeys : ∀ entry ∈ order.flatMap viewReplacements, entry.1 ≠ [] := by
    intro entry hentry
    obtain ⟨fqn, hfqn, hentry⟩ := List.mem_flatMap.mp hentry
    exact viewReplacements_ne_nil (s3Tables_ne_nil (horder.mem_iff.mp hfqn)) entry hentry
  have hreplaced := replaceEach_spell hkeys h.views
  rw [spell_pieces] at hreplaced
  unfold duckdbS3Sql
  rw [hreplaced]
  apply spell_congr
  intro n hn
  rw [renamed, h.viewedAs n hn]
  rfl

theorem Clear.lookup_views (h : c.Clear unicode words order sql) {fqn name : List Char}
    (hfqn : fqn ∈ order) (hname : viewName fqn = some name) :
    (Routes.views order).lookup name = some fqn := by
  have hmem : (name, fqn) ∈ Routes.views order := by
    unfold Routes.views
    rw [List.mem_reverse, List.mem_filterMap]
    exact ⟨fqn, hfqn, by rw [hname, Option.map_some]⟩
  obtain ⟨found, hfound⟩ : ∃ found, (Routes.views order).lookup name = some found := by
    apply Option.ne_none_iff_exists'.mp
    intro hnone
    have hother := List.lookup_eq_none_iff.mp hnone _ hmem
    simp at hother
  obtain ⟨before, later, hviews, -⟩ := List.lookup_eq_some_iff.mp hfound
  have hentry : (name, found) ∈ Routes.views order := by
    rw [hviews]
    simp
  unfold Routes.views at hentry
  rw [List.mem_reverse, List.mem_filterMap] at hentry
  obtain ⟨other, hother, hentry⟩ := hentry
  obtain ⟨found', hfound', hsame⟩ := Option.map_eq_some_iff.mp hentry
  obtain ⟨rfl, rfl⟩ := Prod.mk.inj hsame
  rw [hfound, h.distinct fqn hfqn other hother (hname.trans hfound'.symm)]

end Comparison
end Clear

section Orders

def asciiWords : WordChars where
  char c := c.isAlphanum || c = '_'
  ascii _ _ := rfl

/-- The orders of a lake, discovered and not yet registered. -/
def discoveredOrders : MigrationTable where
  connId := "trino".toList
  catalog := "lake".toList
  schemaName := "sales".toList
  tableName := "orders".toList
  format := "iceberg".toList
  location := some "s3://lake/sales/orders".toList
  registeredInRake := false
  rakeTableName := none
  status := "discovered"
  error := none

/-- Trino has older orders too. -/
def comparedOrders (t : MigrationTable) : Comparison where
  connId := "trino".toList
  tables := [t]
  others := [("lake".toList, "sales".toList, "orders_old".toList)]

def registeredOrders : MigrationTable :=
  MigrationTable.registered discoveredOrders.rakeName discoveredOrders

end Orders
end RustLake.Routes
