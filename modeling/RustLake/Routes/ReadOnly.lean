import RustLake.Engine.Files
import RustLake.Order.Run
import RustLake.Routes.ExecuteSql
import RustLake.Text.Separator

/-! Which statements the guard refuses: those that name a read-only table plainly. A statement that
changes such a table and is written otherwise passes. -/
namespace RustLake.Routes
open RustLake.Engine RustLake.Router RustLake.Text

/-- A comparison of names by which a table ends in the name of the read-only one. -/
def ByEnding (same : List Char → List Char → Bool) : Prop :=
  ∀ tableLower roLower, same tableLower roLower = true → roLower <:+ tableLower

/-- Right behind one of the patterns stands a name that is the same as that of a read-only table,
in a text whose first statement is one of those that the classifier takes for changes. -/
structure NamesReadOnly (unicode : Unicode) (parse : Parser) (same : List Char → List Char → Bool)
    (readOnly : ReadOnlyTables) (sql : List Char) : Prop where
  changes : ∃ first rest, parse sql = .ok (first :: rest) ∧ first.Changes
  names : ∃ pat ∈ patterns, ∃ table rest,
    unicode.upper.text (trim sql) = pat.toList ++ (table ++ rest) ∧
    (∀ c ∈ table, isNameChar unicode c) ∧ (∀ c ∈ rest.head?, isNameChar unicode c = false) ∧
    ∃ ro ∈ readOnly.names, same (unicode.lower.text table) (unicode.lower.text ro)

section Guard
variable {unicode : Unicode} {parse : Parser} {same : List Char → List Char → Bool}
  {readOnly : ReadOnlyTables} {sql : List Char}

theorem sameName_byEnding : ByEnding sameName := by
  intro tableLower roLower h
  have heq : tableLower = roLower := of_decide_eq_true h
  exact heq ▸ List.suffix_refl _

theorem sameOrQualified_byEnding : ByEnding sameOrQualified := by
  intro tableLower roLower h
  rcases Bool.or_eq_true_iff.mp h with heq | hsuffix
  · exact sameName_byEnding _ _ heq
  · exact (List.suffix_cons '.' roLower).trans (of_decide_eq_true hsuffix)

/-- The name behind a pattern is a word that ends there. -/
theorem nameAfter_eq_some {sqlUpper pat table : List Char} :
    nameAfter unicode sqlUpper pat = some table ↔
      table ≠ [] ∧ ∃ rest, sqlUpper = pat ++ (table ++ rest) ∧
        (∀ c ∈ table, isNameChar unicode c) ∧ ∀ c ∈ rest.head?, isNameChar unicode c = false := by
  unfold nameAfter
  rw [Option.bind_eq_some_iff]
  constructor
  · rintro ⟨behind, hbehind, htable⟩
    obtain ⟨pat', rfl, hpat⟩ := List.dropPrefix?_eq_some_iff.mp hbehind
    obtain rfl : pat' = pat := eq_of_beq hpat
    dsimp only at htable
    split at htable
    · cases htable
    · rename_i hne
      obtain rfl := Option.some.inj htable
      obtain ⟨rest, hrest, hword, hend⟩ := takeWhile_eq_iff.mp (Eq.refl
        (behind.takeWhile (isNameChar unicode)))
      exact ⟨by simpa using hne, rest, congrArg (pat' ++ ·) hrest, hword, hend⟩
  · rintro ⟨hne, rest, rfl, hword, hend⟩
    have htake : (table ++ rest).takeWhile (isNameChar unicode) = table :=
      takeWhile_eq_iff.mpr ⟨rest, rfl, hword, hend⟩
    refine ⟨table ++ rest, ?_, ?_⟩
    · exact List.dropPrefix?_eq_some_iff.mpr ⟨pat, rfl, beq_self_eq_true pat⟩
    · simp [htake, hne]

/-- The words that one pattern has behind another one. -/
def furtherWords : List String := ["IF", "TABLE"]

/-- An earlier pattern is no beginning of a later one, and where it goes on behind it, a word comes
first. -/
def Before (earlier later : String) : Prop :=
  ¬ earlier.toList <+: later.toList ∧ (¬ later.toList <+: earlier.toList ∨
    ∃ word ∈ furtherWords, later.toList ++ (word.toList ++ [' ']) <+: earlier.toList)

instance (earlier later : String) : Decidable (Before earlier later) :=
  inferInstanceAs (Decidable (_ ∧ (_ ∨ _)))

theorem patterns_before : patterns.Pairwise Before := by decide +kernel

theorem isNameChar_space : isNameChar unicode ' ' = false := by
  have hspace := unicode.ascii ' ' (by decide)
  rw [isNameChar, hspace]
  decide

/-- Lower-casing makes nothing longer out of a first part of an ASCII word. -/
theorem length_lower_le {table word : List Char} (hword : ∀ c ∈ word, c.toNat < 128)
    (h : table <+: word) : (unicode.lower.text table).length ≤ word.length := by
  have htable : ∀ c ∈ table, c.toNat < 128 := fun c hc => hword c (h.subset hc)
  rw [unicode.lower.text_ascii htable, List.length_map]
  exact h.length_le

/-- An earlier pattern finds no name where a long one stands behind a later one. -/
theorem nameAfter_earlier {earlier later : String} (hbefore : Before earlier later)
    {table rest : List Char} (hword : ∀ c ∈ table, isNameChar unicode c)
    (hlong : 8 ≤ (unicode.lower.text table).length) :
    nameAfter unicode (later.toList ++ (table ++ rest)) earlier.toList = none := by
  by_contra hfound
  obtain ⟨name, hname⟩ := Option.ne_none_iff_exists'.mp hfound
  obtain ⟨-, rest', hrest, -⟩ := nameAfter_eq_some.mp hname
  have hearlier : earlier.toList <+: later.toList ++ (table ++ rest) := ⟨_, hrest.symm⟩
  rcases hbefore.2 with hnot | ⟨word, hin, hfurther⟩
  · rcases List.prefix_or_prefix_of_prefix hearlier (List.prefix_append _ _) with h | h
    · exact hbefore.1 h
    · exact hnot h
  · have hbehind : word.toList ++ ' ' :: [] <+: table ++ rest :=
      (List.prefix_append_right_inj later.toList).mp (hfurther.trans hearlier)
    have hbegins : table <+: word.toList := prefix_of_word hword isNameChar_space hbehind
    have hascii : ∀ w ∈ furtherWords, (∀ c ∈ w.toList, c.toNat < 128) ∧ w.toList.length < 8 := by
      simp [furtherWords]
    have hle : (unicode.lower.text table).length ≤ word.toList.length :=
      length_lower_le (hascii word hin).1 hbegins
    have hshort := (hascii word hin).2
    omega

/-- The name of a read-only table has at least eight letters. -/
theorem length_lower_readOnly {ro : List Char} (hro : ro ∈ readOnly.names) :
    8 ≤ (unicode.lower.text ro).length := by
  obtain ⟨rest, hrest⟩ := readOnly.startsWith hro
  have hascii : ∀ c ∈ "iceberg_".toList, c.toNat < 128 := by simp
  have hlength : (unicode.lower.text "iceberg_".toList).length = 8 := by
    rw [unicode.lower.text_ascii hascii, List.length_map]
    rfl
  rw [← hrest, unicode.lower.text_append, List.length_append]
  omega

/-- The first of a list with an answer, when those before it have none. -/
theorem findSome?_of_pairwise {α β : Type} {R : α → α → Prop} {f : α → Option β} {l : List α}
    (hl : l.Pairwise R) {a : α} {b : β} (ha : a ∈ l) (hf : f a = some b)
    (hbefore : ∀ x, R x a → f x = none) : l.findSome? f = some b := by
  induction l with
  | nil => cases ha
  | cons x l ih =>
    obtain ⟨hx, hrest⟩ := List.pairwise_cons.mp hl
    rcases List.mem_cons.mp ha with rfl | hin
    · simp [hf]
    · rw [List.findSome?_cons, hbefore x (hx a hin)]
      exact ih hrest hin

/-- What the guard takes for the target is the long name that stands behind a pattern. -/
theorem extractTargetTable_eq {pat : String} (hpat : pat ∈ patterns) {table rest : List Char}
    (hword : ∀ c ∈ table, isNameChar unicode c)
    (hend : ∀ c ∈ rest.head?, isNameChar unicode c = false)
    (hlong : 8 ≤ (unicode.lower.text table).length) :
    extractTargetTable unicode (pat.toList ++ (table ++ rest)) = some table := by
  have hne : table ≠ [] := by
    rintro rfl
    simp [Lowercase.text] at hlong
  apply findSome?_of_pairwise patterns_before hpat
  · exact nameAfter_eq_some.mpr ⟨hne, rest, rfl, hword, hend⟩
  · intro earlier hbefore
    exact nameAfter_earlier hbefore hword hlong

theorem refusedTable_eq_some {table : List Char} :
    refusedTable unicode parse same readOnly sql = some table ↔
      (∃ first rest, parse sql = .ok (first :: rest) ∧ first.Changes) ∧
        extractTargetTable unicode (unicode.upper.text (trim sql)) = some table ∧
        ∃ ro ∈ readOnly.names, same (unicode.lower.text table) (unicode.lower.text ro) := by
  unfold refusedTable
  dsimp only
  rw [← classified_changes unicode]
  split_ifs with hkind hempty
  · have hnames : readOnly.names = [] := List.isEmpty_iff.mp hempty
    simp [hnames]
  · cases extractTargetTable unicode (unicode.upper.text (trim sql)) with
    | none => simp
    | some found =>
      simp only [List.any_eq_true, Option.ite_none_right_eq_some, Option.some.injEq]
      constructor
      · rintro ⟨hsame, rfl⟩
        exact ⟨hkind, rfl, hsame⟩
      · rintro ⟨-, rfl, hsame⟩
        exact ⟨hsame, rfl⟩
  · simp [hkind]

/-- The guard refuses the statements that name a read-only table plainly, and no others. -/
theorem refusedTable_isSome (hsame : ByEnding same) :
    (∃ table, refusedTable unicode parse same readOnly sql = some table) ↔
      NamesReadOnly unicode parse same readOnly sql := by
  constructor
  · rintro ⟨table, hrefused⟩
    obtain ⟨hchanges, htarget, hro⟩ := refusedTable_eq_some.mp hrefused
    obtain ⟨pat, hpat, hname⟩ := List.exists_of_findSome?_eq_some htarget
    obtain ⟨-, rest, htext, hword, hend⟩ := nameAfter_eq_some.mp hname
    exact ⟨hchanges, pat, hpat, table, rest, htext, hword, hend, hro⟩
  · rintro ⟨hchanges, pat, hpat, table, rest, htext, hword, hend, ro, hro, hmatch⟩
    have hlong : 8 ≤ (unicode.lower.text table).length := by
      have hending := (hsame _ _ hmatch).length_le
      have hro8 : 8 ≤ (unicode.lower.text ro).length := length_lower_readOnly hro
      omega
    have htarget := extractTargetTable_eq hpat hword hend hlong
    rw [← htext] at htarget
    exact ⟨table, refusedTable_eq_some.mpr ⟨hchanges, htarget, ro, hro, hmatch⟩⟩

end Guard

section Handlers
variable {Key Rows Copies Batch : Type} [DecidableEq Key]
  (platform : Platform Key Rows Copies Batch) (req : SqlRequest) (readOnly : ReadOnlyTables)
  (lake : Lake Key Rows Copies)

/-- Something else is registered under a read-only name, or nothing more, or it holds other rows. -/
def ChangesReadOnly (engines : Engines Key Rows Copies Batch) (readOnly : ReadOnlyTables)
    (before after : Lake Key Rows Copies) : Prop :=
  ∃ name ∈ readOnly.names, engines.registered after name ≠ engines.registered before name

/-- A statement of `execute_sql` that would change a read-only table is refused, and nothing is
executed. -/
def SqlProtected : Prop :=
  ChangesReadOnly platform.engines readOnly lake (execute platform req lake).1 →
    ∃ table, executeSql platform req readOnly lake = (lake, .error 403 (readOnlyError table))

/-- The same for a query of the WebSocket. -/
def QueryProtected : Prop :=
  ChangesReadOnly platform.engines readOnly lake (executeUnguarded platform req lake).1 →
    ∃ table, executeQuery platform req readOnly lake =
      (lake, .queryError ("Table '" ++ String.ofList table ++ "' is read-only") "")

variable {platform req readOnly lake}

theorem not_changesReadOnly_self : ¬ ChangesReadOnly platform.engines readOnly lake lake := by
  rintro ⟨name, -, hname⟩
  exact hname rfl

theorem sqlProtected_iff :
    SqlProtected platform req readOnly lake ↔
      (ChangesReadOnly platform.engines readOnly lake (execute platform req lake).1 →
        NamesReadOnly platform.unicode platform.parse sameOrQualified readOnly req.sql) := by
  apply imp_congr_right
  intro hchanges
  rw [← refusedTable_isSome sameOrQualified_byEnding]
  unfold executeSql
  cases hrefused : refusedTable platform.unicode platform.parse sameOrQualified readOnly req.sql with
  | some table => simp
  | none =>
    constructor
    · rintro ⟨table, hreply⟩
      dsimp only at hreply
      rw [hreply] at hchanges
      exact absurd hchanges not_changesReadOnly_self
    · rintro ⟨table, htable⟩
      cases htable

theorem queryProtected_iff :
    QueryProtected platform req readOnly lake ↔
      (ChangesReadOnly platform.engines readOnly lake (executeUnguarded platform req lake).1 →
        NamesReadOnly platform.unicode platform.parse sameName readOnly req.sql) := by
  apply imp_congr_right
  intro hchanges
  rw [← refusedTable_isSome sameName_byEnding]
  unfold executeQuery
  cases hrefused : refusedTable platform.unicode platform.parse sameName readOnly req.sql with
  | some table => simp
  | none =>
    constructor
    · rintro ⟨table, hreply⟩
      dsimp only at hreply
      rw [hreply] at hchanges
      exact absurd hchanges not_changesReadOnly_self
    · rintro ⟨table, htable⟩
      cases htable

/-- A change that the guard lets pass. -/
theorem not_sqlProtected
    (hchanges : ChangesReadOnly platform.engines readOnly lake (execute platform req lake).1)
    (hpassed : refusedTable platform.unicode platform.parse sameOrQualified readOnly req.sql =
      none) : ¬ SqlProtected platform req readOnly lake := by
  intro hprotected
  have hnames := sqlProtected_iff.mp hprotected hchanges
  obtain ⟨table, htable⟩ := (refusedTable_isSome sameOrQualified_byEnding).mpr hnames
  rw [hpassed] at htable
  cases htable

theorem not_queryProtected
    (hchanges : ChangesReadOnly platform.engines readOnly lake
      (executeUnguarded platform req lake).1)
    (hpassed : refusedTable platform.unicode platform.parse sameName readOnly req.sql = none) :
    ¬ QueryProtected platform req readOnly lake := by
  intro hprotected
  have hnames := queryProtected_iff.mp hprotected hchanges
  obtain ⟨table, htable⟩ := (refusedTable_isSome sameName_byEnding).mpr hnames
  rw [hpassed] at htable
  cases htable

/-- Both handlers refuse, of the statements that would change a read-only table, exactly those that
name one plainly; in `execute_sql` a schema may stand before the name. -/
theorem readOnly_protected_iff (platform : Platform Key Rows Copies Batch) (req : SqlRequest)
    (readOnly : ReadOnlyTables) (lake : Lake Key Rows Copies) :
    (SqlProtected platform req readOnly lake ↔
      (ChangesReadOnly platform.engines readOnly lake (execute platform req lake).1 →
        NamesReadOnly platform.unicode platform.parse sameOrQualified readOnly req.sql)) ∧
    (QueryProtected platform req readOnly lake ↔
      (ChangesReadOnly platform.engines readOnly lake (executeUnguarded platform req lake).1 →
        NamesReadOnly platform.unicode platform.parse sameName readOnly req.sql)) := by
  constructor
  · exact sqlProtected_iff
  · exact queryProtected_iff

/-- A request for SQL, over HTTP or over a WebSocket. -/
inductive Request where
  | sql (req : SqlRequest)
  | query (req : SqlRequest)

def Request.apply (platform : Platform Key Rows Copies Batch) (readOnly : ReadOnlyTables)
    (lake : Lake Key Rows Copies) : Request → Lake Key Rows Copies
  | .sql req => (executeSql platform req readOnly lake).1
  | .query req => (executeQuery platform req readOnly lake).1

def Request.Protected (platform : Platform Key Rows Copies Batch) (readOnly : ReadOnlyTables)
    (lake : Lake Key Rows Copies) : Request → Prop
  | .sql req => SqlProtected platform req readOnly lake
  | .query req => QueryProtected platform req readOnly lake

/-- A request that is protected in a lake leaves the read-only tables as they are. -/
theorem Request.apply_keeps {r : Request} (h : r.Protected platform readOnly lake) :
    ¬ ChangesReadOnly platform.engines readOnly lake (r.apply platform readOnly lake) := by
  intro hchanges
  cases r with
  | sql req =>
    cases hrefused : refusedTable platform.unicode platform.parse sameOrQualified readOnly
      req.sql with
    | some table =>
      have hsame : Request.apply platform readOnly lake (.sql req) = lake := by
        simp [Request.apply, executeSql, hrefused]
      exact not_changesReadOnly_self (hsame ▸ hchanges)
    | none =>
      have hpassed : Request.apply platform readOnly lake (.sql req) =
          (execute platform req lake).1 := by
        simp [Request.apply, executeSql, hrefused]
      obtain ⟨table, hreply⟩ := h (hpassed ▸ hchanges)
      have hsame : Request.apply platform readOnly lake (.sql req) = lake := by
        rw [Request.apply, hreply]
      exact not_changesReadOnly_self (hsame ▸ hchanges)
  | query req =>
    cases hrefused : refusedTable platform.unicode platform.parse sameName readOnly req.sql with
    | some table =>
      have hsame : Request.apply platform readOnly lake (.query req) = lake := by
        simp [Request.apply, executeQuery, hrefused]
      exact not_changesReadOnly_self (hsame ▸ hchanges)
    | none =>
      have hpassed : Request.apply platform readOnly lake (.query req) =
          (executeUnguarded platform req lake).1 := by
        simp [Request.apply, executeQuery, hrefused]
      obtain ⟨table, hreply⟩ := h (hpassed ▸ hchanges)
      have hsame : Request.apply platform readOnly lake (.query req) = lake := by
        rw [Request.apply, hreply]
      exact not_changesReadOnly_self (hsame ▸ hchanges)

/-- Requests that are all protected leave the read-only tables as they are. -/
theorem registered_kept {requests : List Request} {lake' : Lake Key Rows Copies}
    (hprotected : Run.Along (fun lake r => some (Request.apply platform readOnly lake r))
      (fun lake r => r.Protected platform readOnly lake) lake requests)
    (hrun : Run.run (fun lake r => some (Request.apply platform readOnly lake r)) lake requests =
      some lake') :
    ∀ name ∈ readOnly.names,
      platform.engines.registered lake' name = platform.engines.registered lake name := by
  apply Run.invariant (I := fun l => ∀ name ∈ readOnly.names,
      platform.engines.registered l name = platform.engines.registered lake name)
    ?_ (fun _ _ => rfl) hprotected hrun
  intro l r l' hkept hok hstep name hname
  obtain rfl := Option.some.inj hstep
  have hsame : platform.engines.registered (Request.apply platform readOnly l r) name =
      platform.engines.registered l name := by
    by_contra hne
    exact Request.apply_keeps hok ⟨name, hname, hne⟩
  exact hsame.trans (hkept name hname)

end Handlers

section Orders

def ordersName : List Char := "iceberg_lake_sales_orders".toList

def dropQuoted : List Char := "DROP TABLE \"iceberg_lake_sales_orders\"".toList

def dropQualified : List Char := "DROP TABLE public.iceberg_lake_sales_orders".toList

def replaceOrders : List Char :=
  "CREATE OR REPLACE TABLE iceberg_lake_sales_orders AS SELECT 1 AS id".toList

/-- Parquet files that can all be read, three statements that replace or drop the table of the
orders, and no engine but DataFusion. -/
def ordersEngines : Engines (List Char) ℕ Unit ℕ where
  dataFusion := plainFusion
  run statement lake :=
    if statement = dropQuoted ∨ statement = dropQualified then
      ({ lake with catalog := lake.catalog.erase ordersName }, .ok [])
    else if statement = replaceOrders then
      ({ lake with catalog := lake.catalog.insert ordersName (.other 0) }, .ok [])
    else (lake, .ok [])
  schemas _ := []
  memTable _ _ := .ok (.other 0, 0)
  accepts _ := .ok ()
  nameInUse name := "The table " ++ String.ofList name ++ " already exists"
  columns _ := []
  numRows n := n
  duckdb := none
  polars := none

def ordersPlatform : Platform (List Char) ℕ Unit ℕ where
  unicode := .asciiOnly
  parse sql :=
    if sql = dropQuoted ∨ sql = dropQualified then .ok [.statement .drop]
    else if sql = replaceOrders then .ok [.statement .createTable]
    else .ok []
  chrono := ⟨fun _ _ => none, fun _ _ => none⟩
  engines := ordersEngines
  findIcebergTableState _ := none
  batchesToJson _ := .ok []

/-- One discovered table, and nothing registered. -/
def discovered : AppState (List Char) ℕ Unit where
  lake := ⟨∅, fun _ => 3, (), []⟩
  readOnlyTables := .empty
  migrationTables :=
    [{ connId := "trino".toList
       catalog := "lake".toList
       schemaName := "sales".toList
       tableName := "orders".toList
       format := "iceberg".toList
       location := some "s3://warehouse/orders".toList
       registeredInRake := false
       rakeTableName := none
       status := "discovered"
       error := none }]

/-- The lake and the marks after `migration_register`. -/
def migrated : AppState (List Char) ℕ Unit :=
  (migrationRegister ordersEngines "trino".toList none discovered).1

theorem orders_marked : ordersName ∈ migrated.readOnlyTables.names := by decide +kernel

/-- A quoted name, or another statement, passes the guard of `execute_sql`, and a name with its
schema that of the WebSocket queries. -/
theorem orders_unprotected :
    ¬ SqlProtected ordersPlatform ⟨dropQuoted, "auto".toList⟩ migrated.readOnlyTables
        migrated.lake ∧
    ¬ SqlProtected ordersPlatform ⟨replaceOrders, "auto".toList⟩ migrated.readOnlyTables
        migrated.lake ∧
    ¬ QueryProtected ordersPlatform ⟨dropQualified, "auto".toList⟩ migrated.readOnlyTables
        migrated.lake := by
  refine ⟨?_, ?_, ?_⟩
  · apply not_sqlProtected
    · exact ⟨ordersName, orders_marked, by decide +kernel⟩
    · decide +kernel
  · apply not_sqlProtected
    · exact ⟨ordersName, orders_marked, by decide +kernel⟩
    · decide +kernel
  · apply not_queryProtected
    · exact ⟨ordersName, orders_marked, by decide +kernel⟩
    · decide +kernel

end Orders
end RustLake.Routes
