import RustLake.Engine.Context

/-! Which file a quoted path reads: the rewrite replaces the paths in table position and
nothing else where the text allows it, and the tables are over these files where the names
are free for them. -/
namespace RustLake.Engine
open RustLake.Text

/-- What the scanner has found looks like file paths, stands under its table name and holds no
quote. -/
def Scan.WellFormed (scan : Scan) : Prop :=
  '\'' ∉ scan.current ∧ ∀ r ∈ scan.replacements,
    r.2 = tableName r.1 ∧ isFilePath r.1 = true ∧ '\'' ∉ r.1

theorem Scan.WellFormed.step {scan : Scan} (h : scan.WellFormed) (ch : Char) :
    (scan.step ch).WellFormed := by
  obtain ⟨hcurrent, hfound⟩ := h
  unfold Scan.step
  split_ifs with hopen hclose hfile hquote
  · exact ⟨by simp, hfound⟩
  · refine ⟨hcurrent, fun r hr => ?_⟩
    rcases List.mem_append.mp hr with hold | hnew
    · exact hfound r hold
    · obtain rfl := List.mem_singleton.mp hnew
      exact ⟨rfl, hfile, hcurrent⟩
  · exact ⟨hcurrent, hfound⟩
  · refine ⟨fun hmem => ?_, hfound⟩
    rcases List.mem_append.mp hmem with hold | hnew
    · exact hcurrent hold
    · exact hclose ⟨(List.mem_singleton.mp hnew).symm, hquote⟩
  · exact ⟨hcurrent, hfound⟩

theorem replacements_wellFormed (query : List Char) {r : List Char × List Char}
    (hr : r ∈ replacements query) : r.2 = tableName r.1 ∧ isFilePath r.1 = true ∧ '\'' ∉ r.1 := by
  have hfold : ∀ (text : List Char) (scan : Scan), scan.WellFormed →
      (text.foldl Scan.step scan).WellFormed := by
    intro text
    induction text with
    | nil => exact fun scan h => h
    | cons ch text ih => exact fun scan h => ih _ (h.step ch)
  exact (hfold query ⟨false, [], []⟩ ⟨by simp, by simp⟩).2 r hr

theorem formatOf_isSome {path : List Char} (h : isFilePath path = true) :
    ∃ format, formatOf path = some format := by
  unfold formatOf
  split_ifs with hcsv hparquet hjson
  · exact ⟨_, rfl⟩
  · exact ⟨_, rfl⟩
  · exact ⟨_, rfl⟩
  · simp [isFilePath, fileSuffixes] at h
    simp at hcsv hparquet hjson
    tauto

/-- The text between the quotes of a literal, with its doubled quotes made single. -/
def unquoted : List Char → List Char
  | '\'' :: '\'' :: s => '\'' :: unquoted s
  | c :: s => c :: unquoted s
  | [] => []

theorem unquoted_of_notMem {raw : List Char} (h : '\'' ∉ raw) : unquoted raw = raw := by
  induction raw with
  | nil => rfl
  | cons c s ih =>
    obtain ⟨hc, hs⟩ := not_or.mp (mt List.mem_cons.mpr h)
    rw [unquoted, ih hs]
    exact fun _ heq _ => hc heq.symm

/-- A query with its quoted file paths in table position marked. -/
structure Query where
  parts : Marked Char
  isFile : ∀ r ∈ parts.refs, isFilePath (unquoted r.1) = true

def Query.text (query : Query) : List Char := query.parts.text '\''

section
variable {Key : Type} [DecidableEq Key] (df : DataFusion Key)

/-- The table name of a path reads as a table over exactly that file. -/
def OverFile (catalog : Catalog Key) (path : List Char) : Prop :=
  ∃ key, df.fromItem (tableName path) = some key ∧
    ∃ format, catalog.lookup key = some (.file format path)

/-- In the executed statement each quoted path in table position is a table over that file, and
all other text is that of the query. -/
def ReadsOwnFiles (query : Query) (catalog : Catalog Key) (statement : List Char) : Prop :=
  statement = query.parts.filled (fun raw => tableName (unquoted raw)) ∧
    ∀ r ∈ query.parts.refs, OverFile df catalog (unquoted r.1)

/-- No path to replace stands in quotes elsewhere, in the text or when those before it are
replaced. -/
def ClearSteps : List (List Char) → Marked Char → Prop
  | [], _ => True
  | path :: rest, parts =>
    parts.Clear '\'' path ∧ ClearSteps rest (parts.fill path (tableName path))

instance decidableClearSteps : (paths : List (List Char)) → (parts : Marked Char) →
    Decidable (ClearSteps paths parts)
  | [], _ => .isTrue trivial
  | path :: rest, parts =>
    have := decidableClearSteps rest (parts.fill path (tableName path))
    inferInstanceAs (Decidable (_ ∧ _))

/-- The scanner finds every quoted path in table position, and what it finds is replaced there
only. -/
structure Query.Replaceable (query : Query) : Prop where
  found : ∀ r ∈ query.parts.refs, r.1 ∈ (replacements query.text).map (·.1)
  onlyInTables : ClearSteps ((replacements query.text).map (·.1)) query.parts

/-- The table name of a path reads as one table, which is over that file already, or which is
missing and the path is the first one of the query to go under that name. -/
def OwnsName (catalog : Catalog Key) (found : List (List Char × List Char)) (path : List Char) :
    Prop :=
  ∃ key, df.fromItem (tableName path) = some key ∧
    match catalog.lookup key with
    | some source => ∃ format, source = .file format path
    | none => ∃ r, found.find? (fun r => df.tableReference r.2 = key) = some r ∧ r.1 = path

variable {df}

theorem registerFile_ok {path name : List Char} {catalog catalog' : Catalog Key}
    (hfile : isFilePath path = true) (h : registerFile df path name catalog = .ok catalog')
    (key : Key) : ∃ format, formatOf path = some format ∧
      catalog'.lookup key = (catalog.lookup key).or
        (if df.tableReference name = key then some (.file format path) else none) := by
  obtain ⟨format, hformat⟩ := formatOf_isSome hfile
  refine ⟨format, hformat, ?_⟩
  unfold registerFile at h
  split_ifs at h with hmem
  · cases h
    split_ifs with hkey
    · obtain ⟨source, hsource⟩ := Option.isSome_iff_exists.mp (AList.lookup_isSome.mpr hmem)
      rw [← hkey, hsource, Option.some_or]
    · rw [Option.or_none]
  · rw [hformat] at h
    dsimp only at h
    split at h
    · cases h
      by_cases hkey : df.tableReference name = key
      · have hnone : catalog.lookup key = none := AList.lookup_eq_none.mpr (hkey ▸ hmem)
        rw [if_pos hkey, hnone, ← hkey, AList.lookup_insert, Option.none_or]
      · rw [if_neg hkey, AList.lookup_insert_ne (Ne.symm hkey), Option.or_none]
    · cases h

/-- What the loop over the found paths executes and registers. -/
theorem rewriteAll_ok {found : List (List Char × List Char)} {catalog catalog' : Catalog Key}
    {parts : Marked Char} {statement : List Char}
    (hfound : ∀ r ∈ found, r.2 = tableName r.1 ∧ isFilePath r.1 = true ∧ '\'' ∉ r.1)
    (hraw : ∀ r ∈ parts.refs, '\'' ∉ r.1) (hclear : ClearSteps (found.map (·.1)) parts)
    (h : rewriteAll df found catalog (parts.text '\'') = (catalog', .ok statement)) :
    statement = (parts.fillAll tableName (found.map (·.1))).text '\'' ∧
      ∀ key, catalog'.lookup key = (catalog.lookup key).or
        ((found.find? fun r => df.tableReference r.2 = key).bind
          fun r => (formatOf r.1).map (.file · r.1)) := by
  induction found generalizing catalog parts with
  | nil =>
    cases h
    exact ⟨rfl, fun key => by simp⟩
  | cons r found ih =>
    obtain ⟨path, name⟩ := r
    obtain ⟨⟨hname, hfile, hquote⟩, hrest⟩ := List.forall_mem_cons.mp hfound
    obtain ⟨hhere, hlater⟩ := hclear
    dsimp only at hname hfile hquote hhere
    subst hname
    unfold rewriteAll at h
    split at h
    · cases h
    · rename_i catalog₁ hregister
      rw [Marked.replaceAll_text hquote hraw hhere] at h
      have hraw₁ : ∀ r ∈ (parts.fill path (tableName path)).refs, '\'' ∉ r.1 := by
        intro r hr
        have hmem : r.1 ∈ (parts.fill path (tableName path)).refs.map (·.1) :=
          List.mem_map_of_mem hr
        rw [Marked.fill, Marked.refs_fillFrom] at hmem
        obtain ⟨old, hold, heq⟩ := List.mem_map.mp (List.mem_filter.mp hmem).1
        exact heq ▸ hraw old hold
      obtain ⟨hstatement, hlookup⟩ := ih hrest hraw₁ hlater h
      refine ⟨hstatement, fun key => ?_⟩
      obtain ⟨format, hformat, hkey⟩ := registerFile_ok hfile hregister key
      rw [hlookup, hkey, Option.or_assoc, List.find?_cons]
      split_ifs with hhit
      · simp [hhit, hformat]
      · simp [hhit]

theorem effectiveSql_eq (query : List Char) (catalog : Catalog Key) :
    effectiveSql df query catalog = rewriteAll df (replacements query) catalog query := by
  unfold effectiveSql autoRegisterFiles
  cases hfound : replacements query with
  | nil => rfl
  | cons r rest =>
    simp only [List.isEmpty_cons]
    rcases rewriteAll df (r :: rest) catalog query with ⟨catalog', rewritten⟩
    cases rewritten <;> rfl

/-- With the catalog's answers known, a table is over its file exactly when its name was free
for it. -/
theorem overFile_iff {found : List (List Char × List Char)} {catalog catalog' : Catalog Key}
    (hfound : ∀ r ∈ found, isFilePath r.1 = true)
    (hlookup : ∀ key, catalog'.lookup key = (catalog.lookup key).or
      ((found.find? fun r => df.tableReference r.2 = key).bind
        fun r => (formatOf r.1).map (.file · r.1)))
    (path : List Char) : OverFile df catalog' path ↔ OwnsName df catalog found path := by
  unfold OverFile OwnsName
  refine exists_congr fun key => and_congr_right fun _ => ?_
  rw [hlookup]
  cases catalog.lookup key with
  | some source => simp
  | none =>
    rw [Option.none_or]
    cases hfind : found.find? fun r => df.tableReference r.2 = key with
    | none => simp
    | some r =>
      obtain ⟨format, hformat⟩ := formatOf_isSome (hfound r (List.mem_of_find?_eq_some hfind))
      simp [hformat]

/-- Where the scanner finds the quoted paths of the tables and nothing else is replaced, a query
reads its own files exactly when their table names are free for them. -/
theorem readsOwnFiles_iff (history : List Event) {query : Query} (hquery : query.Replaceable)
    {catalog' : Catalog Key} {statement : List Char}
    (h : effectiveSql df query.text (catalogAfter df history) = (catalog', .ok statement)) :
    ReadsOwnFiles df query catalog' statement ↔
      ∀ r ∈ query.parts.refs, OwnsName df (catalogAfter df history)
        (replacements query.text) (unquoted r.1) := by
  have hwell := fun r (hr : r ∈ replacements query.text) => replacements_wellFormed query.text hr
  have hraw : ∀ r ∈ query.parts.refs, '\'' ∉ r.1 := by
    intro r hr
    obtain ⟨found, hmem, heq⟩ := List.mem_map.mp (hquery.found r hr)
    exact heq ▸ (hwell found hmem).2.2
  rw [effectiveSql_eq] at h
  obtain ⟨hstatement, hlookup⟩ := rewriteAll_ok hwell hraw hquery.onlyInTables h
  have hfilled : statement = query.parts.filled fun raw => tableName (unquoted raw) := by
    rw [hstatement, Marked.text_fillAll hquery.found, Marked.filled, Marked.filled]
    congr 1
    refine List.flatMap_congr fun r hr => ?_
    rw [unquoted_of_notMem (hraw r hr)]
  have hover := overFile_iff (fun r hr => (hwell r hr).2.1) hlookup
  constructor
  · exact fun hreads r hr => (hover _).mp (hreads.2 r hr)
  · exact fun howns => ⟨hfilled, fun r hr => (hover _).mpr (howns r hr)⟩

end

section Orders

/-- Names of letters, digits and underscores, in lower case, and files that can all be read. -/
def plainFusion : DataFusion (List Char) where
  tableReference name := name.map Char.toLower
  fromItem name :=
    if name.all fun c => c.isAlphanum || c = '_' then some (name.map Char.toLower) else none
  register _ _ := .ok ()
  execute _ catalog := catalog

/-- Two files in a list of tables. -/
def ordersQuery (first second : String)
    (h : isFilePath (unquoted first.toList) = true ∧ isFilePath (unquoted second.toList) = true) :
    Query where
  parts := ⟨"SELECT * FROM ".toList, [(first.toList, ", ".toList), (second.toList, [])]⟩
  isFile := by simpa using h

def ownOrders : Query := ordersQuery "a/orders.csv" "b/orders.csv" (by decide)

def ownCatalog : Catalog (List Char) :=
  ((∅ : Catalog (List Char)).insert "a_orders".toList (.file .csv "a/orders.csv".toList)).insert
    "b_orders".toList (.file .csv "b/orders.csv".toList)

def ownStatement : List Char := "SELECT * FROM a_orders, b_orders".toList

theorem readsOwnFiles_iff_orders :
    ReadsOwnFiles plainFusion ownOrders ownCatalog ownStatement ↔
      ∀ r ∈ ownOrders.parts.refs, OwnsName plainFusion (catalogAfter plainFusion [])
        (replacements ownOrders.text) (unquoted r.1) := by
  have hreplaceable : ownOrders.Replaceable := by
    constructor
    · decide +kernel
    · decide +kernel
  have hsql : effectiveSql plainFusion ownOrders.text (catalogAfter plainFusion []) =
      (ownCatalog, .ok ownStatement) := by
    refine Prod.ext (AList.ext ?_) ?_
    · decide +kernel
    · decide +kernel
  exact readsOwnFiles_iff [] hreplaceable hsql

/-- Two paths that differ in a slash and an underscore. -/
def sharedOrders : Query := ordersQuery "a/orders.csv" "a_orders.csv" (by decide)

def sharedCatalog : Catalog (List Char) :=
  (∅ : Catalog (List Char)).insert "a_orders".toList (.file .csv "a/orders.csv".toList)

def sharedStatement : List Char := "SELECT * FROM a_orders, a_orders".toList

/-- A path in table position and a literal to compare with. -/
def comparedOrders : Query where
  parts := ⟨"SELECT * FROM ".toList, [("a.csv".toList, " WHERE f = 'b.csv'".toList)]⟩
  isFile := by decide

def comparedCatalog : Catalog (List Char) :=
  ((∅ : Catalog (List Char)).insert "a".toList (.file .csv "a.csv".toList)).insert
    "b".toList (.file .csv "b.csv".toList)

def comparedStatement : List Char := "SELECT * FROM a WHERE f = b".toList

/-- The two paths become one table, over the first file; the literal becomes a column. -/
theorem not_readsOwnFiles_orders :
    (effectiveSql plainFusion sharedOrders.text (catalogAfter plainFusion []) =
        (sharedCatalog, .ok sharedStatement) ∧
      ¬ ReadsOwnFiles plainFusion sharedOrders sharedCatalog sharedStatement) ∧
    effectiveSql plainFusion comparedOrders.text (catalogAfter plainFusion []) =
        (comparedCatalog, .ok comparedStatement) ∧
      ¬ ReadsOwnFiles plainFusion comparedOrders comparedCatalog comparedStatement := by
  refine ⟨⟨Prod.ext (AList.ext ?_) ?_, fun hreads => ?_⟩, Prod.ext (AList.ext ?_) ?_,
    fun hreads => ?_⟩
  · decide +kernel
  · decide +kernel
  · obtain ⟨key, hkey, format, hover⟩ := hreads.2 ("a_orders.csv".toList, []) (by decide)
    have hname : plainFusion.fromItem (tableName (unquoted "a_orders.csv".toList)) =
        some "a_orders".toList := by decide +kernel
    obtain rfl := Option.some.inj (hname.symm.trans hkey)
    have hlook : sharedCatalog.lookup "a_orders".toList =
        some (.file .csv "a/orders.csv".toList) := by decide +kernel
    rw [hlook, Option.some.injEq, Source.file.injEq] at hover
    exact absurd hover.2 (by decide +kernel)
  · decide +kernel
  · decide +kernel
  · exact absurd hreads.1 (by decide +kernel)

end Orders
end RustLake.Engine
