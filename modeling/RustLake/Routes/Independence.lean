import RustLake.Order.Run
import RustLake.Routes.Migration
import RustLake.Text.Pieces
import Mathlib.Algebra.Order.Group.Multiset
import Mathlib.Algebra.BigOperators.Group.List.Basic

/-! The copies of DataFusion's tables that DuckDB is given, and the answers that it gives from them. -/
namespace RustLake.Routes
open RustLake.Engine RustLake.Text

def selectAll (table : List Char) : List Char := "SELECT * FROM ".toList ++ table

def quoted (name : List Char) : List Char := '"' :: name ++ ['"']

/-- The format of a request to register a table. -/
def requestedFormat (format path : List Char) : Option Format :=
  if format = "auto".toList then
    if ".csv".toList <:+ path then some .csv
    else if ".json".toList <:+ path ∨ ".ndjson".toList <:+ path then some .json
    else some .parquet
  else if format = "parquet".toList then some .parquet
  else if format = "csv".toList then some .csv
  else if format = "json".toList then some .json
  else none

/-- What happens to the tables: a file is registered or a name deregistered, a statement of
DataFusion, other data in a source, the copies of all tables made again, a query sent to DuckDB. -/
inductive EngineEvent (Rows : Type) where
  | registerTable (name format path : List Char)
  | deregisterTable (name : List Char)
  | statement (sql : List Char)
  | replaceRows (source : Source) (rows : Rows)
  | sync
  | query (sql : List (Piece Char))

section
variable {Key Rows Copies Batch : Type} [DecidableEq Key]
  (engines : Engines Key Rows Copies Batch) (unicode : Unicode)

/-- The lake with a file registered, if DataFusion takes it. -/
def registeredFile (name format path : List Char) (lake : Lake Key Rows Copies) :
    Option (Lake Key Rows Copies) := do
  let fileFormat ← requestedFormat format path
  let _ ← (engines.dataFusion.register fileFormat path).toOption
  (registerTable engines name (.file fileFormat path) lake).toOption

def giveTo (engine : Option (AlternativeEngine Key Rows Copies Batch)) (name : List Char)
    (batches : List Batch) (copies : Copies) : Copies :=
  match engine with
  | some engine => engine.registerArrowTable name batches copies
  | none => copies

/-- The rows of a new table are given to the other engines under its name as it stands. -/
def syncRegistered (name : List Char) (lake : Lake Key Rows Copies) : Lake Key Rows Copies :=
  match engines.run (selectAll (quoted name)) lake with
  | (lake', .error _) => lake'
  | (lake', .ok batches) =>
    if batches.isEmpty then lake'
    else
      { lake' with
        copies := giveTo engines.polars name batches (giveTo engines.duckdb name batches lake'.copies) }

def registerTableRoute (name format path : List Char) (lake : Lake Key Rows Copies) :
    Lake Key Rows Copies :=
  match registeredFile engines name format path lake with
  | some lake' => syncRegistered engines name lake'
  | none => lake

/-- `engines_sync`. The names of what was synced for queries stay as they are. -/
def enginesSync (lake : Lake Key Rows Copies) : Lake Key Rows Copies :=
  syncTrinoTablesToEngines engines (listTables engines lake) lake

def EngineEvent.apply (lake : Lake Key Rows Copies) : EngineEvent Rows → Lake Key Rows Copies
  | .registerTable name format path => registerTableRoute engines name format path lake
  | .deregisterTable name =>
    { lake with catalog := lake.catalog.erase (engines.dataFusion.tableReference name) }
  | .statement sql => (contextSql engines sql lake).1
  | .replaceRows source rows => { lake with rows := Function.update lake.rows source rows }
  | .sync => enginesSync engines lake
  | .query sql => (executeViaDuckdbWithMode engines unicode (spell id sql) lake).1

end
end RustLake.Routes

/-! Whether DuckDB answers as DataFusion: what it has copies of must be what the tables hold, or be
copied again before the query. -/
namespace RustLake.Routes
open RustLake.Engine RustLake.Text

/-- What can be seen of the engines: a name as DuckDB takes it, the rows that it has under a name,
the rows of record batches as the contents of a table and as an answer, and the queries, cut at the
names of the tables that they read. -/
structure Observation (Copies Batch DuckName Row Answer : Type) where
  duckName : List Char → DuckName
  held : Copies → DuckName → Option (Multiset Row)
  rowsOf : List Batch → Multiset Row
  answerOf : List Batch → Answer
  IsQuery : List (Piece Char) → Prop

section
variable {Key Rows Copies Batch DuckName Row Answer : Type} [DecidableEq Key]
  (engines : Engines Key Rows Copies Batch) (unicode : Unicode)
  (o : Observation Copies Batch DuckName Row Answer)

/-- The rows of a table as DataFusion has them now. -/
def contents (table : List Char) (lake : Lake Key Rows Copies) : Option (Multiset Row) :=
  (engines.run (selectAll table) lake).2.toOption.map o.rowsOf

/-- A table in a statement that reads its first rows. -/
def limited (table : List Char) : List Char := table ++ " LIMIT 10000".toList

/-- The rows that DuckDB has under the flat name of a table. -/
def copyOf (table : List Char) (lake : Lake Key Rows Copies) : Option (Multiset Row) :=
  o.held lake.copies (o.duckName (flatName table))

/-- DuckDB takes over whole what it is given under a name from a table. -/
def Takes (engine : AlternativeEngine Key Rows Copies Batch) (name table : List Char)
    (lake : Lake Key Rows Copies) : Prop :=
  ∀ batches, (engines.run (selectAll table) lake).2 = .ok batches → ∀ copies,
    o.held (engine.registerArrowTable name batches copies) (o.duckName name) =
      some (o.rowsOf batches)

/-- The documented behaviour of DataFusion and DuckDB: reading a table changes nothing, DataFusion
knows nothing of the copies, a limit leaves small tables whole, a table of DuckDB is replaced without
touching others, and a query over copies that are the tables is answered as over the tables. -/
structure Documented (engine : AlternativeEngine Key Rows Copies Batch) : Prop where
  reading : ∀ table lake, (engines.run (selectAll table) lake).1 = lake
  ownTables : ∀ sql lake, (engines.run sql lake).1.copies = lake.copies ∧
    (engines.run sql lake).1.duckdbSyncedTables = lake.duckdbSyncedTables
  sameTables : ∀ sql (lake lake' : Lake Key Rows Copies), lake.catalog = lake'.catalog →
    lake.rows = lake'.rows → (engines.run sql lake).2 = (engines.run sql lake').2
  empty : ∀ batches, o.rowsOf batches = 0 ↔ batches.any (fun b => engines.numRows b > 0) = false
  limit : ∀ table lake rows, contents engines o table lake = some rows → rows.card ≤ 10000 →
    contents engines o (limited table) lake = some rows
  dotted : ∀ a b, o.duckName a = o.duckName b → ('.' ∈ a ↔ '.' ∈ b)
  others : ∀ name batches copies other, o.duckName other ≠ o.duckName name →
    o.held (engine.registerArrowTable name batches copies) (o.duckName other) =
      o.held copies (o.duckName other)
  polars : ∀ name batches copies duckName,
    o.held (giveTo engines.polars name batches copies) duckName = o.held copies duckName
  quiet : ∀ sql lake, o.IsQuery sql → (engine.sql (spell flatName sql) lake).1 = lake
  refuses : ∀ sql lake, o.IsQuery sql → ∀ n ∈ names sql, copyOf o n lake = none →
    ∀ batches, (engine.sql (spell flatName sql) lake).2 ≠ .ok batches
  agrees : ∀ sql (lake : Lake Key Rows Copies), o.IsQuery sql →
    (∀ n ∈ names sql, contents engines o n lake = copyOf o n lake) →
    ∀ batches, (engine.sql (spell flatName sql) lake).2 = .ok batches →
      ∃ batches', (contextSql engines (spell id sql) lake).2 = .ok batches' ∧
        o.answerOf batches' = o.answerOf batches

/-- An answer of DuckDB to a query is the answer of DataFusion at that moment. -/
def AnswersAlike (sql : List (Piece Char)) (lake : Lake Key Rows Copies) : Prop :=
  ∀ batches mode,
    (executeViaDuckdbWithMode engines unicode (spell id sql) lake).2 = .ok (batches, mode) →
      ∃ batches', (contextSql engines (spell id sql) lake).2 = .ok batches' ∧
        o.answerOf batches' = o.answerOf batches

/-- The rows of a copy are those of its table, or the table is copied again when it is asked for. -/
def Current (table : List Char) (rows : Multiset Row) (lake : Lake Key Rows Copies) : Prop :=
  contents engines o table lake = some rows ∨
    (flatName table ∉ lake.duckdbSyncedTables ∧
      ∃ full, contents engines o table lake = some full ∧ full ≠ 0)

/-- The tables have different names in DuckDB, and what it has copies of are current tables. -/
structure Tracked (lake : Lake Key Rows Copies) : Prop where
  distinct : ∀ a ∈ listTables engines lake, ∀ b ∈ listTables engines lake,
    o.duckName (flatName a) = o.duckName (flatName b) → a = b
  copies : ∀ n rows, copyOf o n lake = some rows → ∃ t ∈ listTables engines lake,
    o.duckName (flatName t) = o.duckName (flatName n) ∧ Current engines o t rows lake

/-- The replacements of the names with dots. -/
def flatNames (tableNames : List (List Char)) : List (List Char × List Char) :=
  (tableNames.filter ('.' ∈ ·)).map fun name => (name, flatName name)

/-- A query in whose text the names with dots stand for tables only, that means by each name the
table that is copied under it, and whose tables DuckDB takes over. -/
structure Asks (engine : AlternativeEngine Key Rows Copies Batch) (sql : List (Piece Char))
    (lake : Lake Key Rows Copies) : Prop where
  isQuery : o.IsQuery sql
  inTurn : InTurn (flatNames (listTables engines lake)) sql
  listed : ∀ n ∈ names sql, '.' ∈ n → n ∈ listTables engines lake
  means : ∀ n ∈ names sql, ∀ t ∈ listTables engines lake,
    o.duckName (flatName t) = o.duckName (flatName n) →
      mentions unicode (unicode.upper.text (spell id sql)) t = true ∧
        contents engines o t lake = contents engines o n lake
  takes : ∀ t ∈ listTables engines lake,
    mentions unicode (unicode.upper.text (spell id sql)) t = true →
      flatName t ∉ lake.duckdbSyncedTables → Takes engines o engine (flatName t) t lake

/-- Another state of the tables has different names for them, and the tables that DuckDB has copies
of are in it as before, or they are copied again. -/
structure Keeps (lake lake' : Lake Key Rows Copies) : Prop where
  distinct : ∀ a ∈ listTables engines lake', ∀ b ∈ listTables engines lake',
    o.duckName (flatName a) = o.duckName (flatName b) → a = b
  copied : ∀ t ∈ listTables engines lake, (copyOf o t lake).isSome →
    t ∈ listTables engines lake' ∧
      (contents engines o t lake' = contents engines o t lake ∨
        (flatName t ∉ lake.duckdbSyncedTables ∧
          ∃ full, contents engines o t lake' = some full ∧ full ≠ 0))

/-- A name that reads in quotes is listed and reads the same without them, and DuckDB takes over what
it reads. -/
structure ReadsQuoted (engine : AlternativeEngine Key Rows Copies Batch) (name : List Char)
    (lake : Lake Key Rows Copies) : Prop where
  same : ∀ rows, contents engines o (quoted name) lake = some rows →
    name ∈ listTables engines lake ∧ contents engines o name lake = some rows
  takes : Takes engines o engine name (quoted name) lake

/-- The steps that keep the copies current. -/
def EngineEvent.Safe (engine : AlternativeEngine Key Rows Copies Batch)
    (lake : Lake Key Rows Copies) : EngineEvent Rows → Prop
  | .registerTable name format path => ∀ lake', registeredFile engines name format path lake = some lake' →
      Keeps engines o lake lake' ∧ ReadsQuoted engines o engine name lake'
  | .sync => ∀ t ∈ listTables engines lake, Takes engines o engine (flatName t) (limited t) lake ∧
      ∀ rows, contents engines o (limited t) lake = some rows →
        ∃ full, contents engines o t lake = some full ∧
          (full.card ≤ 10000 ∨ flatName t ∉ lake.duckdbSyncedTables)
  | .query sql => Asks engines unicode o engine sql lake
  | event => Keeps engines o lake (event.apply engines unicode lake)

/-- The lake in which DuckDB answers a query: some tables were copied to it and are noted. -/
def copied (engine : AlternativeEngine Key Rows Copies Batch)
    (tables : List (List Char × List Batch)) (lake : Lake Key Rows Copies) :
    Lake Key Rows Copies :=
  { engine.syncTables tables lake with
    duckdbSyncedTables := tables.map Prod.fst ∪ lake.duckdbSyncedTables }

/-- What is copied for a query: the tables that it mentions, that hold rows and that are not noted. -/
def CopiedFor (tables : List (List Char × List Batch)) (sql : List (Piece Char))
    (lake : Lake Key Rows Copies) : Prop :=
  ∀ p, p ∈ tables ↔ ∃ t ∈ listTables engines lake,
    mentions unicode (unicode.upper.text (spell id sql)) t = true ∧
      flatName t ∉ lake.duckdbSyncedTables ∧ p.1 = flatName t ∧
      (engines.run (selectAll t) lake).2 = .ok p.2 ∧
        p.2.any (fun b => engines.numRows b > 0) = true

variable {engines unicode o} {engine : AlternativeEngine Key Rows Copies Batch}
  {lake lake' : Lake Key Rows Copies} {table : List Char} {rows : Multiset Row}
  {sql : List (Piece Char)}

theorem flatName_of_notMem (h : '.' ∉ table) : flatName table = table := by
  unfold flatName
  rw [replaceAll_singleton]
  induction table with
  | nil => rfl
  | cons c s ih =>
    obtain ⟨hc, hs⟩ := not_or.mp (mt List.mem_cons.mpr h)
    rw [List.flatMap_cons, if_neg (Ne.symm hc), ih hs]
    rfl

theorem dot_notMem_flatName (table : List Char) : '.' ∉ flatName table := by
  unfold flatName
  rw [replaceAll_singleton]
  intro h
  obtain ⟨c, -, hc⟩ := List.mem_flatMap.mp h
  split_ifs at hc with hdot
  · exact absurd (List.mem_singleton.mp hc) (by decide)
  · exact hdot (List.mem_singleton.mp hc).symm

/-- Flattening the names one after the other is flattening those of the query. -/
theorem flattenNames_spell {tableNames : List (List Char)} (hturn : InTurn (flatNames tableNames) sql)
    (hlisted : ∀ n ∈ names sql, '.' ∈ n → n ∈ tableNames) :
    flattenNames tableNames (spell id sql) = spell flatName sql := by
  have heach : flattenNames tableNames (spell id sql) =
      replaceEach (flatNames tableNames) (spell id sql) := by
    unfold flattenNames replaceEach flatNames
    rw [List.foldl_map, List.foldl_filter]
    simp only [decide_eq_true_eq]
  rw [heach]
  apply replaceEach_map
  · simp
  · exact hturn
  · intro n hn hout
    apply flatName_of_notMem
    intro hdot
    exact hout (List.mem_filter.mpr ⟨hlisted n hn hdot, by simpa using hdot⟩)

omit [DecidableEq Key] in
theorem contents_eq_some : contents engines o table lake = some rows ↔
    ∃ batches, (engines.run (selectAll table) lake).2 = .ok batches ∧ o.rowsOf batches = rows := by
  unfold contents
  cases (engines.run (selectAll table) lake).2 with
  | error e => simp [Except.toOption]
  | ok found => simp [Except.toOption]

omit [DecidableEq Key] in
/-- A change of the tables that keeps what DuckDB has copies of. -/
theorem Keeps.tracked (hkeeps : Keeps engines o lake lake') (hcopies : lake'.copies = lake.copies)
    (hnoted : lake'.duckdbSyncedTables = lake.duckdbSyncedTables) (htracked : Tracked engines o lake) :
    Tracked engines o lake' := by
  constructor
  · exact hkeeps.distinct
  · intro n rows hcopy
    have hbefore : copyOf o n lake = some rows := by
      unfold copyOf at hcopy ⊢
      rw [← hcopies]
      exact hcopy
    obtain ⟨t, hlisted, hsame, hcurrent⟩ := htracked.copies n rows hbefore
    have hcopied : copyOf o t lake = some rows := by
      unfold copyOf at hbefore ⊢
      rw [hsame]
      exact hbefore
    obtain ⟨hlisted', hkept⟩ := hkeeps.copied t hlisted (Option.isSome_of_eq_some hcopied)
    refine ⟨t, hlisted', hsame, ?_⟩
    unfold Current at hcurrent ⊢
    rw [hnoted]
    rcases hkept with hcontents | hagain
    · rw [hcontents]
      exact hcurrent
    · exact Or.inr hagain

section Documented
variable (h : Documented engines o engine)

include h

theorem Documented.contents_congr (hcatalog : lake.catalog = lake'.catalog)
    (hrows : lake.rows = lake'.rows) :
    contents engines o table lake = contents engines o table lake' := by
  unfold contents
  rw [h.sameTables _ _ _ hcatalog hrows]

theorem Documented.fetchTable_eq (lake : Lake Key Rows Copies) (t : List Char) :
    (fetchTable engines t lake).1 = lake ∧ ∀ p, p ∈ (fetchTable engines t lake).2 ↔
      p.1 = flatName t ∧ (engines.run (selectAll t) lake).2 = .ok p.2 ∧
        p.2.any (fun b => engines.numRows b > 0) = true := by
  have hlake : (engines.run (selectAll t) lake).1 = lake := h.reading t lake
  unfold fetchTable
  rw [show "SELECT * FROM ".toList ++ t = selectAll t from rfl]
  rcases hrun : engines.run (selectAll t) lake with ⟨lake', e | batches⟩
  · rw [hrun] at hlake
    exact ⟨hlake, fun p => by simp⟩
  · rw [hrun] at hlake
    refine ⟨hlake, fun p => ?_⟩
    obtain ⟨name, found⟩ := p
    dsimp only
    split_ifs with hany
    · simp only [List.mem_singleton, Prod.mk.injEq, Except.ok.injEq]
      constructor
      · rintro ⟨rfl, rfl⟩
        exact ⟨rfl, rfl, hany⟩
      · rintro ⟨rfl, rfl, -⟩
        exact ⟨rfl, rfl⟩
    · constructor
      · intro hmem
        cases hmem
      · rintro ⟨-, hsame, hrows⟩
        obtain rfl := Except.ok.inj hsame
        exact absurd hrows hany

theorem Documented.current_congr (hcatalog : lake.catalog = lake'.catalog)
    (hrows : lake.rows = lake'.rows) (hnoted : lake.duckdbSyncedTables = lake'.duckdbSyncedTables) :
    Current engines o table rows lake ↔ Current engines o table rows lake' := by
  unfold Current
  rw [h.contents_congr hcatalog hrows, hnoted]

/-- What is fetched of some tables before a query: those that hold rows, and the lake stays as it is. -/
theorem Documented.fetchTables_eq (lake : Lake Key Rows Copies) (tables : List (List Char)) :
    (fetchTables engines tables lake).1 = lake ∧
      ∀ p, p ∈ (fetchTables engines tables lake).2 ↔ ∃ t ∈ tables, p.1 = flatName t ∧
        (engines.run (selectAll t) lake).2 = .ok p.2 ∧
          p.2.any (fun b => engines.numRows b > 0) = true := by
  induction tables with
  | nil => exact ⟨rfl, fun p => by simp [fetchTables]⟩
  | cons t rest ih =>
    obtain ⟨hlake, hfirst⟩ := h.fetchTable_eq lake t
    have hstep : fetchTables engines (t :: rest) lake =
        ((fetchTables engines rest (fetchTable engines t lake).1).1,
          (fetchTable engines t lake).2 ++
            (fetchTables engines rest (fetchTable engines t lake).1).2) := rfl
    rw [hstep, hlake]
    refine ⟨ih.1, fun p => ?_⟩
    rw [List.mem_append, hfirst, ih.2]
    simp

/-- What is fetched for an engine sync. -/
theorem Documented.firstRows_eq (lake : Lake Key Rows Copies) (tables : List (List Char)) :
    (firstRows engines tables lake).1 = lake ∧
      ∀ p, p ∈ (firstRows engines tables lake).2 → ∃ t ∈ tables, p.1 = flatName t ∧
        (engines.run (selectAll (limited t)) lake).2 = .ok p.2 := by
  induction tables with
  | nil => exact ⟨rfl, fun p hp => by cases hp⟩
  | cons t rest ih =>
    have hlake : (engines.run (selectAll (limited t)) lake).1 = lake := h.reading _ lake
    have htext : "SELECT * FROM ".toList ++ t ++ " LIMIT 10000".toList = selectAll (limited t) :=
      List.append_assoc _ _ _
    unfold firstRows
    dsimp only
    rw [htext]
    rcases hrun : engines.run (selectAll (limited t)) lake with ⟨lake', e | batches⟩
    · rw [hrun] at hlake
      dsimp only at hlake ⊢
      rw [hlake]
      refine ⟨ih.1, fun p hp => ?_⟩
      obtain ⟨other, hother, hread⟩ := ih.2 p hp
      exact ⟨other, List.mem_cons_of_mem _ hother, hread⟩
    · rw [hrun] at hlake
      dsimp only at hlake ⊢
      rw [hlake]
      refine ⟨ih.1, fun p hp => ?_⟩
      have hsplit : p = (flatName t, batches) ∨ p ∈ (firstRows engines rest lake).2 := by
        split_ifs at hp
        · exact Or.inr hp
        · exact List.mem_cons.mp hp
      rcases hsplit with rfl | hlater
      · exact ⟨t, List.mem_cons_self, rfl, by rw [hrun]⟩
      · obtain ⟨other, hother, hread⟩ := ih.2 p hlater
        exact ⟨other, List.mem_cons_of_mem _ hother, hread⟩

/-- A copy after several tables were given over is as before, where none of them has its name, or
one of them. -/
theorem Documented.held_syncTables {tables : List (List Char × List Batch)} {n : List Char}
    (htakes : ∀ p ∈ tables, ∀ copies,
      o.held (engine.registerArrowTable p.1 p.2 copies) (o.duckName p.1) = some (o.rowsOf p.2))
    (hheld : o.held (engine.syncTables tables lake).copies (o.duckName n) = some rows) :
    (o.held lake.copies (o.duckName n) = some rows ∧ ∀ p ∈ tables, o.duckName p.1 ≠ o.duckName n) ∨
      ∃ p ∈ tables, o.duckName p.1 = o.duckName n ∧ o.rowsOf p.2 = rows := by
  induction tables generalizing lake with
  | nil => exact Or.inl ⟨hheld, by simp⟩
  | cons p rest ih =>
    obtain ⟨hfirst, hrest⟩ := List.forall_mem_cons.mp htakes
    have hstep : engine.syncTables (p :: rest) lake = engine.syncTables rest
        { lake with copies := engine.registerArrowTable p.1 p.2 lake.copies } := rfl
    rw [hstep] at hheld
    rcases ih hrest hheld with ⟨hbefore, hnone⟩ | ⟨q, hq, hname, hrows⟩
    · dsimp only at hbefore
      by_cases hname : o.duckName p.1 = o.duckName n
      · rw [← hname, hfirst] at hbefore
        exact Or.inr ⟨p, List.mem_cons_self, hname, Option.some.inj hbefore⟩
      · rw [h.others p.1 p.2 lake.copies n (Ne.symm hname)] at hbefore
        exact Or.inl ⟨hbefore, List.forall_mem_cons.mpr ⟨hname, hnone⟩⟩
    · exact Or.inr ⟨q, List.mem_cons_of_mem _ hq, hname, hrows⟩

theorem Documented.execute_eq (hengine : engines.duckdb = some engine)
    (hasks : Asks engines unicode o engine sql lake) :
    ∃ tables mode, CopiedFor engines unicode tables sql lake ∧
      executeViaDuckdbWithMode engines unicode (spell id sql) lake =
        (copied engine tables lake, (engine.sql (spell flatName sql)
          (copied engine tables lake)).2.map fun batches => (batches, mode)) := by
  let tableNames := listTables engines lake
  let referenced := tableNames.filter (mentions unicode (unicode.upper.text (spell id sql)))
  let stale := referenced.filter fun name => flatName name ∉ lake.duckdbSyncedTables
  let tables := (fetchTables engines stale lake).2
  obtain ⟨hlake, hfetched⟩ := h.fetchTables_eq lake stale
  have htext : flattenNames tableNames (spell id sql) = spell flatName sql :=
    flattenNames_spell hasks.inTurn hasks.listed
  have hquiet : (engine.sql (spell flatName sql) (copied engine tables lake)).1 =
      copied engine tables lake := h.quiet sql _ hasks.isQuery
  let mode := if referenced.isEmpty then "direct"
    else if tables.isEmpty ∧ stale.isEmpty then "cached" else "synced"
  refine ⟨tables, mode, fun p => ?_, ?_⟩
  · rw [hfetched]
    constructor
    · rintro ⟨t, ht, hname, hread, hany⟩
      obtain ⟨hreferenced, hstale⟩ := List.mem_filter.mp ht
      obtain ⟨hlisted, hmentioned⟩ := List.mem_filter.mp hreferenced
      exact ⟨t, hlisted, hmentioned, by simpa using hstale, hname, hread, hany⟩
    · rintro ⟨t, hlisted, hmentioned, hstale, hname, hread, hany⟩
      have hreferenced : t ∈ referenced := List.mem_filter.mpr ⟨hlisted, hmentioned⟩
      exact ⟨t, List.mem_filter.mpr ⟨hreferenced, by simpa using hstale⟩, hname, hread, hany⟩
  · have hfetch : fetchTables engines stale lake = (lake, tables) := Prod.ext hlake rfl
    have hanswer : engine.sql (flattenNames tableNames (spell id sql)) (copied engine tables lake) =
        (copied engine tables lake,
          (engine.sql (spell flatName sql) (copied engine tables lake)).2) := by
      rw [htext]
      exact Prod.ext hquiet rfl
    simp only [executeViaDuckdbWithMode, hengine]
    rw [hfetch]
    exact congrArg (fun done => (done.1, done.2.map fun batches => (batches, mode))) hanswer

/-- After the tables of a query were copied, the copies are current. -/
theorem Documented.tracked_copied {tables : List (List Char × List Batch)}
    (htracked : Tracked engines o lake) (hasks : Asks engines unicode o engine sql lake)
    (htables : CopiedFor engines unicode tables sql lake) :
    Tracked engines o (copied engine tables lake) := by
  have hcontents : ∀ t, contents engines o t (copied engine tables lake) =
      contents engines o t lake := fun t => h.contents_congr rfl rfl
  have htakes : ∀ p ∈ tables, ∀ copies,
      o.held (engine.registerArrowTable p.1 p.2 copies) (o.duckName p.1) = some (o.rowsOf p.2) := by
    intro p hp copies
    obtain ⟨t, hlisted, hmentioned, hstale, hname, hread, -⟩ := (htables p).mp hp
    rw [hname]
    exact hasks.takes t hlisted hmentioned hstale p.2 hread copies
  constructor
  · exact htracked.distinct
  · intro n rows hcopy
    rcases h.held_syncTables htakes hcopy with ⟨hbefore, hnone⟩ | ⟨p, hp, hname, hrows⟩
    · obtain ⟨t, hlisted, hsame, hcurrent⟩ := htracked.copies n rows hbefore
      refine ⟨t, hlisted, hsame, ?_⟩
      unfold Current
      rw [hcontents]
      rcases hcurrent with hnow | ⟨hstale, hfull⟩
      · exact Or.inl hnow
      · refine Or.inr ⟨fun hnoted => ?_, hfull⟩
        rcases List.mem_union_iff.mp hnoted with hnew | hold
        · obtain ⟨p, hp, hflat⟩ := List.mem_map.mp hnew
          exact hnone p hp (by rw [hflat, hsame])
        · exact hstale hold
    · obtain ⟨t, hlisted, -, -, hflat, hread, -⟩ := (htables p).mp hp
      refine ⟨t, hlisted, by rw [← hflat, hname], Or.inl ?_⟩
      rw [hcontents]
      exact contents_eq_some.mpr ⟨p.2, hread, hrows⟩

theorem Documented.contextSql_congr (query : List Char) (hcatalog : lake.catalog = lake'.catalog)
    (hrows : lake.rows = lake'.rows) :
    (contextSql engines query lake).2 = (contextSql engines query lake').2 := by
  unfold contextSql
  rw [hcatalog]
  rcases effectiveSql engines.dataFusion query lake'.catalog with ⟨catalog, e | statement⟩
  · rfl
  · have hsame := h.sameTables statement { lake with catalog := catalog }
      { lake' with catalog := catalog } rfl hrows
    exact congrArg (Except.mapError RunError.display) hsame

/-- With current copies DuckDB answers a query as DataFusion does. -/
theorem Documented.answersAlike (hengine : engines.duckdb = some engine)
    (htracked : Tracked engines o lake) (hasks : Asks engines unicode o engine sql lake) :
    AnswersAlike engines unicode o sql lake := by
  obtain ⟨tables, mode, htables, hexecute⟩ := h.execute_eq hengine hasks
  have hcopied := h.tracked_copied htracked hasks htables
  have hcontents : ∀ t, contents engines o t (copied engine tables lake) =
      contents engines o t lake := fun t => h.contents_congr rfl rfl
  intro batches mode' hok
  rw [hexecute] at hok
  have hanswer : (engine.sql (spell flatName sql) (copied engine tables lake)).2 = .ok batches := by
    cases hsql : (engine.sql (spell flatName sql) (copied engine tables lake)).2 with
    | error e =>
      rw [hsql] at hok
      cases hok
    | ok found =>
      rw [hsql] at hok
      obtain ⟨rfl, -⟩ := Prod.mk.inj (Except.ok.inj hok)
      rfl
  have hcopies : ∀ n ∈ names sql, contents engines o n (copied engine tables lake) =
      copyOf o n (copied engine tables lake) := by
    intro n hn
    cases hcopy : copyOf o n (copied engine tables lake) with
    | none => exact absurd hanswer (h.refuses sql _ hasks.isQuery n hn hcopy batches)
    | some rows =>
      obtain ⟨t, hlisted, hsame, hcurrent⟩ := hcopied.copies n rows hcopy
      obtain ⟨hmentioned, hmeans⟩ := hasks.means n hn t hlisted hsame
      rw [hcontents, ← hmeans, ← hcontents]
      rcases hcurrent with hnow | ⟨hstale, full, hfull, hne⟩
      · exact hnow
      · -- A table that is not noted and holds rows was copied for this query, and is noted now.
        rw [hcontents] at hfull
        obtain ⟨found, hread, hrows⟩ := contents_eq_some.mp hfull
        have hany : found.any (fun b => engines.numRows b > 0) = true := by
          by_contra hnone
          have hempty := (h.empty found).mpr (Bool.eq_false_iff.mpr hnone)
          exact hne (hrows.symm.trans hempty)
        have hold : flatName t ∉ lake.duckdbSyncedTables := fun hnoted =>
          hstale (List.mem_union_iff.mpr (Or.inr hnoted))
        have hmem : (flatName t, found) ∈ tables := (htables _).mpr
          ⟨t, hlisted, hmentioned, hold, rfl, hread, hany⟩
        exact absurd (List.mem_union_iff.mpr (Or.inl (List.mem_map_of_mem hmem))) hstale
  obtain ⟨batches', hdata, hsame⟩ := h.agrees sql _ hasks.isQuery hcopies batches hanswer
  have hcontext : (contextSql engines (spell id sql) (copied engine tables lake)).2 =
      (contextSql engines (spell id sql) lake).2 := h.contextSql_congr _ rfl rfl
  exact ⟨batches', hcontext.symm.trans hdata, hsame⟩

/-- A new table is given to DuckDB under its name. -/
theorem Documented.tracked_syncRegistered (hengine : engines.duckdb = some engine)
    {name : List Char} (htracked : Tracked engines o lake)
    (hreads : ReadsQuoted engines o engine name lake) :
    Tracked engines o (syncRegistered engines name lake) := by
  have hlake : (engines.run (selectAll (quoted name)) lake).1 = lake := h.reading _ lake
  unfold syncRegistered
  rcases hrun : engines.run (selectAll (quoted name)) lake with ⟨next, e | batches⟩
  · rw [hrun] at hlake
    dsimp only at hlake ⊢
    rw [hlake]
    exact htracked
  · rw [hrun] at hlake
    dsimp only at hlake ⊢
    rw [hlake]
    split_ifs with hnone
    · exact htracked
    · have hread : (engines.run (selectAll (quoted name)) lake).2 = .ok batches := by rw [hrun]
      have hcontents : contents engines o (quoted name) lake = some (o.rowsOf batches) :=
        contents_eq_some.mpr ⟨batches, hread, rfl⟩
      obtain ⟨hlisted, hsame⟩ := hreads.same _ hcontents
      constructor
      · exact htracked.distinct
      · intro n rows hcopy
        unfold copyOf at hcopy
        rw [h.polars, hengine] at hcopy
        have hnow : ∀ t copies, Current engines o t rows lake →
            Current engines o t rows { lake with copies := copies } := by
          intro t copies hcurrent
          apply (h.current_congr _ _ _).mp hcurrent
          all_goals rfl
        by_cases hname : o.duckName (flatName n) = o.duckName name
        · have hdot : '.' ∉ name := fun hdot =>
            dot_notMem_flatName n ((h.dotted _ _ hname).mpr hdot)
          have htaken := hreads.takes batches hread lake.copies
          rw [hname] at hcopy
          obtain rfl : o.rowsOf batches = rows := Option.some.inj (htaken.symm.trans hcopy)
          refine ⟨name, hlisted, by rw [flatName_of_notMem hdot, hname], ?_⟩
          exact hnow name _ (Or.inl hsame)
        · have hbefore := (h.others name batches lake.copies (flatName n) hname).symm.trans hcopy
          obtain ⟨t, ht, hflat, hcurrent⟩ := htracked.copies n rows hbefore
          exact ⟨t, ht, hflat, hnow t _ hcurrent⟩

/-- Polars' tables are not those of DuckDB. -/
theorem Documented.held_polars {other : AlternativeEngine Key Rows Copies Batch}
    (hpolars : engines.polars = some other) (tables : List (List Char × List Batch))
    (name : DuckName) :
    o.held (other.syncTables tables lake).copies name = o.held lake.copies name := by
  have hgive := h.polars
  rw [hpolars] at hgive
  induction tables generalizing lake with
  | nil => rfl
  | cons p rest ih =>
    have hstep : other.syncTables (p :: rest) lake = other.syncTables rest
        { lake with copies := other.registerArrowTable p.1 p.2 lake.copies } := rfl
    rw [hstep, ih]
    exact hgive p.1 p.2 lake.copies name

/-- An engine sync changes copies only, and DuckDB's are those that it is given. -/
theorem Documented.enginesSync_eq (lake : Lake Key Rows Copies)
    (hengine : engines.duckdb = some engine) :
    (enginesSync engines lake).catalog = lake.catalog ∧ (enginesSync engines lake).rows = lake.rows ∧
      (enginesSync engines lake).duckdbSyncedTables = lake.duckdbSyncedTables ∧
      ∀ name, o.held (enginesSync engines lake).copies name =
        o.held (engine.syncTables (firstRows engines (listTables engines lake) lake).2 lake).copies
          name := by
  have hlake := (h.firstRows_eq lake (listTables engines lake)).1
  unfold enginesSync syncTrinoTablesToEngines
  rw [hengine]
  dsimp only
  rw [hlake]
  cases hpolars : engines.polars with
  | none => exact ⟨rfl, rfl, rfl, fun name => rfl⟩
  | some other => exact ⟨rfl, rfl, rfl, fun name => h.held_polars hpolars _ name⟩

/-- The copies of all tables made again. -/
theorem Documented.tracked_enginesSync (hengine : engines.duckdb = some engine)
    (htracked : Tracked engines o lake)
    (hsafe : EngineEvent.Safe engines unicode o engine lake .sync) :
    Tracked engines o (enginesSync engines lake) := by
  obtain ⟨hlake, hfetched⟩ := h.firstRows_eq lake (listTables engines lake)
  obtain ⟨hcatalog, hrows, hnoted, hheld⟩ := h.enginesSync_eq lake hengine
  generalize (firstRows engines (listTables engines lake) lake).2 = data at hfetched hheld
  have htables : listTables engines (enginesSync engines lake) = listTables engines lake := by
    unfold listTables
    rw [hcatalog]
  have htakes : ∀ p ∈ data, ∀ copies,
      o.held (engine.registerArrowTable p.1 p.2 copies) (o.duckName p.1) = some (o.rowsOf p.2) := by
    intro p hp copies
    obtain ⟨t, hlisted, hname, hread⟩ := hfetched p hp
    rw [hname]
    exact (hsafe t hlisted).1 p.2 hread copies
  constructor
  · rw [htables]
    exact htracked.distinct
  · intro n rows hcopy
    rw [htables]
    unfold copyOf at hcopy
    rw [hheld] at hcopy
    have hcurrent : ∀ t, Current engines o t rows (enginesSync engines lake) ↔
        Current engines o t rows lake := fun t => h.current_congr hcatalog hrows hnoted
    rcases h.held_syncTables htakes hcopy with ⟨hbefore, -⟩ | ⟨p, hp, hname, hrows⟩
    · obtain ⟨t, hlisted, hsame, hbefore⟩ := htracked.copies n rows hbefore
      exact ⟨t, hlisted, hsame, (hcurrent t).mpr hbefore⟩
    · obtain ⟨t, hlisted, hflat, hread⟩ := hfetched p hp
      refine ⟨t, hlisted, by rw [← hflat, hname], (hcurrent t).mpr ?_⟩
      have hlimited : contents engines o (limited t) lake = some rows :=
        contents_eq_some.mpr ⟨p.2, hread, hrows⟩
      obtain ⟨full, hfull, hsmall⟩ := (hsafe t hlisted).2 rows hlimited
      by_cases hcard : full.card ≤ 10000
      · have hwhole := h.limit t lake full hfull hcard
        rw [hlimited] at hwhole
        exact Or.inl (hfull.trans hwhole.symm)
      · refine Or.inr ⟨hsmall.resolve_left hcard, full, hfull, ?_⟩
        rintro rfl
        simp at hcard

omit h in
theorem registeredFile_copies {name format path : List Char}
    (hregister : registeredFile engines name format path lake = some lake') :
    lake'.copies = lake.copies ∧ lake'.duckdbSyncedTables = lake.duckdbSyncedTables := by
  obtain ⟨fileFormat, -, hrest⟩ := Option.bind_eq_some_iff.mp hregister
  obtain ⟨-, -, htable⟩ := Option.bind_eq_some_iff.mp hrest
  unfold registerTable at htable
  dsimp only at htable
  split_ifs at htable with hmem
  · cases htable
  · cases haccepts : engines.accepts name with
    | error e =>
      rw [haccepts] at htable
      cases htable
    | ok done =>
      rw [haccepts] at htable
      obtain rfl := Option.some.inj htable
      exact ⟨rfl, rfl⟩

theorem Documented.contextSql_copies (lake : Lake Key Rows Copies) (query : List Char) :
    (contextSql engines query lake).1.copies = lake.copies ∧
      (contextSql engines query lake).1.duckdbSyncedTables = lake.duckdbSyncedTables := by
  unfold contextSql
  rcases effectiveSql engines.dataFusion query lake.catalog with ⟨catalog, e | statement⟩
  · exact ⟨rfl, rfl⟩
  · exact h.ownTables statement { lake with catalog := catalog }

/-- A step that keeps the copies current. -/
theorem Documented.tracked_apply (hengine : engines.duckdb = some engine) {event : EngineEvent Rows}
    (htracked : Tracked engines o lake) (hsafe : event.Safe engines unicode o engine lake) :
    Tracked engines o (event.apply engines unicode lake) := by
  cases event with
  | registerTable name format path =>
    have happly : (EngineEvent.registerTable name format path).apply engines unicode lake =
        registerTableRoute engines name format path lake := rfl
    rw [happly, registerTableRoute]
    cases hregister : registeredFile engines name format path lake with
    | none => exact htracked
    | some lake' =>
      obtain ⟨hkeeps, hreads⟩ := hsafe lake' hregister
      obtain ⟨hcopies, hnoted⟩ := registeredFile_copies hregister
      have hregistered := hkeeps.tracked hcopies hnoted htracked
      exact h.tracked_syncRegistered hengine hregistered hreads
  | deregisterTable name => exact Keeps.tracked hsafe rfl rfl htracked
  | statement sql =>
    obtain ⟨hcopies, hnoted⟩ := h.contextSql_copies lake sql
    exact Keeps.tracked hsafe hcopies hnoted htracked
  | replaceRows source rows => exact Keeps.tracked hsafe rfl rfl htracked
  | sync => exact h.tracked_enginesSync hengine htracked hsafe
  | query sql =>
    obtain ⟨tables, mode, htables, hexecute⟩ := h.execute_eq hengine hsafe
    have happly : (EngineEvent.query sql).apply engines unicode lake = copied engine tables lake :=
      congrArg Prod.fst hexecute
    rw [happly]
    exact h.tracked_copied htracked hsafe htables

/-- In a run whose steps keep the copies current every query that DuckDB answers is answered as
DataFusion answers it at that moment. -/
theorem answersAlike_run (hengine : engines.duckdb = some engine)
    {events : List (EngineEvent Rows)} (hstart : Tracked engines o lake)
    (hsafe : Run.Along (fun lake event => some (event.apply engines unicode lake))
      (fun lake event => event.Safe engines unicode o engine lake) lake events)
    (hrun : Run.run (fun lake event => some (event.apply engines unicode lake)) lake events =
      some lake')
    (hasks : Asks engines unicode o engine sql lake') : AnswersAlike engines unicode o sql lake' := by
  have htracked : Tracked engines o lake' := by
    apply Run.invariant _ hstart hsafe hrun
    intro s event s' htracked hok hstep
    obtain rfl := Option.some.inj hstep
    exact h.tracked_apply hengine htracked hok
  exact h.answersAlike hengine htracked hasks

end Documented
end

section Orders

def asciiLetters : Unicode := .asciiOnly

/-- The table of a `SELECT * FROM`. -/
def selectedTable (statement : List Char) : Option (List Char) :=
  (statement.dropPrefix? "SELECT * FROM ".toList).map fun rest =>
    trimMatches '"' (rest.takeWhile (· ≠ ' '))

/-- DuckDB with tables of numbers. -/
def numberDuckdb : AlternativeEngine (List Char) (Multiset ℕ) (List Char → Option (Multiset ℕ))
    (Multiset ℕ) where
  registerArrowTable name batches copies := Function.update copies name (some batches.sum)
  sql text lake :=
    match (text.dropPrefix? "SELECT * FROM ".toList).bind lake.copies with
    | some rows => (lake, .ok [rows])
    | none => (lake, .error "Catalog Error: Table does not exist!")

def numberEngines : Engines (List Char) (Multiset ℕ) (List Char → Option (Multiset ℕ))
    (Multiset ℕ) where
  dataFusion :=
    { tableReference := fun name => name
      fromItem := some
      register := fun _ _ => .ok ()
      execute := fun _ catalog => catalog }
  run statement lake :=
    match (selectedTable statement).bind lake.catalog.lookup with
    | some source => (lake, .ok [lake.rows source])
    | none => (lake, .error (.planning "table not found"))
  schemas catalog := [("public".toList, catalog.keys)]
  memTable _ _ := .error "no table"
  accepts _ := .ok ()
  nameInUse name := "The table " ++ String.ofList name ++ " already exists"
  columns _ := ["id"]
  numRows := Multiset.card
  duckdb := some numberDuckdb
  polars := none

/-- Queries for a whole table under a plain name. -/
def numberObservation : Observation (List Char → Option (Multiset ℕ)) (Multiset ℕ) (List Char) ℕ
    (Multiset ℕ) where
  duckName name := name
  held copies name := copies name
  rowsOf := List.sum
  answerOf := List.sum
  IsQuery sql := ∃ n : List Char, (∀ c ∈ n, c.isAlphanum = true) ∧
    sql = [.text "SELECT * FROM ".toList, .name n]

theorem replacements_of_notMem {query : List Char} (h : '\'' ∉ query) : replacements query = [] := by
  have hfold : ∀ (text current : List Char), '\'' ∉ text →
      (text.foldl Scan.step ⟨false, current, []⟩).replacements = [] := by
    intro text
    induction text with
    | nil => exact fun _ _ => rfl
    | cons c text ih =>
      intro current hnot
      obtain ⟨hc, htext⟩ := not_or.mp (mt List.mem_cons.mpr hnot)
      have hstep : Scan.step ⟨false, current, []⟩ c = ⟨false, current, []⟩ := by
        simp [Scan.step, Ne.symm hc]
      rw [List.foldl_cons, hstep]
      exact ih current htext
  exact hfold query [] h

theorem selectedTable_selectAll (rest : List Char) :
    selectedTable (selectAll rest) = some (trimMatches '"' (rest.takeWhile (· ≠ ' '))) := by
  have hdrop : (selectAll rest).dropPrefix? "SELECT * FROM ".toList = some rest :=
    List.dropPrefix?_eq_some_iff.mpr ⟨_, rfl, beq_self_eq_true _⟩
  unfold selectedTable
  rw [hdrop]
  rfl

theorem numberEngines_run (statement : List Char)
    (lake : Lake (List Char) (Multiset ℕ) (List Char → Option (Multiset ℕ))) :
    (numberEngines.run statement lake).1 = lake ∧ (numberEngines.run statement lake).2 =
      match (selectedTable statement).bind lake.catalog.lookup with
      | some source => .ok [lake.rows source]
      | none => .error (.planning "table not found") := by
  unfold numberEngines
  dsimp only
  cases (selectedTable statement).bind lake.catalog.lookup with
  | none => exact ⟨rfl, rfl⟩
  | some source => exact ⟨rfl, rfl⟩

theorem numberDuckdb_sql (sql : List (Piece Char)) {n : List Char}
    (h : sql = [.text "SELECT * FROM ".toList, .name n])
    (lake : Lake (List Char) (Multiset ℕ) (List Char → Option (Multiset ℕ))) :
    numberDuckdb.sql (spell flatName sql) lake = match copyOf numberObservation n lake with
      | some rows => (lake, .ok [rows])
      | none => (lake, .error "Catalog Error: Table does not exist!") := by
  subst h
  have htext : spell flatName [.text "SELECT * FROM ".toList, .name n] =
      "SELECT * FROM ".toList ++ flatName n := by simp [spell, Piece.spelled]
  have hdrop : ("SELECT * FROM ".toList ++ flatName n).dropPrefix? "SELECT * FROM ".toList =
      some (flatName n) := List.dropPrefix?_eq_some_iff.mpr ⟨_, rfl, beq_self_eq_true _⟩
  rw [htext]
  unfold numberDuckdb
  dsimp only
  rw [hdrop]
  rfl

theorem contextSql_selectAll {n : List Char} (hplain : ∀ c ∈ n, c.isAlphanum = true)
    (lake : Lake (List Char) (Multiset ℕ) (List Char → Option (Multiset ℕ))) :
    (contextSql numberEngines (selectAll n) lake).2 =
      (numberEngines.run (selectAll n) lake).2.mapError RunError.display := by
  have hquote : '\'' ∉ selectAll n := by
    intro hmem
    rcases List.mem_append.mp hmem with hselect | hname
    · simp at hselect
    · exact absurd (hplain _ hname) (by decide)
  have hstatement : effectiveSql numberEngines.dataFusion (selectAll n) lake.catalog =
      (lake.catalog, .ok (selectAll n)) := by
    unfold effectiveSql autoRegisterFiles
    rw [replacements_of_notMem hquote]
    rfl
  unfold contextSql
  rw [hstatement]

theorem numberEngines_documented :
    Documented numberEngines numberObservation numberDuckdb where
  reading table lake := (numberEngines_run _ lake).1
  ownTables sql lake := by
    rw [(numberEngines_run sql lake).1]
    exact ⟨rfl, rfl⟩
  sameTables sql lake lake' hcatalog hrows := by
    rw [(numberEngines_run sql lake).2, (numberEngines_run sql lake').2, hcatalog, hrows]
  empty batches := by
    induction batches with
    | nil => simp [numberObservation]
    | cons batch rest ih =>
      have hsum : numberObservation.rowsOf (batch :: rest) =
          batch + numberObservation.rowsOf rest := rfl
      rw [hsum, List.any_cons, Bool.or_eq_false_iff, ← ih]
      have hcard : numberEngines.numRows batch = Multiset.card batch := rfl
      rw [decide_eq_false_iff_not, hcard, ← Multiset.card_eq_zero, ← Multiset.card_eq_zero,
        Multiset.card_add]
      omega
  limit table lake rows hcontents _ := by
    have hword : (limited table).takeWhile (· ≠ ' ') = table.takeWhile (· ≠ ' ') := by
      clear hcontents
      unfold limited
      induction table with
      | nil => rfl
      | cons c rest ih =>
        by_cases hc : c = ' '
        · simp [hc]
        · simpa [List.takeWhile_cons, hc] using ih
    have htable : selectedTable (selectAll (limited table)) = selectedTable (selectAll table) := by
      rw [selectedTable_selectAll, selectedTable_selectAll, hword]
    rw [← hcontents]
    unfold contents
    rw [(numberEngines_run _ lake).2, (numberEngines_run _ lake).2, htable]
  dotted a b h := by
    have hsame : a = b := h
    rw [hsame]
  others name batches copies other hne := Function.update_of_ne hne _ _
  polars name batches copies duckName := rfl
  quiet sql lake hquery := by
    obtain ⟨n, -, rfl⟩ := hquery
    rw [numberDuckdb_sql _ rfl]
    split <;> rfl
  refuses sql lake hquery n hn hcopy batches := by
    obtain ⟨m, -, rfl⟩ := hquery
    obtain rfl : n = m := List.mem_singleton.mp hn
    rw [numberDuckdb_sql _ rfl, hcopy]
    exact fun h => by cases h
  agrees sql lake hquery hcopies batches hanswer := by
    obtain ⟨n, hplain, rfl⟩ := hquery
    have hcopy := hcopies n (List.mem_singleton.mpr rfl)
    rw [numberDuckdb_sql _ rfl] at hanswer
    cases hrows : copyOf numberObservation n lake with
    | none =>
      rw [hrows] at hanswer
      cases hanswer
    | some rows =>
      rw [hrows] at hanswer hcopy
      obtain rfl : [rows] = batches := Except.ok.inj hanswer
      obtain ⟨found, hread, hsum⟩ := contents_eq_some.mp hcopy
      have htext : spell id [.text "SELECT * FROM ".toList, .name n] = selectAll n := by
        change "SELECT * FROM ".toList ++ (n ++ []) = selectAll n
        rw [List.append_nil]
        rfl
      refine ⟨found, ?_, ?_⟩
      · rw [htext, contextSql_selectAll hplain, hread]
        rfl
      · simpa [numberObservation] using hsum

theorem numberDuckdb_takes (name table : List Char)
    (lake : Lake (List Char) (Multiset ℕ) (List Char → Option (Multiset ℕ))) :
    Takes numberEngines numberObservation numberDuckdb name table lake :=
  fun _ _ _ => Function.update_self _ _ _

theorem listTables_numberEngines
    (lake : Lake (List Char) (Multiset ℕ) (List Char → Option (Multiset ℕ))) :
    listTables numberEngines lake = lake.catalog.keys.mergeSort fun a b => decide (a ≤ b) := by
  have hschemas : numberEngines.schemas lake.catalog = [("public".toList, lake.catalog.keys)] := rfl
  have hpublic : ¬ "public".toList = "information_schema".toList := by decide
  unfold listTables
  rw [hschemas, List.flatMap_cons, List.flatMap_nil, List.append_nil]
  dsimp only
  rw [if_neg hpublic]
  have hnames : (fun name : List Char => if "public".toList = "public".toList then name
      else "public".toList ++ '.' :: name) = id := by
    funext name
    exact if_pos rfl
  rw [hnames, List.map_id]

/-- Numbers in every source, and no tables. -/
def noTables : Lake (List Char) (Multiset ℕ) (List Char → Option (Multiset ℕ)) :=
  ⟨∅, fun _ => {7}, fun _ => none, []⟩

def registerOrders : EngineEvent (Multiset ℕ) :=
  .registerTable "orders".toList "csv".toList "orders.csv".toList

def dropOrders : EngineEvent (Multiset ℕ) := .deregisterTable "orders".toList

def allOrders : List (Piece Char) := [.text "SELECT * FROM ".toList, .name "orders".toList]

/-- The orders with DuckDB's copy of them. -/
def withOrders : Lake (List Char) (Multiset ℕ) (List Char → Option (Multiset ℕ)) where
  catalog := (∅ : Catalog (List Char)).insert "orders".toList (.file .csv "orders.csv".toList)
  rows := fun _ => {7}
  copies := Function.update (fun _ => none) "orders".toList (some {7})
  duckdbSyncedTables := []

theorem registeredFile_orders : registeredFile numberEngines "orders".toList "csv".toList
    "orders.csv".toList noTables = some { withOrders with copies := fun _ => none } := by
  have hformat : requestedFormat "csv".toList "orders.csv".toList = some .csv := by decide +kernel
  unfold registeredFile
  rw [hformat]
  rfl

theorem registerOrders_apply :
    registerOrders.apply numberEngines asciiLetters noTables = withOrders := by
  have htable : selectedTable (selectAll (quoted "orders".toList)) = some "orders".toList := by
    decide +kernel
  have hread : numberEngines.run (selectAll (quoted "orders".toList))
      { withOrders with copies := fun _ => none } =
        ({ withOrders with copies := fun _ => none }, .ok [{7}]) := by
    obtain ⟨hlake, hrows⟩ := numberEngines_run (selectAll (quoted "orders".toList))
      { withOrders with copies := fun _ => none }
    refine Prod.ext hlake (hrows.trans ?_)
    rw [htable]
    rfl
  have hroute : registerOrders.apply numberEngines asciiLetters noTables =
      registerTableRoute numberEngines "orders".toList "csv".toList "orders.csv".toList noTables := rfl
  rw [hroute, registerTableRoute, registeredFile_orders]
  dsimp only
  rw [syncRegistered, hread]
  rfl

theorem listTables_withOrders (copies : List Char → Option (Multiset ℕ)) :
    listTables numberEngines { withOrders with copies := copies } = ["orders".toList] := by
  rw [listTables_numberEngines]
  exact List.mergeSort_singleton _

theorem contents_numberEngines {table : List Char}
    {lake : Lake (List Char) (Multiset ℕ) (List Char → Option (Multiset ℕ))} :
    contents numberEngines numberObservation table lake =
      ((selectedTable (selectAll table)).bind lake.catalog.lookup).map lake.rows := by
  unfold contents
  rw [(numberEngines_run _ lake).2]
  cases (selectedTable (selectAll table)).bind lake.catalog.lookup with
  | none => rfl
  | some source => simp [Except.toOption, numberObservation]

theorem selectedTable_orders : selectedTable (selectAll "orders".toList) = some "orders".toList ∧
    selectedTable (selectAll (quoted "orders".toList)) = some "orders".toList := by
  decide +kernel

theorem orders_plain : ∀ c ∈ "orders".toList, c.isAlphanum = true := by
  have hplain : "orders".toList.all Char.isAlphanum = true := by decide
  exact fun c hc => List.all_eq_true.mp hplain c hc

theorem allOrders_isQuery : numberObservation.IsQuery allOrders :=
  ⟨"orders".toList, orders_plain, rfl⟩

/-- All orders can be asked for where no other table is. -/
theorem asks_allOrders {lake : Lake (List Char) (Multiset ℕ) (List Char → Option (Multiset ℕ))}
    (h : ∀ t ∈ listTables numberEngines lake, t = "orders".toList) :
    Asks numberEngines asciiLetters numberObservation numberDuckdb allOrders lake := by
  have hdot : '.' ∉ "orders".toList := by decide
  constructor
  · exact allOrders_isQuery
  · have hnone : flatNames (listTables numberEngines lake) = [] := by
      unfold flatNames
      rw [List.map_eq_nil_iff, List.filter_eq_nil_iff]
      intro t ht
      rw [h t ht]
      simp
    rw [hnone]
    trivial
  · intro n hn hmem
    rw [List.mem_singleton.mp hn] at hmem
    exact absurd hmem hdot
  · intro n hn t ht _
    rw [List.mem_singleton.mp hn, h t ht]
    exact ⟨by decide +kernel, rfl⟩
  · exact fun t _ _ _ => numberDuckdb_takes _ _ _

theorem answersAlike_run_orders :
    AnswersAlike numberEngines asciiLetters numberObservation allOrders withOrders := by
  have hstart : Tracked numberEngines numberObservation noTables := by
    constructor
    · intro a ha
      rw [listTables_numberEngines] at ha
      exact absurd ((List.mem_mergeSort).mp ha) List.not_mem_nil
    · intro n rows hcopy
      cases hcopy
  have hsame : ∀ copies, ∀ a ∈ listTables numberEngines { withOrders with copies := copies },
      a = "orders".toList := by
    intro copies a ha
    rw [listTables_withOrders] at ha
    exact List.mem_singleton.mp ha
  have hsafe : Run.Along (fun lake event => some (event.apply numberEngines asciiLetters lake))
      (fun lake event => event.Safe numberEngines asciiLetters numberObservation numberDuckdb lake)
      noTables [registerOrders] := by
    refine ⟨fun lake' hregister => ?_, fun _ _ => trivial⟩
    obtain rfl := Option.some.inj (registeredFile_orders.symm.trans hregister)
    constructor
    · constructor
      · intro a ha b hb _
        rw [hsame _ a ha, hsame _ b hb]
      · intro t _ hcopy
        cases hcopy
    · constructor
      · intro rows hrows
        refine ⟨?_, ?_⟩
        · rw [listTables_withOrders]
          exact List.mem_singleton.mpr rfl
        · rw [contents_numberEngines, selectedTable_orders.2] at hrows
          rw [contents_numberEngines, selectedTable_orders.1]
          exact hrows
      · exact numberDuckdb_takes _ _ _
  have hasks := asks_allOrders (hsame withOrders.copies)
  have hrun : Run.run (fun lake event => some (event.apply numberEngines asciiLetters lake))
      noTables [registerOrders] = some withOrders := congrArg some registerOrders_apply
  exact answersAlike_run numberEngines_documented rfl hstart hsafe hrun hasks

/-- Orders that were dropped are still answered. -/
theorem not_answersAlike_orders :
    ¬ AnswersAlike numberEngines asciiLetters numberObservation allOrders
      (dropOrders.apply numberEngines asciiLetters
        (registerOrders.apply numberEngines asciiLetters noTables)) := by
  rw [registerOrders_apply]
  intro h
  have hnone : listTables numberEngines (dropOrders.apply numberEngines asciiLetters withOrders) =
      [] := by
    rw [listTables_numberEngines]
    exact List.mergeSort_nil
  have hasks : Asks numberEngines asciiLetters numberObservation numberDuckdb allOrders
      (dropOrders.apply numberEngines asciiLetters withOrders) := asks_allOrders (by simp [hnone])
  obtain ⟨tables, mode, htables, hexecute⟩ := numberEngines_documented.execute_eq rfl hasks
  obtain rfl : tables = [] := by
    apply List.eq_nil_iff_forall_not_mem.mpr
    intro p hp
    obtain ⟨t, ht, -⟩ := (htables p).mp hp
    rw [hnone] at ht
    cases ht
  have hanswer : (executeViaDuckdbWithMode numberEngines asciiLetters (spell id allOrders)
      (dropOrders.apply numberEngines asciiLetters withOrders)).2 = .ok ([{7}], mode) := by
    rw [hexecute, numberDuckdb_sql allOrders rfl]
    rfl
  obtain ⟨batches, hbatches, -⟩ := h _ _ hanswer
  have htext : spell id allOrders = selectAll "orders".toList := rfl
  rw [htext, contextSql_selectAll orders_plain, (numberEngines_run _ _).2,
    selectedTable_orders.1] at hbatches
  cases hbatches

end Orders
end RustLake.Routes
