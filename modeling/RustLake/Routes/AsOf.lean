import RustLake.Iceberg.Content
import RustLake.Routes.Doors

/-! Queries with a `VERSION AS OF` or `SYSTEM_TIME AS OF` clause. The snapshot is resolved, but the
answer is read from the table as it is. -/
namespace RustLake.Routes
open RustLake.Engine RustLake.Iceberg RustLake.Json RustLake.Router RustLake.Sql RustLake.Text

/-- The object stores: the data files that the manifests list for the snapshots of a table, and what
a table over some files holds. -/
structure DataFiles (Rows : Type) where
  listed : IcebergTableState → Int64 → List DataFileInfo
  rows : List String → Rows

section
variable {Key Rows Copies Batch : Type} [DecidableEq Key]
  (platform : Platform Key Rows Copies Batch) (readOnly : ReadOnlyTables)

/-- A query that is let pass and that `parse_time_travel` reads. -/
structure TimeTravels (req : SqlRequest) (tt : TimeTravelQuery) : Prop where
  passed : refusedTable platform.unicode platform.parse sameOrQualified readOnly req.sql = none
  query : ¬ IsCtas platform.unicode req.sql
  recognised : parseTimeTravel platform.unicode platform.chrono req.sql = some (some tt)

/-- The state of a table and the snapshot that a reference is resolved to. -/
def resolved (table : List Char) (ref : SnapshotRef) : Option (IcebergTableState × SnapshotInfo) :=
  (platform.findIcebergTableState table).bind fun ts =>
    (resolveSnapshot ts ref).toOption.map fun snap => (ts, snap)

def tableSource (table : List Char) (lake : Lake Key Rows Copies) : Option Source :=
  (platform.engines.dataFusion.fromItem table).bind lake.catalog.lookup

/-- The lake in which a table holds other rows. -/
def withRows (table : List Char) (rows : Rows) (lake : Lake Key Rows Copies) :
    Lake Key Rows Copies :=
  match tableSource platform table lake with
  | some source => { lake with rows := Function.update lake.rows source rows }
  | none => lake

/-- The rows that the engine chosen for a request answers to a text, if it does. -/
def engineRows (req : SqlRequest) (text : List Char) (lake : Lake Key Rows Copies) :
    Option (List Value) :=
  match (answer platform req text lake).2 with
  | .ok (batches, _, _) => (platform.batchesToJson batches).toOption
  | .error _ => none

/-- The rows that DataFusion answers to a text over the tables of a lake. -/
def dataFusionRows (text : List Char) (lake : Lake Key Rows Copies) : Option (List Value) :=
  match (contextSql platform.engines text lake).2 with
  | .ok batches => (platform.batchesToJson batches).toOption
  | .error _ => none

/-- A query of a table as of a reference. -/
structure AsOfQuery (table : List Char) (ref : SnapshotRef) where
  req : SqlRequest
  tt : TimeTravelQuery
  travels : TimeTravels platform readOnly req tt
  table_eq : tt.table = table
  ref_eq : tt.snapshotRef = ref

variable (storage : DataFiles Rows) {table : List Char} {ref : SnapshotRef}

/-- A response has the rows of the query over the data files of the snapshot; without a snapshot
there is no response. -/
def AnswersAsOf (query : AsOfQuery platform readOnly table ref) (lake : Lake Key Rows Copies) :
    Prop :=
  match resolved platform table ref with
  | none => ∀ response, (executeSql platform query.req readOnly lake).2 ≠ .ok response
  | some (ts, snap) => ∀ paths, Collects (ts.attach (storage.listed ts)) (some snap.snapshotId) paths →
      ∀ response, (executeSql platform query.req readOnly lake).2 = .ok response →
        ∃ text, sparkTranslated platform query.tt.rewrittenSql = .ok text ∧
          dataFusionRows platform text (withRows platform table (storage.rows paths) lake) =
            some response.rows

variable (table ref)

/-- A table holds now what it held in the snapshot, and an engine that answers its queries does so
as DataFusion. Without metadata no engine answers to a text with the clause in it. -/
def HoldsSnapshot (lake : Lake Key Rows Copies) : Prop :=
  match resolved platform table ref with
  | none => platform.findIcebergTableState table = none →
      ∀ query : AsOfQuery platform readOnly table ref, ∀ text,
        sparkTranslated platform query.req.sql = .ok text →
          engineRows platform query.req text lake = none
  | some (ts, snap) => ∀ paths, Collects (ts.attach (storage.listed ts)) (some snap.snapshotId) paths →
      (∀ source, tableSource platform table lake = some source →
        lake.rows source = storage.rows paths) ∧
      ∀ query : AsOfQuery platform readOnly table ref, ∀ text rows,
        sparkTranslated platform query.tt.rewrittenSql = .ok text →
          engineRows platform query.req text lake = some rows →
            dataFusionRows platform text lake = some rows

/-- A query that DataFusion answers with all that the table holds. -/
structure Scan extends AsOfQuery platform readOnly table ref where
  text : List Char
  decode : List Value → Rows
  translated : sparkTranslated platform tt.rewrittenSql = .ok text
  engine : determineEngine platform.engines platform.unicode req.engine
    (classified platform.unicode platform.parse req.sql).engine = "DataFusion"
  reads : ∀ (lake : Lake Key Rows Copies) source, tableSource platform table lake = some source →
    ∃ rows, dataFusionRows platform text lake = some rows ∧ decode rows = lake.rows source

variable {platform readOnly storage table ref} {lake : Lake Key Rows Copies} {req : SqlRequest}
  {tt : TimeTravelQuery}

omit [DecidableEq Key] in
/-- The text that is executed: without the clause where the snapshot was found, as it stands where no
metadata was, and none where there is no such snapshot. -/
theorem AsOfQuery.prepared_eq (query : AsOfQuery platform readOnly table ref) :
    prepared platform query.req.sql = match platform.findIcebergTableState table with
      | none => sparkTranslated platform query.req.sql
      | some ts => match resolveSnapshot ts ref with
        | .ok _ => sparkTranslated platform query.tt.rewrittenSql
        | .error e => .error (.error 400 ("Time travel resolution failed: " ++ e)) := by
  have htext : timeTravelled platform query.req.sql =
      match platform.findIcebergTableState table with
      | none => .ok query.req.sql
      | some ts => match resolveSnapshot ts ref with
        | .ok _ => .ok query.tt.rewrittenSql
        | .error e => .error (.error 400 ("Time travel resolution failed: " ++ e)) := by
    rw [timeTravelled, query.travels.recognised]
    dsimp only
    rewrite [query.table_eq, query.ref_eq]
    rfl
  rw [prepared, htext]
  cases platform.findIcebergTableState table with
  | none => rfl
  | some ts =>
    dsimp only
    cases resolveSnapshot ts ref with
    | error e => rfl
    | ok snap => rfl

/-- The responses are the answers of the chosen engine to the text that is executed. -/
theorem TimeTravels.response_iff (h : TimeTravels platform readOnly req tt) {rows : List Value} :
    (∃ response, (executeSql platform req readOnly lake).2 = .ok response ∧ response.rows = rows) ↔
      ∃ text, prepared platform req.sql = .ok text ∧
        engineRows platform req text lake = some rows := by
  have hexecute : executeSql platform req readOnly lake = execute platform req lake := by
    rw [executeSql, h.passed]
  rw [hexecute, execute_of_not_ctas h.query]
  cases hprepared : prepared platform req.sql with
  | error reply =>
    constructor
    · intro hok
      obtain ⟨response, hresponse, -⟩ := hok
      have hdelivered : reply.delivery = .delivered response.columns response.rows := by
        rw [show reply = .ok response from hresponse]
        rfl
      exact absurd hdelivered (prepared_error hprepared _ _)
    · intro hsome
      obtain ⟨text, htext, -⟩ := hsome
      cases htext
  | ok text =>
    have hengine : (∃ text', Except.ok (ε := Reply) text = .ok text' ∧
        engineRows platform req text' lake = some rows) ↔
          engineRows platform req text lake = some rows := by simp
    rw [hengine]
    unfold engineRows
    dsimp only
    rcases answer platform req text lake with ⟨lake', ⟨e, engine⟩ | ⟨batches, mode, engine⟩⟩
    · simp
    · cases hjson : platform.batchesToJson batches with
      | error e => simp [finishSqlResponse, hjson, Except.toOption]
      | ok found => simp [finishSqlResponse, hjson, Except.toOption]

/-- Giving a table the rows that it has changes nothing. -/
theorem withRows_self {rows : Rows}
    (h : ∀ source, tableSource platform table lake = some source → lake.rows source = rows) :
    withRows platform table rows lake = lake := by
  unfold withRows
  cases hsource : tableSource platform table lake with
  | none => rfl
  | some source =>
    have hrows : rows = lake.rows source := (h source hsource).symm
    simp only [hrows, Function.update_eq_self]

theorem withRows_rows {rows : Rows} {source : Source}
    (h : tableSource platform table lake = some source) :
    (withRows platform table rows lake).rows source = rows := by
  unfold withRows
  rw [h]
  exact Function.update_self _ _ _

theorem tableSource_withRows (rows : Rows) :
    tableSource platform table (withRows platform table rows lake) =
      tableSource platform table lake := by
  unfold withRows
  cases hsource : tableSource platform table lake with
  | none => exact hsource
  | some source => exact hsource

omit [DecidableEq Key] in
theorem AsOfQuery.prepared_of_resolved (query : AsOfQuery platform readOnly table ref)
    {found : IcebergTableState × SnapshotInfo} (h : resolved platform table ref = some found) :
    prepared platform query.req.sql = sparkTranslated platform query.tt.rewrittenSql := by
  obtain ⟨ts, hfind, hsnap⟩ := Option.bind_eq_some_iff.mp h
  rw [query.prepared_eq, hfind]
  dsimp only
  cases hresolve : resolveSnapshot ts ref with
  | error e => simp [hresolve, Except.toOption] at hsnap
  | ok snap => rfl

omit [DecidableEq Key] in
theorem AsOfQuery.prepared_of_missing (query : AsOfQuery platform readOnly table ref)
    (h : resolved platform table ref = none) {text : List Char} :
    prepared platform query.req.sql = .ok text ↔
      platform.findIcebergTableState table = none ∧
        sparkTranslated platform query.req.sql = .ok text := by
  rw [query.prepared_eq]
  unfold resolved at h
  cases hfind : platform.findIcebergTableState table with
  | none => simp
  | some ts =>
    rw [hfind, Option.bind_some] at h
    dsimp only
    cases hresolve : resolveSnapshot ts ref with
    | error e => simp
    | ok snap => simp [hresolve, Except.toOption] at h

/-- A table that holds its snapshot answers from it. -/
theorem HoldsSnapshot.answersAsOf (h : HoldsSnapshot platform readOnly storage table ref lake)
    (query : AsOfQuery platform readOnly table ref) :
    AnswersAsOf platform readOnly storage query lake := by
  unfold HoldsSnapshot at h
  unfold AnswersAsOf
  cases hfound : resolved platform table ref with
  | none =>
    rw [hfound] at h
    intro response hresponse
    obtain ⟨text, htext, hrows⟩ := query.travels.response_iff.mp ⟨response, hresponse, rfl⟩
    obtain ⟨hmissing, hspark⟩ := (query.prepared_of_missing hfound).mp htext
    rw [h hmissing query text hspark] at hrows
    cases hrows
  | some found =>
    rw [hfound] at h
    intro paths hpaths response hresponse
    obtain ⟨hholds, hengine⟩ := h paths hpaths
    obtain ⟨text, htext, hrows⟩ := query.travels.response_iff.mp ⟨response, hresponse, rfl⟩
    rw [query.prepared_of_resolved hfound] at htext
    have hanswer := hengine query text response.rows htext hrows
    rw [withRows_self hholds]
    exact ⟨text, htext, hanswer⟩

/-- DataFusion as the chosen engine. -/
theorem engineRows_dataFusion (text : List Char)
    (h : determineEngine platform.engines platform.unicode req.engine
      (classified platform.unicode platform.parse req.sql).engine = "DataFusion") :
    engineRows platform req text lake = dataFusionRows platform text lake := by
  unfold engineRows dataFusionRows answer executeOn executeVia
  rw [h]
  have hduckdb : ("DataFusion" : String) ≠ "DuckDB" := by decide
  have hpolars : ("DataFusion" : String) ≠ "Polars" := by decide
  rw [if_neg hduckdb, if_neg hpolars]
  unfold executeViaDataFusion
  rcases contextSql platform.engines text lake with ⟨lake', e | batches⟩
  · rfl
  · rfl

/-- What a scan is answered as of a snapshot is what the table holds. -/
theorem Scan.holds (scan : Scan platform readOnly table ref)
    {found : IcebergTableState × SnapshotInfo} (hfound : resolved platform table ref = some found)
    {paths : List String} {source : Source} (hsource : tableSource platform table lake = some source)
    (h : ∀ response, (executeSql platform scan.req readOnly lake).2 = .ok response →
      ∃ text, sparkTranslated platform scan.tt.rewrittenSql = .ok text ∧
        dataFusionRows platform text (withRows platform table (storage.rows paths) lake) =
          some response.rows) : lake.rows source = storage.rows paths := by
  obtain ⟨rows, hrows, hdecode⟩ := scan.reads lake source hsource
  have hprepared : prepared platform scan.req.sql = .ok scan.text :=
    (scan.toAsOfQuery.prepared_of_resolved hfound).trans scan.translated
  have hengine : engineRows platform scan.req scan.text lake = some rows :=
    (engineRows_dataFusion scan.text scan.engine).trans hrows
  obtain ⟨response, hresponse, hsame⟩ :=
    scan.travels.response_iff.mpr ⟨scan.text, hprepared, hengine⟩
  obtain ⟨text, htext, hanswer⟩ := h response hresponse
  obtain rfl : scan.text = text := Except.ok.inj (scan.translated.symm.trans htext)
  obtain ⟨rows', hrows', hdecode'⟩ := scan.reads
    (withRows platform table (storage.rows paths) lake) source
    ((tableSource_withRows _).trans hsource)
  obtain rfl : rows' = rows := by
    rw [hrows', hsame] at hanswer
    exact Option.some.inj hanswer
  rw [← hdecode, hdecode', withRows_rows hsource]

/-- The queries of a table as of a reference are answered from the snapshot exactly when the table
holds it. -/
theorem answersAsOf_iff (scan : Scan platform readOnly table ref) :
    (∀ query : AsOfQuery platform readOnly table ref,
        AnswersAsOf platform readOnly storage query lake) ↔
      HoldsSnapshot platform readOnly storage table ref lake := by
  constructor
  · intro h
    unfold AnswersAsOf at h
    unfold HoldsSnapshot
    cases hfound : resolved platform table ref with
    | none =>
      rw [hfound] at h
      intro hmissing query text hspark
      by_contra hsome
      obtain ⟨rows, hrows⟩ := Option.ne_none_iff_exists'.mp hsome
      have hprepared := (query.prepared_of_missing hfound).mpr ⟨hmissing, hspark⟩
      obtain ⟨response, hresponse, -⟩ :=
        query.travels.response_iff.mpr ⟨text, hprepared, hrows⟩
      exact h query response hresponse
    | some found =>
      rw [hfound] at h
      intro paths hpaths
      have hholds : ∀ source, tableSource platform table lake = some source →
          lake.rows source = storage.rows paths := fun source hsource =>
        scan.holds hfound hsource (h scan.toAsOfQuery paths hpaths)
      refine ⟨hholds, fun query text rows hspark hrows => ?_⟩
      have hprepared := (query.prepared_of_resolved hfound).trans hspark
      obtain ⟨response, hresponse, rfl⟩ :=
        query.travels.response_iff.mpr ⟨text, hprepared, hrows⟩
      obtain ⟨text', htext', hanswer⟩ := h query paths hpaths response hresponse
      obtain rfl : text = text' := Except.ok.inj (hspark.symm.trans htext')
      rw [withRows_self hholds] at hanswer
      exact hanswer
  · intro h query
    exact h.answersAsOf query

end

section Orders

/-- Orders with two snapshots, the second one current. -/
def recentOrders : IcebergTableState :=
  { stateOf .null "orders/metadata/v2.metadata.json" with
    snapshots := [⟨1000, none, 1000, "append", [], "orders/metadata/snap-1000.avro", []⟩,
      ⟨2000, some 1000, 2000, "append", [], "orders/metadata/snap-2000.avro", []⟩]
    currentSnapshotId := some 2000 }

/-- A file of three orders in the first snapshot, and one of two in the second. -/
def orderFiles : DataFiles ℕ where
  listed _ id :=
    if id = 1000 then [⟨"orders/data/part-0.parquet", 900, 3⟩]
    else if id = 2000 then [⟨"orders/data/part-1.parquet", 700, 2⟩]
    else []
  rows paths := (paths.map fun path => if path = "orders/data/part-0.parquet" then 3 else 2).sum

def scanOrders : List Char := "SELECT * FROM orders".toList

/-- One statement, which gives the rows of the orders. -/
def scanningEngines : Engines (List Char) ℕ Unit ℕ :=
  { ordersEngines with
    run := fun statement lake =>
      match lake.catalog.lookup "orders".toList with
      | some source => if statement = scanOrders then (lake, .ok [lake.rows source])
        else (lake, .error (.planning "unsupported"))
      | none => (lake, .error (.planning "table 'orders' not found")) }

def scanningPlatform : Platform (List Char) ℕ Unit ℕ :=
  { ordersPlatform with
    engines := scanningEngines
    findIcebergTableState := fun table => if table = "orders".toList then some recentOrders else none
    batchesToJson := fun batches => .ok (List.replicate batches.sum (.obj [])) }

/-- All orders are registered. -/
def ordersLake : Lake (List Char) ℕ Unit :=
  ⟨(∅ : Catalog (List Char)).insert "orders".toList (.other 0), fun _ => 5, (), []⟩

def firstOrders : List Char := "SELECT * FROM orders VERSION AS OF 1000".toList

theorem firstOrders_travels : TimeTravels scanningPlatform .empty ⟨firstOrders, "auto".toList⟩
    ⟨"orders".toList, .byId 1000, scanOrders⟩ where
  passed := by simp [refusedTable, ReadOnlyTables.empty]
  query := by
    intro hctas
    have hbegins : ¬ "CREATE TABLE".toList <+: scanningPlatform.unicode.upper.text
        (trim firstOrders) := by decide +kernel
    exact hbegins hctas.1
  recognised := by decide +kernel

theorem scanOrders_translated : sparkTranslated scanningPlatform scanOrders = .ok scanOrders := by
  have hplain : looksLikeSparkSql scanningPlatform.unicode scanOrders = false := by decide +kernel
  simp [sparkTranslated, hplain]

/-- The statement reads the table, and the catalog stays as it is. -/
theorem dataFusionRows_scanOrders {lake : Lake (List Char) ℕ Unit} {source : Source}
    (h : lake.catalog.lookup "orders".toList = some source) :
    dataFusionRows scanningPlatform scanOrders lake =
      some (List.replicate (lake.rows source) (.obj [])) := by
  have hfiles : replacements scanOrders = [] := by decide +kernel
  have hstatement : effectiveSql plainFusion scanOrders lake.catalog =
      (lake.catalog, .ok scanOrders) := by
    rw [effectiveSql_eq, hfiles]
    rfl
  have hread : scanningEngines.run scanOrders lake = (lake, .ok [lake.rows source]) := by
    unfold scanningEngines
    dsimp only
    rw [h]
    exact if_pos rfl
  have hrun : contextSql scanningEngines scanOrders lake = (lake, .ok [lake.rows source]) := by
    unfold contextSql
    rw [show scanningEngines.dataFusion = plainFusion from rfl, hstatement]
    exact congrArg (fun done => (done.1, done.2.mapError RunError.display)) hread
  unfold dataFusionRows
  rw [show scanningPlatform.engines = scanningEngines from rfl, hrun]
  simp [scanningPlatform, Except.toOption]

def ordersScan : Scan scanningPlatform .empty "orders".toList (.byId 1000) where
  req := ⟨firstOrders, "auto".toList⟩
  tt := ⟨"orders".toList, .byId 1000, scanOrders⟩
  travels := firstOrders_travels
  table_eq := rfl
  ref_eq := rfl
  text := scanOrders
  decode rows := rows.length
  translated := scanOrders_translated
  engine := by decide +kernel
  reads lake source hsource := by
    have hlookup : lake.catalog.lookup "orders".toList = some source := by
      have hitem : plainFusion.fromItem "orders".toList = some "orders".toList := by decide +kernel
      unfold tableSource at hsource
      rw [show scanningPlatform.engines.dataFusion = plainFusion from rfl, hitem] at hsource
      exact hsource
    exact ⟨_, dataFusionRows_scanOrders hlookup, List.length_replicate⟩

theorem answersAsOf_iff_orders :
    (∀ query : AsOfQuery scanningPlatform .empty "orders".toList (.byId 1000),
        AnswersAsOf scanningPlatform .empty orderFiles query ordersLake) ↔
      HoldsSnapshot scanningPlatform .empty orderFiles "orders".toList (.byId 1000) ordersLake :=
  answersAsOf_iff ordersScan

/-- The orders as of the first snapshot are answered with those of the second one too. -/
theorem not_answersAsOf_orders :
    ¬ AnswersAsOf scanningPlatform .empty orderFiles ordersScan.toAsOfQuery ordersLake := by
  intro h
  have hfound : resolved scanningPlatform "orders".toList (.byId 1000) =
      some (recentOrders, ⟨1000, none, 1000, "append", [], "orders/metadata/snap-1000.avro", []⟩) := by
    rfl
  have hpaths : Collects (recentOrders.attach (orderFiles.listed recentOrders)) (some 1000)
      ["orders/data/part-0.parquet"] := ⟨1, rfl⟩
  have hsource : tableSource scanningPlatform "orders".toList ordersLake = some (.other 0) := by
    decide +kernel
  unfold AnswersAsOf at h
  rw [hfound] at h
  have hholds := ordersScan.holds hfound hsource (h _ hpaths)
  exact absurd hholds (by decide +kernel)

end Orders
end RustLake.Routes
