import RustLake.Routes.ReadOnly
import RustLake.WebSocket.Queries

/-! The two ways to send a query, over HTTP and over a WebSocket, and when they come to the same. -/
namespace RustLake.Routes
open RustLake.Engine RustLake.Json RustLake.Router RustLake.Sql RustLake.Text

/-- What a client gets: an error, columns with rows, or nothing where the handler panics. -/
inductive Delivery where
  | refused
  | delivered (columns : List String) (rows : List Value)
  | panicked

def Reply.delivery : Reply → Delivery
  | .ok response => .delivered response.columns response.rows
  | .error _ _ => .refused
  | .panicked => .panicked

/-- A message with rows: only the first has the columns. -/
structure QueryRows where
  columns : List String
  rows : List Value
  chunkIndex : ℕ

/-- The messages for the rows of a result. -/
def queryRows (columns : List String) (rows : List Value) : List QueryRows :=
  (rows.toChunks WebSocket.chunkSize).mapIdx fun i chunk =>
    ⟨if i = 0 then columns else [], chunk, i⟩

/-- What a client puts together from the messages. -/
def QueryReply.delivery : QueryReply → Delivery
  | .complete columns rows _ _ =>
    let messages := queryRows columns rows
    .delivered (messages.flatMap (·.columns)) (messages.flatMap (·.rows))
  | .queryError _ _ => .refused

section
variable {α : Type}

theorem flatten_toChunks_go (n : ℕ) (xs : List α) (acc : Array α) (done : Array (List α)) :
    (List.toChunks.go n xs acc done).flatten = done.toList.flatten ++ acc.toList ++ xs := by
  induction xs generalizing acc done with
  | nil => simp [List.toChunks.go]
  | cons x xs ih =>
    rw [List.toChunks.go]
    split_ifs
    · rw [ih]
      simp
    · rw [ih]
      simp

/-- The chunks of a list make it up in order. -/
theorem flatten_toChunks (n : ℕ) (xs : List α) : (xs.toChunks n).flatten = xs := by
  cases xs with
  | nil => rfl
  | cons x xs =>
    cases n with
    | zero => simp [List.toChunks]
    | succ n =>
      rw [List.toChunks, flatten_toChunks_go]
      · rfl
      · simp

end

theorem flatMap_rows (columns : List String) (rows : List Value) :
    (queryRows columns rows).flatMap (·.rows) = rows := by
  have hrows : (queryRows columns rows).map (·.rows) = rows.toChunks WebSocket.chunkSize := by
    apply List.ext_getElem (by simp [queryRows])
    intro i hi hi'
    simp [queryRows]
  rw [List.flatMap_def, hrows, flatten_toChunks]

/-- The columns come with the first rows. -/
theorem flatMap_columns (columns : List String) (rows : List Value) :
    (queryRows columns rows).flatMap (·.columns) = if rows.isEmpty then [] else columns := by
  have hflatten := flatten_toChunks WebSocket.chunkSize rows
  unfold queryRows
  cases hchunks : rows.toChunks WebSocket.chunkSize with
  | nil =>
    rw [hchunks] at hflatten
    rw [← hflatten]
    rfl
  | cons chunk chunks =>
    have hne : rows ≠ [] := by
      rintro rfl
      cases hchunks
    have hlater : ∀ message ∈ chunks.mapIdx (fun i chunk =>
        (⟨if i + 1 = 0 then columns else [], chunk, i + 1⟩ : QueryRows)), message.columns = [] := by
      intro message hmessage
      obtain ⟨i, hi, rfl⟩ := List.mem_mapIdx.mp hmessage
      rfl
    rw [List.mapIdx_cons, List.flatMap_cons, List.flatMap_eq_nil_iff.mpr hlater]
    simp [hne]

section
variable {Key Rows Copies Batch : Type} [DecidableEq Key]

/-- The client gets the same in both ways, and where it gets rows the same tables are registered
afterwards, with the same rows. -/
def DoorsAgree (platform : Platform Key Rows Copies Batch) (req : SqlRequest)
    (readOnly : ReadOnlyTables) (lake : Lake Key Rows Copies) : Prop :=
  let sql := executeSql platform req readOnly lake
  let query := executeQuery platform req readOnly lake
  sql.2.delivery = query.2.delivery ∧ (sql.2.delivery ≠ .refused →
    ∀ name, platform.engines.registered sql.1 name = platform.engines.registered query.1 name)

/-- The text that `execute_sql` executes after time travel and Spark SQL. -/
def prepared (platform : Platform Key Rows Copies Batch) (sql : List Char) :
    Except Reply (List Char) := (timeTravelled platform sql).bind (sparkTranslated platform)

/-- A statement that `execute_sql` takes for a `CREATE TABLE ... AS`. -/
def IsCtas (unicode : Unicode) (sql : List Char) : Prop :=
  "CREATE TABLE".toList <+: unicode.upper.text (trim sql) ∧
    " AS ".toList <:+: unicode.upper.text (trim sql)

/-- Both guards refuse the text, or it passes, creates no table from a query and is executed as it
stands. -/
def Plain (platform : Platform Key Rows Copies Batch) (readOnly : ReadOnlyTables)
    (sql : List Char) : Prop :=
  (refusedTable platform.unicode platform.parse sameName readOnly sql).isSome ∨
  (refusedTable platform.unicode platform.parse sameOrQualified readOnly sql = none ∧
    ¬ IsCtas platform.unicode sql ∧ prepared platform sql = .ok sql)

/-- What the engine that is chosen for a request answers to a text. -/
def answer (platform : Platform Key Rows Copies Batch) (req : SqlRequest) (text : List Char)
    (lake : Lake Key Rows Copies) : Lake Key Rows Copies × Executed Batch :=
  executeOn platform.engines platform.unicode
    (determineEngine platform.engines platform.unicode req.engine
      (classified platform.unicode platform.parse req.sql).engine) text lake

/-- The answer to the text itself has columns and no rows. -/
def AnswersEmpty (platform : Platform Key Rows Copies Batch) (req : SqlRequest)
    (lake : Lake Key Rows Copies) : Prop :=
  ∃ batches mode engine, (answer platform req req.sql lake).2 = .ok (batches, mode, engine) ∧
    platform.batchesToJson batches = .ok [] ∧ columnsOf platform batches ≠ []

/-- The same texts, statements and dates with other engines. -/
def Platform.withEngines {Key' Rows' Copies' Batch' : Type}
    (platform : Platform Key Rows Copies Batch) (engines : Engines Key' Rows' Copies' Batch')
    (batchesToJson : List Batch' → Except String (List Value)) :
    Platform Key' Rows' Copies' Batch' where
  unicode := platform.unicode
  parse := platform.parse
  chrono := platform.chrono
  engines := engines
  findIcebergTableState := platform.findIcebergTableState
  batchesToJson := batchesToJson

variable {platform : Platform Key Rows Copies Batch} {req : SqlRequest} {readOnly : ReadOnlyTables}
  {lake : Lake Key Rows Copies} {sql : List Char}

/-- What the WebSocket refuses, `execute_sql` refuses. -/
theorem refused_of_sameName {unicode : Unicode} {parse : Parser} {table : List Char}
    (h : refusedTable unicode parse sameName readOnly sql = some table) :
    refusedTable unicode parse sameOrQualified readOnly sql = some table := by
  obtain ⟨hchanges, htarget, ro, hro, hsame⟩ := refusedTable_eq_some.mp h
  have hqualified : sameOrQualified (unicode.lower.text table) (unicode.lower.text ro) = true :=
    Bool.or_eq_true_iff.mpr (Or.inl hsame)
  exact refusedTable_eq_some.mpr ⟨hchanges, htarget, ro, hro, hqualified⟩

theorem agree_of_refused
    (h : (refusedTable platform.unicode platform.parse sameName readOnly req.sql).isSome) :
    DoorsAgree platform req readOnly lake := by
  obtain ⟨table, htable⟩ := Option.isSome_iff_exists.mp h
  have hsql : executeSql platform req readOnly lake = (lake, .error 403 (readOnlyError table)) := by
    rw [executeSql, refused_of_sameName htable]
  have hquery : executeQuery platform req readOnly lake =
      (lake, .queryError ("Table '" ++ String.ofList table ++ "' is read-only") "") := by
    rw [executeQuery, htable]
  unfold DoorsAgree
  rw [hsql, hquery]
  exact ⟨rfl, fun _ _ => rfl⟩

theorem executeQuery_passed
    (h : refusedTable platform.unicode platform.parse sameOrQualified readOnly req.sql = none) :
    executeQuery platform req readOnly lake = executeUnguarded platform req lake := by
  cases hsome : refusedTable platform.unicode platform.parse sameName readOnly req.sql with
  | none => rw [executeQuery, hsome]
  | some table =>
    have hrefused := refused_of_sameName hsome
    rw [h] at hrefused
    cases hrefused

/-- What is executed over HTTP where no table is created from a query. -/
theorem execute_of_not_ctas (hctas : ¬ IsCtas platform.unicode req.sql) :
    execute platform req lake = match prepared platform req.sql with
      | .error reply => (lake, reply)
      | .ok text => match answer platform req text lake with
        | (lake', .ok (batches, mode, engine)) => (lake', finishSqlResponse platform
            (classified platform.unicode platform.parse req.sql).queryType batches mode engine)
        | (lake', .error (e, _)) => (lake', .error 400 e) := by
  have hnot : ¬ ("CREATE TABLE".toList <+: platform.unicode.upper.text (trim req.sql) ∧
      " AS ".toList <:+: platform.unicode.upper.text (trim req.sql)) := hctas
  unfold execute
  dsimp only
  rw [if_neg hnot]
  rfl

theorem executeUnguarded_eq :
    executeUnguarded platform req lake = match answer platform req req.sql lake with
      | (lake', .error (e, engine)) => (lake', .queryError e engine)
      | (lake', .ok (batches, _, engine)) => match platform.batchesToJson batches with
        | .error e => (lake', .queryError ("Serialization failed: " ++ e) engine)
        | .ok rows => (lake', .complete (columnsOf platform batches) rows engine
            (classified platform.unicode platform.parse req.sql).queryType.display) := rfl

/-- Both ways the chosen engine answers to the same text. -/
theorem agree_iff_of_passed
    (hpass : refusedTable platform.unicode platform.parse sameOrQualified readOnly req.sql = none)
    (hctas : ¬ IsCtas platform.unicode req.sql) (hprepared : prepared platform req.sql = .ok req.sql) :
    DoorsAgree platform req readOnly lake ↔ ¬ AnswersEmpty platform req lake := by
  have hsql : executeSql platform req readOnly lake = execute platform req lake := by
    rw [executeSql, hpass]
  unfold DoorsAgree AnswersEmpty
  rw [hsql, executeQuery_passed hpass, execute_of_not_ctas hctas, hprepared,
    executeUnguarded_eq]
  dsimp only
  rcases answer platform req req.sql lake with ⟨lake', ⟨e, engine⟩ | ⟨batches, mode, engine⟩⟩
  · simp [Reply.delivery, QueryReply.delivery]
  · cases hjson : platform.batchesToJson batches with
    | error e => simp [finishSqlResponse, hjson, Reply.delivery, QueryReply.delivery]
    | ok rows =>
      simp only [finishSqlResponse, hjson, Reply.delivery, QueryReply.delivery, flatMap_rows,
        flatMap_columns]
      constructor
      · rintro ⟨hdelivered, -⟩ ⟨batches', mode', engine', hanswer, hempty, hcolumns⟩
        obtain ⟨rfl, -, -⟩ := Prod.mk.inj (Except.ok.inj hanswer)
        rw [hjson] at hempty
        obtain rfl := Except.ok.inj hempty
        exact hcolumns (Delivery.delivered.inj hdelivered).1
      · intro hnot
        refine ⟨?_, by simp⟩
        cases rows with
        | nil =>
          have hcolumns : columnsOf platform batches = [] := by
            by_contra hne
            exact hnot ⟨batches, mode, engine, rfl, hjson, hne⟩
          rw [hcolumns]
          rfl
        | cons row rows => rfl

theorem agree_iff_of_plain (h : Plain platform readOnly req.sql) :
    DoorsAgree platform req readOnly lake ↔
      (refusedTable platform.unicode platform.parse sameName readOnly req.sql).isSome ∨
        ¬ AnswersEmpty platform req lake := by
  rcases h with hrefused | ⟨hpass, hctas, hprepared⟩
  · exact iff_of_true (agree_of_refused hrefused) (Or.inl hrefused)
  · rw [agree_iff_of_passed hpass hctas hprepared]
    constructor
    · exact Or.inr
    · rintro (hrefused | hrows)
      · obtain ⟨table, htable⟩ := Option.isSome_iff_exists.mp hrefused
        have hqualified := refused_of_sameName htable
        rw [hpass] at hqualified
        cases hqualified
      · exact hrows

/-- DuckDB, where one text has another answer than all others, and DataFusion, where every statement
fails. -/
def tellingEngines (sql : List Char) : Engines Unit Unit Unit Bool where
  dataFusion := ⟨fun _ => (), fun _ => none, fun _ _ => .ok (), fun _ catalog => catalog⟩
  run _ lake := (lake, .error (.planning "not planned"))
  schemas _ := []
  memTable _ _ := .error "no table"
  accepts _ := .ok ()
  nameInUse _ := ""
  columns _ := ["value"]
  numRows _ := 1
  duckdb := some ⟨fun _ _ copies => copies, fun text lake => (lake, .ok [decide (text = sql)])⟩
  polars := none

def tellingJson (batches : List Bool) : Except String (List Value) := .ok (batches.map .bool)

def tellingLake : Lake Unit Unit Unit := ⟨∅, fun _ => (), (), []⟩

/-- The telling engines behind the texts of a platform. -/
def telling (platform : Platform Key Rows Copies Batch) (sql : List Char) :
    Platform Unit Unit Unit Bool := platform.withEngines (tellingEngines sql) tellingJson

end

section
variable {Key Rows Copies Batch : Type} {platform : Platform Key Rows Copies Batch}
  {readOnly : ReadOnlyTables} {sql : List Char}

theorem telling_answer (text : List Char) :
    answer (telling platform sql) ⟨sql, "duckdb".toList⟩ text tellingLake =
      (tellingLake, .ok ([decide (text = sql)], "direct", "DuckDB")) := by
  have hchoice : platform.unicode.lower.text "duckdb".toList = "duckdb".toList :=
    platform.unicode.lower.text_ascii (by simp)
  have hengine : ∀ recommended, determineEngine (tellingEngines sql) platform.unicode
      "duckdb".toList recommended = "DuckDB" := by
    intro recommended
    unfold determineEngine
    rw [hchoice]
    exact if_pos ⟨rfl, rfl⟩
  have htables : listTables (tellingEngines sql) tellingLake = [] := by
    exact List.mergeSort_nil
  unfold answer
  dsimp only [telling, Platform.withEngines]
  rw [hengine, executeOn, executeVia, if_pos rfl]
  unfold executeViaDuckdbWithMode
  rw [htables]
  rfl

theorem not_answersEmpty_telling :
    ¬ AnswersEmpty (telling platform sql) ⟨sql, "duckdb".toList⟩ tellingLake := by
  rintro ⟨batches, mode, engine, hanswer, hjson, -⟩
  rw [telling_answer] at hanswer
  obtain ⟨rfl, -, -⟩ := Prod.mk.inj (Except.ok.inj hanswer)
  cases hjson

/-- What the WebSocket gives when its guard lets the text pass. -/
theorem telling_query
    (h : refusedTable platform.unicode platform.parse sameName readOnly sql = none) :
    (executeQuery (telling platform sql) ⟨sql, "duckdb".toList⟩ readOnly tellingLake).2.delivery =
      .delivered ["value"] [.bool true] := by
  have hquery : executeQuery (telling platform sql) ⟨sql, "duckdb".toList⟩ readOnly tellingLake =
      executeUnguarded (telling platform sql) ⟨sql, "duckdb".toList⟩ tellingLake := by
    have hpass : refusedTable (telling platform sql).unicode (telling platform sql).parse sameName
      readOnly sql = none := h
    rw [executeQuery, hpass]
  rw [hquery, executeUnguarded_eq, telling_answer]
  simp [tellingJson, QueryReply.delivery, flatMap_rows, flatMap_columns, columnsOf, telling,
    Platform.withEngines, tellingEngines]

/-- No table can be created from a query that fails. -/
theorem telling_contextSql (query : List Char) :
    ∃ lake' e, contextSql (tellingEngines sql) query tellingLake = (lake', .error e) := by
  unfold contextSql
  rcases effectiveSql (tellingEngines sql).dataFusion query tellingLake.catalog with
    ⟨catalog, ⟨message⟩ | statement⟩
  · exact ⟨_, _, rfl⟩
  · exact ⟨_, _, rfl⟩

theorem telling_handleCtas (columns : List String) (rows : List Value) :
    (handleCtas (telling platform sql) sql tellingLake).2.delivery ≠ .delivered columns rows := by
  unfold handleCtas
  rcases parseCtas (telling platform sql) sql with _ | _ | ⟨tableName, selectSql⟩
  · simp [Reply.delivery]
  · simp [Reply.delivery]
  · dsimp only
    split_ifs
    · simp [Reply.delivery]
    · have hfails : ∃ lake' e, contextSql (telling platform sql).engines selectSql tellingLake =
          (lake', .error e) := telling_contextSql selectSql
      obtain ⟨lake', e, hcontext⟩ := hfails
      rw [hcontext]
      simp [Reply.delivery]

/-- Time travel and Spark SQL end in an error or a panic, or in a text. -/
theorem prepared_error {reply : Reply} (h : prepared platform sql = .error reply)
    (columns : List String) (rows : List Value) : reply.delivery ≠ .delivered columns rows := by
  have hspark : ∀ text, sparkTranslated platform text = .error reply → reply = .panicked := by
    intro text htext
    unfold sparkTranslated at htext
    split_ifs at htext
    cases htranslate : translateSparkSql platform.unicode text with
    | none => simpa [htranslate] using htext.symm
    | some result => simp [htranslate] at htext
  unfold prepared at h
  cases htravel : timeTravelled platform sql with
  | ok text =>
    rw [htravel] at h
    rw [hspark text h]
    simp [Reply.delivery]
  | error early =>
    rw [htravel] at h
    obtain rfl : early = reply := Except.error.inj h
    unfold timeTravelled at htravel
    split at htravel
    · cases htravel
      simp [Reply.delivery]
    · cases htravel
    · split at htravel
      · cases htravel
      · split at htravel
        · cases htravel
        · cases htravel
          simp [Reply.delivery]

/-- Where the two ways come to the same with the telling engines, the text is plain. -/
theorem plain_of_agree
    (h : DoorsAgree (telling platform sql) ⟨sql, "duckdb".toList⟩ readOnly tellingLake) :
    Plain platform readOnly sql := by
  cases hname : refusedTable platform.unicode platform.parse sameName readOnly sql with
  | some table => exact Or.inl (by rw [hname]; rfl)
  | none =>
    have hsame := h.1
    rw [telling_query hname] at hsame
    have hguard : (telling platform sql).unicode = platform.unicode ∧
      (telling platform sql).parse = platform.parse := ⟨rfl, rfl⟩
    rw [executeSql, hguard.1, hguard.2] at hsame
    cases hrefused : refusedTable platform.unicode platform.parse sameOrQualified readOnly sql with
    | some table => simp [hrefused, Reply.delivery] at hsame
    | none =>
      rw [hrefused] at hsame
      dsimp only at hsame
      by_cases hctas : IsCtas platform.unicode sql
      · have hcreate : execute (telling platform sql) ⟨sql, "duckdb".toList⟩ tellingLake =
            handleCtas (telling platform sql) sql tellingLake := if_pos hctas
        rw [hcreate] at hsame
        exact absurd hsame (telling_handleCtas _ _)
      · have hnot : ¬ IsCtas (telling platform sql).unicode sql := hctas
        rw [execute_of_not_ctas hnot] at hsame
        have htext : prepared (telling platform sql) sql = prepared platform sql := rfl
        cases hprepared : prepared platform sql with
        | error reply =>
          rw [htext, hprepared] at hsame
          exact absurd hsame (prepared_error hprepared _ _)
        | ok text =>
          rw [htext, hprepared] at hsame
          dsimp only at hsame
          rw [telling_answer] at hsame
          have hdelivered : Delivery.delivered ["value"] [.bool (decide (text = sql))] =
              .delivered ["value"] [.bool true] := hsame
          have hvalue := (List.cons.inj (Delivery.delivered.inj hdelivered).2).1
          have hsql : text = sql := of_decide_eq_true (Value.bool.inj hvalue)
          exact Or.inr ⟨hrefused, hctas, hprepared.trans (by rw [hsql])⟩

/-- Plain texts come to the same in both ways, unless the answer has columns and no rows. And only
plain texts come to the same on all engines. -/
theorem doors_agree_iff {Key Rows Copies Batch : Type} [DecidableEq Key]
    (platform : Platform Key Rows Copies Batch) (readOnly : ReadOnlyTables) (sql : List Char) :
    (Plain platform readOnly sql → ∀ engine lake,
      DoorsAgree platform ⟨sql, engine⟩ readOnly lake ↔
        (refusedTable platform.unicode platform.parse sameName readOnly sql).isSome ∨
          ¬ AnswersEmpty platform ⟨sql, engine⟩ lake) ∧
    ((∀ (Key' Rows' Copies' Batch' : Type) [DecidableEq Key']
      (engines : Engines Key' Rows' Copies' Batch') (batchesToJson : List Batch' → _) engine lake,
      ¬ AnswersEmpty (platform.withEngines engines batchesToJson) ⟨sql, engine⟩ lake →
      DoorsAgree (platform.withEngines engines batchesToJson) ⟨sql, engine⟩ readOnly lake) ↔
    Plain platform readOnly sql) := by
  constructor
  · intro h engine lake
    exact agree_iff_of_plain h
  · constructor
    · intro h
      exact plain_of_agree (h Unit Unit Unit Bool (tellingEngines sql) tellingJson _ _
        not_answersEmpty_telling)
    · intro h Key' Rows' Copies' Batch' _ engines batchesToJson engine lake hrows
      have hsame : Plain (platform.withEngines engines batchesToJson) readOnly sql := h
      exact (agree_iff_of_plain hsame).mpr (Or.inr hrows)

end

def copyOrders : List Char := "CREATE TABLE copy AS SELECT 1".toList

def nvlQuery : List Char := "SELECT NVL(1)".toList

/-- A name with its schema, a table created from a query, and a function of Spark. -/
theorem doors_disagree :
    ¬ DoorsAgree (telling ordersPlatform dropQualified) ⟨dropQualified, "duckdb".toList⟩
        migrated.readOnlyTables tellingLake ∧
    ¬ DoorsAgree (telling ordersPlatform copyOrders) ⟨copyOrders, "duckdb".toList⟩ .empty
        tellingLake ∧
    ¬ DoorsAgree (telling ordersPlatform nvlQuery) ⟨nvlQuery, "duckdb".toList⟩ .empty
        tellingLake := by
  have hnames : ∀ sql, ¬ (refusedTable ordersPlatform.unicode ordersPlatform.parse sameName .empty
      sql).isSome := by
    intro sql
    simp [refusedTable, ReadOnlyTables.empty]
  refine ⟨?_, ?_, ?_⟩ <;> intro hagree
  · rcases plain_of_agree hagree with hrefused | ⟨hpass, -⟩
    · revert hrefused
      decide +kernel
    · revert hpass
      decide +kernel
  · rcases plain_of_agree hagree with hrefused | ⟨-, hctas, -⟩
    · exact hnames _ hrefused
    · exact hctas ⟨by decide +kernel, by decide +kernel⟩
  · rcases plain_of_agree hagree with hrefused | ⟨-, -, hprepared⟩
    · exact hnames _ hrefused
    · have htext := congrArg Except.toOption hprepared
      revert htext
      decide +kernel

end RustLake.Routes
