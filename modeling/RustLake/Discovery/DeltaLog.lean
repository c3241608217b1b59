import RustLake.Discovery.Schemas
import RustLake.Discovery.Warehouse
import RustLake.Persistence.JsonLines

/-! The schema of a Delta table as the warehouse scanner reads it from the newest commit file, and as
the whole log tells it. -/
namespace RustLake.Discovery
open Json ObjectStore Iceberg

mutual

/-- `delta_type_to_string`. -/
def deltaTypeToString : Value → String
  | .str s => s
  | .obj fields =>
    match ((Value.obj fields).get "type").bind Value.asStr with
    | some "struct" => "struct"
    | some "array" => "array<" ++ ((deltaTypesOf fields).lookup "elementType").getD "unknown" ++ ">"
    | some "map" =>
      "map<" ++ ((deltaTypesOf fields).lookup "keyType").getD "string" ++ ", " ++
        ((deltaTypesOf fields).lookup "valueType").getD "string" ++ ">"
    | some t => t
    | none => "unknown"
  | _ => "unknown"

def deltaTypesOf : List (String × Value) → List (String × String)
  | [] => []
  | (key, v) :: rest => (key, deltaTypeToString v) :: deltaTypesOf rest

end

def deltaColumn (field : Value) (i : ℕ) : ColumnInfo where
  name := strAt field "name" "unknown"
  dataType := ((field.get "type").map deltaTypeToString).getD "unknown"
  nullable := ((field.get "nullable").bind Value.asBool).getD true
  ordinal := Int32.ofNat i

/-- What is found in the lines of a commit file. -/
structure CommitScan where
  columns : List ColumnInfo
  partitionCols : List String
  properties : AList fun _ : String => String
  formatVersion : Int64

structure DeltaTable extends DiscoveredTable where
  columnCount : ℕ
  columns : List ColumnInfo
  formatVersion : Int64
  partitionFields : List String
  snapshotCount : ℕ
  properties : AList fun _ : String => String

section Scan
variable (fromStr : String → Option Value)

def readJsonLines (text : String) : List Value :=
  ((Persistence.lines text).filter fun line => trim line.toList ≠ []).filterMap fromStr

/-- The columns in the schema string of a `metaData` action. -/
def schemaColumns (metaData : Value) : List ColumnInfo :=
  let schemaJson := ((metaData.get "schemaString").bind Value.asStr).bind fromStr
  let fields := ((schemaJson.bind (·.get "fields")).bind Value.asArray).getD []
  fields.zipIdx.map fun field => deltaColumn field.1 field.2

def partitionColumns? (metaData : Value) : Option (List String) :=
  ((metaData.get "partitionColumns").bind Value.asArray).map (·.filterMap Value.asStr)

def insertProperty (properties : AList fun _ : String => String) (entry : String × Value) :
    AList fun _ : String => String :=
  match entry.2.asStr with
  | some text => properties.insert entry.1 text
  | none => properties

def readProtocol (s : CommitScan) (protocol : Value) : CommitScan :=
  { s with formatVersion := ((protocol.get "minReaderVersion").bind Value.asI64).getD 1 }

def readMetaData (s : CommitScan) (metaData : Value) : CommitScan :=
  let configuration := ((metaData.get "configuration").bind Value.asObject).getD []
  { s with
    columns := s.columns ++ schemaColumns fromStr metaData
    partitionCols := (partitionColumns? metaData).getD s.partitionCols
    properties := configuration.foldl insertProperty s.properties }

def readEntry (s : CommitScan) (entry : Value) : CommitScan :=
  let s := ((entry.get "protocol").map (readProtocol s)).getD s
  ((entry.get "metaData").map (readMetaData fromStr s)).getD s

def scanCommit (entries : List Value) : CommitScan :=
  entries.foldl (readEntry fromStr) ⟨[], [], ∅, 1⟩

/-- The objects of the store are texts, and no listing and no read fails. -/
def discoverDeltaTable (t : Tree String) (database tableName : Name) (path : List Char) :
    Option DeltaTable := do
  let deltaPrefix := path ++ "_delta_log/".toList
  let jsonFiles := (t.files (ObjectStore.segments deltaPrefix)).filter (".json".toList.isSuffixOf ·)
  let commitPath ← deltaCommit t path
  let text ← readFile t commitPath
  let s := scanCommit fromStr (readJsonLines fromStr text)
  return {
    database := database
    tableName := tableName
    s3Location := tableLocation path
    format := .delta
    metadataLocation := some commitPath
    columnCount := s.columns.length
    columns := s.columns
    formatVersion := s.formatVersion
    partitionFields := s.partitionCols
    snapshotCount := jsonFiles.length
    properties := s.properties }

end Scan

section Logs

structure Commit where
  version : UInt64
  text : String

/-- The commit files of a table, from the oldest to the most recent. -/
structure DeltaLog where
  commits : List Commit
  ascending : commits.Pairwise fun a b => a.version < b.version

/-- `{:020}.json` of a version. -/
def commitName (version : UInt64) : Name := (padded 20 version.toNat ++ ".json").toList

/-- The JSON files of the log directory are the commit files of a log. -/
structure LiesAt (t : Tree String) (path : List Char) (log : DeltaLog) : Prop where
  files : ∀ file, (file ∈ t.files (ObjectStore.segments (path ++ "_delta_log/".toList)) ∧
    ".json".toList.isSuffixOf file = true) ↔ ∃ c ∈ log.commits, file = commitName c.version
  texts : ∀ c ∈ log.commits,
    readFile t (path ++ "_delta_log/".toList ++ commitName c.version) = some c.text

variable (fromStr : String → Option Value)

def metaDataActions (entries : List Value) : List Value := entries.filterMap (·.get "metaData")

/-- The most recent `metaData` action in all of a log. -/
def latestMetaData (log : DeltaLog) : Option Value :=
  (metaDataActions (log.commits.flatMap fun c => readJsonLines fromStr c.text)).getLast?

/-- Whatever a log has committed is reported with the columns and the partition columns of its most
recent `metaData` action, each of them once. -/
structure ReportsLatest (log : DeltaLog) (reported : Option DeltaTable) : Prop where
  found : reported.isSome ↔ log.commits ≠ []
  columns : ∀ table, reported = some table →
    table.columns = ((latestMetaData fromStr log).map (schemaColumns fromStr)).getD []
  partitions : ∀ table, reported = some table →
    table.partitionFields = ((latestMetaData fromStr log).bind partitionColumns?).getD []

/-- The last commit has a `metaData` action that leaves nothing of those before it in the same file,
or it has none and there are no columns to tell of. -/
def LastCommitTells (log : DeltaLog) : Prop :=
  ∀ last, log.commits.getLast? = some last →
    (∃ earlier metaData, metaDataActions (readJsonLines fromStr last.text) = earlier ++ [metaData] ∧
      (∀ m ∈ earlier, schemaColumns fromStr m = []) ∧
      (partitionColumns? metaData = none →
        ((earlier.filterMap partitionColumns?).getLast?).getD [] = [])) ∨
    (metaDataActions (readJsonLines fromStr last.text) = [] ∧
      ((latestMetaData fromStr log).map (schemaColumns fromStr)).getD [] = [] ∧
      ((latestMetaData fromStr log).bind partitionColumns?).getD [] = [])

end Logs

section Names

theorem append_lt_append {xs ys s t : List Char} (hlength : xs.length = ys.length) (h : xs < ys) :
    xs ++ s < ys ++ t := by
  induction xs generalizing ys with
  | nil =>
    cases ys with
    | nil => exact absurd h (lt_irrefl _)
    | cons y ys => cases hlength
  | cons x xs ih =>
    cases ys with
    | nil => cases hlength
    | cons y ys =>
      rw [List.cons_append, List.cons_append, List.cons_lt_cons_iff]
      rcases List.cons_lt_cons_iff.mp h with hlt | ⟨heq, hlt⟩
      · exact Or.inl hlt
      · exact Or.inr ⟨heq, ih (Nat.succ.inj hlength) hlt⟩

variable {width a b : ℕ}

theorem toList_padded (n : ℕ) : (padded width n).toList =
    List.replicate (width - (Nat.toDigits 10 n).length) '0' ++ Nat.toDigits 10 n := by
  have hdigits : (toString n).toList = Nat.toDigits 10 n := Nat.toList_repr
  rw [padded, String.toList_ofList, hdigits]

theorem padded_succ (hwidth : 0 < width) (n : ℕ) : (padded (width + 1) n).toList =
    (padded width (n / 10)).toList ++ [Nat.digitChar (n % 10)] := by
  rw [toList_padded, toList_padded]
  by_cases hn : n < 10
  · rw [Nat.toDigits_of_lt_base hn, Nat.div_eq_of_lt hn, Nat.mod_eq_of_lt hn]
    obtain ⟨width, rfl⟩ := Nat.exists_eq_add_of_lt hwidth
    simp [Nat.toDigits_zero, List.replicate_succ']
  · rw [Nat.toDigits_of_base_le (by decide) (by omega), List.length_append, List.length_singleton,
      Nat.add_sub_add_right, List.append_assoc]

theorem length_padded (hwidth : 0 < width) (ha : a < 10 ^ width) :
    (padded width a).toList.length = width := by
  have hle := (Nat.length_toDigits_le_iff (by decide : 1 < 10) hwidth).mpr ha
  rw [toList_padded, List.length_append, List.length_replicate]
  omega

/-- Numbers of the same width stand in the order of their texts. -/
theorem padded_lt (hwidth : 0 < width) (hlt : a < b) (hb : b < 10 ^ width) :
    (padded width a).toList < (padded width b).toList := by
  have hdigit : ∀ y < 10, ∀ x < y, [Nat.digitChar x] < [Nat.digitChar y] := by decide
  induction width, hwidth using Nat.le_induction generalizing a b with
  | base =>
    have hten : b < 10 := hb
    rw [toList_padded, toList_padded, Nat.toDigits_of_lt_base hten,
      Nat.toDigits_of_lt_base (hlt.trans hten)]
    exact hdigit b hten a hlt
  | succ width hwidth ih =>
    rw [padded_succ hwidth, padded_succ hwidth]
    have hdiv : b / 10 < 10 ^ width := by
      rw [pow_succ] at hb
      omega
    rcases Nat.lt_or_ge (a / 10) (b / 10) with hless | hge
    · refine append_lt_append ?_ (ih hless hdiv)
      rw [length_padded hwidth hdiv, length_padded hwidth (hless.trans hdiv)]
    · have heq : a / 10 = b / 10 := by omega
      rw [heq]
      exact List.append_left_lt (hdigit _ (Nat.mod_lt b (by decide)) _ (by omega))

theorem commitName_lt {v w : UInt64} (h : v < w) :
    String.ofList (commitName v) < String.ofList (commitName w) := by
  have hpow : (2 : ℕ) ^ 64 ≤ 10 ^ 20 := by decide
  have hv := v.toNat_lt
  have hw := w.toNat_lt
  rw [String.lt_iff_toList_lt, String.toList_ofList, String.toList_ofList, commitName, commitName,
    String.toList_append, String.toList_append]
  refine append_lt_append ?_ (padded_lt (by decide) h (by omega))
  rw [length_padded (by decide) (by omega), length_padded (by decide) (by omega)]

end Names

section Newest
variable {t : Tree String} {path : List Char} {log : DeltaLog} {last : Commit}

/-- The name that comes last is that of the most recent commit. -/
theorem LiesAt.deltaCommit (h : LiesAt t path log) (hlast : log.commits.getLast? = some last) :
    Discovery.deltaCommit t path =
      some (path ++ "_delta_log/".toList ++ commitName last.version) := by
  have hmem := List.mem_of_getLast? hlast
  have hnewest : ∀ c ∈ log.commits,
      String.ofList (commitName c.version) ≤ String.ofList (commitName last.version) := by
    intro c hc
    obtain ⟨before, hsplit⟩ := List.getLast?_eq_some_iff.mp hlast
    have hascending := log.ascending
    rw [hsplit] at hc hascending
    rcases List.mem_append.mp hc with hbefore | hself
    · exact (commitName_lt ((List.pairwise_append.mp hascending).2.2 c hbefore last
        List.mem_cons_self)).le
    · rw [List.mem_singleton.mp hself]
  have hmax : (((t.files (ObjectStore.segments (path ++ "_delta_log/".toList))).filter
      (".json".toList.isSuffixOf ·)).map String.ofList).max? =
        some (String.ofList (commitName last.version)) := by
    rw [List.max?_eq_some_iff]
    constructor
    · have hin := (h.files (commitName last.version)).mpr ⟨last, hmem, rfl⟩
      exact List.mem_map.mpr ⟨_, List.mem_filter.mpr hin, rfl⟩
    · intro name hname
      obtain ⟨file, hfile, rfl⟩ := List.mem_map.mp hname
      obtain ⟨c, hc, heq⟩ := (h.files file).mp (List.mem_filter.mp hfile)
      rw [heq]
      exact hnewest c hc
  unfold Discovery.deltaCommit
  dsimp only
  rw [hmax]
  simp only [Option.bind_eq_bind, Option.bind_some, String.toList_ofList, h.texts last hmem]
  rfl

theorem LiesAt.deltaCommit_eq_none (h : LiesAt t path log) (hnone : log.commits = []) :
    Discovery.deltaCommit t path = none := by
  have hempty : (t.files (ObjectStore.segments (path ++ "_delta_log/".toList))).filter
      (".json".toList.isSuffixOf ·) = [] := by
    rw [List.filter_eq_nil_iff]
    intro file hfile hjson
    obtain ⟨c, hc, -⟩ := (h.files file).mp ⟨hfile, hjson⟩
    rw [hnone] at hc
    exact List.not_mem_nil hc
  unfold Discovery.deltaCommit
  dsimp only
  rw [hempty]
  rfl

end Newest

section Entries
variable {fromStr : String → Option Value} {t : Tree String} {path : List Char} {log : DeltaLog}
  {last : Commit} {database tableName : Name}

variable (fromStr) in
theorem readEntry_of_none {s : CommitScan} {entry : Value} (h : entry.get "metaData" = none) :
    (readEntry fromStr s entry).columns = s.columns ∧
      (readEntry fromStr s entry).partitionCols = s.partitionCols := by
  unfold readEntry
  rw [h]
  cases entry.get "protocol" <;> exact ⟨rfl, rfl⟩

variable (fromStr) in
theorem readEntry_of_some {s : CommitScan} {entry metaData : Value}
    (h : entry.get "metaData" = some metaData) :
    (readEntry fromStr s entry).columns = s.columns ++ schemaColumns fromStr metaData ∧
      (readEntry fromStr s entry).partitionCols =
        (partitionColumns? metaData).getD s.partitionCols := by
  unfold readEntry
  rw [h]
  cases entry.get "protocol" <;> exact ⟨rfl, rfl⟩

variable (fromStr) in
/-- The columns of all `metaData` actions of a file pile up, and the last partition columns stay. -/
theorem foldl_readEntry (entries : List Value) (s : CommitScan) :
    (entries.foldl (readEntry fromStr) s).columns =
        s.columns ++ (metaDataActions entries).flatMap (schemaColumns fromStr) ∧
      (entries.foldl (readEntry fromStr) s).partitionCols =
        (((metaDataActions entries).filterMap partitionColumns?).getLast?).getD s.partitionCols := by
  induction entries generalizing s with
  | nil => exact ⟨(List.append_nil _).symm, rfl⟩
  | cons entry rest ih =>
    obtain ⟨hcolumns, hpartitions⟩ := ih (readEntry fromStr s entry)
    rw [List.foldl_cons, hcolumns, hpartitions]
    cases hentry : entry.get "metaData" with
    | none =>
      have hnone : metaDataActions (entry :: rest) = metaDataActions rest :=
        List.filterMap_cons_none hentry
      obtain ⟨hsame, hsame'⟩ := readEntry_of_none fromStr (s := s) hentry
      rw [hnone, hsame, hsame']
      exact ⟨rfl, rfl⟩
    | some metaData =>
      have hsome : metaDataActions (entry :: rest) = metaData :: metaDataActions rest :=
        List.filterMap_cons_some hentry
      obtain ⟨hadded, hkept⟩ := readEntry_of_some fromStr (s := s) hentry
      rw [hsome, hadded, hkept, List.flatMap_cons, List.append_assoc]
      refine ⟨rfl, ?_⟩
      cases hparts : partitionColumns? metaData with
      | none => rw [List.filterMap_cons_none hparts, Option.getD_none]
      | some parts =>
        rw [List.filterMap_cons_some hparts, List.getLast?_cons, Option.getD_some, Option.getD_some]

variable (fromStr database tableName) in
/-- What is reported of a log is what its last commit has. -/
theorem LiesAt.discovered (h : LiesAt t path log) (hlast : log.commits.getLast? = some last) :
    ∃ table, discoverDeltaTable fromStr t database tableName path = some table ∧
      table.columns = (metaDataActions (readJsonLines fromStr last.text)).flatMap
        (schemaColumns fromStr) ∧
      table.partitionFields = (((metaDataActions (readJsonLines fromStr last.text)).filterMap
        partitionColumns?).getLast?).getD [] := by
  obtain ⟨hcolumns, hpartitions⟩ :=
    foldl_readEntry fromStr (readJsonLines fromStr last.text) ⟨[], [], ∅, 1⟩
  unfold discoverDeltaTable
  simp only [Option.bind_eq_bind, h.deltaCommit hlast, Option.bind_some,
    h.texts last (List.mem_of_getLast? hlast)]
  exact ⟨_, rfl, hcolumns, hpartitions⟩

theorem latestMetaData_eq (hlast : log.commits.getLast? = some last) {earlier : List Value}
    {metaData : Value}
    (hsplit : metaDataActions (readJsonLines fromStr last.text) = earlier ++ [metaData]) :
    latestMetaData fromStr log = some metaData := by
  obtain ⟨before, hcommits⟩ := List.getLast?_eq_some_iff.mp hlast
  unfold latestMetaData metaDataActions at *
  rw [hcommits, List.flatMap_append, List.flatMap_singleton, List.filterMap_append, hsplit,
    ← List.append_assoc, List.getLast?_concat]

theorem columns_concat (earlier : List Value) (metaData : Value) :
    (earlier ++ [metaData]).flatMap (schemaColumns fromStr) = schemaColumns fromStr metaData ↔
      ∀ m ∈ earlier, schemaColumns fromStr m = [] := by
  rw [List.flatMap_append, List.flatMap_singleton, List.append_left_eq_self, List.flatMap_eq_nil_iff]

theorem partitions_concat (earlier : List Value) (metaData : Value) :
    (((earlier ++ [metaData]).filterMap partitionColumns?).getLast?).getD [] =
        (partitionColumns? metaData).getD [] ↔
      (partitionColumns? metaData = none →
        ((earlier.filterMap partitionColumns?).getLast?).getD [] = []) := by
  rw [List.filterMap_append]
  cases hparts : partitionColumns? metaData with
  | none => simp [hparts]
  | some parts => simp [hparts]

theorem reportsLatest_some {table : DeltaTable} (hlast : log.commits.getLast? = some last) :
    ReportsLatest fromStr log (some table) ↔
      table.columns = ((latestMetaData fromStr log).map (schemaColumns fromStr)).getD [] ∧
        table.partitionFields = ((latestMetaData fromStr log).bind partitionColumns?).getD [] := by
  have hne : log.commits ≠ [] := List.ne_nil_of_mem (List.mem_of_getLast? hlast)
  constructor
  · exact fun h => ⟨h.columns table rfl, h.partitions table rfl⟩
  · rintro ⟨hcolumns, hpartitions⟩
    refine ⟨iff_of_true rfl hne, fun other hother => ?_, fun other hother => ?_⟩
    · rwa [← Option.some.inj hother]
    · rwa [← Option.some.inj hother]

/-- A table is reported as its log tells exactly where the last commit tells the same. -/
theorem reportsLatest_iff (fromStr : String → Option Value) (t : Tree String) (path : List Char)
    (database tableName : Name) (log : DeltaLog) (h : LiesAt t path log) :
    ReportsLatest fromStr log (discoverDeltaTable fromStr t database tableName path) ↔
      LastCommitTells fromStr log := by
  cases hlast : log.commits.getLast? with
  | none =>
    have hnone : log.commits = [] := List.getLast?_eq_none_iff.mp hlast
    have hnever : discoverDeltaTable fromStr t database tableName path = none := by
      unfold discoverDeltaTable
      simp only [Option.bind_eq_bind, h.deltaCommit_eq_none hnone, Option.bind_none]
    rw [hnever]
    refine iff_of_true ⟨?_, ?_, ?_⟩ ?_
    · simp [hnone]
    · rintro table ⟨⟩
    · rintro table ⟨⟩
    · intro last hsome
      rw [hlast] at hsome
      cases hsome
  | some last =>
    obtain ⟨table, hfound, hcolumns, hpartitions⟩ := h.discovered fromStr database tableName hlast
    rw [hfound, reportsLatest_some hlast, hcolumns, hpartitions]
    unfold LastCommitTells
    simp only [hlast, Option.some.injEq, forall_eq']
    rcases List.eq_nil_or_concat' (metaDataActions (readJsonLines fromStr last.text)) with
      hnone | ⟨earlier, metaData, hsplit⟩
    · rw [hnone]
      constructor
      · exact fun ⟨hc, hp⟩ => Or.inr ⟨rfl, hc.symm, hp.symm⟩
      · rintro (⟨earlier, metaData, heq, -⟩ | ⟨-, hc, hp⟩)
        · exact absurd heq.symm (List.append_ne_nil_of_right_ne_nil _ (List.cons_ne_nil _ _))
        · exact ⟨hc.symm, hp.symm⟩
    · rw [latestMetaData_eq hlast hsplit, hsplit, Option.map_some, Option.getD_some,
        Option.bind_some, columns_concat, partitions_concat]
      constructor
      · exact fun ⟨hc, hp⟩ => Or.inl ⟨earlier, metaData, rfl, hc, hp⟩
      · rintro (⟨earlier', metaData', heq, hc, hp⟩ | ⟨hnil, -⟩)
        · obtain ⟨rfl, hlast'⟩ := List.append_inj' heq rfl
          obtain rfl := List.singleton_inj.mp hlast'
          exact ⟨hc, hp⟩
        · exact absurd hnil (List.append_ne_nil_of_right_ne_nil _ (List.cons_ne_nil _ _))

end Entries

section Examples

def createLine : String :=
  "\x7b\"metaData\":\x7b\"schemaString\":\"\x7b\\\"fields\\\":[\x7b\\\"name\\\":\\\"id\\\",\\\"type\\\":\\\"long\\\"\x7d]\x7d\"," ++
    "\"partitionColumns\":[]\x7d\x7d"

def idSchema : String :=
  "\x7b\"fields\":[\x7b\"name\":\"id\",\"type\":\"long\"\x7d]\x7d"

def addLine : String := "\x7b\"add\":\x7b\"path\":\"part-0.parquet\"\x7d\x7d"

def createMetaData : Value := .obj [("schemaString", .str idSchema), ("partitionColumns", .arr [])]

def readOrders (text : String) : Option Value :=
  if text = createLine then some (.obj [("metaData", createMetaData)])
  else if text = idSchema then
    some (.obj [("fields", .arr [.obj [("name", .str "id"), ("type", .str "long")]])])
  else if text = addLine then some (.obj [("add", .obj [("path", .str "part-0.parquet")])])
  else none

/-- A table that has been created. -/
def createdLog : DeltaLog where
  commits := [⟨0, createLine⟩]
  ascending := List.pairwise_singleton _ _

/-- The same after rows have been added. -/
def grownLog : DeltaLog where
  commits := [⟨0, createLine⟩, ⟨1, addLine⟩]
  ascending := by simp

def logKey (version : UInt64) : List Name := ["orders".toList, "_delta_log".toList, commitName version]

def createdStore : Tree String where
  objects := AList.insert (logKey 0) createLine ∅
  paths := by decide

def grownStore : Tree String where
  objects := AList.insert (logKey 0) createLine (AList.insert (logKey 1) addLine ∅)
  paths := by decide

theorem liesAt_of_files {t : Tree String} {path : List Char} {log : DeltaLog}
    (hfiles : t.files (ObjectStore.segments (path ++ "_delta_log/".toList)) =
      log.commits.map fun c => commitName c.version)
    (htexts : ∀ c ∈ log.commits,
      readFile t (path ++ "_delta_log/".toList ++ commitName c.version) = some c.text) :
    LiesAt t path log where
  files file := by
    have hjson : ∀ version, ".json".toList.isSuffixOf (commitName version) = true := by
      intro version
      rw [List.isSuffixOf_iff_suffix, commitName, String.toList_append]
      exact List.suffix_append _ _
    rw [hfiles, List.mem_map]
    constructor
    · rintro ⟨⟨c, hc, heq⟩, -⟩
      exact ⟨c, hc, heq.symm⟩
    · rintro ⟨c, hc, heq⟩
      rw [heq]
      exact ⟨⟨c, hc, rfl⟩, hjson c.version⟩
  texts := htexts

theorem readJsonLines_line {fromStr : String → Option Value} {line : String} {action : Value}
    (hlines : Persistence.lines line = [line]) (hblank : trim line.toList ≠ [])
    (hread : fromStr line = some action) : readJsonLines fromStr line = [action] := by
  have hkept : [line].filter (fun line => trim line.toList ≠ []) = [line] :=
    List.filter_cons_of_pos (decide_eq_true hblank)
  rw [readJsonLines, hlines, hkept, List.filterMap_cons_some hread, List.filterMap_nil]

theorem metaDataActions_created :
    metaDataActions (readJsonLines readOrders createLine) = [createMetaData] := by
  rw [readJsonLines_line (by decide +kernel) (by decide +kernel) (if_pos rfl)]
  rfl

theorem metaDataActions_added : metaDataActions (readJsonLines readOrders addLine) = [] := by
  have hread : readOrders addLine = some (.obj [("add", .obj [("path", .str "part-0.parquet")])]) := by
    rw [readOrders, if_neg (by decide), if_neg (by decide), if_pos rfl]
  rw [readJsonLines_line (by decide +kernel) (by decide +kernel) hread]
  rfl

theorem reportsLatest_iff_created : LiesAt createdStore "orders/".toList createdLog ∧
    ReportsLatest readOrders createdLog
      (discoverDeltaTable readOrders createdStore "sales".toList "orders".toList "orders/".toList) := by
  have hlies : LiesAt createdStore "orders/".toList createdLog :=
    liesAt_of_files (by decide) (by decide)
  refine ⟨hlies, (reportsLatest_iff readOrders createdStore "orders/".toList "sales".toList
    "orders".toList createdLog hlies).mpr ?_⟩
  rintro last ⟨⟩
  exact Or.inl ⟨[], createMetaData, metaDataActions_created, by simp, by simp⟩

/-- The rows added hide the columns. -/
theorem not_reportsLatest_grown : LiesAt grownStore "orders/".toList grownLog ∧
    ¬ ReportsLatest readOrders grownLog
      (discoverDeltaTable readOrders grownStore "sales".toList "orders".toList "orders/".toList) := by
  have hlies : LiesAt grownStore "orders/".toList grownLog :=
    liesAt_of_files (by decide) (by decide)
  have hlast : grownLog.commits.getLast? = some ⟨1, addLine⟩ := rfl
  refine ⟨hlies, fun h => ?_⟩
  obtain ⟨table, htable, hcolumns, -⟩ :=
    hlies.discovered readOrders "sales".toList "orders".toList hlast
  have hlatest : latestMetaData readOrders grownLog = some createMetaData := by
    have hactions : metaDataActions (grownLog.commits.flatMap fun c => readJsonLines readOrders c.text) =
        metaDataActions (readJsonLines readOrders createLine) ++
          metaDataActions (readJsonLines readOrders addLine) := by
      simp [grownLog, metaDataActions]
    rw [latestMetaData, hactions, metaDataActions_created, metaDataActions_added]
    rfl
  have hschema : schemaColumns readOrders createMetaData = [⟨"id", "long", true, 0⟩] := by
    have htext : (createMetaData.get "schemaString").bind Value.asStr = some idSchema := rfl
    have hread : readOrders idSchema =
        some (.obj [("fields", .arr [.obj [("name", .str "id"), ("type", .str "long")]])]) := by
      rw [readOrders, if_neg (by decide), if_pos rfl]
    rw [schemaColumns, htext, Option.bind_some, hread]
    rfl
  have hsame := h.columns table htable
  rw [hcolumns, hlatest, metaDataActions_added, Option.map_some, hschema] at hsame
  cases hsame

end Examples
end RustLake.Discovery
