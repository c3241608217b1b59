import RustLake.Iceberg.CompactedFiles
import RustLake.Iceberg.Content
import RustLake.Iceberg.Versions
import RustLake.Sink.Parquet

/-! The paths that manifest lists record for data files, and the keys under which the sink and the
compaction have put the files. -/
namespace RustLake.Sink
open RustLake.Json RustLake.ObjectStore RustLake.Iceberg RustLake.Text

def manifestPaths (doc : Value) : List String :=
  (arrayAt doc "manifests").map fun manifest => strAt manifest "manifest_path" ""

variable {Row : Type}

section Commits
variable (size : Object Row → ℕ) (P : Parquet Row)

/-- A table's location, the prefix of data files, the keys under which they were put, and the
manifest list of the commit that has added them. -/
inductive Recorded : String → String → List Path → Value → Prop
  | created {sink : ParquetSink Row} {stored : List Path} {tablePrefix tableUuid bucket path : String}
      {schema : ArrowSchema} {nowMs : Int64} {faults faults' : Faults} {s s' : Store (Object Row)}
      {doc : Value} : Reaches size P sink stored →
      run size (writeIcebergMetadata tablePrefix schema sink.dataFiles tableUuid bucket nowMs) faults
        s = ⟨.ok path, s', faults'⟩ →
      s'.lookup (Path.ofText (tablePrefix ++ "/metadata/" ++ manifestListName nowMs)) =
        some (.json doc) →
      Recorded ("s3://" ++ bucket ++ "/" ++ tablePrefix) sink.sinkPrefix stored doc
  | appended {sink : ParquetSink Row} {stored : List Path} {state : IcebergTableState}
      {operation path : String} {schema : ArrowSchema} {nowMs : Int64} {faults faults' : Faults}
      {s s' : Store (Object Row)} {doc : Value} : Reaches size P sink stored →
      run size (appendSnapshot state sink.dataFiles schema operation nowMs) faults s =
        ⟨.ok path, s', faults'⟩ →
      s'.lookup (manifestKey state nowMs) = some (.json doc) →
      Recorded state.location sink.sinkPrefix stored doc
  | compacted {state : IcebergTableState} {targetFileSizeMb : UInt64} {schema : ArrowSchema}
      {now : DateTime} {nowMs : Int64} {result : CompactionResult} {faults faults' : Faults}
      {s s' : Store (Object Row)} {doc : Value} :
      run size (compactTable P state targetFileSizeMb schema now.datePart nowMs) faults s =
        ⟨.ok result, s', faults'⟩ →
      s'.lookup (manifestKey state nowMs) = some (.json doc) →
      Recorded state.location (stripS3Prefix state.location) (parquetKeys
        (putLog size (compactTable P state targetFileSizeMb schema now.datePart nowMs) faults s)) doc

end Commits

/-- Each recorded path, without its bucket, is the key of its file. -/
def RecordsKeys (stored : List Path) (doc : Value) : Prop :=
  (manifestPaths doc).map stripS3Prefix = stored

/-- The location with the prefix after it spells a bucket and the key of the prefix. -/
def SpellsKey (location pfx : String) : Prop :=
  ∃ bucket : String, '/' ∉ bucket.toList ∧ location ++ "/" ++ pfx =
    if Path.ofText pfx = "" then "s3://" ++ bucket
    else "s3://" ++ bucket ++ "/" ++ Path.ofText pfx

theorem manifestPaths_manifestList (location : String) (files : List DataFileInfo)
    (snapshotId : Int64) : manifestPaths (manifestList location files snapshotId) =
      files.map fun df => location ++ "/" ++ df.filePath := by
  change ((files.map _).map _) = _
  rw [List.map_map]
  rfl

theorem stripS3Prefix_cases (text : String) : stripS3Prefix text = text ∨
    ∃ bucket : String, '/' ∉ bucket.toList ∧ text = "s3://" ++ bucket ++ "/" ++ stripS3Prefix text := by
  unfold stripS3Prefix
  split
  · rename_i rest hdrop
    split
    · rename_i after hafter
      obtain ⟨scheme, htext, hscheme⟩ := List.dropPrefix?_eq_some_iff.mp hdrop
      obtain ⟨bucket, hbucket, rfl⟩ := append_of_afterFirst? hafter
      refine Or.inr ⟨String.ofList bucket, by rwa [String.toList_ofList], ?_⟩
      apply String.toList_injective
      rw [htext, eq_of_beq hscheme]
      simp [String.toList_append]
    · exact Or.inl rfl
  · exact Or.inl rfl

/-- A text with more slashes than the key is stripped to it only when a bucket stands before it. -/
theorem stripS3Prefix_eq_iff {text key : String}
    (h : key.toList.count '/' < text.toList.count '/') : stripS3Prefix text = key ↔
      ∃ bucket : String, '/' ∉ bucket.toList ∧ text = "s3://" ++ bucket ++ "/" ++ key := by
  constructor
  · intro hstrip
    rcases stripS3Prefix_cases text with hself | hbucket
    · rw [← hstrip, hself] at h
      exact absurd h (lt_irrefl _)
    · rwa [hstrip] at hbucket
  · rintro ⟨bucket, hbucket, rfl⟩
    exact stripS3Prefix_location hbucket key

theorem count_append (a b : String) :
    (a ++ b).toList.count '/' = a.toList.count '/' + b.toList.count '/' := by
  rw [String.toList_append, List.count_append]

theorem count_slash : "/".toList.count '/' = 1 := by decide

theorem strip_manifestPath_iff {location pfx filePath : String} (h : Dated pfx filePath) :
    stripS3Prefix (location ++ "/" ++ filePath) = Path.ofText filePath ↔ SpellsKey location pfx := by
  have hcount : (Path.ofText filePath).toList.count '/' <
      (location ++ "/" ++ filePath).toList.count '/' := by
    rw [count_append, count_append, count_slash]
    have hle := count_ofText_le filePath
    omega
  rw [stripS3Prefix_eq_iff hcount]
  obtain ⟨t, name, hname, rfl⟩ := h
  have htext : location ++ "/" ++ datedFile pfx t.datePart name =
      (location ++ "/" ++ pfx) ++ ("/" ++ t.datePart ++ "/" ++ name) := by
    unfold datedFile
    simp only [String.append_assoc]
  refine exists_congr fun bucket => and_congr_right fun _ => ?_
  have hkey : "s3://" ++ bucket ++ "/" ++ Path.ofText (datedFile pfx t.datePart name) =
      (if Path.ofText pfx = "" then "s3://" ++ bucket
        else "s3://" ++ bucket ++ "/" ++ Path.ofText pfx) ++ ("/" ++ t.datePart ++ "/" ++ name) := by
    rw [ofText_datedFile pfx (isSegment_datePart t) hname]
    unfold Path.child
    split
    · simp only [String.append_assoc]
    · simp only [String.append_assoc]
  rw [htext, hkey, String.append_left_inj]

/-- A commit of files below a prefix records their keys exactly when location and prefix spell the
key of the prefix. -/
theorem recordsKeys_manifestList_iff {location pfx : String} {files : List DataFileInfo}
    (hfiles : files ≠ []) (hdated : ∀ df ∈ files, Dated pfx df.filePath) (snapshotId : Int64) :
    RecordsKeys (files.map fun df => Path.ofText df.filePath)
      (manifestList location files snapshotId) ↔ SpellsKey location pfx := by
  unfold RecordsKeys
  rw [manifestPaths_manifestList, List.map_map, List.map_inj_left]
  constructor
  · intro h
    obtain ⟨df, hdf⟩ := List.exists_mem_of_ne_nil files hfiles
    exact (strip_manifestPath_iff (hdated df hdf)).mp (h df hdf)
  · exact fun h df hdf => (strip_manifestPath_iff (hdated df hdf)).mpr h

theorem dated_compacted (filePrefix : String) (now : DateTime) {filePath : String}
    (h : ∃ fileCounter, filePath = datedFile filePrefix now.datePart (compactedName fileCounter)) :
    Dated filePrefix filePath := by
  obtain ⟨fileCounter, rfl⟩ := h
  exact ⟨now, _, isSegment_compactedName fileCounter, rfl⟩

section Recorded
variable {size : Object Row → ℕ} {P : Parquet Row} {location pfx : String} {stored : List Path}
  {doc : Value}

/-- A commit lists the files that were put, each below the prefix. -/
theorem Recorded.lists (h : Recorded size P location pfx stored doc) :
    ∃ files snapshotId, files ≠ [] ∧ (∀ df ∈ files, Dated pfx df.filePath) ∧
      stored = files.map (fun df => Path.ofText df.filePath) ∧
      doc = manifestList location files snapshotId := by
  cases h with
  | created hreaches hrun hlook =>
    obtain ⟨hkeys, hdated⟩ := hreaches.remembers
    obtain ⟨hfiles, -, rfl⟩ := writeIcebergMetadata_ok hrun
    rw [AList.lookup_insert, Option.some.injEq, Object.json.injEq] at hlook
    exact ⟨_, _, hfiles, hdated, hkeys.symm, hlook.symm⟩
  | @appended sink _ _ _ _ _ _ _ _ _ _ _ hreaches hrun hlook =>
    obtain ⟨hkeys, hdated⟩ := hreaches.remembers
    have hfiles : sink.dataFiles ≠ [] := by
      intro hnil
      rw [hnil] at hrun
      cases hrun
    obtain ⟨_, -, rfl, rfl⟩ := appendSnapshot_ok hrun
    rw [AList.lookup_insert_ne (manifestKey_ne _ _ _ _), AList.lookup_insert, Option.some.injEq,
      Object.json.injEq] at hlook
    exact ⟨_, _, hfiles, hdated, hkeys.symm, hlook.symm⟩
  | compacted hrun hlook =>
    obtain ⟨files, hkeys, hnames, ⟨first, hfirst, -⟩, hmanifest⟩ := compactTable_log hrun
    rw [hmanifest, Option.some.injEq, Object.json.injEq] at hlook
    exact ⟨files, _, List.ne_nil_of_mem hfirst,
      fun df hdf => dated_compacted _ _ (hnames df hdf), hkeys, hlook.symm⟩

/-- The manifest lists of all commits record the keys of the files exactly when the location with
the prefix after it spells the key of the prefix. -/
theorem recordsKeys_iff (h : Recorded size P location pfx stored doc) :
    RecordsKeys stored doc ↔ SpellsKey location pfx := by
  obtain ⟨files, snapshotId, hfiles, hdated, rfl, rfl⟩ := h.lists
  exact recordsKeys_manifestList_iff hfiles hdated snapshotId

/-- A table that a sink appends to. -/
theorem Recorded.of_finalize {sink : ParquetSink Row} {state : IcebergTableState}
    {tableUuid path : String} {nowMs : Int64} {faults faults' : Faults} {s s' : Store (Object Row)}
    (hreaches : Reaches size P sink stored)
    (hrun : run size (sink.finalizeIcebergIncremental (some state) tableUuid nowMs) faults s =
      ⟨.ok path, s', faults'⟩)
    (hlook : s'.lookup (manifestKey state nowMs) = some (.json doc)) :
    Recorded size P state.location sink.sinkPrefix stored doc := by
  unfold ParquetSink.finalizeIcebergIncremental at hrun
  split at hrun
  · cases hrun
  · split at hrun
    · cases hrun
    · exact .appended hreaches hrun hlook

/-- A table that a sink creates. -/
theorem Recorded.of_finalize_new {sink : ParquetSink Row} {tableUuid path : String} {nowMs : Int64}
    {faults faults' : Faults} {s s' : Store (Object Row)} (hreaches : Reaches size P sink stored)
    (hrun : run size (sink.finalizeIcebergIncremental none tableUuid nowMs) faults s =
      ⟨.ok path, s', faults'⟩)
    (hlook : s'.lookup (Path.ofText (sink.sinkPrefix ++ "/metadata/" ++ manifestListName nowMs)) =
      some (.json doc)) :
    Recorded size P ("s3://" ++ sink.bucket ++ "/" ++ sink.sinkPrefix) sink.sinkPrefix stored doc := by
  unfold ParquetSink.finalizeIcebergIncremental at hrun
  split at hrun
  · cases hrun
  · split at hrun
    · cases hrun
    · exact .created hreaches hrun hlook

end Recorded

section Orders

def ordersNow : DateTime := ⟨2024, 5, 1, 7, 8, 9⟩

def ordersBatch : RecordBatch ℕ := ⟨ordersSchema, [1, 2, 3]⟩

/-- A sink with one batch in its buffer. -/
def ordersBuffered : ParquetSink ℕ :=
  { (ParquetSink.new "cdc/orders" "lake" 500 : ParquetSink ℕ) with
    buffer := [ordersBatch]
    bufferRows := 3 }

/-- The sink after it has flushed the batch. -/
def ordersFlushed : ParquetSink ℕ :=
  { (ParquetSink.new "cdc/orders" "lake" 500 : ParquetSink ℕ) with
    filesWritten := 1
    totalRowsWritten := 3
    dataFiles := [⟨"cdc/orders/2024-05-01/batch-070809-0001.parquet", 300, 3⟩]
    lastSchema := some ordersSchema }

theorem reaches_ordersFlushed : Reaches (fun _ => 0) ordersParquet ordersFlushed
    ["cdc/orders/2024-05-01/batch-070809-0001.parquet"] := by
  have hwrite : run (fun _ => 0) ((ParquetSink.new "cdc/orders" "lake" 500).writeBatch ordersParquet
      ordersNow ordersBatch) noFaults ∅ = ⟨.ok (ordersBuffered, .ok ()), ∅, noFaults⟩ := by rfl
  have hflush : (run (fun _ => 0) (ordersBuffered.flush ordersParquet ordersNow) noFaults ∅).result =
      .ok (ordersFlushed, .ok ()) := by rfl
  have hlog : (putLog (fun _ => 0) (ordersBuffered.flush ordersParquet ordersNow) noFaults ∅).map
      Prod.fst = ["cdc/orders/2024-05-01/batch-070809-0001.parquet"] := by rfl
  have hreaches := (Reaches.writeBatch (.new "cdc/orders" "lake" 500) hwrite).flush
    (run_eq_of_result _ hflush)
  rwa [hlog] at hreaches

/-- A table at the root of a bucket, to which the sink appends. -/
def ordersAtRoot : IcebergTableState :=
  stateOf (initialMetadata "s3://lake" ordersSchema [⟨"part-0.parquet", 300, 3⟩] "c5b1" 1000)
    "metadata/v1.metadata.json"

def ordersManifests (location : String) : Value :=
  manifestList location ordersFlushed.dataFiles 2000

theorem recorded_ordersAtRoot : Recorded (fun _ => 0) ordersParquet "s3://lake" "cdc/orders"
    ["cdc/orders/2024-05-01/batch-070809-0001.parquet"] (ordersManifests "s3://lake") := by
  have hrun : (run (fun _ => 0) (ordersFlushed.finalizeIcebergIncremental (some ordersAtRoot) "c5b1"
      2000) noFaults (∅ : Store (Object ℕ))).result = .ok "s3://lake/metadata/v2.metadata.json" := by
    rfl
  have hlook : (run (fun _ => 0) (ordersFlushed.finalizeIcebergIncremental (some ordersAtRoot) "c5b1"
      2000) noFaults (∅ : Store (Object ℕ))).store.lookup (manifestKey ordersAtRoot 2000) =
        some (.json (ordersManifests "s3://lake")) := by rfl
  exact .of_finalize reaches_ordersFlushed (run_eq_of_result _ hrun) hlook

theorem recordsKeys_iff_orders :
    RecordsKeys ["cdc/orders/2024-05-01/batch-070809-0001.parquet"]
      (ordersManifests "s3://lake") ↔ SpellsKey "s3://lake" "cdc/orders" :=
  recordsKeys_iff recorded_ordersAtRoot

/-- A table that the sink creates below its prefix: the prefix stands twice in the recorded
path. -/
theorem not_recordsKeys_orders :
    Recorded (fun _ => 0) ordersParquet "s3://lake/cdc/orders" "cdc/orders"
      ["cdc/orders/2024-05-01/batch-070809-0001.parquet"]
      (ordersManifests "s3://lake/cdc/orders") ∧
    manifestPaths (ordersManifests "s3://lake/cdc/orders") =
      ["s3://lake/cdc/orders/cdc/orders/2024-05-01/batch-070809-0001.parquet"] ∧
    ¬ RecordsKeys ["cdc/orders/2024-05-01/batch-070809-0001.parquet"]
      (ordersManifests "s3://lake/cdc/orders") := by
  refine ⟨?_, by decide, by unfold RecordsKeys; decide⟩
  have hrun : (run (fun _ => 0) (ordersFlushed.finalizeIcebergIncremental none "c5b1" 2000) noFaults
      (∅ : Store (Object ℕ))).result = .ok "cdc/orders/metadata/v1.metadata.json" := by rfl
  have hlook : (run (fun _ => 0) (ordersFlushed.finalizeIcebergIncremental none "c5b1" 2000) noFaults
      (∅ : Store (Object ℕ))).store.lookup (Path.ofText (ordersFlushed.sinkPrefix ++ "/metadata/" ++
        manifestListName 2000)) = some (.json (ordersManifests "s3://lake/cdc/orders")) := by rfl
  exact .of_finalize_new reaches_ordersFlushed (run_eq_of_result _ hrun) hlook

end Orders
end RustLake.Sink
