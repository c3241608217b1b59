import RustLake.Sink.Lake

/-! What queries read of a table at a sink's prefix: listing tables take all `.parquet` objects below
a path, while commits say which data files the current snapshot has. -/
namespace RustLake.Sink
open RustLake.Json RustLake.ObjectStore RustLake.Iceberg RustLake.Text

variable {Row : Type}

/-- The formats that the scan of a warehouse tells apart. -/
inductive TableFormat where
  | iceberg | delta | hudi | parquet
deriving DecidableEq, Repr

/-- The URL under which the consumer has its sink registered by `register_cdc_listing_table`. -/
def SinkTarget.cdcUrl (target : SinkTarget) : String :=
  "s3://" ++ target.bucket ++ "/" ++ target.sinkPrefix ++ "/"

/-- The `data_path` of `discover_s3_tables`. -/
def dataPath (bucket base : String) : TableFormat → String
  | .iceberg | .delta => "s3://" ++ bucket ++ "/" ++ base ++ "/data/"
  | _ => "s3://" ++ bucket ++ "/" ++ base ++ "/"

/-- A table that a sink has finalized is discovered as an Iceberg table at the sink's prefix. -/
def SinkTarget.discoveredUrl (target : SinkTarget) : String :=
  dataPath target.bucket target.sinkPrefix .iceberg

/-- What a listing table over the URL reads: the `.parquet` objects below its path. -/
def listedFiles (s : Store (Object Row)) (url : String) : List Path :=
  (s.listing (Path.ofText (stripS3Prefix url))).filter fun key => decide (IsParquet key)

def fileKeys (files : List DataFileInfo) : List Path :=
  files.map fun df => Path.ofText df.filePath

namespace ParquetSink

/-- The key under which a flush puts what is buffered. -/
def nextKey (now : DateTime) (sink : ParquetSink Row) : Path :=
  Path.ofText (datedFile sink.sinkPrefix now.datePart (batchName now (sink.filesWritten + 1)))

/-- The sink with a batch more in its buffer. -/
def withBatch (batch : RecordBatch Row) (sink : ParquetSink Row) : ParquetSink Row :=
  { sink with
    buffer := sink.buffer ++ [batch]
    bufferRows := sink.bufferRows + UInt64.ofNat batch.rows.length }

end ParquetSink

section Property
variable (size : Object Row → ℕ) (P : Parquet Row) (target : SinkTarget)

/-- The object is a data file that the current snapshot lists. -/
def IsCurrentFile (s : Store (Object Row)) (state : IcebergTableState) (key : Path) : Prop :=
  ∃ df, Lists s state df ∧ key = Path.ofText df.filePath

/-- The `.parquet` objects below the URL are exactly the data files of the current snapshot. -/
def QueriesCurrent (url : String) (s : Store (Object Row)) : Prop :=
  ∀ state, visible size target s = some state →
    ∀ key, key ∈ listedFiles s url ↔ IsCurrentFile s state key

/-- A flush with nothing to write, one that fails, or one that writes a file again. -/
def FlushesKnown (now : DateTime) (sink : ParquetSink Row) (faults : Faults)
    (s : Store (Object Row)) : Prop :=
  match sink.buffer with
  | [] => True
  | first :: _ => faults 0 ≠ none ∨
      (∃ e, P.encode first.schema (sink.buffer.map (·.rows)) = .error e) ∨ sink.nextKey now ∈ s

/-- What a commit on the table must be like: an append is handed all files that are there, an expiry
leaves the current snapshot. -/
def CommitSuits (state : IcebergTableState) (faults : Faults) (s : Store (Object Row)) :
    Commit → Prop
  | .append files _ _ nowMs => files = [] ∨ faults 0 ≠ none ∨
      (faults 1 ≠ none ∧ state.currentSnapshotId ≠ some nowMs) ∨
      ∀ key, key ∈ listedFiles s target.cdcUrl ↔ key ∈ fileKeys files
  | .expire olderThanMs retainLastN _ => ∀ id, state.currentSnapshotId = some id →
      id ∉ (expiredSnapshots state olderThanMs retainLastN).map (·.snapshotId)
  | _ => True

/-- What an action must be like for the current snapshot to have all files that are there. Once there
is a table, flushes put no new file. A sink that finalizes a table must have put all of them, unless
it fails at once or a later version hides the table it creates; a compaction must put none. -/
def Suits (lake : Lake Row) : Action Row × Faults → Prop
  | (.openSink _, _) => True
  | (.writeBatch i now batch, faults) => ∀ sink, lake.sinks[i]? = some sink →
      visible size target lake.store = none ∨
        ((sink.withBatch batch).flushThreshold ≤ (sink.withBatch batch).bufferRows →
          FlushesKnown P now (sink.withBatch batch) faults lake.store)
  | (.flush i now, faults) => ∀ sink, lake.sinks[i]? = some sink →
      visible size target lake.store = none ∨ FlushesKnown P now sink faults lake.store
  | (.finalize i _ nowMs, faults) => ∀ sink, lake.sinks[i]? = some sink →
      sink.dataFiles = [] ∨ faults 0 ≠ none ∨
      (∃ state, visible size target lake.store = some state ∧ state.metadataVersion ≠ 1 ∧
        state.currentSnapshotId ≠ some nowMs) ∨
      (faults 1 = none ∧ ∀ key ∈ listedFiles lake.store target.cdcUrl, key ∈ fileKeys sink.dataFiles)
  | (.commit c, faults) => ∀ state, visible size target lake.store = some state →
      CommitSuits target state faults lake.store c
  | (.compact recorded targetFileSizeMb schema _ _, faults) =>
      ∀ state, visible size target lake.store = some state →
        CompactsNothing size P (state.attach recorded) targetFileSizeMb schema faults lake.store

end Property

section Listing
variable {size : Object Row → ℕ} {P : Parquet Row} {target : SinkTarget} {lake lake' : Lake Row}
  {s s' : Store (Object Row)} {state after : IcebergTableState}

theorem mem_listedFiles {url : String} {key : Path} :
    key ∈ listedFiles s url ↔
      key ∈ s ∧ key.isUnder (Path.ofText (stripS3Prefix url)) = true ∧ IsParquet key := by
  unfold listedFiles
  rw [List.mem_filter, Store.mem_listing, decide_eq_true_eq, and_assoc]

theorem ofText_cdcUrl (target : SinkTarget) :
    Path.ofText (stripS3Prefix target.cdcUrl) = Path.ofText target.sinkPrefix := by
  have htext : target.cdcUrl =
      "s3://" ++ target.bucket ++ "/" ++ (target.sinkPrefix ++ "/") := by
    unfold SinkTarget.cdcUrl
    rw [String.append_assoc]
  rw [htext, stripS3Prefix_location target.plain, ofText_slash]

theorem ofText_discoveredUrl (target : SinkTarget) :
    Path.ofText (stripS3Prefix target.discoveredUrl) =
      Path.ofText (target.sinkPrefix ++ "/data") := by
  have hslash : "/data" ++ "/" = "/data/" := rfl
  have htext : target.discoveredUrl =
      "s3://" ++ target.bucket ++ "/" ++ (target.sinkPrefix ++ "/data" ++ "/") := by
    unfold SinkTarget.discoveredUrl dataPath
    simp only [String.append_assoc, hslash]
  rw [htext, stripS3Prefix_location target.plain, ofText_slash]

theorem mem_cdcFiles {key : Path} : key ∈ listedFiles s target.cdcUrl ↔
    key ∈ s ∧ key.isUnder (Path.ofText target.sinkPrefix) = true ∧ IsParquet key := by
  rw [mem_listedFiles, ofText_cdcUrl]

theorem DataKey.mem_cdcFiles {key : Path} (h : DataKey target.sinkPrefix key) (hmem : key ∈ s) :
    key ∈ listedFiles s target.cdcUrl :=
  Sink.mem_cdcFiles.mpr ⟨hmem, h.isUnder, h.isParquet⟩

theorem mem_files_congr {url : String} (hsame : ∀ key, IsParquet key → (key ∈ s' ↔ key ∈ s))
    (key : Path) : key ∈ listedFiles s' url ↔ key ∈ listedFiles s url := by
  rw [mem_listedFiles, mem_listedFiles]
  constructor
  · rintro ⟨hmem, hunder, hparquet⟩
    exact ⟨(hsame key hparquet).mp hmem, hunder, hparquet⟩
  · rintro ⟨hmem, hunder, hparquet⟩
    exact ⟨(hsame key hparquet).mpr hmem, hunder, hparquet⟩

theorem isUnder_of_child {key dir : Path} {name : String} (h : key.isUnder (dir.child name) = true) :
    key.isUnder dir = true := by
  unfold Path.child at h
  split at h
  · rename_i hempty
    rw [hempty]
    rfl
  · unfold Path.isUnder at h ⊢
    rw [Bool.or_eq_true] at h ⊢
    rcases h with hempty | hbegins
    · have hslash : '/' ∈ (dir ++ "/" ++ name).toList := by simp
      rw [of_decide_eq_true hempty] at hslash
      exact absurd hslash (by decide)
    · right
      have hlonger : (dir ++ "/" ++ name).toList ++ ['/'] <+: key.toList :=
        List.isPrefixOf_iff_prefix.mp hbegins
      have hshort : dir.toList ++ ['/'] <+: (dir ++ "/" ++ name).toList ++ ['/'] := by
        refine ⟨name.toList ++ ['/'], ?_⟩
        simp [String.toList_append]
      exact List.isPrefixOf_iff_prefix.mpr (hshort.trans hlonger)

/-- The discovered path has no object below it, whatever has been done at the prefix. -/
theorem Sound.discovered_empty (h : Sound size target lake) (key : Path) :
    key ∉ listedFiles lake.store target.discoveredUrl := by
  intro hlisted
  rw [mem_listedFiles, ofText_discoveredUrl] at hlisted
  obtain ⟨hmem, hunder, hparquet⟩ := hlisted
  have htext : target.sinkPrefix ++ "/data" = target.sinkPrefix ++ "/" ++ "data" := by
    rw [String.append_assoc]
    rfl
  have hbelow : key.isUnder (Path.ofText target.sinkPrefix) = true := by
    rw [htext, ofText_append_segment _ isSegment_data] at hunder
    exact isUnder_of_child hunder
  have hdata := h.files key hmem hparquet hbelow
  rw [hdata.not_isUnder_data] at hunder
  cases hunder

end Listing
/-- The document under a key. -/
def jsonAt (s : Store (Object Row)) (key : Path) : Option Value :=
  match s.lookup key with
  | some (.json doc) => some doc
  | _ => none

/-- The id of the current snapshot, where the table has that snapshot. -/
def currentId (state : IcebergTableState) : Option Int64 :=
  state.currentSnapshotId.filter fun id => (state.snapshot? id).isSome

section Current
variable {size : Object Row → ℕ} {target : SinkTarget} {lake lake' : Lake Row}
  {s s' : Store (Object Row)} {state after : IcebergTableState}

theorem jsonAt_eq_some {key : Path} {doc : Value} :
    jsonAt s key = some doc ↔ s.lookup key = some (.json doc) := by
  unfold jsonAt
  constructor
  · intro h
    split at h
    · rename_i found hlookup
      rw [hlookup, ← Option.some.inj h]
    · cases h
  · intro h
    rw [h]

theorem jsonAt_congr {key : Path} (h : s'.lookup key = s.lookup key) :
    jsonAt s' key = jsonAt s key := by
  unfold jsonAt
  rw [h]

theorem currentId_eq_some {id : Int64} : currentId state = some id ↔
    state.currentSnapshotId = some id ∧ ∃ snap, state.snapshot? id = some snap := by
  unfold currentId
  rw [Option.filter_eq_some_iff, Option.isSome_iff_exists]

theorem currentId_congr (hid : after.currentSnapshotId = state.currentSnapshotId)
    (hsnaps : after.snapshots = state.snapshots) : currentId after = currentId state := by
  unfold currentId IcebergTableState.snapshot?
  rw [hid, hsnaps]

/-- The data files of the current snapshot are those which the manifest list under its id has. -/
theorem Sound.isCurrentFile_iff (h : Sound size target lake)
    (hstate : visible size target lake.store = some state) {key : Path} :
    IsCurrentFile lake.store state key ↔ ∃ (id : Int64) (doc : Value) (df : DataFileInfo),
      currentId state = some id ∧ jsonAt lake.store (createdManifest target id) = some doc ∧
      target.location ++ "/" ++ df.filePath ∈ manifestPaths doc ∧ key = Path.ofText df.filePath := by
  have hlocation := h.held.location hstate
  have hobject : ∀ {id : Int64} {snap : SnapshotInfo}, state.snapshot? id = some snap →
      snap.manifestObject = createdManifest target id := by
    intro id snap hsnap
    have hpath := h.owns state hstate snap (List.mem_of_find?_eq_some hsnap)
    have hsame : snap.snapshotId = id := by simpa using List.find?_some hsnap
    rw [hlocation, hsame] at hpath
    exact manifestObject_at target hpath
  constructor
  · rintro ⟨df, ⟨id, snap, doc, hid, hsnap, hlookup, hpath⟩, hkey⟩
    rw [hobject hsnap] at hlookup
    rw [hlocation] at hpath
    exact ⟨id, doc, df, currentId_eq_some.mpr ⟨hid, snap, hsnap⟩, jsonAt_eq_some.mpr hlookup, hpath,
      hkey⟩
  · rintro ⟨id, doc, df, hcurrent, hjson, hpath, hkey⟩
    obtain ⟨hid, snap, hsnap⟩ := currentId_eq_some.mp hcurrent
    refine ⟨df, ⟨id, snap, doc, hid, hsnap, ?_, ?_⟩, hkey⟩
    · rw [hobject hsnap]
      exact jsonAt_eq_some.mp hjson
    · rw [hlocation]
      exact hpath

section Change
variable (hsound : Sound size target lake) (hsound' : Sound size target lake')
  (hmem : ∀ key, IsParquet key → (key ∈ lake'.store ↔ key ∈ lake.store))
  (hafter : visible size target lake'.store = some after)
include hsound' hmem hafter

include hsound in
/-- The same snapshot is current, and its manifest list is as it was. -/
theorem files_of_kept (h : QueriesCurrent size target target.cdcUrl lake.store)
    (hstate : visible size target lake.store = some state) (hid : currentId after = currentId state)
    (hjson : ∀ id, currentId state = some id → jsonAt lake'.store (createdManifest target id) =
      jsonAt lake.store (createdManifest target id)) (key : Path) :
    key ∈ listedFiles lake'.store target.cdcUrl ↔ IsCurrentFile lake'.store after key := by
  rw [mem_files_congr hmem, h state hstate, hsound.isCurrentFile_iff hstate,
    hsound'.isCurrentFile_iff hafter, hid]
  constructor
  · rintro ⟨id, doc, df, hcurrent, hdoc, hrest⟩
    exact ⟨id, doc, df, hcurrent, (hjson id hcurrent).trans hdoc, hrest⟩
  · rintro ⟨id, doc, df, hcurrent, hdoc, hrest⟩
    exact ⟨id, doc, df, hcurrent, (hjson id hcurrent).symm.trans hdoc, hrest⟩

/-- The current snapshot is one with a new manifest list, which has all files that are there. -/
theorem files_of_listed {files : List DataFileInfo} {nowMs : Int64}
    (hall : ∀ key, key ∈ listedFiles lake.store target.cdcUrl ↔ key ∈ fileKeys files)
    (hid : currentId after = some nowMs)
    (hjson : jsonAt lake'.store (createdManifest target nowMs) =
      some (manifestList target.location files nowMs)) (key : Path) :
    key ∈ listedFiles lake'.store target.cdcUrl ↔ IsCurrentFile lake'.store after key := by
  rw [mem_files_congr hmem, hall, hsound'.isCurrentFile_iff hafter]
  unfold fileKeys
  rw [List.mem_map]
  constructor
  · rintro ⟨df, hdf, hkey⟩
    refine ⟨nowMs, _, df, hid, hjson, ?_, hkey.symm⟩
    rw [manifestPaths_manifestList]
    exact List.mem_map_of_mem (f := fun df => target.location ++ "/" ++ df.filePath) hdf
  · rintro ⟨id, doc, df, hcurrent, hdoc, hpath, hkey⟩
    obtain rfl : nowMs = id := Option.some.inj (hid.symm.trans hcurrent)
    obtain rfl : manifestList target.location files nowMs = doc :=
      Option.some.inj (hjson.symm.trans hdoc)
    rw [manifestPaths_manifestList, List.mem_map] at hpath
    obtain ⟨df', hdf', hsame⟩ := hpath
    refine ⟨df', hdf', ?_⟩
    rw [hkey, (String.append_right_inj _).mp hsame]

end Change

end Current

end RustLake.Sink
