import RustLake.Iceberg.Compaction

/-! The logical content of a table: the rows that the parent chain of its current snapshot
reaches, and its record count. A compaction keeps it only where there are no rows. -/
namespace RustLake.Iceberg
open RustLake.Json RustLake.ObjectStore RustLake.Text

/-- The state with the data files of each snapshot put back; loading leaves them out. -/
def IcebergTableState.attach (state : IcebergTableState)
    (files : Int64 → List DataFileInfo) : IcebergTableState :=
  { state with
    snapshots := state.snapshots.map fun snap =>
      { snap with dataFiles := files snap.snapshotId } }

/-- The walk of `get_data_files_for_snapshot` comes to an end with these paths. -/
def Collects (state : IcebergTableState) (id : Option Int64) (paths : List String) : Prop :=
  ∃ fuel, getDataFilesForSnapshot state fuel id = some paths

/-- No snapshot has the id or names it as its parent, and it is not the current one. -/
def FreshId (state : IcebergTableState) (id : Int64) : Prop :=
  state.currentSnapshotId ≠ some id ∧
    ∀ snap ∈ state.snapshots, snap.snapshotId ≠ id ∧ snap.parentSnapshotId ≠ some id

variable {Row : Type}

/-- The rows reachable from the current snapshot are the same before and after, and so is its
total of records. -/
structure SameContent (s s' : Store (Object Row)) (before after : IcebergTableState) : Prop where
  rows : ∀ paths, Collects before before.currentSnapshotId paths →
    ∃ paths', Collects after after.currentSnapshotId paths' ∧
      (paths'.flatMap (rowsAt s')).Perm (paths.flatMap (rowsAt s))
  totalRecords : prevTotal after "total-records" = prevTotal before "total-records"

@[simp] theorem attach_currentSnapshotId (state : IcebergTableState)
    (files : Int64 → List DataFileInfo) :
    (state.attach files).currentSnapshotId = state.currentSnapshotId := rfl

@[simp] theorem attach_metadata (state : IcebergTableState)
    (files : Int64 → List DataFileInfo) : (state.attach files).metadata = state.metadata := rfl

@[simp] theorem attach_location (state : IcebergTableState)
    (files : Int64 → List DataFileInfo) : (state.attach files).location = state.location := rfl

theorem snapshot?_attach (state : IcebergTableState) (files : Int64 → List DataFileInfo)
    (id : Int64) : (state.attach files).snapshot? id =
      (state.snapshot? id).map fun snap => { snap with dataFiles := files snap.snapshotId } := by
  unfold IcebergTableState.snapshot? IcebergTableState.attach
  rw [List.find?_map]
  rfl

/-- A state as it was loaded carries no data files. -/
theorem attach_nil (metadata : Value) (path : Path) :
    (stateOf metadata path).attach (fun _ => []) = stateOf metadata path := by
  unfold IcebergTableState.attach stateOf parseSnapshots
  rw [List.map_map]
  rfl

theorem prevTotal_attach (state : IcebergTableState) (files : Int64 → List DataFileInfo)
    (key : String) : prevTotal (state.attach files) key = prevTotal state key := by
  unfold prevTotal
  rw [attach_currentSnapshotId]
  cases state.currentSnapshotId with
  | none => rfl
  | some id =>
    simp only [Option.bind_eq_bind, Option.bind_some, snapshot?_attach]
    cases state.snapshot? id <;> rfl

theorem snapshotEntry_attach (state : IcebergTableState) (recorded : Int64 → List DataFileInfo)
    (files : List DataFileInfo) (operation : String) (nowMs : Int64) :
    snapshotEntry (state.attach recorded) files operation nowMs =
      snapshotEntry state files operation nowMs := by
  have hlength : (state.attach recorded).snapshots.length = state.snapshots.length :=
    List.length_map _
  unfold snapshotEntry
  rw [prevTotal_attach, prevTotal_attach, prevTotal_attach, hlength]
  rfl

/-- What an append does to a table does not depend on the data files that its state carries. -/
theorem appendSnapshot_attach {Row : Type} (state : IcebergTableState)
    (recorded : Int64 → List DataFileInfo) (files : List DataFileInfo) (schema : ArrowSchema)
    (operation : String) (nowMs : Int64) :
    (appendSnapshot (state.attach recorded) files schema operation nowMs :
      Program (Object Row) String) = appendSnapshot state files schema operation nowMs := by
  have hlength : (state.attach recorded).snapshots.length = state.snapshots.length :=
    List.length_map _
  have hmetadata : appendedMetadata (state.attach recorded) files schema operation nowMs =
      appendedMetadata state files schema operation nowMs := by
    unfold appendedMetadata
    rw [snapshotEntry_attach, hlength]
    rfl
  unfold appendSnapshot
  rw [hmetadata]
  rfl

/-- The paths that a walk collects are those of data files of the state's snapshots. -/
theorem mem_of_getDataFiles {state : IcebergTableState} {fuel : ℕ} {id : Option Int64}
    {paths : List String} (h : getDataFilesForSnapshot state fuel id = some paths) {p : String}
    (hp : p ∈ paths) : p ∈ allFilePaths state := by
  induction fuel generalizing id paths with
  | zero =>
    cases id with
    | none =>
      cases h
      exact absurd hp List.not_mem_nil
    | some id => cases h
  | succ fuel ih =>
    cases id with
    | none =>
      cases h
      exact absurd hp List.not_mem_nil
    | some id =>
      rw [getDataFilesForSnapshot] at h
      cases hsnap : state.snapshot? id with
      | none =>
        simp only [hsnap, Option.some.injEq] at h
        subst h
        exact absurd hp List.not_mem_nil
      | some snap =>
        simp only [hsnap, Option.map_eq_some_iff] at h
        obtain ⟨later, hlater, rfl⟩ := h
        rcases List.mem_append.mp hp with hhere | hthere
        · obtain ⟨df, hdf, rfl⟩ := List.mem_map.mp hhere
          have hmem := List.mem_of_find?_eq_some hsnap
          exact mem_allFilePaths.mpr ⟨snap, hmem, df, hdf, rfl⟩
        · exact ih hlater hthere

/-- Whether a walk ends depends on ids and parents only, and not on a snapshot it never
comes to. -/
theorem getDataFiles_isSome_congr {a b : IcebergTableState} {fresh : Int64}
    (hparents : ∀ id, id ≠ fresh →
      (a.snapshot? id).map (·.parentSnapshotId) = (b.snapshot? id).map (·.parentSnapshotId))
    (hfresh : ∀ snap ∈ a.snapshots, snap.parentSnapshotId ≠ some fresh) {id : Option Int64}
    (hid : id ≠ some fresh) (fuel : ℕ) :
    (getDataFilesForSnapshot a fuel id).isSome = (getDataFilesForSnapshot b fuel id).isSome := by
  induction fuel generalizing id with
  | zero => cases id <;> rfl
  | succ fuel ih =>
    cases id with
    | none => rfl
    | some id =>
      have hne : id ≠ fresh := fun h => hid (congrArg some h)
      have hsame := hparents id hne
      rw [getDataFilesForSnapshot, getDataFilesForSnapshot]
      cases ha : a.snapshot? id with
      | none =>
        cases hb : b.snapshot? id with
        | none => rfl
        | some snap => simp [ha, hb] at hsame
      | some snap =>
        cases hb : b.snapshot? id with
        | none => simp [ha, hb] at hsame
        | some snap' =>
          have hparent : snap.parentSnapshotId = snap'.parentSnapshotId := by
            simpa [ha, hb] using hsame
          have hstep := ih (hfresh snap (List.mem_of_find?_eq_some ha))
          simp only [Option.isSome_map]
          rw [hstep, hparent]

/-- A loaded state with recorded data files. -/
abbrev recordedState (metadata : Value) (path : Path) (files : Int64 → List DataFileInfo) :
    IcebergTableState := (stateOf metadata path).attach files

section Append
variable {metadata doc : Value} {path : Path} {files : Int64 → List DataFileInfo}
  {newFiles : List DataFileInfo} {schema : ArrowSchema} {operation : String} {nowMs : Int64}
  (h : appendedMetadata (recordedState metadata path files) newFiles schema operation nowMs =
    some doc)
  (path' : Path) (g : Int64 → List DataFileInfo)
include h

/-- The snapshots after an append and a reload, with data files put back. -/
theorem snapshots_appended (hne : (recordedState metadata path files).snapshots ≠ []) :
    (recordedState doc path' g).snapshots = (recordedState metadata path g).snapshots ++
      [{ parseSnapshot (snapshotEntry (recordedState metadata path files) newFiles operation
          nowMs) with dataFiles := g nowMs }] := by
  have hparse : parseSnapshots metadata ≠ [] := fun h => hne (by
    simp [recordedState, IcebergTableState.attach, stateOf, h])
  have hsnaps : parseSnapshots doc = parseSnapshots metadata ++
      [parseSnapshot (snapshotEntry (recordedState metadata path files) newFiles operation
        nowMs)] := 
      parseSnapshots_appendedMetadata h (hasArray_of_parseSnapshots hparse)
  unfold recordedState IcebergTableState.attach stateOf
  simp only [hsnaps, List.map_append, List.map_cons, List.map_nil]
  congr 3
  exact congrArg g (parseSnapshot_snapshotId _ _ _ _)

theorem current_appended : (stateOf doc path').currentSnapshotId = some nowMs := by
  unfold stateOf
  simp only [get_current_appendedMetadata h, Option.bind_some, asI64_ofI64]

/-- The appended snapshot is found by its id, and the others as before. -/
theorem snapshot?_appended (hne : (recordedState metadata path files).snapshots ≠ [])
    (hid : FreshId (recordedState metadata path files) nowMs) :
    (recordedState doc path' g).snapshot? nowMs =
        some { parseSnapshot (snapshotEntry (recordedState metadata path files) newFiles
          operation nowMs) with dataFiles := g nowMs } ∧
      ∀ id, id ≠ nowMs → (recordedState doc path' g).snapshot? id =
        (recordedState metadata path g).snapshot? id := by
  have hold : (recordedState metadata path g).snapshot? nowMs = none := by
    have hnone : (recordedState metadata path files).snapshot? nowMs = none := by
      refine List.find?_eq_none.mpr fun snap hsnap => ?_
      simpa using (hid.2 snap hsnap).1
    rw [snapshot?_attach, Option.map_eq_none_iff] at hnone ⊢
    exact hnone
  unfold IcebergTableState.snapshot? at hold ⊢
  rw [snapshots_appended h path' g hne]
  constructor
  · rw [List.find?_append, hold]
    simp
  · intro id hne
    have hnew : ([{ parseSnapshot (snapshotEntry (recordedState metadata path files) newFiles
        operation nowMs) with dataFiles := g nowMs }] : List SnapshotInfo).find?
          (·.snapshotId = id) = none := by
      simpa using Ne.symm hne
    rw [List.find?_append, hnew, Option.or_none]

/-- The new total counts the new files on top of the old total. -/
theorem prevTotal_appended (hne : (recordedState metadata path files).snapshots ≠ [])
    (hid : FreshId (recordedState metadata path files) nowMs) :
    prevTotal (recordedState doc path' g) "total-records" =
      prevTotal (recordedState metadata path files) "total-records" +
        totalRecords newFiles := by
  have hfound := (snapshot?_appended h path' g hne hid).1
  have hlookup : (parseSnapshot (snapshotEntry (recordedState metadata path files) newFiles
      operation nowMs)).summary.lookup "total-records" =
        some (toString (prevTotal (recordedState metadata path files) "total-records" +
          totalRecords newFiles)) := rfl
  generalize hprev : prevTotal (recordedState metadata path files) "total-records" = prev
    at hlookup ⊢
  unfold prevTotal
  rw [attach_currentSnapshotId, current_appended h]
  simp only [Option.bind_eq_bind, Option.bind_some, hfound, hlookup, parseU64_toString,
    Option.getD_some]

/-- After an append the walk from the new snapshot ends if the one before did. -/
theorem collects_appended (hne : (recordedState metadata path files).snapshots ≠ [])
    (hid : FreshId (recordedState metadata path files) nowMs) {paths : List String}
    (hpaths : Collects (recordedState metadata path files)
      (stateOf metadata path).currentSnapshotId paths) :
    ∃ paths', Collects (recordedState doc path' g) (some nowMs) paths' := by
  obtain ⟨fuel, hfuel⟩ := hpaths
  obtain ⟨hnew, hothers⟩ := snapshot?_appended h path' g hne hid
  have hparents : ∀ id, id ≠ nowMs →
      ((recordedState metadata path files).snapshot? id).map (·.parentSnapshotId) =
        ((recordedState doc path' g).snapshot? id).map (·.parentSnapshotId) := by
    intro id hne'
    rw [hothers id hne', snapshot?_attach, snapshot?_attach, Option.map_map, Option.map_map]
    rfl
  have hends := getDataFiles_isSome_congr hparents (fun snap hsnap => (hid.2 snap hsnap).2)
    hid.1 fuel
  rw [attach_currentSnapshotId, hfuel] at hends
  obtain ⟨paths', hpaths'⟩ := Option.isSome_iff_exists.mp hends.symm
  refine ⟨(g nowMs).map (·.filePath) ++ paths', fuel + 1, ?_⟩
  rw [getDataFilesForSnapshot, hnew]
  simp only [parseSnapshot_parentSnapshotId, attach_currentSnapshotId, hpaths', Option.map_some]

end Append
theorem rowsAt_insert_json (s : Store (Object Row)) (key : Path) (doc : Value)
    (path : String) : rowsAt (s.insert key (.json doc)) path ⊆ rowsAt s path := by
  unfold rowsAt
  by_cases hkey : Path.ofText path = key
  · rw [hkey, AList.lookup_insert]
    exact List.nil_subset _
  · rw [AList.lookup_insert_ne hkey]
    exact List.Subset.refl _

theorem rowsAt_of_rowsOf_eq_nil {s : Store (Object Row)} {state : IcebergTableState}
    (h : rowsOf s state = []) {p : String} (hp : p ∈ allFilePaths state) : rowsAt s p = [] :=
  List.flatMap_eq_nil_iff.mp h p hp

theorem flatMap_rowsAt_eq_nil {s : Store (Object Row)} {paths : List String}
    (h : ∀ p ∈ paths, rowsAt s p = []) : paths.flatMap (rowsAt s) = [] :=
  List.flatMap_eq_nil_iff.mpr h

section Compaction
variable {size : Object Row → ℕ} {P : Parquet Row} {metadata : Value} {path : Path}
  {files : Int64 → List DataFileInfo} {targetFileSizeMb : UInt64} {schema : ArrowSchema}
  {datePart : String} {nowMs : Int64} {faults faults' : Faults} {s s' : Store (Object Row)}
  {result : CompactionResult}

/-- A successful compaction keeps the content of the table exactly when the files it read
hold no rows: the new snapshot has the old one for its parent and counts the rewritten rows
once more. Here the reloaded snapshots may carry any data files, of the old snapshots or of
the new one, and none as the loader has it. -/
theorem sameContent_compactTable_iff
    (hrun : run size (compactTable P (recordedState metadata path files) targetFileSizeMb schema
      datePart nowMs) faults s = ⟨.ok result, s', faults'⟩)
    (hid : FreshId (recordedState metadata path files) nowMs)
    (hfit : (rowsOf s (recordedState metadata path files)).length < 2 ^ 64) :
    ∃ newFiles doc,
      s'.lookup (manifestKey (recordedState metadata path files) nowMs) =
        some (.json (manifestList (recordedState metadata path files).location newFiles nowMs)) ∧
      (run size (loadTableState result.metadataPath) noFaults s').result =
        .ok (stateOf doc result.metadataPath) ∧
      ∀ g : Int64 → List DataFileInfo,
        (∀ id, ∀ df ∈ g id, df ∈ newFiles ∨
          ∃ snap ∈ (recordedState metadata path files).snapshots, df ∈ snap.dataFiles) →
        (SameContent s s' (recordedState metadata path files)
            (recordedState doc result.metadataPath g) ↔
          rowsOf s (recordedState metadata path files) = []) := by
  obtain ⟨hpaths, newFiles, s₁, doc, htotal, hadds, hholds, hdoc, hresult, hstore⟩ :=
    compactTable_ok hrun
  have hne : (recordedState metadata path files).snapshots ≠ [] := by
    intro hnil
    exact hpaths (by unfold allFilePaths; rw [hnil]; rfl)
  have hkeys : manifestKey (recordedState metadata path files) nowMs ≠
      Path.ofText result.metadataPath := by
    rw [hresult]
    exact manifestKey_ne _ _ _ _
  refine ⟨newFiles, doc, ?_, ?_, fun g hg => ?_⟩
  · rw [hstore, AList.lookup_insert_ne hkeys, AList.lookup_insert]
  · have hlook : s'.found (Path.ofText result.metadataPath) = .ok (.json doc) := by
      rw [Store.found_eq_ok, hstore, AList.lookup_insert]
    rw [run_loadTableState, hlook]
    rfl
  · constructor
    · intro hsame
      have htotals := hsame.totalRecords
      rw [prevTotal_appended hdoc _ g hne hid, htotal] at htotals
      have hzero : UInt64.ofNat (rowsOf s (recordedState metadata path files)).length = 0 := by
        simpa using htotals
      have hlength := congrArg UInt64.toNat hzero
      rw [UInt64.toNat_ofNat_of_lt' hfit] at hlength
      exact List.length_eq_zero_iff.mp hlength
    · intro hrows
      -- No path that either walk collects holds a row, before or after.
      have hbefore : ∀ p ∈ allFilePaths (recordedState metadata path files), rowsAt s p = [] :=
        fun p hp => rowsAt_of_rowsOf_eq_nil hrows hp
      have hafter : ∀ p ∈ allFilePaths (recordedState doc result.metadataPath g),
          rowsAt s' p = [] := by
        intro p hp
        have hs₁ : rowsAt s₁ p ⊆ rowsOf s (recordedState metadata path files) := by
          obtain ⟨snap, hsnap, df, hdf, rfl⟩ := mem_allFilePaths.mp hp
          obtain ⟨loaded, -, rfl⟩ := List.mem_map.mp hsnap
          rcases hg _ df hdf with hnew | ⟨old, hold, hmem⟩
          · exact (hholds df hnew).rowsAt_subset
          · have hpath := mem_allFilePaths.mpr ⟨old, hold, df, hmem, rfl⟩
            exact hadds.rowsAt_subset (by rw [hbefore _ hpath]; exact List.nil_subset _)
        rw [hstore, ← List.subset_nil, ← hrows]
        exact fun row hrow => hs₁ (rowsAt_insert_json _ _ _ _ (rowsAt_insert_json _ _ _ _ hrow))
      refine ⟨fun paths hcollects => ?_, ?_⟩
      · obtain ⟨fuel, hfuel⟩ := hcollects
        obtain ⟨paths', hpaths'⟩ := collects_appended hdoc result.metadataPath g hne hid
          ⟨fuel, hfuel⟩
        obtain ⟨fuel', hfuel'⟩ := hpaths'
        refine ⟨paths', ⟨fuel', ?_⟩, ?_⟩
        · rw [attach_currentSnapshotId, current_appended hdoc]
          exact hfuel'
        · rw [flatMap_rowsAt_eq_nil fun p hp => hafter p (mem_of_getDataFiles hfuel' hp),
            flatMap_rowsAt_eq_nil fun p hp => hbefore p (mem_of_getDataFiles hfuel hp)]
      · rw [prevTotal_appended hdoc _ g hne hid, htotal, hrows]
        simp

end Compaction

section Orders

def ordersParquet : Parquet ℕ where
  encode _ batches := .ok (100 * batches.flatten.length)
  batches rows := [rows]
  flatten_batches rows := by simp
  invalid := "Invalid Parquet file. Corrupt footer"

def ordersSchema : ArrowSchema := [⟨"id", .int64, false⟩]

private def ordersMetadata : Value :=
  initialMetadata "s3://lake/orders" ordersSchema [⟨"orders/part-0.parquet", 300, 3⟩] "c5b1" 1000

private def ordersFiles : Int64 → List DataFileInfo :=
  fun id => if id = 1000 then [⟨"orders/part-0.parquet", 300, 3⟩] else []

/-- A table of one snapshot and one data file of three rows. -/
def ordersRecorded : IcebergTableState :=
  recordedState ordersMetadata "orders/metadata/v1.metadata.json" ordersFiles

def ordersData : Store (Object ℕ) :=
  (∅ : Store (Object ℕ)).insert "orders/part-0.parquet" (.parquet [1, 2, 3] 300)

/-- Compacting the table into files of a size of at least 128 MiB. -/
def ordersCompaction : Outcome (Object ℕ) CompactionResult :=
  run (fun _ => 0) (compactTable ordersParquet ordersRecorded 128 ordersSchema "2024-05-01" 2000)
    noFaults ordersData

private def ordersCompacted : DataFileInfo :=
  ⟨"orders/2024-05-01/compacted-0001.parquet", 300, 3⟩

private def ordersCompactedMetadata : Value :=
  (appendedMetadata ordersRecorded [ordersCompacted] ordersSchema "replace" 2000).getD .null

/-- The table after it, with the data files of both snapshots. -/
def ordersAfter : IcebergTableState :=
  recordedState ordersCompactedMetadata "orders/metadata/v2.metadata.json"
    (fun id => if id = 2000 then [ordersCompacted] else ordersFiles id)

private theorem ordersCompaction_result : ordersCompaction.result =
    .ok ⟨1, 1, 3, "orders/metadata/v2.metadata.json"⟩ := by rfl

private theorem freshId_ordersRecorded : FreshId ordersRecorded 2000 := by
  refine ⟨by decide +kernel, fun snap hsnap => ?_⟩
  obtain ⟨loaded, hloaded, rfl⟩ := List.mem_map.mp hsnap
  rw [List.mem_singleton.mp hloaded]
  decide +kernel

private theorem ordersCompaction_eq :
    run (fun _ => 0) (compactTable ordersParquet (recordedState ordersMetadata
      "orders/metadata/v1.metadata.json" ordersFiles) 128 ordersSchema "2024-05-01" 2000)
        noFaults ordersData =
      ⟨.ok ⟨1, 1, 3, "orders/metadata/v2.metadata.json"⟩, ordersCompaction.store,
        ordersCompaction.faults⟩ := by
  change ordersCompaction = _
  rw [← ordersCompaction_result]

private theorem rowsOf_ordersRecorded_fits :
    (rowsOf ordersData ordersRecorded).length < 2 ^ 64 := by decide +kernel

theorem sameContent_compactTable_iff_orders :
    ∃ newFiles doc,
      ordersCompaction.store.lookup (manifestKey ordersRecorded 2000) =
        some (.json (manifestList ordersRecorded.location newFiles 2000)) ∧
      (run (fun _ => 0) (loadTableState "orders/metadata/v2.metadata.json") noFaults
        ordersCompaction.store).result =
        .ok (stateOf doc "orders/metadata/v2.metadata.json") ∧
      ∀ g : Int64 → List DataFileInfo,
        (∀ id, ∀ df ∈ g id, df ∈ newFiles ∨
          ∃ snap ∈ ordersRecorded.snapshots, df ∈ snap.dataFiles) →
        (SameContent ordersData ordersCompaction.store ordersRecorded
            (recordedState doc "orders/metadata/v2.metadata.json" g) ↔
          rowsOf ordersData ordersRecorded = []) := by
  have h := sameContent_compactTable_iff ordersCompaction_eq freshId_ordersRecorded
    rowsOf_ordersRecorded_fits
  dsimp only at h
  exact h

/-- Compacting one file of three rows: the new current snapshot reaches six rows and counts
six records. -/
theorem not_sameContent_orders :
    ordersCompaction.result = .ok ⟨1, 1, 3, "orders/metadata/v2.metadata.json"⟩ ∧
    ordersCompaction.store.lookup "orders/metadata/v2.metadata.json" =
      some (.json ordersAfter.metadata) ∧
    ((getDataFilesForSnapshot ordersRecorded 2 ordersRecorded.currentSnapshotId).map
      (·.flatMap (rowsAt ordersData))) = some [1, 2, 3] ∧
    ((getDataFilesForSnapshot ordersAfter 3 ordersAfter.currentSnapshotId).map
      (·.flatMap (rowsAt ordersCompaction.store))) = some [1, 2, 3, 1, 2, 3] ∧
    ¬ SameContent ordersData ordersCompaction.store ordersRecorded ordersAfter := by
  refine ⟨ordersCompaction_result, by rfl, by decide +kernel, by decide +kernel, fun h => ?_⟩
  exact absurd h.totalRecords (by decide +kernel)

end Orders
end RustLake.Iceberg
