import RustLake.Iceberg.TimeTravel

/-! Reloading a table: of the snapshots that a run of commits retains, what the loader finds in the
metadata and what it leaves in the manifest lists. -/
namespace RustLake.Iceberg
open RustLake.Json RustLake.ObjectStore RustLake.Text

/-- The summary of a snapshot as its commit hands it over. -/
def summaryOf (operation : String) (prevRecords prevFiles prevSize : UInt64)
    (files : List DataFileInfo) : List (String × String) := [
  ("operation", operation),
  ("total-records", toString (prevRecords + totalRecords files)),
  ("total-data-files", toString (prevFiles + fileCount files)),
  ("total-files-size", toString (prevSize + totalSize files)),
  ("added-records", toString (totalRecords files)),
  ("added-data-files", toString files.length),
  ("added-files-size", toString (totalSize files))]

/-- The snapshot that a creation makes of its data files. -/
def createdSnapshot (location : String) (files : List DataFileInfo) (nowMs : Int64) :
    SnapshotInfo where
  snapshotId := nowMs
  parentSnapshotId := none
  timestampMs := nowMs
  operation := "append"
  summary := summaryOf "append" 0 0 0 files
  manifestListPath := location ++ "/metadata/" ++ manifestListName nowMs
  dataFiles := files

/-- The one that an append makes of its data files on a table. -/
def appendedSnapshot (state : IcebergTableState) (files : List DataFileInfo) (operation : String)
    (nowMs : Int64) : SnapshotInfo where
  snapshotId := nowMs
  parentSnapshotId := state.currentSnapshotId
  timestampMs := nowMs
  operation := operation
  summary := summaryOf operation (prevTotal state "total-records")
    (prevTotal state "total-data-files") (prevTotal state "total-files-size") files
  manifestListPath := state.location ++ "/metadata/" ++ manifestListName nowMs
  dataFiles := files

/-- What a commit on a table makes of the snapshots retained so far. -/
def Commit.retain (tablePrefix : String) (state : IcebergTableState)
    (snaps : List SnapshotInfo) : Commit → List SnapshotInfo
  | .create _ files _ bucket nowMs =>
    [createdSnapshot ("s3://" ++ bucket ++ "/" ++ tablePrefix) files nowMs]
  | .append files _ operation nowMs => snaps ++ [appendedSnapshot state files operation nowMs]
  | .evolveSchema _ _ => snaps
  | .evolvePartition _ _ => snaps
  | .expire olderThanMs retainLastN _ =>
    let expiredIds := (expiredSnapshots state olderThanMs retainLastN).map (·.snapshotId)
    snaps.filter fun snap => !expiredIds.contains snap.snapshotId

/-- The snapshots that a run retains, each as it was committed. -/
def retained (tablePrefix : String) : List (Commit × IcebergTableState) → List SnapshotInfo
  | [] => []
  | [(c, made)] => c.retain tablePrefix made []
  | (c, _) :: (last, state) :: trace =>
    c.retain tablePrefix state (retained tablePrefix ((last, state) :: trace))

/-- The snapshot without its data files. -/
def SnapshotInfo.withoutFiles (snap : SnapshotInfo) : SnapshotInfo := { snap with dataFiles := [] }

@[simp] theorem withoutFiles_snapshotId (snap : SnapshotInfo) :
    snap.withoutFiles.snapshotId = snap.snapshotId := rfl

/-- A summary reads back as the pairs it was made of. -/
theorem parseSummary_snapshotSummary {s : Value} {operation : String}
    {prevRecords prevFiles prevSize : UInt64} {files : List DataFileInfo}
    (h : s.get "summary" = some (snapshotSummary operation prevRecords prevFiles prevSize files)) :
    parseSummary s = summaryOf operation prevRecords prevFiles prevSize files := by
  unfold parseSummary
  rw [h]
  rfl

/-- The entry of an append reads back as its snapshot, but for the data files. -/
theorem parseSnapshot_snapshotEntry (state : IcebergTableState) (files : List DataFileInfo)
    (operation : String) (nowMs : Int64) :
    parseSnapshot (snapshotEntry state files operation nowMs) =
      (appendedSnapshot state files operation nowMs).withoutFiles := by
  have hsummary : parseSummary (snapshotEntry state files operation nowMs) =
      (appendedSnapshot state files operation nowMs).summary := parseSummary_snapshotSummary rfl
  have hoperation : (parseSnapshot (snapshotEntry state files operation nowMs)).operation =
      operation := by
    simp only [parseSnapshot, hsummary]
    rfl
  have hid := parseSnapshot_snapshotId state files operation nowMs
  have hparent := parseSnapshot_parentSnapshotId state files operation nowMs
  have htime := parseSnapshot_timestampMs state files operation nowMs
  have hpath := parseSnapshot_manifestListPath state files operation nowMs
  rw [SnapshotInfo.mk.injEq]
  exact ⟨hid, hparent, htime, hoperation, hsummary, hpath, rfl⟩

/-- So does the one of a creation. -/
theorem parseSnapshots_created (location : String) (schema : ArrowSchema)
    (files : List DataFileInfo) (tableUuid : String) (nowMs : Int64) :
    parseSnapshots (initialMetadata location schema files tableUuid nowMs) =
      [(createdSnapshot location files nowMs).withoutFiles] := by
  have hnow : ((some (Value.ofI64 nowMs)).bind Value.asI64).getD 0 = nowMs := by
    rw [Option.bind_some, asI64_ofI64]
    rfl
  have hparse : parseSnapshots (initialMetadata location schema files tableUuid nowMs) =
      [⟨((some (Value.ofI64 nowMs)).bind Value.asI64).getD 0, none,
        ((some (Value.ofI64 nowMs)).bind Value.asI64).getD 0, "append",
        summaryOf "append" 0 0 0 files, location ++ "/metadata/" ++ manifestListName nowMs, []⟩] := rfl
  rw [hparse, hnow]
  rfl

section Runs
variable {tablePrefix : String} {allowed : List (Commit × IcebergTableState) → Commit → Prop}

/-- What a commit makes of a table that lists the snapshots retained so far. -/
theorem snapshots_made {c : Commit} {state made : IcebergTableState} {snaps : List SnapshotInfo}
    (h : c.Makes tablePrefix state made) (hstate : WellFormed state.metadata)
    (hloaded : ∃ path, state = stateOf state.metadata path) (hc : c.isCreate = false)
    (hsnaps : state.snapshots = snaps.map SnapshotInfo.withoutFiles) :
    made.snapshots = (c.retain tablePrefix state snaps).map SnapshotInfo.withoutFiles := by
  cases c with
  | create => cases hc
  | append files schema operation nowMs =>
    obtain ⟨doc, ⟨-, hdoc⟩, rfl⟩ := h.produces
    obtain ⟨path, hpath⟩ := hloaded
    have hold : parseSnapshots state.metadata = state.snapshots := by
      rw [hpath]
      rfl
    have hmade : parseSnapshots doc = state.snapshots ++
        [(appendedSnapshot state files operation nowMs).withoutFiles] := by
      rw [parseSnapshots_appendedMetadata hdoc (hstate _ (by decide)), hold, parseSnapshot_snapshotEntry]
    rw [Commit.retain, List.map_append, ← hsnaps]
    exact hmade
  | evolveSchema =>
    rw [Commit.retain, ← hsnaps]
    exact kept_snapshots h rfl hloaded
  | evolvePartition =>
    rw [Commit.retain, ← hsnaps]
    exact kept_snapshots h rfl hloaded
  | expire olderThanMs retainLastN nowMs =>
    have hkept := kept_snapshots h rfl hloaded
    dsimp only at hkept
    rw [hkept, hsnaps, List.filter_map]
    rfl

/-- In every run the reloaded table lists exactly the snapshots that the run retains, each with the
id, the parent, the time, the operation, the summary and the manifest list of its commit, and with
no data files. -/
theorem snapshots_eq_retained {trace : List (Commit × IcebergTableState)} {c : Commit}
    {state : IcebergTableState} (h : Trace tablePrefix allowed ((c, state) :: trace)) :
    state.snapshots =
      (retained tablePrefix ((c, state) :: trace)).map SnapshotInfo.withoutFiles := by
  generalize htrace : (c, state) :: trace = full at h
  induction h generalizing c state trace with
  | create hcreate hallowed hmakes =>
    obtain ⟨⟨rfl, rfl⟩, rfl⟩ := by simpa using htrace
    obtain ⟨doc, hdoc, rfl⟩ := hmakes.produces
    cases c with
    | create schema files tableUuid bucket nowMs =>
      obtain ⟨-, rfl⟩ := hdoc
      exact parseSnapshots_created _ schema files tableUuid nowMs
    | _ => cases hcreate
  | commit htrace' hc hallowed hmakes ih =>
    obtain ⟨⟨rfl, rfl⟩, rfl⟩ := by simpa using htrace
    obtain ⟨hstate, hloaded⟩ := htrace'.wellFormed List.mem_cons_self
    rw [retained]
    exact snapshots_made hmakes hstate hloaded hc (ih rfl)

theorem snapshots_eq_retained_ticks :
    ∃ state, Trace "orders" (Clocked Commit.addsSnapshot (· < ·))
        [(tickAppend 2000, state), (tickCreate, tickCreated)] ∧
      state.snapshots = (retained "orders" [(tickAppend 2000, state),
        (tickCreate, tickCreated)]).map SnapshotInfo.withoutFiles := by
  have hclock : (1000 : Int64) < 2000 := by decide
  obtain ⟨state, htrace⟩ := @exists_ticks (· < ·) _ hclock
  exact ⟨state, htrace, snapshots_eq_retained htrace⟩

/-- A new table is reloaded without the data file that it was created with. -/
theorem not_reloaded_ticks :
    Trace "orders" (Clocked Commit.addsSnapshot (· < ·)) [(tickCreate, tickCreated)] ∧
    (retained "orders" [(tickCreate, tickCreated)]).map (·.dataFiles) =
      [[⟨"orders/part-0.parquet", 900, 3⟩]] ∧
    tickCreated.snapshots.map (·.dataFiles) = [[]] ∧
    tickCreated.snapshots ≠ retained "orders" [(tickCreate, tickCreated)] := by
  have hcreate : tickCreate.Makes "orders" (stateOf .null "") tickCreated :=
    Commit.makes_of_produces ⟨by simp, rfl⟩
  have hfiles : (retained "orders" [(tickCreate, tickCreated)]).map (·.dataFiles) =
      [[⟨"orders/part-0.parquet", 900, 3⟩]] := rfl
  have hloaded : tickCreated.snapshots.map (·.dataFiles) = [[]] := rfl
  refine ⟨.create rfl ⟨rfl, by simp⟩ hcreate, hfiles, hloaded, ?_⟩
  intro heq
  rw [heq, hfiles] at hloaded
  cases hloaded

end Runs
end RustLake.Iceberg
