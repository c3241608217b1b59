import RustLake.Iceberg.Orphans
import RustLake.Sink.Manifests

/-! Compactions of one table, and the data files of earlier snapshots that they put anew. -/
namespace RustLake.Iceberg
open RustLake.Json RustLake.ObjectStore RustLake.Text RustLake.Sink

variable {Row : Type}

/-- A call of `compact_table`: the snapshots that existed before it, its day, whether it has
succeeded, and the keys that it has put. -/
structure CompactionCall where
  before : List SnapshotInfo
  day : String
  succeeded : Bool
  puts : List Path

/-- The snapshot that a compaction commits, with the data files of its manifest list. -/
def compactedSnapshot (state : IcebergTableState) (files : List DataFileInfo) (nowMs : Int64) :
    SnapshotInfo :=
  { parseSnapshot (snapshotEntry state files "replace" nowMs) with dataFiles := files }

section Calls
variable (size : Object Row → ℕ) (P : Parquet Row) (location : String) (start : List SnapshotInfo)

/-- Runs of compactions of one table, the latest call first, and the snapshots after them. Each
call has a state with snapshots that exist by then, and finds the store as others have left it. -/
inductive Compactions : List CompactionCall → List SnapshotInfo → Prop
  | start : Compactions [] start
  | failed {calls : List CompactionCall} {snapshots : List SnapshotInfo} {state : IcebergTableState}
      {targetFileSizeMb : UInt64} {schema : ArrowSchema} {now : DateTime} {nowMs : Int64}
      {faults faults' : Faults} {s s' : Store (Object Row)} {e : Failure} :
      Compactions calls snapshots → state.location = location → state.snapshots ⊆ snapshots →
      run size (compactTable P state targetFileSizeMb schema now.datePart nowMs) faults s =
        ⟨.error e, s', faults'⟩ →
      Compactions (⟨snapshots, now.datePart, false, (putLog size
        (compactTable P state targetFileSizeMb schema now.datePart nowMs) faults s).map Prod.fst⟩ ::
          calls) snapshots
  | succeeded {calls : List CompactionCall} {snapshots : List SnapshotInfo}
      {state : IcebergTableState} {targetFileSizeMb : UInt64} {schema : ArrowSchema}
      {now : DateTime} {nowMs : Int64} {faults faults' : Faults} {s s' : Store (Object Row)}
      {result : CompactionResult} {files : List DataFileInfo} :
      Compactions calls snapshots → state.location = location → state.snapshots ⊆ snapshots →
      run size (compactTable P state targetFileSizeMb schema now.datePart nowMs) faults s =
        ⟨.ok result, s', faults'⟩ →
      s'.lookup (manifestKey state nowMs) = some (.json (manifestList location files nowMs)) →
      Compactions (⟨snapshots, now.datePart, true, (putLog size
        (compactTable P state targetFileSizeMb schema now.datePart nowMs) faults s).map Prod.fst⟩ ::
          calls) (snapshots ++ [compactedSnapshot state files nowMs])

end Calls

/-- No call puts an object under the key of a data file of a snapshot that existed before it. -/
def KeepsDataFiles (calls : List CompactionCall) : Prop :=
  ∀ call ∈ calls, ∀ snap ∈ call.before, ∀ df ∈ snap.dataFiles, Path.ofText df.filePath ∉ call.puts

/-- No call is of the day of an earlier one that has succeeded. -/
def FreshDays (calls : List CompactionCall) : Prop :=
  calls.Pairwise fun later earlier => earlier.succeeded = true → later.day ≠ earlier.day

/-- The data files from before the calls have no names that calls of these days use. -/
def Apart (location : String) (start : List SnapshotInfo) (calls : List CompactionCall) : Prop :=
  ∀ snap ∈ start, ∀ df ∈ snap.dataFiles, ¬ ".json".toList <:+ (Path.ofText df.filePath).toList ∧
    ∀ call ∈ calls, ¬ CompactedKey (stripS3Prefix location) call.day (Path.ofText df.filePath)

theorem filePaths_of_manifestList {location : String} {files files' : List DataFileInfo}
    {snapshotId : Int64}
    (h : manifestList location files snapshotId = manifestList location files' snapshotId) :
    files.map (·.filePath) = files'.map (·.filePath) := by
  have hpaths := congrArg manifestPaths h
  rw [manifestPaths_manifestList, manifestPaths_manifestList] at hpaths
  have hinj : Function.Injective fun filePath : String => location ++ "/" ++ filePath :=
    fun a b hab => (String.append_right_inj _).mp hab
  apply List.map_injective_iff.mpr hinj
  rw [List.map_map, List.map_map]
  exact hpaths

theorem parquet_of_compactedKey {filePrefix : String} {now : DateTime} {key : Path}
    (h : CompactedKey filePrefix now.datePart key) : ".parquet".toList <:+ key.toList := by
  obtain ⟨fileCounter, rfl⟩ := h
  rw [ofText_datedFile filePrefix (isSegment_datePart now) (isSegment_compactedName fileCounter)]
  unfold Path.child compactedName
  split
  · simp only [String.toList_append]
    exact List.suffix_append_of_suffix (List.suffix_append _ _)
  · simp only [String.toList_append]
    exact List.suffix_append_of_suffix (List.suffix_append_of_suffix (List.suffix_append _ _))

theorem day_of_compactedKey {filePrefix : String} {now now' : DateTime} {key : Path}
    (h : CompactedKey filePrefix now.datePart key) (h' : CompactedKey filePrefix now'.datePart key) :
    now.datePart = now'.datePart := by
  obtain ⟨n, rfl⟩ := h
  obtain ⟨n', hkey⟩ := h'
  exact day_of_ofText_datedFile (isSegment_datePart now) (isSegment_datePart now')
    (isSegment_compactedName n) (isSegment_compactedName n') hkey

section Call
variable {size : Object Row → ℕ} {P : Parquet Row} {state : IcebergTableState}
  {targetFileSizeMb : UInt64} {schema : ArrowSchema} {now : DateTime} {nowMs : Int64}
  {faults faults' : Faults} {s s' : Store (Object Row)}

/-- A call puts the files of its day, and `.json` files. -/
theorem compacted_or_json_of_mem_puts {key : Path}
    (h : key ∈ (putLog size (compactTable P state targetFileSizeMb schema now.datePart nowMs) faults
      s).map Prod.fst) :
    CompactedKey (stripS3Prefix state.location) now.datePart key ∨ ".json".toList <:+ key.toList := by
  obtain ⟨⟨path, object⟩, hmem, rfl⟩ := List.mem_map.mp h
  have hputs := forall_mem_putLog size (puts_compactTable P state targetFileSizeMb schema
    now.datePart nowMs) _ hmem
  cases object with
  | parquet rows length => exact Or.inl hputs
  | json doc => exact Or.inr hputs
  | other length => exact hputs.elim

variable {result : CompactionResult} {files : List DataFileInfo}
  (hrun : run size (compactTable P state targetFileSizeMb schema now.datePart nowMs) faults s =
    ⟨.ok result, s', faults'⟩)
  (hlook : s'.lookup (manifestKey state nowMs) =
    some (.json (manifestList state.location files nowMs)))
include hrun hlook

theorem compactedKey_of_manifest : ∀ df ∈ files,
    CompactedKey (stripS3Prefix state.location) now.datePart (Path.ofText df.filePath) := by
  obtain ⟨written, -, hnames, -, hmanifest⟩ := compactTable_log hrun
  rw [hlook, Option.some.injEq, Object.json.injEq] at hmanifest
  intro df hdf
  have hpath : df.filePath ∈ written.map (·.filePath) := by
    rw [← filePaths_of_manifestList hmanifest]
    exact List.mem_map_of_mem hdf
  obtain ⟨df', hdf', hsame⟩ := List.mem_map.mp hpath
  obtain ⟨fileCounter, hname⟩ := hnames df' hdf'
  exact ⟨fileCounter, by rw [← hsame, hname]⟩

theorem first_of_manifest : ∃ df ∈ files, df.filePath =
    datedFile (stripS3Prefix state.location) now.datePart (compactedName 1) := by
  obtain ⟨written, -, -, ⟨first, hmem, hfirst⟩, hmanifest⟩ := compactTable_log hrun
  rw [hlook, Option.some.injEq, Object.json.injEq] at hmanifest
  have hpath : first.filePath ∈ files.map (·.filePath) := by
    rw [filePaths_of_manifestList hmanifest]
    exact List.mem_map_of_mem hmem
  obtain ⟨df, hdf, hsame⟩ := List.mem_map.mp hpath
  exact ⟨df, hdf, hsame.trans hfirst⟩

omit hlook in
theorem first_mem_puts :
    Path.ofText (datedFile (stripS3Prefix state.location) now.datePart (compactedName 1)) ∈
      (putLog size (compactTable P state targetFileSizeMb schema now.datePart nowMs) faults s).map
        Prod.fst := by
  obtain ⟨written, hkeys, -, ⟨first, hmem, hfirst⟩, -⟩ := compactTable_log hrun
  have hkey : Path.ofText first.filePath ∈ parquetKeys
      (putLog size (compactTable P state targetFileSizeMb schema now.datePart nowMs) faults s) := by
    rw [hkeys]
    exact List.mem_map_of_mem hmem
  obtain ⟨rows, length, hput⟩ := mem_parquetKeys.mp hkey
  rw [← hfirst]
  exact List.mem_map_of_mem hput

end Call

section Runs
variable {size : Object Row → ℕ} {P : Parquet Row} {location : String} {start : List SnapshotInfo}
  {calls : List CompactionCall} {snapshots : List SnapshotInfo}

/-- The rules cover every call, however it ends. -/
theorem Compactions.exists_call (h : Compactions size P location start calls snapshots)
    {state : IcebergTableState} (hloc : state.location = location)
    (hsub : state.snapshots ⊆ snapshots) (targetFileSizeMb : UInt64) (schema : ArrowSchema)
    (now : DateTime) (nowMs : Int64) (faults : Faults) (s : Store (Object Row)) :
    ∃ succeeded snapshots', Compactions size P location start (⟨snapshots, now.datePart, succeeded,
      (putLog size (compactTable P state targetFileSizeMb schema now.datePart nowMs) faults s).map
        Prod.fst⟩ :: calls) snapshots' := by
  cases hrun : run size (compactTable P state targetFileSizeMb schema now.datePart nowMs) faults s with
  | mk result s' faults' =>
    cases result with
    | error e => exact ⟨_, _, .failed h hloc hsub hrun⟩
    | ok result =>
      obtain ⟨files, -, -, -, hlook⟩ := compactTable_log hrun
      rw [hloc] at hlook
      exact ⟨_, _, .succeeded h hloc hsub hrun hlook⟩

/-- Snapshots are from before the calls, or have files of the day of a call that has succeeded. -/
theorem Compactions.names (h : Compactions size P location start calls snapshots) :
    ∀ snap ∈ snapshots, snap ∈ start ∨ ∃ call ∈ calls, call.succeeded = true ∧
      ∃ now : DateTime, call.day = now.datePart ∧ ∀ df ∈ snap.dataFiles,
        CompactedKey (stripS3Prefix location) now.datePart (Path.ofText df.filePath) := by
  induction h with
  | start => exact fun snap hsnap => Or.inl hsnap
  | failed _ _ _ _ ih =>
    intro snap hsnap
    rcases ih snap hsnap with hstart | ⟨call, hcall, hrest⟩
    · exact Or.inl hstart
    · exact Or.inr ⟨call, List.mem_cons_of_mem _ hcall, hrest⟩
  | @succeeded _ _ _ _ _ now _ _ _ _ _ _ _ _ hloc _ hrun hlook ih =>
    subst hloc
    intro snap hsnap
    rcases List.mem_append.mp hsnap with hold | hnew
    · rcases ih snap hold with hstart | ⟨call, hcall, hrest⟩
      · exact Or.inl hstart
      · exact Or.inr ⟨call, List.mem_cons_of_mem _ hcall, hrest⟩
    · rw [List.mem_singleton.mp hnew]
      exact Or.inr ⟨_, List.mem_cons_self, rfl, now, rfl, compactedKey_of_manifest hrun hlook⟩

/-- Each call that has succeeded has left a snapshot with the first file of its day. -/
theorem Compactions.first (h : Compactions size P location start calls snapshots) :
    ∀ call ∈ calls, call.succeeded = true → ∃ snap ∈ snapshots, ∃ df ∈ snap.dataFiles,
      df.filePath = datedFile (stripS3Prefix location) call.day (compactedName 1) := by
  induction h with
  | start => exact fun call hcall => absurd hcall List.not_mem_nil
  | failed _ _ _ _ ih =>
    intro call hcall hsucceeded
    rcases List.mem_cons.mp hcall with rfl | hearlier
    · cases hsucceeded
    · exact ih call hearlier hsucceeded
  | succeeded _ hloc _ hrun hlook ih =>
    subst hloc
    intro call hcall hsucceeded
    rcases List.mem_cons.mp hcall with rfl | hearlier
    · exact ⟨_, List.mem_append_right _ (List.mem_singleton_self _), first_of_manifest hrun hlook⟩
    · obtain ⟨snap, hsnap, hfirst⟩ := ih call hearlier hsucceeded
      exact ⟨snap, List.mem_append_left _ hsnap, hfirst⟩

/-- A call of a day of its own puts none of the files that were there before. -/
theorem Compactions.notMem_puts (h : Compactions size P location start calls snapshots)
    {call : CompactionCall} {now : DateTime} (hday : call.day = now.datePart)
    (hputs : ∀ key ∈ call.puts, CompactedKey (stripS3Prefix location) now.datePart key ∨
      ".json".toList <:+ key.toList)
    (hstart : Apart location start (call :: calls))
    (hfresh : ∀ earlier ∈ calls, earlier.succeeded = true → call.day ≠ earlier.day) :
    ∀ snap ∈ snapshots, ∀ df ∈ snap.dataFiles, Path.ofText df.filePath ∉ call.puts := by
  intro snap hsnap df hdf hmem
  rcases h.names snap hsnap with hold | ⟨earlier, hearlier, hsucceeded, then', hthen, hfiles⟩
  · obtain ⟨hjson, hnames⟩ := hstart snap hold df hdf
    rcases hputs _ hmem with hkey | hsuffix
    · have hnot := hnames call List.mem_cons_self
      rw [hday] at hnot
      exact hnot hkey
    · exact hjson hsuffix
  · have hkey := hfiles df hdf
    rcases hputs _ hmem with hkey' | hsuffix
    · apply hfresh earlier hearlier hsucceeded
      rw [hday, hthen]
      exact day_of_compactedKey hkey' hkey
    · exact not_json_of_parquet (parquet_of_compactedKey hkey) hsuffix

theorem Apart.tail {call : CompactionCall} (h : Apart location start (call :: calls)) :
    Apart location start calls := by
  intro snap hsnap df hdf
  obtain ⟨hjson, hnames⟩ := h snap hsnap df hdf
  exact ⟨hjson, fun call hcall => hnames call (List.mem_cons_of_mem _ hcall)⟩

theorem keepsDataFiles_cons {call : CompactionCall} : KeepsDataFiles (call :: calls) ↔
    (∀ snap ∈ call.before, ∀ df ∈ snap.dataFiles, Path.ofText df.filePath ∉ call.puts) ∧
      KeepsDataFiles calls := List.forall_mem_cons

theorem Compactions.keepsDataFiles (h : Compactions size P location start calls snapshots)
    (hstart : Apart location start calls) (hdays : FreshDays calls) : KeepsDataFiles calls := by
  induction h with
  | start => exact fun call hcall => absurd hcall List.not_mem_nil
  | failed hcalls hloc _ _ ih =>
    subst hloc
    obtain ⟨hfresh, hearlier⟩ := List.pairwise_cons.mp hdays
    refine keepsDataFiles_cons.mpr ⟨?_, ih hstart.tail hearlier⟩
    exact hcalls.notMem_puts rfl (fun key hkey => compacted_or_json_of_mem_puts hkey) hstart hfresh
  | succeeded hcalls hloc _ _ _ ih =>
    subst hloc
    obtain ⟨hfresh, hearlier⟩ := List.pairwise_cons.mp hdays
    refine keepsDataFiles_cons.mpr ⟨?_, ih hstart.tail hearlier⟩
    exact hcalls.notMem_puts rfl (fun key hkey => compacted_or_json_of_mem_puts hkey) hstart hfresh

/-- A second success on a day puts the first file of the day again. -/
theorem Compactions.freshDays (h : Compactions size P location start calls snapshots)
    (hall : ∀ call ∈ calls, call.succeeded = true) (hkeeps : KeepsDataFiles calls) :
    FreshDays calls := by
  induction h with
  | start => exact List.Pairwise.nil
  | failed =>
    have hcontra := hall _ List.mem_cons_self
    cases hcontra
  | succeeded hcalls hloc _ hrun hlook ih =>
    subst hloc
    obtain ⟨hhere, hearlier⟩ := keepsDataFiles_cons.mp hkeeps
    refine List.pairwise_cons.mpr ⟨fun earlier hmem hsucceeded hday => ?_,
      ih (fun call hcall => hall call (List.mem_cons_of_mem _ hcall)) hearlier⟩
    obtain ⟨snap, hsnap, df, hdf, hfirst⟩ := hcalls.first earlier hmem hsucceeded
    apply hhere snap hsnap df hdf
    rw [hfirst, ← hday]
    exact first_mem_puts hrun

/-- Compactions keep the data files of all snapshots that were there before when none is of the day
of an earlier success; and where all succeed, only then. -/
theorem keepsDataFiles_of_freshDays (h : Compactions size P location start calls snapshots) :
    (Apart location start calls ∧ FreshDays calls → KeepsDataFiles calls) ∧
      ((∀ call ∈ calls, call.succeeded = true) → KeepsDataFiles calls → FreshDays calls) :=
  ⟨fun hcond => h.keepsDataFiles hcond.1 hcond.2, h.freshDays⟩

end Runs

section Orders

/-- Compacting the table at a time. -/
def ordersCompactAt (now : DateTime) : Program (Object ℕ) CompactionResult :=
  compactTable ordersParquet ordersRecorded 128 ordersSchema now.datePart 2000

/-- Compacting it again after the first compaction. -/
def ordersRecompactAt (now : DateTime) : Program (Object ℕ) CompactionResult :=
  compactTable ordersParquet ordersAfter 128 ordersSchema now.datePart 3000

def ordersSnapshots : List SnapshotInfo := ordersRecorded.snapshots ++
  [compactedSnapshot ordersRecorded [⟨"orders/2024-05-01/compacted-0001.parquet", 300, 3⟩] 2000]

def ordersKeys (p : Program (Object ℕ) CompactionResult) (s : Store (Object ℕ)) : List Path :=
  (putLog (fun _ => 0) p noFaults s).map Prod.fst

/-- A compaction on 2024-05-01 and then one at another time. -/
def ordersCalls (now : DateTime) : List CompactionCall :=
  [⟨ordersSnapshots, now.datePart, true, ordersKeys (ordersRecompactAt now) ordersCompaction.store⟩,
    ⟨ordersRecorded.snapshots, ordersNow.datePart, true, ordersKeys (ordersCompactAt ordersNow)
      ordersData⟩]

theorem compactions_ordersCompactAt : Compactions (fun _ => 0) ordersParquet "s3://lake/orders"
    ordersRecorded.snapshots [⟨ordersRecorded.snapshots, ordersNow.datePart, true,
      ordersKeys (ordersCompactAt ordersNow) ordersData⟩] ordersSnapshots := by
  have hrun : (run (fun _ => 0) (ordersCompactAt ordersNow) noFaults ordersData).result =
      .ok ⟨1, 1, 3, "orders/metadata/v2.metadata.json"⟩ := by rfl
  have hlook : (run (fun _ => 0) (ordersCompactAt ordersNow) noFaults ordersData).store.lookup
      (manifestKey ordersRecorded 2000) = some (.json (manifestList "s3://lake/orders"
        [⟨"orders/2024-05-01/compacted-0001.parquet", 300, 3⟩] 2000)) := by rfl
  exact .succeeded .start rfl (List.Subset.refl _) (run_eq_of_result _ hrun) hlook

theorem subset_ordersSnapshots : ordersAfter.snapshots ⊆ ordersSnapshots := by decide +kernel

def ordersTomorrow : DateTime := ⟨2024, 5, 2, 7, 8, 9⟩

theorem not_compactedKey_part (now : DateTime) :
    ¬ CompactedKey "orders" now.datePart "orders/part-0.parquet" := by
  rintro ⟨fileCounter, hkey⟩
  have hdir : Path.ofText "orders" = "orders" := by decide
  rw [ofText_datedFile "orders" (isSegment_datePart now) (isSegment_compactedName fileCounter),
    hdir] at hkey
  have hcount := congrArg (fun key : String => key.toList.count '/') hkey
  have hone : "orders/part-0.parquet".toList.count '/' = 1 := by decide
  have hzero : "orders".toList.count '/' = 0 := by decide
  unfold Path.child at hcount
  rw [if_neg (by decide)] at hcount
  simp only [count_append, count_slash, hone, hzero] at hcount
  omega

theorem apart_orders (now : DateTime) :
    Apart "s3://lake/orders" ordersRecorded.snapshots (ordersCalls now) := by
  have hpath : ∀ snap ∈ ordersRecorded.snapshots, ∀ df ∈ snap.dataFiles,
      Path.ofText df.filePath = "orders/part-0.parquet" := by decide +kernel
  have hdir : stripS3Prefix "s3://lake/orders" = "orders" := by decide
  intro snap hsnap df hdf
  rw [hpath snap hsnap df hdf, hdir]
  refine ⟨by decide, fun call hcall => ?_⟩
  rcases List.mem_pair.mp hcall with rfl | rfl
  · exact not_compactedKey_part now
  · exact not_compactedKey_part ordersNow

theorem keepsDataFiles_of_freshDays_orders : KeepsDataFiles (ordersCalls ordersTomorrow) := by
  have hrun : (run (fun _ => 0) (ordersRecompactAt ordersTomorrow) noFaults
      ordersCompaction.store).result = .ok ⟨2, 1, 6, "orders/metadata/v3.metadata.json"⟩ := by rfl
  have hlook : (run (fun _ => 0) (ordersRecompactAt ordersTomorrow) noFaults
      ordersCompaction.store).store.lookup (manifestKey ordersAfter 3000) =
        some (.json (manifestList "s3://lake/orders"
          [⟨"orders/2024-05-02/compacted-0001.parquet", 600, 6⟩] 3000)) := by rfl
  have hcalls : Compactions (fun _ => 0) ordersParquet "s3://lake/orders" ordersRecorded.snapshots
      (ordersCalls ordersTomorrow) _ :=
    .succeeded compactions_ordersCompactAt rfl subset_ordersSnapshots (run_eq_of_result _ hrun) hlook
  have hdays : FreshDays (ordersCalls ordersTomorrow) := by
    unfold FreshDays
    decide
  exact (keepsDataFiles_of_freshDays hcalls).1 ⟨apart_orders ordersTomorrow, hdays⟩

/-- Two compactions on one day: the second puts the file that the snapshot of the first one
names, with other rows. -/
theorem not_keepsDataFiles_orders :
    (∃ snapshots, Compactions (fun _ => 0) ordersParquet "s3://lake/orders" ordersRecorded.snapshots
      (ordersCalls ordersNow) snapshots) ∧
    rowsAt ordersCompaction.store "orders/2024-05-01/compacted-0001.parquet" = [1, 2, 3] ∧
    rowsAt (run (fun _ => 0) (ordersRecompactAt ordersNow) noFaults ordersCompaction.store).store
      "orders/2024-05-01/compacted-0001.parquet" = [1, 2, 3, 1, 2, 3] ∧
    ¬ KeepsDataFiles (ordersCalls ordersNow) := by
  have hrun : (run (fun _ => 0) (ordersRecompactAt ordersNow) noFaults
      ordersCompaction.store).result = .ok ⟨2, 1, 6, "orders/metadata/v3.metadata.json"⟩ := by rfl
  have hlook : (run (fun _ => 0) (ordersRecompactAt ordersNow) noFaults
      ordersCompaction.store).store.lookup (manifestKey ordersAfter 3000) =
        some (.json (manifestList "s3://lake/orders"
          [⟨"orders/2024-05-01/compacted-0001.parquet", 600, 6⟩] 3000)) := by rfl
  refine ⟨⟨_, .succeeded compactions_ordersCompactAt rfl subset_ordersSnapshots
    (run_eq_of_result _ hrun) hlook⟩, by decide +kernel, by decide +kernel, ?_⟩
  unfold KeepsDataFiles
  decide +kernel

end Orders
end RustLake.Iceberg
