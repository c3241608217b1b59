import RustLake.Iceberg.Content
import RustLake.Iceberg.Resolve

/-! What an expiry leaves of a table: whether its pointers still resolve, how many snapshots
remain, and whether readers of a retained snapshot still reach the same data files. -/
namespace RustLake.Iceberg
open RustLake.Json RustLake.ObjectStore RustLake.Text

/-- The snapshots from an id along the parent links, up to one that the table does not list. -/
inductive ParentChain (state : IcebergTableState) : Option Int64 → List SnapshotInfo → Prop
  | root : ParentChain state none []
  | missing {id : Int64} : state.snapshot? id = none → ParentChain state (some id) []
  | step {id : Int64} {snap : SnapshotInfo} {rest : List SnapshotInfo} :
      state.snapshot? id = some snap → ParentChain state snap.parentSnapshotId rest →
      ParentChain state (some id) (snap :: rest)

/-- The snapshot that the main branch points at. -/
def mainTarget (metadata : Value) : Option Int64 := do
  let refs ← metadata.get "refs"
  let main ← refs.get "main"
  let id ← main.get "snapshot-id"
  id.asI64

/-- What an expiry and a reload should keep: the current snapshot and the target of the main
branch, the number of snapshots to retain, and the data files of each retained snapshot. -/
structure KeepsRetained (before after : IcebergTableState) (retainLastN : ℕ) : Prop where
  current : ∀ id, before.currentSnapshotId = some id → after.currentSnapshotId = some id ∧
    ((before.snapshot? id).isSome → (after.snapshot? id).isSome)
  main : ∀ id, mainTarget before.metadata = some id → mainTarget after.metadata = some id ∧
    ((before.snapshot? id).isSome → (after.snapshot? id).isSome)
  count : min retainLastN before.snapshots.length ≤ after.snapshots.length
  files : ∀ snap ∈ after.snapshots, ∀ paths, Collects before (some snap.snapshotId) paths →
    Collects after (some snap.snapshotId) paths

/-- The snapshot is older than the bound, and enough snapshots come after it in time order. -/
def Superseded (state : IcebergTableState) (olderThanMs : Int64) (retainLastN : ℕ)
    (snap : SnapshotInfo) : Prop :=
  snap.timestampMs < olderThanMs ∧ ∃ earlier later,
    state.snapshots.insertionSort (·.timestampMs ≤ ·.timestampMs) = earlier ++ snap :: later ∧
      retainLastN ≤ later.length

/-- The id is the one of a superseded snapshot. -/
def SupersededId (state : IcebergTableState) (olderThanMs : Int64) (retainLastN : ℕ)
    (id : Int64) : Prop :=
  ∃ snap, Superseded state olderThanMs retainLastN snap ∧ snap.snapshotId = id

/-- No pointer names a superseded snapshot, not too many snapshots share ids with them, and no
chain of another snapshot comes through one of them to data files. -/
structure RetainedApart (state : IcebergTableState) (olderThanMs : Int64) (retainLastN : ℕ) :
    Prop where
  current : ∀ id, state.currentSnapshotId = some id →
    ¬ SupersededId state olderThanMs retainLastN id
  main : ∀ id, mainTarget state.metadata = some id →
    ¬ SupersededId state olderThanMs retainLastN id
  count : ∀ removed : List SnapshotInfo, removed.Sublist state.snapshots →
    (∀ snap ∈ removed, SupersededId state olderThanMs retainLastN snap.snapshotId) →
    removed.length + min retainLastN state.snapshots.length ≤ state.snapshots.length
  chains : ∀ snap ∈ state.snapshots, ¬ SupersededId state olderThanMs retainLastN snap.snapshotId →
    ∀ kept old lost, ParentChain state (some snap.snapshotId) (kept ++ old :: lost) →
      SupersededId state olderThanMs retainLastN old.snapshotId →
      ∀ other ∈ old :: lost, other.dataFiles = []

section Chain
variable {state before after : IcebergTableState}

theorem ParentChain.unique {id : Option Int64} {chain chain' : List SnapshotInfo}
    (h : ParentChain state id chain) (h' : ParentChain state id chain') : chain = chain' := by
  induction h generalizing chain' with
  | root =>
    cases h'
    rfl
  | missing hnone =>
    cases h' with
    | missing => rfl
    | step hsome => rw [hnone] at hsome; cases hsome
  | step hsome hrest ih =>
    cases h' with
    | missing hnone => rw [hnone] at hsome; cases hsome
    | step hsome' hrest' =>
      obtain rfl := Option.some.inj (hsome.symm.trans hsome')
      rw [ih hrest']

/-- The data file paths that a chain carries. -/
def chainPaths (chain : List SnapshotInfo) : List String :=
  chain.flatMap fun snap => snap.dataFiles.map (·.filePath)

/-- A walk along the parents collects the paths of a chain that ends. -/
theorem collects_iff {id : Option Int64} {paths : List String} :
    Collects state id paths ↔ ∃ chain, ParentChain state id chain ∧ chainPaths chain = paths := by
  constructor
  · rintro ⟨fuel, h⟩
    induction fuel generalizing id paths with
    | zero =>
      cases id with
      | none =>
        cases h
        exact ⟨[], .root, rfl⟩
      | some id => cases h
    | succ fuel ih =>
      cases id with
      | none =>
        cases h
        exact ⟨[], .root, rfl⟩
      | some id =>
        rw [getDataFilesForSnapshot] at h
        cases hsnap : state.snapshot? id with
        | none =>
          rw [hsnap] at h
          cases h
          exact ⟨[], .missing hsnap, rfl⟩
        | some snap =>
          rw [hsnap] at h
          obtain ⟨later, hlater, rfl⟩ := Option.map_eq_some_iff.mp h
          obtain ⟨chain, hchain, rfl⟩ := ih hlater
          exact ⟨snap :: chain, .step hsnap hchain, rfl⟩
  · rintro ⟨chain, h, rfl⟩
    induction h with
    | root => exact ⟨0, rfl⟩
    | missing hnone => exact ⟨1, by rw [getDataFilesForSnapshot, hnone]; rfl⟩
    | step hsome hrest ih =>
      obtain ⟨fuel, hfuel⟩ := ih
      refine ⟨fuel + 1, ?_⟩
      rw [getDataFilesForSnapshot, hsome]
      simp only [hfuel]
      rfl

/-- Where snapshots of some ids are gone a chain ends at the first of them. -/
theorem ParentChain.takeWhile {ids : List Int64}
    (hafter : ∀ id, after.snapshot? id = if id ∈ ids then none else before.snapshot? id)
    {id : Option Int64} {chain : List SnapshotInfo} (h : ParentChain before id chain) :
    ParentChain after id (chain.takeWhile fun snap => snap.snapshotId ∉ ids) := by
  induction h with
  | root => exact .root
  | @missing id hnone =>
    refine .missing ?_
    rw [hafter, hnone, ite_self]
  | @step id snap rest hsome hrest ih =>
    have hid : snap.snapshotId = id := by simpa using List.find?_some hsome
    by_cases hmem : id ∈ ids
    · rw [List.takeWhile_cons_of_neg (by simpa [hid] using hmem)]
      refine .missing ?_
      rw [hafter, if_pos hmem]
    · rw [List.takeWhile_cons_of_pos (by simpa [hid] using hmem)]
      refine .step ?_ ih
      rw [hafter, if_neg hmem, hsome]

theorem subset_dropWhile {p : SnapshotInfo → Bool} {old : SnapshotInfo} (hold : p old = false)
    (kept lost : List SnapshotInfo) : old :: lost ⊆ (kept ++ old :: lost).dropWhile p := by
  have hself : (old :: lost).dropWhile p = old :: lost :=
    List.dropWhile_cons_of_neg (by simp [hold])
  rw [List.dropWhile_append, hself]
  split
  · exact List.Subset.refl _
  · exact List.subset_append_right _ _

theorem chainPaths_eq_nil_iff {chain : List SnapshotInfo} :
    chainPaths chain = [] ↔ ∀ snap ∈ chain, snap.dataFiles = [] := by
  unfold chainPaths
  simp only [List.flatMap_eq_nil_iff, List.map_eq_nil_iff]

/-- Readers reach the same files from an id exactly when none lie behind a snapshot that is
gone. -/
theorem collects_after_iff {ids : List Int64}
    (hafter : ∀ id, after.snapshot? id = if id ∈ ids then none else before.snapshot? id)
    (id : Option Int64) :
    (∀ paths, Collects before id paths → Collects after id paths) ↔
      ∀ kept old lost, ParentChain before id (kept ++ old :: lost) → old.snapshotId ∈ ids →
        ∀ other ∈ old :: lost, other.dataFiles = [] := by
  have hsplit : ∀ chain : List SnapshotInfo, chainPaths chain =
      chainPaths (chain.takeWhile fun snap => snap.snapshotId ∉ ids) ++
        chainPaths (chain.dropWhile fun snap => snap.snapshotId ∉ ids) := by
    intro chain
    unfold chainPaths
    rw [← List.flatMap_append, List.takeWhile_append_dropWhile]
  constructor
  · intro hsame kept old lost hchain hold
    obtain ⟨chain', hchain', hpaths⟩ := collects_iff.mp (hsame _ (collects_iff.mpr ⟨_, hchain, rfl⟩))
    rw [hchain'.unique (hchain.takeWhile hafter), hsplit (kept ++ old :: lost)] at hpaths
    have hnone := chainPaths_eq_nil_iff.mp (List.self_eq_append_right.mp hpaths)
    intro other hother
    exact hnone other (subset_dropWhile (by simpa using hold) kept lost hother)
  · intro hnone paths hpaths
    obtain ⟨chain, hchain, rfl⟩ := collects_iff.mp hpaths
    refine collects_iff.mpr ⟨_, hchain.takeWhile hafter, ?_⟩
    rw [hsplit chain]
    cases hdrop : chain.dropWhile fun snap => snap.snapshotId ∉ ids with
    | nil => exact (List.append_nil _).symm
    | cons old lost =>
      have hparts := List.takeWhile_append_dropWhile (p := fun snap => snap.snapshotId ∉ ids)
        (l := chain)
      rw [hdrop] at hparts
      have hold : old.snapshotId ∈ ids := by
        have hhead := List.head?_dropWhile_not (fun snap => snap.snapshotId ∉ ids) chain
        rw [hdrop] at hhead
        simpa using hhead
      rw [chainPaths_eq_nil_iff.mpr (hnone _ old lost (hparts ▸ hchain) hold), List.append_nil]

end Chain

section Expiry
variable {state : IcebergTableState} {olderThanMs : Int64} {retainLastN : ℕ}

/-- What `expire_snapshots` picks. -/
theorem mem_expiredSnapshots {snap : SnapshotInfo} :
    snap ∈ expiredSnapshots state olderThanMs retainLastN ↔
      Superseded state olderThanMs retainLastN snap := by
  unfold expiredSnapshots Superseded
  dsimp only
  generalize state.snapshots.insertionSort (·.timestampMs ≤ ·.timestampMs) = sorted
  rw [List.mem_filter, decide_eq_true_eq, and_comm]
  refine and_congr_right fun _ => ?_
  constructor
  · intro hmem
    obtain ⟨earlier, rest, hsplit⟩ := List.append_of_mem hmem
    refine ⟨earlier, rest ++ sorted.drop (sorted.length - retainLastN), ?_, ?_⟩
    · rw [← List.cons_append, ← List.append_assoc, ← hsplit, List.take_append_drop]
    · rw [List.length_append, List.length_drop]
      have hlen := congrArg List.length hsplit
      rw [List.length_take, List.length_append, List.length_cons] at hlen
      omega
  · rintro ⟨earlier, later, rfl, hlater⟩
    rw [List.take_append]
    refine List.mem_append_right _ ?_
    obtain ⟨k, hk⟩ : ∃ k, (earlier ++ snap :: later).length - retainLastN - earlier.length =
        k + 1 := ⟨later.length - retainLastN, by simp; omega⟩
    rw [hk, List.take_succ_cons]
    exact List.mem_cons_self

theorem mem_expiredIds {id : Int64} :
    id ∈ (expiredSnapshots state olderThanMs retainLastN).map (·.snapshotId) ↔
      SupersededId state olderThanMs retainLastN id := by
  rw [List.mem_map]
  exact exists_congr fun snap => and_congr_left fun _ => mem_expiredSnapshots

/-- A list whose members meet a condition is no longer than the members of another that do. -/
theorem length_filter_bound {ids : List Int64} {removed : List SnapshotInfo}
    (hsub : removed.Sublist state.snapshots) (hids : ∀ snap ∈ removed, snap.snapshotId ∈ ids) :
    removed.length + (state.snapshots.filter fun snap => snap.snapshotId ∉ ids).length ≤
      state.snapshots.length := by
  have hremoved : removed.filter (fun snap => snap.snapshotId ∈ ids) = removed :=
    List.filter_eq_self.mpr fun snap hsnap => by simpa using hids snap hsnap
  have hle := (hsub.filter fun snap => snap.snapshotId ∈ ids).length_le
  rw [hremoved] at hle
  have hsum := List.length_eq_length_filter_add (l := state.snapshots)
    (fun snap => decide (snap.snapshotId ∈ ids))
  simp only [decide_not] at hsum ⊢
  omega

variable {metadata doc : Value} {path path' : String} {files : Int64 → List DataFileInfo}
  {nowMs : Int64}

theorem snapshots_expired {expiredIds : List Int64}
    (h : expiredMetadata (recordedState metadata path files) expiredIds nowMs = some doc) :
    (recordedState doc path' files).snapshots =
      (recordedState metadata path files).snapshots.filter fun snap =>
        snap.snapshotId ∉ expiredIds := by
  change (parseSnapshots doc).map _ = ((parseSnapshots metadata).map _).filter _
  rw [parseSnapshots_expired h, List.filter_map]
  simp only [Function.comp_def, List.contains_eq_mem, decide_not]
  rfl

theorem snapshot?_expired {expiredIds : List Int64}
    (h : expiredMetadata (recordedState metadata path files) expiredIds nowMs = some doc)
    (id : Int64) : (recordedState doc path' files).snapshot? id =
      if id ∈ expiredIds then none else (recordedState metadata path files).snapshot? id := by
  unfold IcebergTableState.snapshot?
  rw [snapshots_expired h, List.find?_filter]
  split_ifs with hid
  · refine List.find?_eq_none.mpr fun snap _ hfound => ?_
    have hboth : snap.snapshotId ∉ expiredIds ∧ snap.snapshotId = id := by simpa using hfound
    exact hboth.1 (hboth.2 ▸ hid)
  · congr 1
    funext snap
    by_cases heq : snap.snapshotId = id
    · simp [heq, hid]
    · simp [heq]

section Kept
variable (h : expiredMetadata (recordedState metadata path files)
    ((expiredSnapshots (recordedState metadata path files) olderThanMs retainLastN).map
      (·.snapshotId)) nowMs = some doc)
include h

/-- A listed snapshot stays listed exactly when its id is not superseded. -/
theorem listed_iff (path' : String) (id : Int64) :
    (((recordedState metadata path files).snapshot? id).isSome →
        ((recordedState doc path' files).snapshot? id).isSome) ↔
      ¬ SupersededId (recordedState metadata path files) olderThanMs retainLastN id := by
  rw [snapshot?_expired h, ← mem_expiredIds]
  split_ifs with hid
  · refine iff_of_false (fun hlisted => ?_) (not_not.mpr hid)
    obtain ⟨snap, hsnap, hsame⟩ := List.mem_map.mp hid
    have hmem := mem_snapshots_of_mem_expired hsnap
    have hsome : ((recordedState metadata path files).snapshot? id).isSome :=
      List.find?_isSome.mpr ⟨snap, hmem, by simpa using hsame⟩
    cases hlisted hsome
  · exact iff_of_true (fun hsome => hsome) hid

theorem count_iff (path' : String) :
    min retainLastN (recordedState metadata path files).snapshots.length ≤
        (recordedState doc path' files).snapshots.length ↔
      ∀ removed : List SnapshotInfo,
        removed.Sublist (recordedState metadata path files).snapshots →
        (∀ snap ∈ removed, SupersededId (recordedState metadata path files) olderThanMs retainLastN
          snap.snapshotId) →
        removed.length + min retainLastN (recordedState metadata path files).snapshots.length ≤
          (recordedState metadata path files).snapshots.length := by
  rw [snapshots_expired h]
  constructor
  · intro hcount removed hsub hids
    have hbound := length_filter_bound hsub fun snap hsnap => mem_expiredIds.mpr (hids snap hsnap)
    omega
  · intro hcount
    have hremoved := hcount ((recordedState metadata path files).snapshots.filter fun snap =>
      snap.snapshotId ∈ (expiredSnapshots (recordedState metadata path files) olderThanMs
        retainLastN).map (·.snapshotId)) List.filter_sublist
          fun snap hsnap => mem_expiredIds.mp (by simpa using (List.mem_filter.mp hsnap).2)
    have hsum := List.length_eq_length_filter_add
      (l := (recordedState metadata path files).snapshots) fun snap =>
        decide (snap.snapshotId ∈ (expiredSnapshots (recordedState metadata path files) olderThanMs
          retainLastN).map (·.snapshotId))
    simp only [decide_not] at hsum ⊢
    omega

/-- An expiry keeps what it should exactly when what it supersedes stands apart. -/
theorem keepsRetained_expired_iff (path' : String) :
    KeepsRetained (recordedState metadata path files) (recordedState doc path' files)
        retainLastN ↔
      RetainedApart (recordedState metadata path files) olderThanMs retainLastN := by
  have hcurrent : (recordedState doc path' files).currentSnapshotId =
      (recordedState metadata path files).currentSnapshotId := by
    change (doc.get _).bind _ = (metadata.get _).bind _
    rw [get_expiredMetadata h (by decide)]
    rfl
  have hmain : mainTarget (recordedState doc path' files).metadata =
      mainTarget (recordedState metadata path files).metadata := by
    unfold mainTarget
    change (doc.get _).bind _ = (metadata.get _).bind _
    rw [get_expiredMetadata h (by decide)]
    rfl
  have hlisted := listed_iff h path'
  have hafter : ∀ id, (recordedState doc path' files).snapshot? id =
      if id ∈ (expiredSnapshots (recordedState metadata path files) olderThanMs retainLastN).map
        (·.snapshotId) then none else (recordedState metadata path files).snapshot? id :=
    snapshot?_expired h
  constructor
  · intro hkeeps
    refine ⟨fun id hid => ?_, fun id hid => ?_, (count_iff h path').mp hkeeps.count, ?_⟩
    · exact (hlisted id).mp (hkeeps.current id hid).2
    · exact (hlisted id).mp (hkeeps.main id hid).2
    · intro snap hsnap hkept kept old lost hchain hold
      have hmem : snap ∈ (recordedState doc path' files).snapshots := by
        rw [snapshots_expired h]
        exact List.mem_filter.mpr ⟨hsnap, by simpa using mt mem_expiredIds.mp hkept⟩
      exact (collects_after_iff hafter _).mp (hkeeps.files snap hmem) kept old lost hchain
        (mem_expiredIds.mpr hold)
  · intro hapart
    refine ⟨fun id hid => ⟨hcurrent.trans hid, ?_⟩, fun id hid => ⟨hmain.trans hid, ?_⟩,
      (count_iff h path').mpr hapart.count, ?_⟩
    · exact (hlisted id).mpr (hapart.current id hid)
    · exact (hlisted id).mpr (hapart.main id hid)
    · intro snap hmem
      rw [snapshots_expired h] at hmem
      obtain ⟨hsnap, hkept⟩ := List.mem_filter.mp hmem
      have hid := mt mem_expiredIds.mpr (by simpa using hkept)
      refine (collects_after_iff hafter _).mpr fun kept old lost hchain hold => ?_
      exact hapart.chains snap hsnap hid kept old lost hchain (mem_expiredIds.mp hold)

end Kept

/-- Where nothing is superseded nothing stands in the way. -/
theorem retainedApart_of_none (h : expiredSnapshots state olderThanMs retainLastN = []) :
    RetainedApart state olderThanMs retainLastN := by
  have hnone : ∀ id, ¬ SupersededId state olderThanMs retainLastN id := by
    intro id hid
    rw [← mem_expiredIds, h] at hid
    cases hid
  refine ⟨fun id _ => hnone id, fun id _ => hnone id, fun removed hsub hids => ?_, ?_⟩
  · cases removed with
    | nil => simp
    | cons snap rest => exact absurd (hids snap List.mem_cons_self) (hnone _)
  · exact fun snap _ _ kept old lost _ hold => absurd hold (hnone _)

theorem keepsRetained_refl (state : IcebergTableState) (retainLastN : ℕ) :
    KeepsRetained state state retainLastN :=
  ⟨fun _ hid => ⟨hid, fun hsome => hsome⟩, fun _ hid => ⟨hid, fun hsome => hsome⟩,
    min_le_right _ _, fun _ _ _ hpaths => hpaths⟩

section Run
variable {Row : Type} {size : Object Row → ℕ} {faults faults' : Faults}
  {s s' : Store (Object Row)} {result : ExpireResult} {after : IcebergTableState}

/-- After an expiry has succeeded and the table is reloaded, from its old path when nothing was
expired, it keeps what it should exactly when what was superseded stood apart. -/
theorem keepsRetained_expireSnapshots_iff (hloaded : s.lookup (Path.ofText path) = some (.json metadata))
    (hrun : run size (expireSnapshots (recordedState metadata path files) olderThanMs retainLastN
      nowMs) faults s = ⟨.ok result, s', faults'⟩)
    (hreload : (run size (loadTableState
      (if result.metadataPath = "" then path else result.metadataPath)) noFaults s').result =
        .ok after) :
    KeepsRetained (recordedState metadata path files) (after.attach files) retainLastN ↔
      RetainedApart (recordedState metadata path files) olderThanMs retainLastN := by
  rcases @expireSnapshots_cases _ _ "" _ _ _ _ _ _ _ _ _ hrun with
    ⟨hnone, hpath, rfl⟩ | ⟨doc, ⟨-, hdoc⟩, hpath, rfl⟩
  · rw [if_pos hpath, run_loadTableState, Store.found_eq_ok.mpr hloaded] at hreload
    obtain rfl : stateOf metadata path = after := Except.ok.inj hreload
    exact iff_of_true (keepsRetained_refl _ _) (retainedApart_of_none hnone)
  · have hne : result.metadataPath ≠ "" :=
      hpath ▸ target_ne_empty (.expire olderThanMs retainLastN nowMs) "" _
    rw [if_neg hne, run_loadTableState, Store.found_eq_ok.mpr (AList.lookup_insert _)] at hreload
    obtain rfl : stateOf doc result.metadataPath = after := Except.ok.inj hreload
    exact keepsRetained_expired_iff hdoc _

end Run

end Expiry
section Ticks

def tickFiles (id : Int64) : List DataFileInfo :=
  if id = 1000 then [⟨"orders/part-0.parquet", 900, 3⟩] else []

/-- A store that holds just the metadata of the new table. -/
def tickStore : Store (Object ℕ) :=
  (∅ : Store (Object ℕ)).insert "orders/metadata/v1.metadata.json" (.json tickCreated.metadata)

def tickRecorded : IcebergTableState :=
  recordedState tickCreated.metadata "orders/metadata/v1.metadata.json" tickFiles

/-- The run of an expiry of everything before 2000 that has this many snapshots to retain. -/
def tickExpiry (retainLastN : ℕ) :=
  run (fun _ => 0) (expireSnapshots tickRecorded 2000 retainLastN 3000) noFaults tickStore

theorem lookup_tickStore : tickStore.lookup (Path.ofText "orders/metadata/v1.metadata.json") =
    some (.json tickCreated.metadata) := by
  have hkey : Path.ofText "orders/metadata/v1.metadata.json" =
      "orders/metadata/v1.metadata.json" := by decide
  rw [hkey]
  exact AList.lookup_insert _

theorem keepsRetained_expireSnapshots_iff_ticks :
    KeepsRetained tickRecorded tickRecorded 1 ↔ RetainedApart tickRecorded 2000 1 := by
  have hrun : tickExpiry 1 =
      ⟨.ok ⟨0, [], 0, ""⟩, tickStore, noFaults⟩ := by rfl
  have hreload : (run (fun _ => 0) (loadTableState "orders/metadata/v1.metadata.json") noFaults
      tickStore).result = .ok tickCreated := by
    rw [run_loadTableState, Store.found_eq_ok.mpr lookup_tickStore]
    rfl
  exact keepsRetained_expireSnapshots_iff lookup_tickStore hrun hreload

/-- Retaining no snapshot removes the current one. -/
theorem not_keepsRetained_ticks :
    ∃ after, (tickExpiry 0).result = .ok ⟨1, [1000], 1, "orders/metadata/v2.metadata.json"⟩ ∧
      (run (fun _ => 0) (loadTableState "orders/metadata/v2.metadata.json") noFaults
        (tickExpiry 0).store).result = .ok after ∧
      ¬ KeepsRetained tickRecorded (after.attach tickFiles) 0 := by
  refine ⟨_, by rfl, by rfl, fun h => ?_⟩
  have hlisted := (h.current 1000 (by rfl)).2 (by rfl)
  cases hlisted

end Ticks

end RustLake.Iceberg
