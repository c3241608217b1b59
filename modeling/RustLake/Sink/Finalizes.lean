import RustLake.Sink.Queried

/-! One sink that is finalized again and again, each time on the table that is there by then: how many
snapshots add each of its files, and how many rows the table then counts. -/
namespace RustLake.Sink
open RustLake.Json RustLake.ObjectStore RustLake.Iceberg

variable {Row : Type}

/-- A sink over time: itself, the store, the files that it has flushed with their rows, and those that
it had flushed when calls of `finalize_iceberg_incremental` returned `Ok`, the latest first. -/
structure Session (Row : Type) where
  sink : ParquetSink Row
  store : Store (Object Row)
  flushed : List (String × ℕ)
  finalized : List (List (String × ℕ))

def Session.start (target : SinkTarget) (flushThreshold : UInt64) (s : Store (Object Row)) :
    Session Row where
  sink := .new target.sinkPrefix target.bucket flushThreshold
  store := s
  flushed := []
  finalized := []

inductive SinkCall (Row : Type) where
  | writeBatch (now : DateTime) (batch : RecordBatch Row)
  | flush (now : DateTime)
  | finalize (tableUuid : String) (nowMs : Int64)

/-- The name of the file that a flush puts. -/
def nextFile (now : DateTime) (sink : ParquetSink Row) : String :=
  datedFile sink.sinkPrefix now.datePart (ParquetSink.batchName now (sink.filesWritten + 1))

def rowsIn : Object Row → ℕ
  | .parquet rows _ => rows.length
  | _ => 0

def rowsOf (files : List (String × ℕ)) : ℕ := (files.map Prod.snd).sum

section Step
variable (size : Object Row → ℕ) (P : Parquet Row) (target : SinkTarget)

def Session.call (session : Session Row) (now : DateTime) (faults : Faults)
    (program : Program (Object Row) (ParquetSink Row × Except String Unit)) :
    Option (Session Row) :=
  match run size program faults session.store with
  | ⟨.ok (sink, _), store, _⟩ => some { session with
      sink
      store
      flushed := session.flushed ++ (putLog size program faults session.store).map fun e =>
        (nextFile now session.sink, rowsIn e.2) }
  | ⟨.error _, _, _⟩ => none

/-- A call of `finalize_iceberg_incremental` with the table reloaded. -/
def Session.finalize (session : Session Row) (tableUuid : String) (nowMs : Int64)
    (faults : Faults) : Session Row :=
  let outcome := run size (session.sink.finalizeIcebergIncremental
    (visible size target session.store) tableUuid nowMs) faults session.store
  { session with
    store := outcome.store
    finalized := match outcome.result with
      | .ok _ => session.flushed :: session.finalized
      | .error _ => session.finalized }

def sessionStep (session : Session Row) : SinkCall Row × Faults → Option (Session Row)
  | (.writeBatch now batch, faults) =>
    session.call size now faults (session.sink.writeBatch P now batch)
  | (.flush now, faults) => session.call size now faults (session.sink.flush P now)
  | (.finalize tableUuid nowMs, faults) => some (session.finalize size target tableUuid nowMs faults)

/-- The manifest list of the snapshot has the file. -/
def adds (s : Store (Object Row)) (location filePath : String) (snap : SnapshotInfo) : Bool :=
  match jsonAt s snap.manifestObject with
  | some doc => (manifestPaths doc).contains (location ++ "/" ++ filePath)
  | none => false

/-- The number of snapshots of the table that add the file. -/
def addedBy (s : Store (Object Row)) (filePath : String) : ℕ :=
  match visible size target s with
  | some state => state.snapshots.countP (adds s state.location filePath)
  | none => 0

/-- The `total-records` of the current snapshot. -/
def totalText (state : IcebergTableState) : Option String := do
  let id ← state.currentSnapshotId
  let snap ← state.snapshot? id
  snap.summary.lookup "total-records"

/-- The rows that the table counts. -/
def recordsAt (s : Store (Object Row)) : UInt64 :=
  match visible size target s with
  | some state => prevTotal state "total-records"
  | none => 0

/-- Each file that was flushed by the latest finalize is added by one snapshot, and the current
snapshot counts the rows of these files and those present at the start. -/
def Session.ExactlyOnce (start : Store (Object Row)) (session : Session Row) : Prop :=
  ∀ files, session.finalized.head? = some files →
    (∀ f ∈ files, addedBy size target session.store f.1 = 1) ∧
    ∃ state, visible size target session.store = some state ∧
      totalText state = some (toString ((recordsAt size target start).toNat + rowsOf files))

/-- A finalize that can bring in the files: readers find the table, its names are new, there is room
for another version and the sum, and a creation does not stop half way. -/
structure Session.Clear (start : Store (Object Row)) (session : Session Row) (nowMs : Int64)
    (faults : Faults) : Prop where
  spells : SpellsItself target.sinkPrefix
  clock : ∀ state, visible size target session.store = some state → ∀ snap ∈ state.snapshots,
    snap.snapshotId ≠ nowMs ∧ snap.manifestObject ≠ createdManifest target nowMs
  version : ∀ state, visible size target session.store = some state →
    state.metadataVersion ≠ 2147483647
  whole : visible size target session.store = none → faults 0 = none → faults 1 = none
  fresh : ∀ f ∈ session.flushed, addedBy size target start f.1 = 0
  bound : (recordsAt size target start).toNat + rowsOf session.flushed < 2 ^ 64

def CallClear (start : Store (Object Row)) (session : Session Row) : SinkCall Row × Faults → Prop
  | (.finalize _ nowMs, faults) => session.Clear size target start nowMs faults
  | _ => True

end Step

/-- The sink remembers its files with their rows, and counts the rows in its buffer. -/
structure Tracks (sink : ParquetSink Row) (flushed : List (String × ℕ)) : Prop where
  files : sink.dataFiles.map (fun df => (df.filePath, df.rowCount)) =
    flushed.map fun f => (f.1, UInt64.ofNat f.2)
  buffered : sink.bufferRows = UInt64.ofNat (sink.buffer.flatMap (·.rows)).length

section Calls
variable {size : Object Row → ℕ} {P : Parquet Row} {sink sink' : ParquetSink Row}
  {flushed : List (String × ℕ)} {now : DateTime} {result : Except String Unit}
  {faults faults' : Faults} {s s' : Store (Object Row)}

theorem Tracks.flush (h : Tracks sink flushed)
    (hrun : run size (sink.flush P now) faults s = ⟨.ok (sink', result), s', faults'⟩) :
    Tracks sink' (flushed ++ (putLog size (sink.flush P now) faults s).map fun e =>
      (nextFile now sink, rowsIn e.2)) := by
  unfold ParquetSink.flush at hrun ⊢
  cases hbuffer : sink.buffer with
  | nil =>
    simp only [hbuffer] at hrun ⊢
    cases hrun
    rw [show putLog size (pure (sink, Except.ok ()) : Program (Object Row) _) faults s = [] from rfl,
      List.map_nil, List.append_nil]
    exact h
  | cons first rest =>
    have hrows := h.buffered
    rw [hbuffer] at hrows
    simp only [hbuffer] at hrun ⊢
    cases hencode : P.encode first.schema ((first :: rest).map (·.rows)) with
    | error e =>
      simp only [hencode] at hrun ⊢
      cases hrun
      rw [show putLog size (pure (sink, Except.error ("Parquet write batch: " ++ e)) :
        Program (Object Row) _) faults s = [] from rfl, List.map_nil, List.append_nil]
      exact h
    | ok length =>
      simp only [hencode, run_put] at hrun ⊢
      cases h0 : faults 0 with
      | some e =>
        rw [answer_of_some h0] at hrun
        rw [putLog_put_of_some size h0]
        cases hrun
        refine ⟨?_, ?_⟩
        · exact h.files.trans (congrArg _ (List.append_nil _).symm)
        · exact hrows
      | none =>
        rw [answer_of_none h0] at hrun
        rw [putLog_put_of_none size h0]
        cases hrun
        refine ⟨?_, rfl⟩
        simp only [List.map_append, List.map_cons, List.map_nil, h.files]
        rw [hrows]
        rfl

theorem Tracks.writeBatch (h : Tracks sink flushed) {batch : RecordBatch Row}
    (hrun : run size (sink.writeBatch P now batch) faults s = ⟨.ok (sink', result), s', faults'⟩) :
    Tracks sink' (flushed ++ (putLog size (sink.writeBatch P now batch) faults s).map fun e =>
      (nextFile now sink, rowsIn e.2)) := by
  have hbatch : Tracks { sink with
      buffer := sink.buffer ++ [batch]
      bufferRows := sink.bufferRows + UInt64.ofNat batch.rows.length } flushed := by
    refine ⟨h.files, ?_⟩
    simp only [List.flatMap_append, List.length_append, UInt64.ofNat_add, h.buffered]
    simp
  unfold ParquetSink.writeBatch at hrun ⊢
  dsimp only at hrun ⊢
  split
  · rename_i hfull
    rw [if_pos hfull] at hrun
    exact hbatch.flush hrun
  · rename_i hroom
    rw [if_neg hroom] at hrun
    cases hrun
    rw [show putLog size (pure (_, Except.ok ()) : Program (Object Row) _) faults s = [] from rfl,
      List.map_nil, List.append_nil]
    exact hbatch

end Calls

section Tables
variable {size : Object Row → ℕ} {target : SinkTarget} {s s' : Store (Object Row)}
  {state : IcebergTableState}

/-- Where the prefix spells itself, readers see the table that is held, if any. -/
theorem Held.visible_cases (size : Object Row → ℕ) (h : Held target s)
    (hspells : SpellsItself target.sinkPrefix) :
    (visible size target s = none ∧ ∀ key ∈ s, ¬ InTable target.sinkPrefix key) ∨
    ∃ n state, visible size target s = some state ∧ Newest target.sinkPrefix n state s ∧
      state.location = target.location := by
  have hheld := h
  rcases h with hnone | ⟨n, state, hnewest, hlocation, -⟩
  · left
    refine ⟨?_, hnone⟩
    cases hvisible : visible size target s with
    | none => rfl
    | some state =>
      obtain ⟨key, hview⟩ := visible_eq_some.mp hvisible
      obtain ⟨n, -, -, hnewest, -, -⟩ := hheld.of_view hview
      exact absurd (inTable_versionKey _ n) (hnone _ (mem_of_lookup hnewest.lookup))
  · exact Or.inr ⟨n, state, visible_eq_some.mpr ⟨_, hnewest.view size hspells⟩, hnewest, hlocation⟩

theorem manifestObject_of_newest {n : ℕ} (h : Newest target.sinkPrefix n state s)
    (hlocation : state.location = target.location) {snap : SnapshotInfo}
    (hsnap : snap ∈ state.snapshots) : ∃ id, snap.manifestObject = createdManifest target id := by
  rw [h.located.snapshots] at hsnap
  obtain ⟨id, hpath⟩ := h.located.manifests snap hsnap
  rw [hlocation] at hpath
  exact ⟨id, manifestObject_at target hpath⟩

/-- The same table with the same manifest lists. -/
theorem addedBy_congr (hvisible : visible size target s' = visible size target s)
    (hlists : ∀ state, visible size target s = some state → ∀ snap ∈ state.snapshots,
      jsonAt s' snap.manifestObject = jsonAt s snap.manifestObject) (filePath : String) :
    addedBy size target s' filePath = addedBy size target s filePath := by
  unfold addedBy
  rw [hvisible]
  cases hstate : visible size target s with
  | none => rfl
  | some state =>
    refine List.countP_congr fun snap hsnap => ?_
    unfold adds
    rw [hlists state hstate snap hsnap]

/-- An append that returned `Ok`. -/
theorem append_ok (hheld : Held target s) (hspells : SpellsItself target.sinkPrefix)
    (hstate : visible size target s = some state) (hversion : state.metadataVersion ≠ 2147483647)
    {files : List DataFileInfo} {schema : ArrowSchema} {nowMs : Int64} {path : String}
    {faults faults' : Faults}
    (hrun : run size (appendSnapshot state files schema "append" nowMs) faults s =
      ⟨.ok path, s', faults'⟩) :
    ∃ after, visible size target s' = some after ∧ after.location = state.location ∧
      after.snapshots = state.snapshots ++
        [(appendedSnapshot state files "append" nowMs).withoutFiles] ∧
      after.currentSnapshotId = some nowMs ∧
      s'.lookup (createdManifest target nowMs) =
        some (.json (manifestList state.location files nowMs)) ∧
      ∀ key, ¬ NamedV key → key ≠ createdManifest target nowMs → s'.lookup key = s.lookup key := by
  obtain ⟨key, hview⟩ := visible_eq_some.mp hstate
  obtain ⟨n, -, -, hnewest, hlocation, -⟩ := hheld.of_view hview
  have hbound : n + 1 < 2 ^ 31 := by
    have hlt := hnewest.bound
    rcases Nat.lt_or_eq_of_le hlt with hroom | hlast
    · exact hroom
    · obtain rfl : n = 2147483647 := by omega
      exact absurd (hnewest.located.version hlt) hversion
  have hfiles : files ≠ [] := by
    rintro rfl
    cases hrun
  obtain ⟨doc, hdoc, hpath, hstore⟩ := appendSnapshot_ok hrun
  have hkey : manifestKey state nowMs = createdManifest target nowMs := by
    unfold manifestKey createdManifest
    rw [hnewest.located.strip]
  have hproduces : (Commit.append files schema "append" nowMs).Produces target.sinkPrefix state doc :=
    ⟨hfiles, hdoc⟩
  have hput : SameMetadata (s.insert (Path.ofText ((Commit.append files schema "append" nowMs).target
      target.sinkPrefix state)) (.json doc)) s' := by
    have hmanifest : SameMetadata s (s.insert (manifestKey state nowMs)
        (.json (manifestList state.location files nowMs))) :=
      .insert (not_namedV_manifest _ nowMs) _
    rw [hstore, hpath]
    exact hmanifest.insert_left _ _
  obtain ⟨hsame, hnext⟩ := hnewest.next hbound rfl hproduces hput
  refine ⟨_, visible_eq_some.mpr ⟨_, hnext.view size hspells⟩, hsame, ?_, ?_, ?_, ?_⟩
  · change parseSnapshots doc = _
    rw [parseSnapshots_appendedMetadata hdoc (hnewest.located.wellFormed _ (by decide)), ← hnewest.located.snapshots,
      parseSnapshot_snapshotEntry]
  · change ((doc.get "current-snapshot-id").bind Value.asI64) = _
    rw [get_current_appendedMetadata hdoc, Option.bind_some, asI64_ofI64]
  · rw [hstore, hkey, AList.lookup_insert_ne, AList.lookup_insert]
    rw [← hkey, hpath]
    exact manifestKey_ne state nowMs _ _
  · intro other hnamed hne
    rw [hstore, AList.lookup_insert_ne, AList.lookup_insert_ne]
    · rwa [hkey]
    · rintro rfl
      rw [hpath] at hnamed
      exact hnamed (namedV_versionPath _ _)

/-- A snapshot of the target whose manifest list is the one of the files adds these. -/
theorem adds_iff {snap : SnapshotInfo} {files : List DataFileInfo} {nowMs : Int64}
    {location filePath : String} (hobject : snap.manifestObject = createdManifest target nowMs)
    (hstored : s.lookup (createdManifest target nowMs) =
      some (.json (manifestList location files nowMs))) :
    adds s location filePath snap = (files.map (·.filePath)).contains filePath := by
  unfold adds
  rw [hobject, jsonAt_eq_some.mpr hstored]
  dsimp only
  rw [manifestPaths_manifestList, Bool.eq_iff_iff, List.contains_iff_mem, List.contains_iff_mem,
    List.mem_map, List.mem_map]
  constructor
  · rintro ⟨df, hdf, hpath⟩
    exact ⟨df, hdf, (String.append_right_inj _).mp hpath⟩
  · rintro ⟨df, hdf, rfl⟩
    exact ⟨df, hdf, rfl⟩

/-- The files were brought in: one more snapshot adds each of them, and their rows are counted. -/
structure Brings (size : Object Row → ℕ) (target : SinkTarget) (files : List DataFileInfo)
    (s s' : Store (Object Row)) : Prop where
  counts : ∀ filePath, addedBy size target s' filePath = addedBy size target s filePath +
    if (files.map (·.filePath)).contains filePath then 1 else 0
  total : ∃ state, visible size target s' = some state ∧
    totalText state = some (toString (recordsAt size target s + totalRecords files))

theorem brings_append (hheld : Held target s) (hspells : SpellsItself target.sinkPrefix)
    (hstate : visible size target s = some state) (hversion : state.metadataVersion ≠ 2147483647)
    {files : List DataFileInfo} {schema : ArrowSchema} {nowMs : Int64} {path : String}
    {faults faults' : Faults}
    (hclock : ∀ snap ∈ state.snapshots,
      snap.snapshotId ≠ nowMs ∧ snap.manifestObject ≠ createdManifest target nowMs)
    (hrun : run size (appendSnapshot state files schema "append" nowMs) faults s =
      ⟨.ok path, s', faults'⟩) : Brings size target files s s' := by
  obtain ⟨after, hafter, hlocation, hsnaps, hcurrent, hstored, hothers⟩ :=
    append_ok hheld hspells hstate hversion hrun
  obtain ⟨key, hview⟩ := visible_eq_some.mp hstate
  obtain ⟨n, -, -, hnewest, htarget, -⟩ := hheld.of_view hview
  have hobject : (appendedSnapshot state files "append" nowMs).withoutFiles.manifestObject =
      createdManifest target nowMs := by
    apply manifestObject_at
    rw [← htarget]
    rfl
  constructor
  · intro filePath
    unfold addedBy
    rw [hafter, hstate]
    dsimp only
    rw [hsnaps, hlocation, List.countP_append, List.countP_singleton, adds_iff hobject hstored]
    congr 1
    refine List.countP_congr fun snap hsnap => ?_
    obtain ⟨id, hid⟩ := manifestObject_of_newest hnewest htarget hsnap
    have hkept : s'.lookup snap.manifestObject = s.lookup snap.manifestObject := by
      apply hothers _ _ (hclock snap hsnap).2
      rw [hid]
      exact not_namedV_manifest _ id
    unfold adds
    rw [jsonAt_congr hkept]
  · refine ⟨after, hafter, ?_⟩
    have hfound : after.snapshot? nowMs =
        some (appendedSnapshot state files "append" nowMs).withoutFiles := by
      have hold : state.snapshots.find? (fun snap => decide (snap.snapshotId = nowMs)) = none := by
        rw [List.find?_eq_none]
        intro snap hsnap
        simpa using (hclock snap hsnap).1
      rw [IcebergTableState.snapshot?, hsnaps, List.find?_append, hold]
      simp [appendedSnapshot]
    unfold totalText recordsAt
    rw [hcurrent, hstate]
    simp only [Option.bind_eq_bind, Option.bind_some, hfound]
    rfl

theorem brings_create (hheld : Held target s) (hspells : SpellsItself target.sinkPrefix)
    (hnone : visible size target s = none) {sink : ParquetSink Row} (hat : sink.At target)
    {tableUuid path : String} {nowMs : Int64} {faults faults' : Faults}
    (hrun : run size (sink.finalizeIceberg tableUuid nowMs) faults s = ⟨.ok path, s', faults'⟩) :
    Brings size target sink.dataFiles s s' := by
  obtain ⟨schema, -, -, hstore⟩ := finalizeIceberg_ok hat hrun
  have hempty : ∀ key ∈ s, ¬ InTable target.sinkPrefix key := by
    rcases hheld.visible_cases size hspells with ⟨-, hempty⟩ | ⟨n, state, hstate, -⟩
    · exact hempty
    · rw [hnone] at hstate
      cases hstate
  have hput : SameMetadata (s.insert (versionKey target.sinkPrefix 1) (.json (initialMetadata
      target.location schema sink.dataFiles tableUuid nowMs))) s' := by
    rw [hstore]
    exact .insert (not_namedV_manifest target.sinkPrefix nowMs) _
  have hnew := newest_created (fun key hkey htable => absurd htable (hempty key hkey)) hput
  have hvisible : visible size target s' =
      some (createdState target schema sink.dataFiles tableUuid nowMs) :=
    visible_eq_some.mpr ⟨_, hnew.view size hspells⟩
  have hstored : s'.lookup (createdManifest target nowMs) =
      some (.json (manifestList target.location sink.dataFiles nowMs)) := by
    rw [hstore, AList.lookup_insert]
  have hobject : (createdSnapshot target.location sink.dataFiles nowMs).withoutFiles.manifestObject =
      createdManifest target nowMs := manifestObject_at target rfl
  constructor
  · intro filePath
    unfold addedBy
    rw [hvisible, hnone]
    dsimp only
    rw [createdState_snapshots, List.countP_singleton, Nat.zero_add]
    exact congrArg (fun b => if b = true then 1 else 0) (adds_iff hobject hstored)
  · refine ⟨_, hvisible, ?_⟩
    have hfound : (createdState target schema sink.dataFiles tableUuid nowMs).snapshot? nowMs =
        some (createdSnapshot target.location sink.dataFiles nowMs).withoutFiles := by
      rw [IcebergTableState.snapshot?, createdState_snapshots]
      simp [createdSnapshot]
    unfold totalText recordsAt
    rw [createdState_currentSnapshotId, hnone]
    simp only [Option.bind_eq_bind, Option.bind_some, hfound]
    rfl

/-- An append that failed has put no metadata. -/
theorem sameMetadata_of_append_error {files : List DataFileInfo} {schema : ArrowSchema}
    {operation : String} {nowMs : Int64} {e : Failure} {faults faults' : Faults}
    (hrun : run size (appendSnapshot state files schema operation nowMs) faults s =
      ⟨.error e, s', faults'⟩) : SameMetadata s s' := by
  have hmanifest : SameMetadata s (s.insert (manifestKey state nowMs)
      (.json (manifestList state.location files nowMs))) :=
    .insert (not_namedV_manifest _ nowMs) _
  unfold appendSnapshot at hrun
  split at hrun
  · cases hrun
    exact .refl s
  · cases h0 : faults 0 with
    | some message =>
      simp only [run_put, answer_of_some h0, effect_of_some h0, Program.orFail_error,
        Program.fail_bind, run_fail] at hrun
      cases hrun
      exact .refl s
    | none =>
      simp only [run_put, answer_of_none h0, effect_of_none h0, Program.orFail_ok,
        Program.done_bind] at hrun
      cases hdoc : appendedMetadata state files schema operation nowMs with
      | none =>
        rw [hdoc] at hrun
        cases hrun
        exact hmanifest
      | some doc =>
        rw [hdoc, Program.orPanic_some, Program.done_bind, run_putVersion] at hrun
        cases h1 : faults.next 0 with
        | some message =>
          rw [h1] at hrun
          cases hrun
          exact hmanifest
        | none =>
          rw [h1] at hrun
          cases hrun

/-- A creation that failed before its first put has left the store. -/
theorem eq_of_create_error {sink : ParquetSink Row} {tableUuid : String} {nowMs : Int64}
    {e : Failure} {faults faults' : Faults} (hwhole : faults 0 = none → faults 1 = none)
    (hrun : run size (sink.finalizeIceberg tableUuid nowMs) faults s = ⟨.error e, s', faults'⟩) :
    s' = s := by
  unfold ParquetSink.finalizeIceberg ParquetSink.finalizeIcebergIncremental at hrun
  split at hrun
  · cases hrun
    rfl
  · rename_i hfiles
    split at hrun
    · cases hrun
      rfl
    · dsimp only at hrun
      unfold writeIcebergMetadata at hrun
      rw [if_neg hfiles] at hrun
      dsimp only at hrun
      cases h0 : faults 0 with
      | some message =>
        rw [run_put, answer_of_some h0, effect_of_some h0] at hrun
        cases hrun
        rfl
      | none =>
        have h1 : faults.next 0 = none := hwhole h0
        rw [run_put, answer_of_none h0, effect_of_none h0, Program.orFail_ok, Program.done_bind,
          run_put, answer_of_none h1, effect_of_none h1] at hrun
        cases hrun

/-- After a call that failed the table is as it was. -/
theorem addedBy_of_error (hheld : Held target s) {sink : ParquetSink Row}
    {tableUuid : String} {nowMs : Int64} {e : Failure} {faults faults' : Faults}
    (hclock : ∀ state, visible size target s = some state → ∀ snap ∈ state.snapshots,
      snap.snapshotId ≠ nowMs ∧ snap.manifestObject ≠ createdManifest target nowMs)
    (hwhole : visible size target s = none → faults 0 = none → faults 1 = none)
    (hrun : run size (sink.finalizeIcebergIncremental (visible size target s) tableUuid nowMs) faults
      s = ⟨.error e, s', faults'⟩) :
    visible size target s' = visible size target s ∧
      ∀ filePath, addedBy size target s' filePath = addedBy size target s filePath := by
  cases hstate : visible size target s with
  | none =>
    rw [hstate] at hrun
    obtain rfl := eq_of_create_error (hwhole hstate) hrun
    exact ⟨hstate, fun _ => rfl⟩
  | some state =>
    rw [hstate] at hrun
    unfold ParquetSink.finalizeIcebergIncremental at hrun
    split at hrun
    · cases hrun
      exact ⟨hstate, fun _ => rfl⟩
    · split at hrun
      · cases hrun
        exact ⟨hstate, fun _ => rfl⟩
      · rename_i schema hschema
        dsimp only at hrun
        obtain ⟨key, hview⟩ := visible_eq_some.mp hstate
        obtain ⟨n, -, -, hnewest, htarget, -⟩ := hheld.of_view hview
        have hkey : manifestKey state nowMs = createdManifest target nowMs := by
          unfold manifestKey createdManifest
          rw [hnewest.located.strip]
        have hputs : ((Commit.append sink.dataFiles schema "append" nowMs).program target.sinkPrefix
            state : Program (Object Row) String).Touches (PutAt target nowMs) := by
          apply touches_commit (fun version => Or.inl (namedV_versionPath state.location version)) rfl
          · exact fun _ => Or.inr hkey
          · exact fun snap hsnap => absurd hsnap List.not_mem_nil
        have hsame : visible size target s' = visible size target s :=
          visible_congr (sameMetadata_of_append_error hrun)
        refine ⟨hsame.trans hstate, addedBy_congr hsame fun seen hseen snap hsnap => jsonAt_congr ?_⟩
        obtain rfl : state = seen := Option.some.inj (hstate.symm.trans hseen)
        obtain ⟨id, hid⟩ := manifestObject_of_newest hnewest htarget hsnap
        have hkept : (run size (appendSnapshot state sink.dataFiles schema "append" nowMs) faults
            s).store.lookup snap.manifestObject = s.lookup snap.manifestObject := by
          apply lookup_run_of_touches size hputs faults s
          rintro (hnamed | heq)
          · rw [hid] at hnamed
            exact not_namedV_manifest _ id hnamed
          · exact (hclock state hstate snap hsnap).2 heq
        rwa [hrun] at hkept

/-- A call that returned `Ok` has brought in the files of the sink. -/
theorem brings_of_ok (hheld : Held target s) {sink : ParquetSink Row} (hat : sink.At target)
    {tableUuid path : String} {nowMs : Int64} {faults faults' : Faults}
    (hspells : SpellsItself target.sinkPrefix)
    (hclock : ∀ state, visible size target s = some state → ∀ snap ∈ state.snapshots,
      snap.snapshotId ≠ nowMs ∧ snap.manifestObject ≠ createdManifest target nowMs)
    (hversion : ∀ state, visible size target s = some state → state.metadataVersion ≠ 2147483647)
    (hrun : run size (sink.finalizeIcebergIncremental (visible size target s) tableUuid nowMs) faults
      s = ⟨.ok path, s', faults'⟩) : sink.dataFiles ≠ [] ∧ Brings size target sink.dataFiles s s' := by
  have hfiles : sink.dataFiles ≠ [] := by
    intro hnil
    unfold ParquetSink.finalizeIcebergIncremental at hrun
    rw [hnil] at hrun
    cases hrun
  refine ⟨hfiles, ?_⟩
  cases hstate : visible size target s with
  | none =>
    rw [hstate] at hrun
    exact brings_create hheld hspells hstate hat hrun
  | some state =>
    rw [hstate] at hrun
    unfold ParquetSink.finalizeIcebergIncremental at hrun
    split at hrun
    · cases hrun
    · split at hrun
      · cases hrun
      · exact brings_append hheld hspells hstate (hversion state hstate) (hclock state hstate) hrun

theorem Held.incremental (hheld : Held target s) {sink : ParquetSink Row} (hat : sink.At target)
    {tableUuid : String} {nowMs : Int64} {result : Except Failure String} {faults faults' : Faults}
    (hrun : run size (sink.finalizeIcebergIncremental (visible size target s) tableUuid nowMs) faults
      s = ⟨result, s', faults'⟩) : Held target s' := by
  cases hstate : visible size target s with
  | none =>
    rw [hstate] at hrun
    exact hheld.finalize hat hrun
  | some state =>
    rw [hstate] at hrun
    obtain ⟨key, hview⟩ := visible_eq_some.mp hstate
    unfold ParquetSink.finalizeIcebergIncremental at hrun
    split at hrun
    · cases hrun
      exact hheld
    · split at hrun
      · cases hrun
        exact hheld
      · rename_i schema hschema
        have hc : (Commit.append sink.dataFiles schema "append" nowMs).isCreate = false := rfl
        exact hheld.maintain hc hview hrun

end Tables

/-- What holds in a session: the snapshots that add a file are those of the start and one for each
finalize that found it flushed. -/
structure Keeps (size : Object Row → ℕ) (target : SinkTarget) (start : Store (Object Row))
    (session : Session Row) : Prop where
  atTarget : session.sink.At target
  tracks : Tracks session.sink session.flushed
  held : Held target session.store
  counts : ∀ filePath, addedBy size target session.store filePath =
    addedBy size target start filePath +
      session.finalized.countP fun files => (files.map Prod.fst).contains filePath
  flushed : ∀ files ∈ session.finalized, files ≠ [] ∧ files ⊆ session.flushed
  grows : session.finalized.Pairwise fun later earlier => earlier ⊆ later
  fresh : ∀ files ∈ session.finalized, ∀ f ∈ files, addedBy size target start f.1 = 0
  bound : ∀ files ∈ session.finalized,
    (recordsAt size target start).toNat + rowsOf files < 2 ^ 64
  untouched : session.finalized = [] →
    visible size target session.store = visible size target start
  total : ∀ files, session.finalized = [files] →
    ∃ state, visible size target session.store = some state ∧ totalText state =
      some (toString (recordsAt size target start + (files.map fun f => UInt64.ofNat f.2).sum))

section Session
variable {size : Object Row → ℕ} {P : Parquet Row} {target : SinkTarget}
  {start : Store (Object Row)} {session session' : Session Row}

theorem keeps_start (hheld : Held target start) (flushThreshold : UInt64) :
    Keeps size target start (.start target flushThreshold start) where
  atTarget := ⟨rfl, rfl⟩
  tracks := ⟨rfl, rfl⟩
  held := hheld
  counts := fun _ => rfl
  flushed := fun files hfiles => absurd hfiles List.not_mem_nil
  grows := .nil
  fresh := fun files hfiles => absurd hfiles List.not_mem_nil
  bound := fun files hfiles => absurd hfiles List.not_mem_nil
  untouched := fun _ => rfl
  total := by
    rintro files hfiles
    cases hfiles

/-- A flush leaves the table. -/
theorem Keeps.call (h : Keeps size target start session) {now : DateTime} {faults : Faults}
    {program : Program (Object Row) (ParquetSink Row × Except String Unit)}
    (hstores : ∀ {sink' result s' faults'},
      run size program faults session.store = ⟨.ok (sink', result), s', faults'⟩ →
      Stores session.sink sink' (putLog size program faults session.store) session.store s')
    (htracks : ∀ {sink' result s' faults'},
      run size program faults session.store = ⟨.ok (sink', result), s', faults'⟩ →
      Tracks sink' (session.flushed ++ (putLog size program faults session.store).map fun e =>
        (nextFile now session.sink, rowsIn e.2)))
    (hcall : session.call size now faults program = some session') :
    Keeps size target start session' := by
  unfold Session.call at hcall
  split at hcall
  · rename_i sink' result s' faults' hrun
    obtain rfl := Option.some.inj hcall
    have hstored := hstores hrun
    obtain ⟨hbucket, hpfx⟩ := h.atTarget
    have hadds := hstored.adds
    rw [hpfx] at hadds
    have hmetadata := sameMetadata_of_dataKey hadds
    have hvisible : visible size target s' = visible size target session.store :=
      visible_congr hmetadata
    have hcounts : ∀ filePath, addedBy size target s' filePath =
        addedBy size target session.store filePath := by
      refine addedBy_congr hvisible fun state hstate snap hsnap => jsonAt_congr ?_
      obtain ⟨key, hview⟩ := visible_eq_some.mp hstate
      obtain ⟨n, -, -, hnewest, htarget, -⟩ := h.held.of_view hview
      obtain ⟨id, hid⟩ := manifestObject_of_newest hnewest htarget hsnap
      rcases hadds snap.manifestObject with hsame | ⟨hdata, -⟩
      · exact hsame
      · rw [hid] at hdata
        exact absurd (isJson_createdManifest target id) hdata.isParquet.not_isJson
    exact {
      atTarget := ⟨hstored.bucket.trans hbucket, hstored.sinkPrefix.trans hpfx⟩
      tracks := htracks hrun
      held := h.held.congr fun key htable => hmetadata key htable.1
      counts := fun filePath => (hcounts filePath).trans (h.counts filePath)
      flushed := fun files hfiles => ⟨(h.flushed files hfiles).1,
        fun f hf => List.mem_append_left _ ((h.flushed files hfiles).2 hf)⟩
      grows := h.grows
      fresh := h.fresh
      bound := h.bound
      untouched := fun hnone => hvisible.trans (h.untouched hnone)
      total := fun files hfiles => by
        obtain ⟨state, hstate, htotal⟩ := h.total files hfiles
        exact ⟨state, hvisible.trans hstate, htotal⟩ }
  · cases hcall

theorem Keeps.finalize (h : Keeps size target start session) {tableUuid : String} {nowMs : Int64}
    {faults : Faults} (hclear : session.Clear size target start nowMs faults) :
    Keeps size target start (session.finalize size target tableUuid nowMs faults) := by
  unfold Session.finalize
  cases hrun : run size (session.sink.finalizeIcebergIncremental (visible size target session.store)
    tableUuid nowMs) faults session.store with
  | mk result s' faults' =>
    have hheld := h.held.incremental h.atTarget hrun
    cases result with
    | error e =>
      obtain ⟨hvisible, hcounts⟩ := addedBy_of_error h.held hclear.clock hclear.whole hrun
      exact { h with
        held := hheld
        counts := fun filePath => (hcounts filePath).trans (h.counts filePath)
        untouched := fun hnone => hvisible.trans (h.untouched hnone)
        total := fun files hfiles => by
          obtain ⟨state, hstate, htotal⟩ := h.total files hfiles
          exact ⟨state, hvisible.trans hstate, htotal⟩ }
    | ok path =>
      obtain ⟨hfiles, hbrings⟩ :=
        brings_of_ok h.held h.atTarget hclear.spells hclear.clock hclear.version hrun
      have hnames : session.sink.dataFiles.map (·.filePath) = session.flushed.map Prod.fst := by
        have heq := congrArg (List.map Prod.fst) h.tracks.files
        rwa [List.map_map, List.map_map] at heq
      have hrows : totalRecords session.sink.dataFiles =
          (session.flushed.map fun f => UInt64.ofNat f.2).sum := by
        have heq := congrArg (List.map Prod.snd) h.tracks.files
        rw [List.map_map, List.map_map] at heq
        exact congrArg List.sum heq
      have hne : session.flushed ≠ [] := by
        intro hnil
        rw [hnil, List.map_nil, List.map_eq_nil_iff] at hnames
        exact hfiles hnames
      refine {
        atTarget := h.atTarget
        tracks := h.tracks
        held := hheld
        counts := fun filePath => ?_
        flushed := List.forall_mem_cons.mpr ⟨⟨hne, List.Subset.refl _⟩, h.flushed⟩
        grows := List.pairwise_cons.mpr ⟨fun files hmem => (h.flushed files hmem).2, h.grows⟩
        fresh := List.forall_mem_cons.mpr ⟨hclear.fresh, h.fresh⟩
        bound := List.forall_mem_cons.mpr ⟨hclear.bound, h.bound⟩
        untouched := fun hnone => absurd hnone (List.cons_ne_nil _ _)
        total := fun files heq => ?_ }
      · rw [hbrings.counts, h.counts, hnames, List.countP_cons, Nat.add_assoc]
      · obtain ⟨rfl, hnone⟩ := List.cons.inj heq
        have hrecords : recordsAt size target session.store = recordsAt size target start := by
          unfold recordsAt
          rw [h.untouched hnone]
        rw [← hrows, ← hrecords]
        exact hbrings.total

theorem Keeps.step (h : Keeps size target start session) {call : SinkCall Row × Faults}
    (hclear : CallClear size target start session call)
    (hstep : sessionStep size P target session call = some session') :
    Keeps size target start session' := by
  obtain ⟨call, faults⟩ := call
  cases call with
  | writeBatch now batch =>
    exact h.call writeBatch_stores (h.tracks.writeBatch) hstep
  | flush now =>
    exact h.call flush_stores (h.tracks.flush) hstep
  | finalize tableUuid nowMs =>
    obtain rfl := Option.some.inj hstep
    exact h.finalize hclear

theorem toString_sum {present : UInt64} {files : List (String × ℕ)}
    (hbound : present.toNat + rowsOf files < 2 ^ 64) :
    toString (present + (files.map fun f => UInt64.ofNat f.2).sum) =
      toString (present.toNat + rowsOf files) := by
  have hsum : (files.map fun f => UInt64.ofNat f.2).sum = UInt64.ofNat (rowsOf files) := by
    clear hbound
    unfold rowsOf
    induction files with
    | nil => rfl
    | cons f rest ih => rw [List.map_cons, List.sum_cons, ih, List.map_cons, List.sum_cons,
        UInt64.ofNat_add]
  have hnat : (present + UInt64.ofNat (rowsOf files)).toNat = present.toNat + rowsOf files := by
    rw [UInt64.toNat_add, UInt64.toNat_ofNat', Nat.add_mod_mod, Nat.mod_eq_of_lt hbound]
  rw [hsum]
  exact congrArg Nat.repr hnat

theorem Keeps.exactlyOnce_iff (h : Keeps size target start session) :
    session.ExactlyOnce size target start ↔ session.finalized.length ≤ 1 := by
  constructor
  · intro honce
    by_contra hmore
    obtain ⟨later, earlier, rest, hfinalized⟩ :
        ∃ later earlier rest, session.finalized = later :: earlier :: rest := by
      match session.finalized, hmore with
      | later :: earlier :: rest, _ => exact ⟨later, earlier, rest, rfl⟩
      | [], hmore => exact absurd (Nat.zero_le 1) hmore
      | [files], hmore => exact absurd (le_refl 1) hmore
    have hgrows := h.grows
    rw [hfinalized] at hgrows
    have hmem : earlier ∈ session.finalized := by
      rw [hfinalized]
      exact List.mem_cons_of_mem _ List.mem_cons_self
    obtain ⟨f, hf⟩ := List.exists_mem_of_ne_nil _ (h.flushed earlier hmem).1
    have hlater : f ∈ later := (List.pairwise_cons.mp hgrows).1 earlier List.mem_cons_self hf
    have hone := (honce later (by rw [hfinalized]; rfl)).1 f hlater
    have hcontains : ∀ files, f ∈ files → (List.map Prod.fst files).contains f.1 = true :=
      fun files hfiles => List.contains_iff_mem.mpr (List.mem_map_of_mem hfiles)
    rw [h.counts, hfinalized, List.countP_cons, List.countP_cons, hcontains later hlater,
      hcontains earlier hf, if_pos rfl] at hone
    omega
  · intro hle files hhead
    have hfinalized : session.finalized = [files] := by
      match hlist : session.finalized with
      | [] =>
        rw [hlist] at hhead
        cases hhead
      | [only] =>
        rw [hlist] at hhead
        exact congrArg (fun f => [f]) (Option.some.inj hhead)
      | later :: earlier :: rest =>
        rw [hlist] at hle
        exact absurd hle (by simp)
    have hmem : files ∈ session.finalized := by
      rw [hfinalized]
      exact List.mem_singleton_self files
    constructor
    · intro f hf
      rw [h.counts, h.fresh files hmem f hf, hfinalized, List.countP_singleton, Nat.zero_add,
        if_pos (List.contains_iff_mem.mpr (List.mem_map_of_mem hf))]
    · obtain ⟨state, hstate, htotal⟩ := h.total files hfinalized
      rw [toString_sum (h.bound files hmem)] at htotal
      exact ⟨state, hstate, htotal⟩

/-- In every run of one sink whose finalizes are clear, the flushed files are added once and their
rows counted once just as long as no more than one finalize has returned `Ok`. -/
theorem exactlyOnce_run_iff (hstart : Held target start) {flushThreshold : UInt64}
    {calls : List (SinkCall Row × Faults)}
    (hclear : Run.Along (sessionStep size P target) (CallClear size target start)
      (.start target flushThreshold start) calls)
    (hrun : Run.run (sessionStep size P target) (.start target flushThreshold start) calls =
      some session) :
    session.ExactlyOnce size target start ↔ session.finalized.length ≤ 1 := by
  have hkeeps : Keeps size target start session :=
    Run.invariant (fun _ _ _ hs hcall hstep => hs.step hcall hstep)
      (keeps_start hstart flushThreshold) hclear hrun
  exact hkeeps.exactlyOnce_iff

end Session

section Orders

/-- A batch fills the sink, which is then finalized. -/
def ordersCalls : List (SinkCall ℕ × Faults) :=
  [(.writeBatch ordersNow ordersBatch, noFaults), (.finalize "c5b1" 1000, noFaults)]

def ordersFile : String × ℕ := ("cdc/orders/2024-05-01/batch-070809-0001.parquet", 3)

/-- The session with the file, before it is finalized. -/
def ordersWritten : Session ℕ := ⟨ordersSink, ordersPut, [ordersFile], []⟩

def ordersOnce : Session ℕ := ⟨ordersSink, ordersCreated, [ordersFile], [[ordersFile]]⟩

theorem run_ordersCalls : Run.run (sessionStep (fun _ => 0) ordersParquet ordersTarget)
    (.start ordersTarget 2 ∅) ordersCalls = some ordersOnce := rfl

theorem clear_ordersCalls : Run.Along (sessionStep (fun _ => 0) ordersParquet ordersTarget)
    (CallClear (fun _ => 0) ordersTarget ∅) (.start ordersTarget 2 ∅) ordersCalls := by
  refine ⟨trivial, fun session hwrite => ⟨?_, fun _ _ => trivial⟩⟩
  have hput : sessionStep (fun _ => 0) ordersParquet ordersTarget (.start ordersTarget 2 ∅)
      (.writeBatch ordersNow ordersBatch, noFaults) = some ordersWritten := rfl
  obtain rfl : ordersWritten = session := Option.some.inj (hput.symm.trans hwrite)
  have hnone : visible (fun _ => 0) ordersTarget ordersPut = none := rfl
  exact {
    spells := spellsItself_orders
    clock := fun state hstate => by
      rw [show ordersWritten.store = ordersPut from rfl, hnone] at hstate
      cases hstate
    version := fun state hstate => by
      rw [show ordersWritten.store = ordersPut from rfl, hnone] at hstate
      cases hstate
    whole := fun _ _ => rfl
    fresh := fun f _ => rfl
    bound := by decide }

theorem exactlyOnce_run_iff_orders :
    ordersOnce.ExactlyOnce (fun _ => 0) ordersTarget ∅ ↔ ordersOnce.finalized.length ≤ 1 :=
  exactlyOnce_run_iff (Or.inl fun key hkey => absurd hkey (AList.notMem_empty key))
    clear_ordersCalls run_ordersCalls

/-- A second finalize without another flush: two snapshots add the file, and the table counts six
rows for three. -/
theorem not_exactlyOnce_orders :
    ∃ session, Run.run (sessionStep (fun _ => 0) ordersParquet ordersTarget)
        (.start ordersTarget 2 ∅) (ordersCalls ++ [(.finalize "c5b1" 2000, noFaults)]) =
          some session ∧
      session.finalized = [[ordersFile], [ordersFile]] ∧
      addedBy (fun _ => 0) ordersTarget session.store ordersFile.1 = 2 ∧
      (visible (fun _ => 0) ordersTarget session.store).bind totalText = some "6" ∧
      ¬ session.ExactlyOnce (fun _ => 0) ordersTarget ∅ := by
  refine ⟨ordersOnce.finalize (fun _ => 0) ordersTarget "c5b1" 2000 noFaults, ?_, ?_⟩
  · rw [Run.run_append, run_ordersCalls]
    rfl
  · have hvisible : visible (fun _ => 0) ordersTarget ordersOnce.store = some ordersTable :=
      visible_ordersCreated
    have hcomputed : (ordersOnce.finalize (fun _ => 0) ordersTarget "c5b1" 2000 noFaults).finalized =
          [[ordersFile], [ordersFile]] ∧
        addedBy (fun _ => 0) ordersTarget (ordersOnce.finalize (fun _ => 0) ordersTarget "c5b1" 2000
          noFaults).store ordersFile.1 = 2 ∧
        (visible (fun _ => 0) ordersTarget (ordersOnce.finalize (fun _ => 0) ordersTarget "c5b1" 2000
          noFaults).store).bind totalText = some "6" := by
      unfold Session.finalize
      rw [hvisible]
      decide +kernel
    obtain ⟨hfinalized, hadded, htotal⟩ := hcomputed
    refine ⟨hfinalized, hadded, htotal, fun honce => ?_⟩
    have hone := (honce [ordersFile] (by rw [hfinalized]; rfl)).1 ordersFile List.mem_cons_self
    rw [hadded] at hone
    exact absurd hone (by decide)

end Orders
end RustLake.Sink
