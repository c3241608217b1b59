import RustLake.Iceberg.Retention
import RustLake.Sink.Listing

/-! Runs at a sink's prefix under which queries read the current snapshot: what each action must be
like, and what a compaction and the discovered path do to it. -/
namespace RustLake.Sink
open RustLake.Json RustLake.ObjectStore RustLake.Iceberg RustLake.Text

variable {Row : Type}

section Steps
variable {size : Object Row → ℕ} {P : Parquet Row} {target : SinkTarget} {lake lake' : Lake Row}
  {s s' : Store (Object Row)} {state after : IcebergTableState} {faults : Faults} {nowMs : Int64}

theorem createdManifest_ne_dataKey {id : Int64} {key : Path} (h : DataKey target.sinkPrefix key) :
    createdManifest target id ≠ key := by
  intro heq
  have hjson := isJson_createdManifest target id
  rw [heq] at hjson
  exact h.isParquet.not_isJson hjson

theorem known_flush_iff (size : Object Row → ℕ) (now : DateTime) (sink : ParquetSink Row)
    (faults : Faults) (s : Store (Object Row)) :
    (∀ key ∈ parquetKeys (putLog size (sink.flush P now) faults s), key ∈ s) ↔
      FlushesKnown P now sink faults s := by
  unfold FlushesKnown ParquetSink.flush
  cases hbuffer : sink.buffer with
  | nil => exact iff_of_true (fun key hkey => absurd hkey List.not_mem_nil) trivial
  | cons first rest =>
    dsimp only
    cases hencode : P.encode first.schema ((first :: rest).map (·.rows)) with
    | error e =>
      exact iff_of_true (fun key hkey => absurd hkey List.not_mem_nil) (Or.inr (Or.inl ⟨e, rfl⟩))
    | ok length =>
      dsimp only
      cases h0 : faults 0 with
      | some e =>
        rw [putLog_put_of_some size h0]
        exact iff_of_true (fun key hkey => absurd hkey List.not_mem_nil) (Or.inl (by simp))
      | none =>
        rw [putLog_put_of_none size h0]
        constructor
        · intro hknown
          exact Or.inr (Or.inr (hknown _ (List.mem_singleton_self _)))
        · rintro (hfault | ⟨e, hfailed⟩ | hold) key hkey
          · exact absurd rfl hfault
          · cases hfailed
          · rw [List.mem_singleton.mp hkey]
            exact hold

theorem known_writeBatch_iff (size : Object Row → ℕ) (now : DateTime) (sink : ParquetSink Row)
    (batch : RecordBatch Row) (faults : Faults) (s : Store (Object Row)) :
    (∀ key ∈ parquetKeys (putLog size (sink.writeBatch P now batch) faults s), key ∈ s) ↔
      ((sink.withBatch batch).flushThreshold ≤ (sink.withBatch batch).bufferRows →
        FlushesKnown P now (sink.withBatch batch) faults s) := by
  have hwrite : sink.writeBatch P now batch =
      if (sink.withBatch batch).flushThreshold ≤ (sink.withBatch batch).bufferRows then
        (sink.withBatch batch).flush P now
      else pure (sink.withBatch batch, .ok ()) := rfl
  rw [hwrite]
  split
  · rename_i hfull
    rw [known_flush_iff]
    exact ⟨fun h _ => h, fun h => h hfull⟩
  · rename_i hroom
    constructor
    · exact fun _ hfull => absurd hfull hroom
    · exact fun _ key hkey => absurd hkey List.not_mem_nil

/-- After a call of a sink the current snapshot has all files just when there is no table, or the
call has put no new file. -/
theorem queriesCurrent_call_iff (hsound : Sound size target lake)
    (h : QueriesCurrent size target target.cdcUrl lake.store) {i : ℕ}
    {sink sink' : ParquetSink Row} (hsink : lake.sinks[i]? = some sink)
    {log : List (Path × Object Row)} (hstores : Stores sink sink' log lake.store s') :
    QueriesCurrent size target target.cdcUrl s' ↔
      visible size target lake.store = none ∨ ∀ key ∈ parquetKeys log, key ∈ lake.store := by
  have hpfx := (hsound.sinks sink (List.mem_of_getElem? hsink)).1.2
  have hadds := hstores.adds
  rw [hpfx] at hadds
  have hsound' := hsound.of_dataKey hadds
  have hsame : visible size target s' = visible size target lake.store :=
    visible_congr (sameMetadata_of_dataKey hadds)
  rcases hstores.files with ⟨hlog, rfl, -⟩ | ⟨df, rows, length, hkey, hlog, hinsert, -⟩
  · rw [hlog]
    exact iff_of_true h (Or.inr fun key hkey => absurd hkey List.not_mem_nil)
  · rw [hpfx] at hkey
    have hputs : parquetKeys log = [Path.ofText df.filePath] := by
      rw [hlog]
      rfl
    have hjson : ∀ id, jsonAt s' (createdManifest target id) =
        jsonAt lake.store (createdManifest target id) := by
      intro id
      apply jsonAt_congr
      rw [hinsert, AList.lookup_insert_ne (createdManifest_ne_dataKey hkey)]
    rw [hputs]
    constructor
    · intro hafter
      by_contra hnot
      obtain ⟨hsome, hnew⟩ := not_or.mp hnot
      obtain ⟨state, hstate⟩ := Option.ne_none_iff_exists'.mp hsome
      have hstate' := hsame.trans hstate
      -- The new file is listed, and so it was in the current snapshot and there before.
      have hlisted : Path.ofText df.filePath ∈ listedFiles s' target.cdcUrl := by
        apply hkey.mem_cdcFiles
        rw [hinsert]
        exact (AList.mem_insert _).mpr (Or.inl rfl)
      rw [hafter state hstate', hsound'.isCurrentFile_iff hstate'] at hlisted
      obtain ⟨id, doc, df', hid, hdoc, hrest⟩ := hlisted
      have hbefore : IsCurrentFile lake.store state (Path.ofText df.filePath) :=
        (hsound.isCurrentFile_iff hstate).mpr ⟨id, doc, df', hid, (hjson id).symm.trans hdoc, hrest⟩
      have hold := (mem_cdcFiles.mp ((h state hstate _).mpr hbefore)).1
      exact hnew fun key hmem => (List.mem_singleton.mp hmem) ▸ hold
    · intro hknown after hafter
      have hstate := hsame.symm.trans hafter
      have hold : Path.ofText df.filePath ∈ lake.store := by
        rcases hknown with hnone | hknown
        · rw [hnone] at hstate
          cases hstate
        · exact hknown _ (List.mem_singleton_self _)
      have hmem : ∀ key, IsParquet key → (key ∈ s' ↔ key ∈ lake.store) := by
        intro key _
        rw [hinsert, AList.mem_insert]
        constructor
        · rintro (rfl | hmem)
          · exact hold
          · exact hmem
        · exact Or.inr
      exact files_of_kept hsound hsound' hmem hafter h hstate rfl fun id _ => hjson id

/-- The metadata files and a manifest list of a time. -/
def PutAt (target : SinkTarget) (nowMs : Int64) (key : Path) : Prop :=
  NamedV key ∨ key = createdManifest target nowMs

theorem not_putAt {id : Int64} (hne : id ≠ nowMs) :
    ¬ PutAt target nowMs (createdManifest target id) := by
  rintro (hnamed | heq)
  · exact not_namedV_manifest _ id hnamed
  · exact hne (createdManifest_inj heq)

theorem currentId_created (schema : ArrowSchema) (files : List DataFileInfo) (tableUuid : String) :
    currentId (createdState target schema files tableUuid nowMs) = some nowMs := by
  refine currentId_eq_some.mpr ⟨createdState_currentSnapshotId, ?_⟩
  refine ⟨(createdSnapshot target.location files nowMs).withoutFiles, ?_⟩
  rw [IcebergTableState.snapshot?, createdState_snapshots]
  simp [createdSnapshot]

/-- A call of `finalize_iceberg` either leaves the store, or it puts its manifest list unless the
second put fails. -/
theorem finalizeIceberg_lists (size : Object Row → ℕ) {sink : ParquetSink Row}
    (hat : sink.At target) (tableUuid : String) (nowMs : Int64) (faults : Faults)
    (s : Store (Object Row)) :
    (run size (sink.finalizeIceberg tableUuid nowMs) faults s).store = s ∨
      sink.dataFiles ≠ [] ∧ faults 0 = none ∧ (faults 1 = none →
        (run size (sink.finalizeIceberg tableUuid nowMs) faults s).store.lookup
          (createdManifest target nowMs) =
            some (.json (manifestList target.location sink.dataFiles nowMs))) := by
  unfold ParquetSink.finalizeIceberg ParquetSink.finalizeIcebergIncremental
  split
  · exact Or.inl rfl
  · rename_i hfiles
    split
    · exact Or.inl rfl
    · rw [hat.1, hat.2]
      unfold writeIcebergMetadata
      rw [if_neg hfiles]
      dsimp only
      cases h0 : faults 0 with
      | some e =>
        left
        rw [run_put, answer_of_some h0, effect_of_some h0]
        rfl
      | none =>
        right
        refine ⟨by simpa using hfiles, rfl, fun h1 => ?_⟩
        have hnext : faults.next 0 = none := h1
        rw [run_put, answer_of_none h0, effect_of_none h0, Program.orFail_ok, Program.done_bind,
          run_put, answer_of_none hnext, effect_of_none hnext]
        exact AList.lookup_insert _

theorem queriesCurrent_finalize (hsound : Sound size target lake)
    (h : QueriesCurrent size target target.cdcUrl lake.store) {sink : ParquetSink Row}
    (hsink : sink ∈ lake.sinks) (tableUuid : String)
    (hsuits : sink.dataFiles = [] ∨ faults 0 ≠ none ∨
      (∃ state, visible size target lake.store = some state ∧ state.metadataVersion ≠ 1 ∧
        state.currentSnapshotId ≠ some nowMs) ∨
      (faults 1 = none ∧
        ∀ key ∈ listedFiles lake.store target.cdcUrl, key ∈ fileKeys sink.dataFiles)) :
    QueriesCurrent size target target.cdcUrl
      (run size (sink.finalizeIceberg tableUuid nowMs) faults lake.store).store := by
  obtain ⟨hat, hstored⟩ := hsound.sinks sink hsink
  have hsound' := hsound.finalize hsink tableUuid nowMs faults
  have hjsonOnly := touches_finalizeIceberg hat (isJson_versionKey target.sinkPrefix 1)
    (isJson_createdManifest target nowMs) tableUuid
  have hputs := touches_finalizeIceberg (K := PutAt target nowMs) hat
    (Or.inl (namedV_of_fileName (fileName_versionKey target.sinkPrefix 1))) (Or.inr rfl) tableUuid
  have hmem : ∀ key, IsParquet key →
      (key ∈ (run size (sink.finalizeIceberg tableUuid nowMs) faults lake.store).store ↔
        key ∈ lake.store) := fun key hkey =>
    mem_iff_of_lookup_eq (lookup_run_of_touches size hjsonOnly faults lake.store hkey.not_isJson)
  have hothers : ∀ id, id ≠ nowMs → jsonAt (run size (sink.finalizeIceberg tableUuid nowMs) faults
      lake.store).store (createdManifest target id) =
        jsonAt lake.store (createdManifest target id) := fun id hne =>
    jsonAt_congr (lookup_run_of_touches size hputs faults lake.store (not_putAt hne))
  rcases finalizeIceberg_lists size hat tableUuid nowMs faults lake.store with
    hsame | ⟨hfiles, h0, hlist⟩
  · rw [hsame]
    exact h
  · intro after hafter
    rcases hsuits with hnil | hfault | ⟨state, hstate, hlater, hnow⟩ | ⟨h1, hall⟩
    · exact absurd hnil hfiles
    · exact absurd h0 hfault
    · rcases hsound.held.visible_finalize hat hafter with hbefore | ⟨-, hfirst⟩
      · obtain rfl : state = after := Option.some.inj (hstate.symm.trans hbefore)
        refine files_of_kept hsound hsound' hmem hafter h hbefore rfl fun id hid => ?_
        apply hothers
        intro heq
        rw [← heq] at hnow
        exact hnow (currentId_eq_some.mp hid).1
      · exact absurd (hfirst state hstate) hlater
    · have hjson := jsonAt_eq_some.mpr (hlist h1)
      have hexact : ∀ key, key ∈ listedFiles lake.store target.cdcUrl ↔
          key ∈ fileKeys sink.dataFiles := by
        intro key
        constructor
        · exact hall key
        · intro hkey
          obtain ⟨df, hdf, rfl⟩ := List.mem_map.mp hkey
          exact (hstored df hdf).1.mem_cdcFiles (hstored df hdf).2
      rcases hsound.held.visible_finalize hat hafter with hbefore | ⟨⟨schema, rfl⟩, -⟩
      · by_cases hid : currentId after = some nowMs
        · exact files_of_listed hsound' hmem hafter hexact hid hjson
        · refine files_of_kept hsound hsound' hmem hafter h hbefore rfl fun id hcurrent => ?_
          apply hothers
          rintro rfl
          exact hid hcurrent
      · exact files_of_listed hsound' hmem hafter hexact (currentId_created _ _ _) hjson

end Steps

section Commits
variable {size : Object Row → ℕ} {P : Parquet Row} {target : SinkTarget} {lake lake' : Lake Row}
  {s s' : Store (Object Row)} {state after : IcebergTableState} {faults : Faults} {nowMs : Int64}

theorem Sound.manifestKey_eq (h : Sound size target lake)
    (hstate : visible size target lake.store = some state) (nowMs : Int64) :
    manifestKey state nowMs = createdManifest target nowMs := by
  have hstrip : stripS3Prefix state.location = target.sinkPrefix := by
    rw [h.held.location hstate]
    exact stripS3Prefix_location target.plain target.sinkPrefix
  unfold manifestKey createdManifest
  rw [hstrip]

/-- An append either leaves the store, or it puts its manifest list; where its second put fails,
nothing else. -/
theorem appendSnapshot_lists (size : Object Row → ℕ) (state : IcebergTableState)
    (files : List DataFileInfo) (schema : ArrowSchema) (operation : String) (nowMs : Int64)
    (faults : Faults) (s : Store (Object Row)) :
    (run size (appendSnapshot state files schema operation nowMs) faults s).store = s ∨
      files ≠ [] ∧ faults 0 = none ∧
        (run size (appendSnapshot state files schema operation nowMs) faults s).store.lookup
          (manifestKey state nowMs) = some (.json (manifestList state.location files nowMs)) ∧
        (faults 1 ≠ none → SameMetadata s
          (run size (appendSnapshot state files schema operation nowMs) faults s).store) := by
  have hmanifest : SameMetadata s (s.insert (manifestKey state nowMs)
      (.json (manifestList state.location files nowMs))) :=
    .insert (not_namedV_manifest _ nowMs) _
  unfold appendSnapshot
  split
  · exact Or.inl rfl
  · rename_i hfiles
    cases h0 : faults 0 with
    | some e =>
      left
      rw [run_put, answer_of_some h0, effect_of_some h0]
      rfl
    | none =>
      right
      refine ⟨by simpa using hfiles, rfl, ?_⟩
      rw [run_put, answer_of_none h0, effect_of_none h0, Program.orFail_ok, Program.done_bind]
      cases appendedMetadata state files schema operation nowMs with
      | none =>
        exact ⟨AList.lookup_insert _, fun _ => hmanifest⟩
      | some doc =>
        rw [Program.orPanic_some, Program.done_bind, run_putVersion]
        cases h1 : faults.next 0 with
        | some e => exact ⟨AList.lookup_insert _, fun _ => hmanifest⟩
        | none =>
          constructor
          · exact (AList.lookup_insert_ne (manifestKey_ne _ _ _ _)).trans (AList.lookup_insert _)
          · exact fun hfault => absurd h1 hfault

/-- The snapshot of an append is the current one. -/
theorem currentId_appended {files : List DataFileInfo} {schema : ArrowSchema} {operation : String}
    {doc : Value} (hdoc : appendedMetadata state files schema operation nowMs = some doc)
    (hstate : WellFormed state.metadata) (path : Path) :
    currentId (stateOf doc path) = some nowMs := by
  refine currentId_eq_some.mpr ⟨?_, Option.isSome_iff_exists.mp ?_⟩
  · unfold stateOf
    simp only [get_current_appendedMetadata hdoc, Option.bind_some, asI64_ofI64]
  · refine List.find?_isSome.mpr ⟨parseSnapshot (snapshotEntry state files operation nowMs), ?_, ?_⟩
    · change _ ∈ parseSnapshots doc
      rw [parseSnapshots_appendedMetadata hdoc (hstate _ (by decide))]
      exact List.mem_append_right _ (List.mem_singleton_self _)
    · rw [parseSnapshot_snapshotId, decide_eq_true rfl]

theorem snapshot?_stateOf_expired {expiredIds : List Int64} {doc : Value} {path : Path}
    (h : expiredMetadata state expiredIds nowMs = some doc)
    (hloaded : state = stateOf state.metadata path) (path' : Path) (id : Int64) :
    (stateOf doc path').snapshot? id = if id ∈ expiredIds then none else state.snapshot? id := by
  rw [hloaded, ← attach_nil state.metadata path] at h
  have hsame := @snapshot?_expired state.metadata doc path path' (fun _ => []) nowMs expiredIds h id
  rw [recordedState, recordedState, attach_nil, attach_nil, ← hloaded] at hsame
  exact hsame

/-- Other commits keep the current snapshot; an expiry does when it does not expire it. -/
theorem currentId_kept {c : Commit} (hc : c.addsSnapshot = false) {doc : Value}
    (hdoc : c.Produces target.sinkPrefix state doc) {path : Path}
    (hloaded : state = stateOf state.metadata path)
    (hkept : ∀ id, state.currentSnapshotId = some id → id ∉ (dropped state c).map (·.snapshotId))
    (path' : Path) : currentId (stateOf doc path') = currentId state := by
  have hcurrent : ∀ {doc : Value}, doc.get "current-snapshot-id" =
      state.metadata.get "current-snapshot-id" →
      (stateOf doc path').currentSnapshotId = state.currentSnapshotId := by
    intro doc hget
    rw [hloaded]
    exact congrArg (·.bind Value.asI64) hget
  have hsnaps : ∀ {doc : Value}, doc.get "snapshots" = state.metadata.get "snapshots" →
      (stateOf doc path').snapshots = state.snapshots := by
    intro doc hget
    rw [hloaded]
    exact parseSnapshots_congr hget
  cases c with
  | create => cases hc
  | append => cases hc
  | evolveSchema changes nowMs =>
    obtain ⟨-, _, _, -, -, hdoc⟩ := hdoc
    exact currentId_congr (hcurrent (get_evolvedMetadata hdoc (by decide)))
      (hsnaps (get_evolvedMetadata hdoc (by decide)))
  | evolvePartition newFields nowMs =>
    exact currentId_congr (hcurrent (get_repartitionedMetadata hdoc (by decide)))
      (hsnaps (get_repartitionedMetadata hdoc (by decide)))
  | expire olderThanMs retainLastN nowMs =>
    have hid := hcurrent (get_expiredMetadata hdoc.2 (by decide))
    unfold currentId
    rw [hid]
    cases hnow : state.currentSnapshotId with
    | none => rfl
    | some id =>
      have hfound : (stateOf doc path').snapshot? id = state.snapshot? id := by
        have hsame := snapshot?_stateOf_expired hdoc.2 hloaded path' id
        exact hsame.trans (if_neg (hkept id hnow))
      simp only [Option.filter, hfound]

/-- An append that is handed all files that are there. -/
theorem queriesCurrent_append (hsound : Sound size target lake)
    (h : QueriesCurrent size target target.cdcUrl lake.store)
    (hstate : visible size target lake.store = some state) {files : List DataFileInfo}
    {schema : ArrowSchema} {operation : String}
    (hsuits : CommitSuits target state faults lake.store (.append files schema operation nowMs)) :
    QueriesCurrent size target target.cdcUrl
      (run size (appendSnapshot state files schema operation nowMs) faults lake.store).store := by
  obtain ⟨key, hview⟩ := visible_eq_some.mp hstate
  obtain ⟨n, -, -, hnewest, -, -⟩ := hsound.held.of_view hview
  have hc : (Commit.append files schema operation nowMs).isCreate = false := rfl
  have hsound' := hsound.commit hc hstate faults
  have hjsonOnly := hsound.touches_json hc hstate
  have hputs : ((Commit.append files schema operation nowMs).program target.sinkPrefix state :
      Program (Object Row) String).Touches (PutAt target nowMs) := by
    apply touches_commit (fun version => Or.inl (namedV_versionPath state.location version)) hc
    · exact fun _ => Or.inr (hsound.manifestKey_eq hstate nowMs)
    · exact fun snap hsnap => absurd hsnap List.not_mem_nil
  have hvisible : ∀ after, visible size target
      (run size (appendSnapshot state files schema operation nowMs) faults lake.store).store =
        some after → after = state ∨ currentId after = some nowMs := by
    intro after hafter
    rcases hsound.held.visible_commit hc hstate hafter with hsame | ⟨doc, hdoc, rfl⟩
    · exact Or.inl hsame
    · exact Or.inr (currentId_appended hdoc.2 hnewest.located.wellFormed _)
  have hmem : ∀ key, IsParquet key →
      (key ∈ (run size (appendSnapshot state files schema operation nowMs) faults lake.store).store ↔
        key ∈ lake.store) := fun key hkey =>
    mem_iff_of_lookup_eq (lookup_run_of_touches size hjsonOnly faults lake.store hkey.not_isJson)
  have hothers : ∀ id, id ≠ nowMs →
      jsonAt (run size (appendSnapshot state files schema operation nowMs) faults lake.store).store
        (createdManifest target id) = jsonAt lake.store (createdManifest target id) := fun id hne =>
    jsonAt_congr (lookup_run_of_touches size hputs faults lake.store (not_putAt hne))
  rcases appendSnapshot_lists size state files schema operation nowMs faults lake.store with
    hsame | ⟨hfiles, h0, hlist, hfault⟩
  · rw [hsame]
    exact h
  · rw [hsound.manifestKey_eq hstate, hsound.held.location hstate] at hlist
    have hjson := jsonAt_eq_some.mpr hlist
    intro after hafter
    rcases hsuits with hnil | hfirst | ⟨h1, hnow⟩ | hall
    · exact absurd hnil hfiles
    · exact absurd h0 hfirst
    · obtain rfl : state = after := by
        rw [visible_congr (hfault h1), hstate] at hafter
        exact Option.some.inj hafter
      refine files_of_kept hsound hsound' hmem hafter h hstate rfl fun id hid => ?_
      apply hothers
      rintro rfl
      exact hnow (currentId_eq_some.mp hid).1
    · by_cases hid : currentId after = some nowMs
      · exact files_of_listed hsound' hmem hafter hall hid hjson
      · obtain rfl : after = state := (hvisible after hafter).resolve_right hid
        refine files_of_kept hsound hsound' hmem hafter h hstate rfl fun id hcurrent => ?_
        apply hothers
        rintro rfl
        exact hid hcurrent

theorem queriesCurrent_commit (hsound : Sound size target lake)
    (h : QueriesCurrent size target target.cdcUrl lake.store) {c : Commit} (hc : c.isCreate = false)
    (hstate : visible size target lake.store = some state)
    (hsuits : CommitSuits target state faults lake.store c) :
    QueriesCurrent size target target.cdcUrl
      (run size (c.program target.sinkPrefix state) faults lake.store).store := by
  obtain ⟨key, hview⟩ := visible_eq_some.mp hstate
  obtain ⟨n, -, -, hnewest, -, -⟩ := hsound.held.of_view hview
  have hlocated := hnewest.located
  have hsound' := hsound.commit hc hstate faults
  -- Data files stay, and of the manifest lists only those that the commit puts or deletes change.
  have hjsonOnly : (c.program target.sinkPrefix state : Program (Object Row) String).Touches
      IsJson := hsound.touches_json hc hstate
  have hmem : ∀ key, IsParquet key →
      (key ∈ (run size (c.program target.sinkPrefix state) faults lake.store).store ↔
        key ∈ lake.store) := fun key hkey =>
    mem_iff_of_lookup_eq (lookup_run_of_touches size hjsonOnly faults lake.store hkey.not_isJson)
  cases hadds : c.addsSnapshot with
  | false =>
    have hkept : ∀ id, state.currentSnapshotId = some id →
        id ∉ (dropped state c).map (·.snapshotId) := by
      cases c with
      | create => cases hc
      | append => cases hadds
      | evolveSchema => exact fun id _ => List.not_mem_nil
      | evolvePartition => exact fun id _ => List.not_mem_nil
      | expire => exact hsuits
    have hputs : (c.program target.sinkPrefix state : Program (Object Row) String).Touches
        fun key => NamedV key ∨
          ∃ snap ∈ dropped state c, key = createdManifest target snap.snapshotId := by
      apply touches_commit (fun version => Or.inl (namedV_versionPath state.location version)) hc
      · intro hadded
        rw [hadds] at hadded
        cases hadded
      · intro snap hsnap
        exact Or.inr ⟨snap, hsnap, hsound.manifestListKey_eq hstate (mem_of_mem_dropped hsnap)⟩
    have hjson : ∀ id, currentId state = some id →
        jsonAt (run size (c.program target.sinkPrefix state) faults lake.store).store
          (createdManifest target id) = jsonAt lake.store (createdManifest target id) := by
      intro id hid
      apply jsonAt_congr
      apply lookup_run_of_touches size hputs faults lake.store
      rintro (hnamed | ⟨snap, hsnap, heq⟩)
      · exact not_namedV_manifest _ id hnamed
      · rw [createdManifest_inj heq] at hid
        exact hkept _ (currentId_eq_some.mp hid).1 (List.mem_map_of_mem hsnap)
    intro after hafter
    rcases hsound.held.visible_commit hc hstate hafter with rfl | ⟨doc, hdoc, rfl⟩
    · exact files_of_kept hsound hsound' hmem hafter h hstate rfl hjson
    · have hid := currentId_kept hadds hdoc hlocated.loaded hkept
        (c.target target.sinkPrefix state)
      exact files_of_kept hsound hsound' hmem hafter h hstate hid hjson
  | true =>
    cases c with
    | create => cases hc
    | append => exact queriesCurrent_append hsound h hstate hsuits
    | evolveSchema => cases hadds
    | evolvePartition => cases hadds
    | expire => cases hadds

end Commits

section Runs
variable {size : Object Row → ℕ} {P : Parquet Row} {target : SinkTarget} {lake lake' : Lake Row}
  {s s' : Store (Object Row)} {state after : IcebergTableState} {faults : Faults} {nowMs : Int64}

theorem queriesCurrent_step (hsound : Sound size target lake)
    (h : QueriesCurrent size target target.cdcUrl lake.store) {call : Action Row × Faults}
    (hsuits : Suits size P target lake call) (hstep : step size P target lake call = some lake') :
    QueriesCurrent size target target.cdcUrl lake'.store := by
  obtain ⟨action, faults⟩ := call
  cases action with
  | openSink flushThreshold =>
    obtain rfl := Option.some.inj hstep
    exact h
  | writeBatch i now batch =>
    obtain ⟨sink, sink', result, s', faults', hsink, hrun, rfl⟩ := Lake.call_eq_some hstep
    have hknown := (hsuits sink hsink).imp_right
      (known_writeBatch_iff size now sink batch faults lake.store).mpr
    exact (queriesCurrent_call_iff hsound h hsink (writeBatch_stores hrun)).mpr hknown
  | flush i now =>
    obtain ⟨sink, sink', result, s', faults', hsink, hrun, rfl⟩ := Lake.call_eq_some hstep
    have hknown := (hsuits sink hsink).imp_right (known_flush_iff size now sink faults lake.store).mpr
    exact (queriesCurrent_call_iff hsound h hsink (flush_stores hrun)).mpr hknown
  | finalize i tableUuid nowMs =>
    obtain ⟨sink, hsink, rfl⟩ := Option.map_eq_some_iff.mp hstep
    exact queriesCurrent_finalize hsound h (List.mem_of_getElem? hsink) tableUuid (hsuits sink hsink)
  | commit c =>
    cases hc : c.isCreate with
    | true => simp [step, hc] at hstep
    | false =>
      rw [step, if_neg (by rw [hc]; exact Bool.false_ne_true)] at hstep
      obtain ⟨state, hstate, rfl⟩ := Option.map_eq_some_iff.mp hstep
      exact queriesCurrent_commit hsound h hc hstate (hsuits state hstate)
  | compact recorded targetFileSizeMb schema now nowMs =>
    obtain ⟨state, hstate, rfl⟩ := Option.map_eq_some_iff.mp hstep
    dsimp only
    rw [(hsuits state hstate).store_eq]
    exact h

theorem Sound.run (h : Sound size target lake) {actions : List (Action Row × Faults)}
    (hrun : Run.run (Sink.step size P target) lake actions = some lake') : Sound size target lake' :=
  Run.invariant (fun _ _ _ hs _ hstep => hs.step hstep) h (Run.along_of_forall fun _ _ => trivial)
    hrun

/-- In every run whose actions all suit, the files that are queried under the consumer's URL are those
of the current snapshot, in every state. Under the discovered path nothing is ever listed, so that
they are when the current snapshot has no data file. -/
theorem queriesCurrent_run (hstart : lake.Fresh target) {actions : List (Action Row × Faults)}
    (hrun : Run.run (step size P target) lake actions = some lake') :
    (Run.Along (step size P target) (Suits size P target) lake actions →
      QueriesCurrent size target target.cdcUrl lake'.store) ∧
    (QueriesCurrent size target target.discoveredUrl lake'.store ↔
      ∀ state, visible size target lake'.store = some state →
        ∀ key, ¬ IsCurrentFile lake'.store state key) := by
  have hsound : Sound size target lake := hstart.sound
  constructor
  · intro halong
    have hfirst : QueriesCurrent size target target.cdcUrl lake.store := by
      intro state hstate
      rw [hstart.invisible] at hstate
      cases hstate
    have hboth : Sound size target lake' ∧ QueriesCurrent size target target.cdcUrl lake'.store :=
      Run.invariant (I := fun lake : Lake Row =>
          Sound size target lake ∧ QueriesCurrent size target target.cdcUrl lake.store)
        (fun _ _ _ hs hsuits hstep =>
          ⟨hs.1.step hstep, queriesCurrent_step hs.1 hs.2 hsuits hstep⟩)
        ⟨hsound, hfirst⟩ halong hrun
    exact hboth.2
  · have hempty := (hsound.run hrun).discovered_empty
    constructor
    · intro h state hstate key hcurrent
      exact hempty key ((h state hstate key).mpr hcurrent)
    · intro hnone state hstate key
      exact iff_of_false (hempty key) (hnone state hstate key)

end Runs

section Compacted
variable {size : Object Row → ℕ} {P : Parquet Row} {target : SinkTarget} {lake : Lake Row}
  {s s' : Store (Object Row)} {state after : IcebergTableState}
  {recorded : Int64 → List DataFileInfo} {targetFileSizeMb : UInt64} {schema : ArrowSchema}
  {now : DateTime} {nowMs : Int64} {faults faults' : Faults} {result : CompactionResult} {key : Path}

/-- A compaction deletes no data file. -/
theorem mem_compacted
    (hrun : run size (compactTable P (state.attach recorded) targetFileSizeMb schema now.datePart
      nowMs) faults s = ⟨.ok result, s', faults'⟩) (hparquet : IsParquet key) (hmem : key ∈ s) :
    key ∈ s' := by
  obtain ⟨s₁, hwrites, hstore⟩ := compactTable_cases size P state recorded targetFileSizeMb schema
    now nowMs faults s
  rw [hrun] at hstore
  dsimp only at hstore
  have hmem₁ : key ∈ s₁ := by
    rcases hwrites key with hsame | ⟨-, hput⟩
    · exact (mem_iff_of_lookup_eq hsame).mpr hmem
    · exact hput
  rcases hstore with hend | ⟨files, faults₁, happend⟩
  · rw [hend]
    exact hmem₁
  · have hversion : ∀ version, IsJson (Path.ofText (versionPath state.location version)) :=
      json_versionPath state.location
    have htouches : ((Commit.append files schema "replace" nowMs).program "" state :
        Program (Object Row) String).Touches IsJson := by
      apply touches_commit hversion rfl
      · exact fun _ => json_manifestKey state nowMs
      · exact fun snap hsnap => absurd hsnap List.not_mem_nil
    have hsame := lookup_run_of_touches size htouches faults₁ s₁ hparquet.not_isJson
    rw [happend]
    exact (mem_iff_of_lookup_eq hsame).mpr hmem₁

/-- A compaction leaves the files that it replaces: they are listed, and not in its snapshot. -/
theorem not_queriesCurrent_compacted (hsound : Sound size target lake)
    (hstate : visible size target lake.store = some state)
    (hrun : run size (compactTable P (state.attach recorded) targetFileSizeMb schema now.datePart
      nowMs) faults lake.store = ⟨.ok result, s', faults'⟩)
    (hafter : visible size target s' = some after) (hcurrent : after.currentSnapshotId = some nowMs)
    (hlisted : key ∈ listedFiles lake.store target.cdcUrl)
    (hreplaced : ¬ CompactedKey target.sinkPrefix now.datePart key) :
    ¬ QueriesCurrent size target target.cdcUrl s' := by
  intro h
  have hlocation := hsound.held.location hstate
  have hstrip : stripS3Prefix state.location = target.sinkPrefix := by
    rw [hlocation]
    exact stripS3Prefix_location target.plain target.sinkPrefix
  have hsound' : Sound size target ⟨lake.sinks, s'⟩ := by
    have hstep := hsound.compact (P := P) hstate recorded targetFileSizeMb schema now nowMs faults
    rwa [hrun] at hstep
  have hkept : key ∈ listedFiles s' target.cdcUrl := by
    obtain ⟨hmem, hunder, hparquet⟩ := mem_cdcFiles.mp hlisted
    exact mem_cdcFiles.mpr ⟨mem_compacted hrun hparquet hmem, hunder, hparquet⟩
  -- The manifest list of the new snapshot has compacted files only.
  obtain ⟨files, -, hnames, -, hlist⟩ := compactTable_log hrun
  have hmanifest : manifestKey (state.attach recorded) nowMs = createdManifest target nowMs :=
    hsound.manifestKey_eq hstate nowMs
  rw [hmanifest, attach_location, hlocation] at hlist
  rw [attach_location, hstrip] at hnames
  rw [h after hafter, hsound'.isCurrentFile_iff hafter] at hkept
  obtain ⟨id, doc, df, hid, hdoc, hpath, rfl⟩ := hkept
  obtain rfl : nowMs = id := Option.some.inj (hcurrent.symm.trans (currentId_eq_some.mp hid).1)
  obtain rfl : manifestList target.location files nowMs = doc :=
    Option.some.inj ((jsonAt_eq_some.mpr hlist).symm.trans hdoc)
  rw [manifestPaths_manifestList, List.mem_map] at hpath
  obtain ⟨df', hdf', hsame⟩ := hpath
  obtain ⟨fileCounter, hname⟩ := hnames df' hdf'
  rw [(String.append_right_inj _).mp hsame] at hname
  exact hreplaced ⟨fileCounter, congrArg Path.ofText hname⟩

end Compacted

section Orders

/-- A sink is opened, a batch fills it, and the table is created. -/
def ordersActions : List (Action ℕ × Faults) :=
  [(.openSink 2, noFaults), (.writeBatch 0 ordersNow ordersBatch, noFaults),
    (.finalize 0 "c5b1" 1000, noFaults)]

/-- The sink after its file is put. -/
def ordersSink : ParquetSink ℕ := { ordersFlushed with flushThreshold := 2 }

/-- The store with that file. -/
def ordersPut : Store (Object ℕ) :=
  (∅ : Store (Object ℕ)).insert "cdc/orders/2024-05-01/batch-070809-0001.parquet"
    (.parquet [1, 2, 3] 300)

/-- The store once the table is created. -/
def ordersCreated : Store (Object ℕ) := ordersFinalized ordersSink 1000 ordersPut

theorem fresh_orders : (⟨[], ∅⟩ : Lake ℕ).Fresh ordersTarget :=
  ⟨rfl, fun key hkey => absurd hkey (AList.notMem_empty key)⟩

theorem run_ordersActions : Run.run (step (fun _ => 0) ordersParquet ordersTarget) ⟨[], ∅⟩
    ordersActions = some ⟨[ordersSink], ordersCreated⟩ := rfl

theorem suits_ordersActions : Run.Along (step (fun _ => 0) ordersParquet ordersTarget)
    (Suits (fun _ => 0) ordersParquet ordersTarget) ⟨[], ∅⟩ ordersActions := by
  refine ⟨trivial, fun lake hopen => ?_⟩
  obtain rfl : (⟨[.new "cdc/orders" "lake" 2], ∅⟩ : Lake ℕ) = lake := Option.some.inj hopen
  refine ⟨fun sink _ => Or.inl fresh_orders.invisible, fun lake hwrite => ?_⟩
  have hput : step (fun _ => 0) ordersParquet ordersTarget ⟨[.new "cdc/orders" "lake" 2], ∅⟩
      (.writeBatch 0 ordersNow ordersBatch, noFaults) = some ⟨[ordersSink], ordersPut⟩ := rfl
  obtain rfl : (⟨[ordersSink], ordersPut⟩ : Lake ℕ) = lake := Option.some.inj (hput.symm.trans hwrite)
  refine ⟨fun sink hsink => ?_, fun _ _ => trivial⟩
  obtain rfl : ordersSink = sink := Option.some.inj hsink
  have hlisted : listedFiles ordersPut ordersTarget.cdcUrl ⊆ fileKeys ordersSink.dataFiles := by
    decide
  exact Or.inr (Or.inr (Or.inr ⟨rfl, fun key hkey => hlisted hkey⟩))

/-- The table that readers then see. -/
def ordersTable : IcebergTableState :=
  createdState ordersTarget ordersSchema ordersSink.dataFiles "c5b1" 1000

theorem visible_ordersCreated :
    visible (fun _ => 0) ordersTarget ordersCreated = some ordersTable := by
  rfl

theorem queriesCurrent_run_orders :
    QueriesCurrent (fun _ => 0) ordersTarget ordersTarget.cdcUrl ordersCreated :=
  (queriesCurrent_run fresh_orders run_ordersActions).1 suits_ordersActions

/-- A compaction of that table on the next day. -/
def ordersCompact : Action ℕ × Faults :=
  (.compact (fun _ => ordersSink.dataFiles) 128 ordersSchema ⟨2024, 5, 2, 7, 8, 9⟩ 2000, noFaults)

def ordersMerged : Outcome (Object ℕ) CompactionResult :=
  run (fun _ => 0) (compactTable ordersParquet (ordersTable.attach fun _ => ordersSink.dataFiles) 128
    ordersSchema (DateTime.datePart ⟨2024, 5, 2, 7, 8, 9⟩) 2000) noFaults ordersCreated

theorem current_ordersMerged :
    (visible (fun _ => 0) ordersTarget ordersMerged.store).map (·.currentSnapshotId) =
      some (some 2000) := by
  decide +kernel

/-- After a compaction the file that it has replaced is still queried; and under the path at which
the table is discovered there is not even the file of the first snapshot. -/
theorem not_queriesCurrent_orders :
    (∃ lake', Run.run (step (fun _ => 0) ordersParquet ordersTarget) ⟨[], ∅⟩
        (ordersActions ++ [ordersCompact]) = some lake' ∧
      ¬ QueriesCurrent (fun _ => 0) ordersTarget ordersTarget.cdcUrl lake'.store) ∧
    ∃ lake', Run.run (step (fun _ => 0) ordersParquet ordersTarget) ⟨[], ∅⟩ ordersActions =
        some lake' ∧
      ¬ QueriesCurrent (fun _ => 0) ordersTarget ordersTarget.discoveredUrl lake'.store := by
  have hsound : Sound (fun _ => 0) ordersTarget (⟨[ordersSink], ordersCreated⟩ : Lake ℕ) :=
    fresh_orders.sound.run run_ordersActions
  constructor
  · have hcompact : step (fun _ => 0) ordersParquet ordersTarget ⟨[ordersSink], ordersCreated⟩
        ordersCompact = some ⟨[ordersSink], ordersMerged.store⟩ := by
      unfold step ordersCompact
      rw [visible_ordersCreated]
      rfl
    refine ⟨⟨[ordersSink], ordersMerged.store⟩, ?_, ?_⟩
    · rw [Run.run_append, run_ordersActions, Option.bind_some, Run.run, hcompact]
      rfl
    · have hresult : ∃ result, ordersMerged.result = .ok result := ⟨_, rfl⟩
      obtain ⟨result, hresult⟩ := hresult
      obtain ⟨after, hafter, hcurrent⟩ := Option.map_eq_some_iff.mp current_ordersMerged
      have hlisted : "cdc/orders/2024-05-01/batch-070809-0001.parquet" ∈
          listedFiles ordersCreated ordersTarget.cdcUrl := by
        decide
      have hreplaced : ¬ CompactedKey "cdc/orders" (DateTime.datePart ⟨2024, 5, 2, 7, 8, 9⟩)
          "cdc/orders/2024-05-01/batch-070809-0001.parquet" := by
        rintro ⟨fileCounter, heq⟩
        have hname := congrArg fileName heq
        rw [fileName_ofText_datedFile _ _ (isSegment_compactedName fileCounter)] at hname
        have hfirst : (compactedName fileCounter).toList.head? = some 'c' := by
          simp [compactedName, String.toList_append]
        rw [← hname] at hfirst
        exact absurd hfirst (by decide)
      exact not_queriesCurrent_compacted hsound visible_ordersCreated (run_eq_of_result _ hresult)
        hafter hcurrent hlisted hreplaced
  · refine ⟨_, run_ordersActions, fun h => ?_⟩
    have hmanifest : jsonAt ordersCreated (createdManifest ordersTarget 1000) =
        some (manifestList ordersTarget.location ordersSink.dataFiles 1000) := by rfl
    have hcurrent : IsCurrentFile ordersCreated ordersTable
        "cdc/orders/2024-05-01/batch-070809-0001.parquet" := by
      refine (hsound.isCurrentFile_iff visible_ordersCreated).mpr ⟨1000, _,
        ⟨"cdc/orders/2024-05-01/batch-070809-0001.parquet", 300, 3⟩, currentId_created _ _ _,
        hmanifest, ?_, by decide⟩
      rw [manifestPaths_manifestList]
      exact List.mem_singleton_self _
    exact hsound.discovered_empty _ ((h ordersTable visible_ordersCreated _).mpr hcurrent)

end Orders

end RustLake.Sink
