import RustLake.Iceberg.Newest
import RustLake.Sink.Manifests

/-! Runs of a pipeline on one prefix, with maintenance in between: each run has a sink of its own,
which finalizes a table for the files it has flushed. What readers find of the table afterwards. -/
namespace RustLake.Sink
open RustLake.Json RustLake.ObjectStore RustLake.Iceberg RustLake.Text

/-- Where a sink writes. A bucket has no slash in its name. -/
structure SinkTarget where
  bucket : String
  sinkPrefix : String
  plain : '/' ∉ bucket.toList

/-- `from_s3_uri`: the bucket is what stands before the first slash. -/
def SinkTarget.fromS3Uri (uri : String) : Except String SinkTarget :=
  match (uri.toList.dropPrefix? "s3://".toList).or (uri.toList.dropPrefix? "s3a://".toList) with
  | none => .error ("Invalid S3 URI: " ++ uri)
  | some stripped => .ok
    { bucket := String.ofList (stripped.takeWhile (· ≠ '/'))
      sinkPrefix :=
        String.ofList (((stripped.dropWhile (· ≠ '/')).drop 1).rdropWhile (· = '/'))
      plain := by
        rw [String.toList_ofList]
        intro hmem
        simpa using List.mem_takeWhile_imp hmem }

example : (SinkTarget.fromS3Uri "s3://lake/cdc/orders/").map (fun t => (t.bucket, t.sinkPrefix)) =
    .ok ("lake", "cdc/orders") := by decide

def SinkTarget.location (target : SinkTarget) : String :=
  "s3://" ++ target.bucket ++ "/" ++ target.sinkPrefix

/-- The key of the manifest list that a creation at the target puts. -/
def createdManifest (target : SinkTarget) (nowMs : Int64) : Path :=
  Path.ofText (target.sinkPrefix ++ "/metadata/" ++ manifestListName nowMs)

variable {Row : Type}

/-- The sink writes to the target. -/
def ParquetSink.At (sink : ParquetSink Row) (target : SinkTarget) : Prop :=
  sink.bucket = target.bucket ∧ sink.sinkPrefix = target.sinkPrefix

/-- `finalize_iceberg` creates a table, whatever is there. -/
def ParquetSink.finalizeIceberg (sink : ParquetSink Row) (tableUuid : String) (nowMs : Int64) :
    Program (Object Row) String := sink.finalizeIcebergIncremental none tableUuid nowMs

/-- A call of `finalize_iceberg` that returned `Ok`. -/
structure FinalizeCall (Row : Type) where
  sink : ParquetSink Row
  nowMs : Int64
  before : Store (Object Row)
  after : Store (Object Row)

section Runs
variable (size : Object Row → ℕ) (P : Parquet Row) (target : SinkTarget)

/-- The calls that a run has made, the latest first, and the store it has come to. Any sinks at the
target finalize, and in between the table that readers see is committed to. Others, the sinks with
their data files among them, may change all objects but the metadata files of the table. -/
inductive PipelineRun : List (FinalizeCall Row) → Store (Object Row) → Prop
  | start {s : Store (Object Row)} : (∀ key ∈ s, ¬ InTable target.sinkPrefix key) →
      PipelineRun [] s
  | finalize {calls : List (FinalizeCall Row)} {sink : ParquetSink Row} {stored : List Path}
      {tableUuid path : String} {nowMs : Int64} {faults faults' : Faults}
      {s s' : Store (Object Row)} : PipelineRun calls s → Reaches size P sink stored →
      sink.At target →
      run size (sink.finalizeIceberg tableUuid nowMs) faults s = ⟨.ok path, s', faults'⟩ →
      PipelineRun (⟨sink, nowMs, s, s'⟩ :: calls) s'
  | failed {calls : List (FinalizeCall Row)} {sink : ParquetSink Row} {stored : List Path}
      {tableUuid : String} {e : Failure} {nowMs : Int64} {faults faults' : Faults}
      {s s' : Store (Object Row)} : PipelineRun calls s → Reaches size P sink stored →
      sink.At target →
      run size (sink.finalizeIceberg tableUuid nowMs) faults s = ⟨.error e, s', faults'⟩ →
      PipelineRun calls s'
  | maintain {calls : List (FinalizeCall Row)} {c : Commit} {key : Path}
      {state : IcebergTableState} {result : Except Failure String} {faults faults' : Faults}
      {s s' : Store (Object Row)} : PipelineRun calls s → c.isCreate = false →
      tableView size target.sinkPrefix s = .ok (some (key, state)) →
      run size (c.program target.sinkPrefix state) faults s = ⟨result, s', faults'⟩ →
      PipelineRun calls s'
  | other {calls : List (FinalizeCall Row)} {s s' : Store (Object Row)} : PipelineRun calls s →
      (∀ key, InTable target.sinkPrefix key → s'.lookup key = s.lookup key) → PipelineRun calls s'

/-- The current snapshot of a table lists the data file in its manifest list. -/
def Lists (s : Store (Object Row)) (state : IcebergTableState) (df : DataFileInfo) : Prop :=
  ∃ id snap doc, state.currentSnapshotId = some id ∧ state.snapshot? id = some snap ∧
    s.lookup snap.manifestObject = some (.json doc) ∧
    state.location ++ "/" ++ df.filePath ∈ manifestPaths doc

/-- After the call readers find a table that has all snapshots and schemas that they saw before it,
and its current snapshot lists every data file that the sink has flushed. -/
def FinalizeCall.KeepsCommitted (call : FinalizeCall Row) : Prop :=
  ∃ key after, tableView size target.sinkPrefix call.after = .ok (some (key, after)) ∧
    (∀ old before, tableView size target.sinkPrefix call.before = .ok (some (old, before)) →
      before.snapshots ⊆ after.snapshots ∧ before.schemas ⊆ after.schemas) ∧
    ∀ df ∈ call.sink.dataFiles, Lists call.after after df

end Runs

/-- The columns of a schema in the table's terms. -/
def columnsOf (schema : ArrowSchema) : List IcebergField := (icebergFields schema).map parseField

/-- The table was created in the same millisecond, with the same totals and the same columns. -/
structure FinalizeCall.Repeats (call : FinalizeCall Row) (state : IcebergTableState) : Prop where
  snapshots : ∀ snap ∈ state.snapshots, snap.timestampMs = call.nowMs ∧
    snap.summary = summaryOf "append" 0 0 0 call.sink.dataFiles
  schemas : ∀ version ∈ state.schemas, call.sink.lastSchema.map columnsOf = some version.fields

/-- The current snapshot of the table is of the same millisecond, or its manifest list has the data
files of the sink already. -/
def FinalizeCall.Listed (target : SinkTarget) (call : FinalizeCall Row)
    (state : IcebergTableState) : Prop :=
  (∃ id snap, state.currentSnapshotId = some id ∧ state.snapshot? id = some snap ∧
    snap.manifestObject = createdManifest target call.nowMs) ∨
  ∀ df ∈ call.sink.dataFiles, Lists call.before state df

/-- Readers can open tables at the prefix, and where they saw one before the call it was either the
same first version, or a later one with the data files in its current snapshot. -/
def FinalizeCall.Fits (size : Object Row → ℕ) (target : SinkTarget) (call : FinalizeCall Row) :
    Prop :=
  SpellsItself target.sinkPrefix ∧
    ∀ key state, tableView size target.sinkPrefix call.before = .ok (some (key, state)) →
      (key = versionKey target.sinkPrefix 1 → call.Repeats state) ∧
      (key ≠ versionKey target.sinkPrefix 1 → call.Listed target state)

/-- What the runs make of a prefix: there is no table, or there is one of the target's location,
and its first version is as it was created. -/
def Held (target : SinkTarget) (s : Store (Object Row)) : Prop :=
  (∀ key ∈ s, ¬ InTable target.sinkPrefix key) ∨
  ∃ n state, Newest target.sinkPrefix n state s ∧ state.location = target.location ∧
    (n = 1 → ∃ schema files tableUuid nowMs,
      state.metadata = initialMetadata target.location schema files tableUuid nowMs)

section Steps
variable {size : Object Row → ℕ} {P : Parquet Row} {target : SinkTarget}
  {s s' : Store (Object Row)} {schema : ArrowSchema} {files : List DataFileInfo}
  {tableUuid : String} {nowMs : Int64}

/-- The table that a creation at the target makes. -/
def createdState (target : SinkTarget) (schema : ArrowSchema) (files : List DataFileInfo)
    (tableUuid : String) (nowMs : Int64) : IcebergTableState :=
  stateOf (initialMetadata target.location schema files tableUuid nowMs)
    (versionFile target.sinkPrefix 1)

/-- A creation where no later version hides it. -/
theorem newest_created
    (holder : ∀ key ∈ s, InTable target.sinkPrefix key → key = versionKey target.sinkPrefix 1 ∨
      Older 1 key)
    (hput : SameMetadata (s.insert (versionKey target.sinkPrefix 1)
      (.json (initialMetadata target.location schema files tableUuid nowMs))) s') :
    Newest target.sinkPrefix 1 (createdState target schema files tableUuid nowMs) s' := by
  apply newest_of_put Nat.one_pos (Nat.one_lt_two_pow (by decide))
    (located_initial target.plain schema files tableUuid nowMs) ?_ fun key htable =>
      hput key htable.1
  intro key hkey htable hne
  rcases holder key hkey htable with heq | hold
  · exact absurd heq hne
  · exact hold

theorem Held.congr (h : Held target s)
    (hsame : ∀ key, InTable target.sinkPrefix key → s'.lookup key = s.lookup key) :
    Held target s' := by
  rcases h with hnone | ⟨n, state, hnewest, hlocation, hfirst⟩
  · left
    intro key hkey htable
    exact hnone key ((mem_iff_of_lookup_eq (hsame key htable)).mp hkey) htable
  · exact Or.inr ⟨n, state, hnewest.keep fun key htable => Or.inl (hsame key htable), hlocation,
      hfirst⟩

/-- What a creation's put makes of the prefix: the new table where there was none or a first
version, and else the table that was there. -/
theorem held_created (h : Held target s)
    (hput : SameMetadata (s.insert (versionKey target.sinkPrefix 1)
      (.json (initialMetadata target.location schema files tableUuid nowMs))) s') :
    (Newest target.sinkPrefix 1 (createdState target schema files tableUuid nowMs) s' ∧
      ∀ n state, Newest target.sinkPrefix n state s → n = 1) ∨
    ∃ n state, 1 < n ∧ Newest target.sinkPrefix n state s ∧ Newest target.sinkPrefix n state s' ∧
      state.location = target.location := by
  rcases h with hnone | ⟨n, state, hnewest, hlocation, -⟩
  · left
    constructor
    · apply newest_created _ hput
      intro key hkey htable
      exact absurd htable (hnone key hkey)
    · intro n state hnewest
      exact absurd (inTable_versionKey _ n) (hnone _ (mem_of_lookup hnewest.lookup))
  · by_cases hn : n = 1
    · left
      subst hn
      constructor
      · apply newest_created _ hput
        intro key hkey htable
        by_cases hne : key = versionKey target.sinkPrefix 1
        · exact Or.inl hne
        · exact Or.inr (hnewest.older key hkey htable hne)
      · intro n' state' hother
        exact hother.version_unique hnewest
    · right
      have hpos := hnewest.pos
      have hlt : 1 < n := by omega
      refine ⟨n, state, hlt, hnewest, hnewest.keep fun key htable => ?_, hlocation⟩
      by_cases hkey : key = versionKey target.sinkPrefix 1
      · right
        rw [hkey]
        have holder : Older n (versionKey target.sinkPrefix 1) := older_versionKey hlt hnewest.bound
        refine ⟨?_, holder⟩
        intro heq
        have hver : fileVersion (fileName (versionKey target.sinkPrefix 1)) =
            some (Int32.ofNat n) := by
          rw [heq, fileName_versionKey, fileVersion_versionName hnewest.bound]
        exact Int32.lt_irrefl (holder _ hver)
      · left
        rw [hput key htable.1, AList.lookup_insert_ne hkey]

section Finalize
variable {sink : ParquetSink Row} {faults faults' : Faults}

theorem finalizeIceberg_ok {path : String} (hat : sink.At target)
    (hrun : run size (sink.finalizeIceberg tableUuid nowMs) faults s = ⟨.ok path, s', faults'⟩) :
    ∃ schema, sink.lastSchema = some schema ∧ sink.dataFiles ≠ [] ∧
      s' = (s.insert (versionKey target.sinkPrefix 1) (.json (initialMetadata target.location schema
          sink.dataFiles tableUuid nowMs))).insert (createdManifest target nowMs)
        (.json (manifestList target.location sink.dataFiles nowMs)) := by
  obtain ⟨hbucket, hbegins⟩ := hat
  unfold ParquetSink.finalizeIceberg ParquetSink.finalizeIcebergIncremental at hrun
  split at hrun
  · cases hrun
  · split at hrun
    · cases hrun
    · rename_i schema hschema
      obtain ⟨hfiles, hpath, hstore⟩ := writeIcebergMetadata_ok hrun
      refine ⟨schema, hschema, hfiles, ?_⟩
      rw [hpath, hbucket, hbegins, versionFile_one] at hstore
      exact hstore

theorem finalizeIceberg_leaves {result : Except Failure String} (hat : sink.At target)
    (hrun : run size (sink.finalizeIceberg tableUuid nowMs) faults s = ⟨result, s', faults'⟩) :
    SameMetadata s s' ∨ ∃ schema, SameMetadata (s.insert (versionKey target.sinkPrefix 1)
      (.json (initialMetadata target.location schema sink.dataFiles tableUuid nowMs))) s' := by
  obtain ⟨hbucket, hbegins⟩ := hat
  unfold ParquetSink.finalizeIceberg ParquetSink.finalizeIcebergIncremental at hrun
  split at hrun
  · cases hrun
    exact Or.inl (.refl _)
  · split at hrun
    · cases hrun
      exact Or.inl (.refl _)
    · rename_i schema hschema
      have hleaves := writeIcebergMetadata_leaves hrun
      rw [hbucket, hbegins] at hleaves
      rcases hleaves with hsame | hput
      · exact Or.inl hsame
      · exact Or.inr ⟨schema, hput⟩

theorem Held.finalize {result : Except Failure String} (h : Held target s) (hat : sink.At target)
    (hrun : run size (sink.finalizeIceberg tableUuid nowMs) faults s = ⟨result, s', faults'⟩) :
    Held target s' := by
  rcases finalizeIceberg_leaves hat hrun with hsame | ⟨schema, hput⟩
  · exact h.congr fun key htable => hsame key htable.1
  · rcases held_created h hput with ⟨hnew, -⟩ | ⟨n, state, hn, -, hkept, hlocation⟩
    · exact Or.inr ⟨1, _, hnew, rfl, fun _ => ⟨schema, sink.dataFiles, tableUuid, nowMs, rfl⟩⟩
    · exact Or.inr ⟨n, state, hkept, hlocation, fun heq => absurd heq (by omega)⟩

end Finalize

/-- What readers see is what is held. -/
theorem Held.of_view (h : Held target s) {key : Path} {state : IcebergTableState}
    (hview : tableView size target.sinkPrefix s = .ok (some (key, state))) :
    ∃ n, SpellsItself target.sinkPrefix ∧ key = versionKey target.sinkPrefix n ∧
      Newest target.sinkPrefix n state s ∧ state.location = target.location ∧
      (n = 1 → ∃ schema files tableUuid nowMs,
        state.metadata = initialMetadata target.location schema files tableUuid nowMs) := by
  rcases h with hnone | ⟨n, held, hnewest, hlocation, hfirst⟩
  · obtain ⟨-, -, hlatest⟩ := eq_stateOf_of_tableView size hview
    obtain ⟨hlisted, ver, hver, -⟩ := latestOf_spec hlatest
    obtain ⟨hstored, hunder⟩ := Store.mem_listing.mp hlisted
    exact absurd ⟨namedV_of_fileVersion hver, Or.inl hunder⟩ (hnone key hstored)
  · obtain ⟨hspells, hkey, rfl⟩ := hnewest.eq_of_view hview
    exact ⟨n, hspells, hkey, hnewest, hlocation, hfirst⟩

theorem Held.maintain {c : Commit} {key : Path} {state : IcebergTableState}
    {result : Except Failure String} {faults faults' : Faults} (h : Held target s)
    (hc : c.isCreate = false)
    (hview : tableView size target.sinkPrefix s = .ok (some (key, state)))
    (hrun : run size (c.program target.sinkPrefix state) faults s = ⟨result, s', faults'⟩) :
    Held target s' := by
  obtain ⟨n, -, -, hnewest, hlocation, hfirst⟩ := h.of_view hview
  rcases hnewest.commit hc hrun with hkept | ⟨doc, -, hnext, hmade⟩
  · exact Or.inr ⟨n, state, hkept, hlocation, hfirst⟩
  · have hpos := hnewest.pos
    exact Or.inr ⟨n + 1, _, hmade, hnext.trans hlocation, fun heq => absurd heq (by omega)⟩

theorem PipelineRun.held {calls : List (FinalizeCall Row)} (h : PipelineRun size P target calls s) :
    Held target s := by
  induction h with
  | start hnone => exact Or.inl hnone
  | finalize _ _ hat hrun ih => exact ih.finalize hat hrun
  | failed _ _ hat hrun ih => exact ih.finalize hat hrun
  | maintain _ hc hview hrun ih => exact ih.maintain hc hview hrun
  | other _ hsame ih => exact ih.congr hsame

theorem createdState_snapshots :
    (createdState target schema files tableUuid nowMs).snapshots =
      [(createdSnapshot target.location files nowMs).withoutFiles] :=
  parseSnapshots_created target.location schema files tableUuid nowMs

theorem createdState_schemas :
    (createdState target schema files tableUuid nowMs).schemas = [⟨0, columnsOf schema⟩] := rfl

theorem createdState_currentSnapshotId :
    (createdState target schema files tableUuid nowMs).currentSnapshotId = some nowMs :=
  asI64_ofI64 nowMs

/-- A manifest list at the target is found under the key that its commit has put it under. -/
theorem manifestObject_at (target : SinkTarget) {snap : SnapshotInfo} {id : Int64}
    (h : snap.manifestListPath = target.location ++ "/metadata/" ++ manifestListName id) :
    snap.manifestObject = createdManifest target id := by
  have hstrip : stripS3Prefix ("s3://" ++ target.bucket ++ "/" ++
      (target.sinkPrefix ++ "/metadata/" ++ manifestListName id)) =
      target.sinkPrefix ++ "/metadata/" ++ manifestListName id :=
    stripS3Prefix_location target.plain _
  have htext : target.location ++ "/metadata/" ++ manifestListName id = "s3://" ++ target.bucket ++
      "/" ++ (target.sinkPrefix ++ "/metadata/" ++ manifestListName id) := by
    simp only [SinkTarget.location, String.append_assoc]
  rw [SnapshotInfo.manifestObject, h, htext, hstrip, createdManifest]

/-- A created table lists the files it was created with. -/
theorem lists_created (hstored : s.lookup (createdManifest target nowMs) =
      some (.json (manifestList target.location files nowMs))) {df : DataFileInfo} (hdf : df ∈ files) :
    Lists s (createdState target schema files tableUuid nowMs) df := by
  have hfound : (createdState target schema files tableUuid nowMs).snapshot? nowMs =
      some (createdSnapshot target.location files nowMs).withoutFiles := by
    rw [IcebergTableState.snapshot?, createdState_snapshots]
    simp [createdSnapshot]
  have hobject : (createdSnapshot target.location files nowMs).withoutFiles.manifestObject =
      createdManifest target nowMs := manifestObject_at target rfl
  refine ⟨nowMs, _, manifestList target.location files nowMs, createdState_currentSnapshotId, hfound,
    ?_, ?_⟩
  · rw [hobject]
    exact hstored
  · rw [manifestPaths_manifestList]
    exact List.mem_map_of_mem (f := fun df => target.location ++ "/" ++ df.filePath) hdf

/-- When one creation leaves what another has made. -/
theorem createdState_subset_iff {schema₀ : ArrowSchema} {files₀ : List DataFileInfo}
    {tableUuid₀ : String} {nowMs₀ : Int64} :
    (createdState target schema₀ files₀ tableUuid₀ nowMs₀).snapshots ⊆
        (createdState target schema files tableUuid nowMs).snapshots ∧
      (createdState target schema₀ files₀ tableUuid₀ nowMs₀).schemas ⊆
        (createdState target schema files tableUuid nowMs).schemas ↔
    (nowMs₀ = nowMs ∧ summaryOf "append" 0 0 0 files₀ = summaryOf "append" 0 0 0 files) ∧
      columnsOf schema₀ = columnsOf schema := by
  rw [createdState_snapshots, createdState_snapshots, createdState_schemas, createdState_schemas]
  simp only [List.cons_subset, List.mem_singleton, List.nil_subset, and_true]
  apply and_congr
  · constructor
    · intro heq
      exact ⟨congrArg SnapshotInfo.timestampMs heq, congrArg SnapshotInfo.summary heq⟩
    · rintro ⟨rfl, hsummary⟩
      simp only [SnapshotInfo.withoutFiles, createdSnapshot, hsummary]
  · simp

section Step
variable {sink : ParquetSink Row} {faults faults' : Faults} {path : String}

/-- The call made a new first version: there was none before it, or another first one. -/
theorem keepsCommitted_iff_of_new (hheld : Held target s) (hschema : sink.lastSchema = some schema)
    (hnew : Newest target.sinkPrefix 1
      (createdState target schema sink.dataFiles tableUuid nowMs) s')
    (hfirst : ∀ n state, Newest target.sinkPrefix n state s → n = 1)
    (hstored : s'.lookup (createdManifest target nowMs) =
      some (.json (manifestList target.location sink.dataFiles nowMs))) :
    (⟨sink, nowMs, s, s'⟩ : FinalizeCall Row).KeepsCommitted size target ↔
      (⟨sink, nowMs, s, s'⟩ : FinalizeCall Row).Fits size target := by
  -- What was visible before was itself just created.
  have hseen : ∀ key before, tableView size target.sinkPrefix s = .ok (some (key, before)) →
      key = versionKey target.sinkPrefix 1 ∧
      ((before.snapshots ⊆ (createdState target schema sink.dataFiles tableUuid nowMs).snapshots ∧
        before.schemas ⊆ (createdState target schema sink.dataFiles tableUuid nowMs).schemas) ↔
      (⟨sink, nowMs, s, s'⟩ : FinalizeCall Row).Repeats before) := by
    intro key before hview
    obtain ⟨n, -, hkey, hnewest, -, hinitial⟩ := hheld.of_view hview
    obtain rfl := hfirst n before hnewest
    obtain ⟨schema₀, files₀, tableUuid₀, nowMs₀, hmetadata⟩ := hinitial rfl
    have hbefore : before = createdState target schema₀ files₀ tableUuid₀ nowMs₀ := by
      rw [hnewest.located.loaded, hmetadata]
      rfl
    refine ⟨hkey, ?_⟩
    rw [hbefore, createdState_subset_iff]
    constructor
    · rintro ⟨⟨htime, hsummary⟩, hcolumns⟩
      constructor
      · intro snap hsnap
        rw [createdState_snapshots, List.mem_singleton] at hsnap
        rw [hsnap]
        exact ⟨htime, hsummary⟩
      · intro version hversion
        rw [createdState_schemas, List.mem_singleton] at hversion
        rw [hversion]
        change sink.lastSchema.map columnsOf = _
        rw [hschema, Option.map_some, hcolumns]
    · intro hrepeats
      have hsnap := hrepeats.snapshots (createdSnapshot target.location files₀ nowMs₀).withoutFiles
        (by rw [createdState_snapshots]; exact List.mem_singleton_self _)
      have hversion := hrepeats.schemas ⟨0, columnsOf schema₀⟩
        (by rw [createdState_schemas]; exact List.mem_singleton_self _)
      rw [show (⟨sink, nowMs, s, s'⟩ : FinalizeCall Row).sink.lastSchema = some schema from hschema,
        Option.map_some, Option.some.injEq] at hversion
      exact ⟨hsnap, hversion.symm⟩
  constructor
  · rintro ⟨key, after, hview, hkept, -⟩
    obtain ⟨hspells, -, rfl⟩ := hnew.eq_of_view hview
    refine ⟨hspells, fun old before hbefore => ?_⟩
    obtain ⟨hkey, hrepeats⟩ := hseen old before hbefore
    constructor
    · intro _
      exact hrepeats.mp (hkept old before hbefore)
    · intro hne
      exact absurd hkey hne
  · rintro ⟨hspells, hfits⟩
    refine ⟨_, _, hnew.view size hspells, fun old before hbefore => ?_, fun df hdf => ?_⟩
    · obtain ⟨hkey, hrepeats⟩ := hseen old before hbefore
      exact hrepeats.mpr ((hfits old before hbefore).1 hkey)
    · exact lists_created hstored hdf

/-- The call left a later version as it was. -/
theorem keepsCommitted_iff_of_later {n : ℕ} {state : IcebergTableState} (hn : 1 < n)
    (hold : Newest target.sinkPrefix n state s) (hkept : Newest target.sinkPrefix n state s')
    (hlocation : state.location = target.location)
    (hstore : ∀ key, ¬ NamedV key → s'.lookup key =
      (s.insert (createdManifest target nowMs)
        (.json (manifestList target.location sink.dataFiles nowMs))).lookup key) :
    (⟨sink, nowMs, s, s'⟩ : FinalizeCall Row).KeepsCommitted size target ↔
      (⟨sink, nowMs, s, s'⟩ : FinalizeCall Row).Fits size target := by
  have hkey : versionKey target.sinkPrefix n ≠ versionKey target.sinkPrefix 1 := by
    intro heq
    have hnames := congrArg fileName heq
    rw [fileName_versionKey, fileName_versionKey] at hnames
    have hone := versionName_inj hold.bound (Nat.one_lt_two_pow (by decide)) hnames
    omega
  -- The manifest lists of the table are where they were, but for the one of this call.
  have hobject : ∀ id snap, state.snapshot? id = some snap →
      ∃ made, snap.manifestObject = createdManifest target made := by
    intro id snap hsnap
    have hmem : snap ∈ parseSnapshots state.metadata := by
      rw [← hold.located.snapshots]
      exact List.mem_of_find?_eq_some hsnap
    obtain ⟨made, hpath⟩ := hold.located.manifests snap hmem
    rw [hlocation] at hpath
    exact ⟨made, manifestObject_at target hpath⟩
  have hnamed : ∀ id snap, state.snapshot? id = some snap → ¬ NamedV snap.manifestObject := by
    intro id snap hsnap
    obtain ⟨made, hmade⟩ := hobject id snap hsnap
    rw [hmade]
    exact not_namedV_manifest _ made
  have hown : ∀ {id snap df}, state.currentSnapshotId = some id → state.snapshot? id = some snap →
      snap.manifestObject = createdManifest target nowMs → df ∈ sink.dataFiles →
      Lists s' state df := by
    intro id snap df hid hsnap heq hdf
    refine ⟨id, snap, manifestList target.location sink.dataFiles nowMs, hid, hsnap, ?_, ?_⟩
    · rw [hstore _ (hnamed id snap hsnap), heq, AList.lookup_insert]
    · rw [manifestPaths_manifestList, hlocation]
      exact List.mem_map_of_mem (f := fun df => target.location ++ "/" ++ df.filePath) hdf
  have hlists : (∀ df ∈ sink.dataFiles, Lists s' state df) ↔
      (⟨sink, nowMs, s, s'⟩ : FinalizeCall Row).Listed target state := by
    constructor
    · intro hall
      by_cases hsame : ∃ id snap, state.currentSnapshotId = some id ∧
          state.snapshot? id = some snap ∧ snap.manifestObject = createdManifest target nowMs
      · exact Or.inl hsame
      · right
        intro df hdf
        obtain ⟨id, snap, doc, hid, hsnap, hlookup, hpath⟩ := hall df hdf
        have hne : snap.manifestObject ≠ createdManifest target nowMs :=
          fun heq => hsame ⟨id, snap, hid, hsnap, heq⟩
        rw [hstore _ (hnamed id snap hsnap), AList.lookup_insert_ne hne] at hlookup
        exact ⟨id, snap, doc, hid, hsnap, hlookup, hpath⟩
    · rintro (⟨id, snap, hid, hsnap, heq⟩ | hlisted) df hdf
      · exact hown hid hsnap heq hdf
      · obtain ⟨id, snap, doc, hid, hsnap, hlookup, hpath⟩ := hlisted df hdf
        by_cases heq : snap.manifestObject = createdManifest target nowMs
        · exact hown hid hsnap heq hdf
        · refine ⟨id, snap, doc, hid, hsnap, ?_, hpath⟩
          rw [hstore _ (hnamed id snap hsnap), AList.lookup_insert_ne heq]
          exact hlookup
  constructor
  · rintro ⟨key, after, hview, -, hall⟩
    obtain ⟨hspells, -, rfl⟩ := hkept.eq_of_view hview
    refine ⟨hspells, fun old before hbefore => ?_⟩
    obtain ⟨-, rfl, rfl⟩ := hold.eq_of_view hbefore
    constructor
    · intro heq
      exact absurd heq hkey
    · intro _
      exact hlists.mp hall
  · rintro ⟨hspells, hfits⟩
    have hbefore := hold.view size hspells
    have hlisted := (hfits _ _ hbefore).2 hkey
    refine ⟨_, _, hkept.view size hspells, fun old before hview => ?_, hlists.mpr hlisted⟩
    obtain ⟨-, -, rfl⟩ := hold.eq_of_view hview
    exact ⟨List.Subset.refl _, List.Subset.refl _⟩

/-- What a call of `finalize_iceberg` does to the table, by what it finds. -/
theorem keepsCommitted_iff_fits (hheld : Held target s) (hat : sink.At target)
    (hrun : run size (sink.finalizeIceberg tableUuid nowMs) faults s = ⟨.ok path, s', faults'⟩) :
    (⟨sink, nowMs, s, s'⟩ : FinalizeCall Row).KeepsCommitted size target ↔
      (⟨sink, nowMs, s, s'⟩ : FinalizeCall Row).Fits size target := by
  obtain ⟨schema, hschema, -, hstore⟩ := finalizeIceberg_ok hat hrun
  have hmanifest : ¬ NamedV (createdManifest target nowMs) :=
    not_namedV_manifest target.sinkPrefix nowMs
  have hput : SameMetadata (s.insert (versionKey target.sinkPrefix 1) (.json (initialMetadata
      target.location schema sink.dataFiles tableUuid nowMs))) s' := by
    rw [hstore]
    exact .insert hmanifest _
  rcases held_created hheld hput with ⟨hnew, hfirst⟩ | ⟨n, state, hn, hold, hkept, hlocation⟩
  · have hstored : s'.lookup (createdManifest target nowMs) =
        some (.json (manifestList target.location sink.dataFiles nowMs)) := by
      rw [hstore, AList.lookup_insert]
    exact keepsCommitted_iff_of_new hheld hschema hnew hfirst hstored
  · have hothers : ∀ key, ¬ NamedV key → s'.lookup key =
        (s.insert (createdManifest target nowMs)
          (.json (manifestList target.location sink.dataFiles nowMs))).lookup key := by
      intro key hkey
      rw [hstore]
      by_cases heq : key = createdManifest target nowMs
      · rw [heq, AList.lookup_insert, AList.lookup_insert]
      · have hne : key ≠ versionKey target.sinkPrefix 1 := by
          intro hversion
          rw [hversion] at hkey
          exact hkey (namedV_of_fileName (fileName_versionKey target.sinkPrefix 1))
        rw [AList.lookup_insert_ne heq, AList.lookup_insert_ne heq, AList.lookup_insert_ne hne]
    exact keepsCommitted_iff_of_later hn hold hkept hlocation hothers

end Step

/-- In every run a call that returned `Ok` keeps what was committed, and brings in the files of its
sink, just when it fits: the table it creates must not meet another one. -/
theorem keepsCommitted_run_iff {calls : List (FinalizeCall Row)}
    (h : PipelineRun size P target calls s) {call : FinalizeCall Row} (hcall : call ∈ calls) :
    call.KeepsCommitted size target ↔ call.Fits size target := by
  induction h with
  | start => cases hcall
  | finalize hrest _ hat hrun ih =>
    rcases List.mem_cons.mp hcall with rfl | hold
    · exact keepsCommitted_iff_fits hrest.held hat hrun
    · exact ih hold
  | failed _ _ _ _ ih => exact ih hcall
  | maintain _ _ _ _ ih => exact ih hcall
  | other _ _ ih => exact ih hcall

end Steps

section Orders

def ordersTarget : SinkTarget := ⟨"lake", "cdc/orders", by decide⟩

/-- The sink of a second run, on another day. -/
def ordersRestarted : ParquetSink ℕ :=
  { (ParquetSink.new "cdc/orders" "lake" 2 : ParquetSink ℕ) with
    filesWritten := 1
    totalRowsWritten := 2
    dataFiles := [⟨"cdc/orders/2024-05-02/batch-070809-0001.parquet", 200, 2⟩]
    lastSchema := some ordersSchema }

theorem reaches_ordersRestarted : Reaches (fun _ => 0) ordersParquet ordersRestarted
    ["cdc/orders/2024-05-02/batch-070809-0001.parquet"] := by
  have hwrite : (run (fun _ => 0) ((ParquetSink.new "cdc/orders" "lake" 2).writeBatch ordersParquet
      ⟨2024, 5, 2, 7, 8, 9⟩ ⟨ordersSchema, [4, 5]⟩) noFaults ∅).result =
        .ok (ordersRestarted, .ok ()) := by rfl
  have hlog : (putLog (fun _ => 0) ((ParquetSink.new "cdc/orders" "lake" 2).writeBatch ordersParquet
      ⟨2024, 5, 2, 7, 8, 9⟩ ⟨ordersSchema, [4, 5]⟩) noFaults ∅).map Prod.fst =
        ["cdc/orders/2024-05-02/batch-070809-0001.parquet"] := by rfl
  have hnew : Reaches (fun _ => 0) ordersParquet (.new "cdc/orders" "lake" 2) [] :=
    .new "cdc/orders" "lake" 2
  have hreaches := hnew.writeBatch (run_eq_of_result _ hwrite)
  rwa [hlog] at hreaches

/-- The store after a sink has finalized. -/
def ordersFinalized (sink : ParquetSink ℕ) (nowMs : Int64) (s : Store (Object ℕ)) :
    Store (Object ℕ) :=
  (run (fun _ => 0) (sink.finalizeIceberg "c5b1" nowMs) noFaults s).store

theorem pipelineRun_orders : PipelineRun (fun _ => 0) ordersParquet ordersTarget
    [⟨ordersFlushed, 1000, ∅, ordersFinalized ordersFlushed 1000 ∅⟩]
    (ordersFinalized ordersFlushed 1000 ∅) := by
  have hrun : (run (fun _ => 0) (ordersFlushed.finalizeIceberg "c5b1" 1000) noFaults
      (∅ : Store (Object ℕ))).result = .ok "cdc/orders/metadata/v1.metadata.json" := by rfl
  have hstart : PipelineRun (fun _ => 0) ordersParquet ordersTarget [] (∅ : Store (Object ℕ)) :=
    .start (by simp)
  exact hstart.finalize reaches_ordersFlushed ⟨rfl, rfl⟩ (run_eq_of_result _ hrun)

theorem keepsCommitted_run_iff_orders :
    (⟨ordersFlushed, 1000, ∅, ordersFinalized ordersFlushed 1000 ∅⟩ :
        FinalizeCall ℕ).KeepsCommitted (fun _ => 0) ordersTarget ↔
      (⟨ordersFlushed, 1000, ∅, ordersFinalized ordersFlushed 1000 ∅⟩ :
        FinalizeCall ℕ).Fits (fun _ => 0) ordersTarget :=
  keepsCommitted_run_iff pipelineRun_orders List.mem_cons_self

/-- The table after the first call. -/
def ordersFirstRun : IcebergTableState :=
  createdState ordersTarget ordersSchema ordersFlushed.dataFiles "c5b1" 1000

theorem spellsItself_orders : SpellsItself "cdc/orders" := by
  unfold SpellsItself
  decide

theorem newest_ordersFirstRun : Newest "cdc/orders" 1 ordersFirstRun
    (ordersFinalized ordersFlushed 1000 ∅) := by
  have hput : SameMetadata ((∅ : Store (Object ℕ)).insert (versionKey "cdc/orders" 1)
      (.json ordersFirstRun.metadata)) (ordersFinalized ordersFlushed 1000 ∅) :=
    .insert (not_namedV_manifest "cdc/orders" 1000)
      (.json (manifestList "s3://lake/cdc/orders" ordersFlushed.dataFiles 1000))
  have hfirst : Newest ordersTarget.sinkPrefix 1 (createdState ordersTarget ordersSchema
      ordersFlushed.dataFiles "c5b1" 1000) (ordersFinalized ordersFlushed 1000 ∅) :=
    newest_created (fun key hkey => absurd hkey (AList.notMem_empty key)) hput
  exact hfirst

def ordersEvolution : Commit := .evolvePartition [] 2000

/-- The metadata after the table's partition spec has evolved. -/
def ordersEvolvedMetadata : Value := (repartitionedMetadata ordersFirstRun [] 2000).getD .null

theorem produces_ordersEvolution :
    ordersEvolution.Produces "cdc/orders" ordersFirstRun ordersEvolvedMetadata := by
  have hdoc : repartitionedMetadata ordersFirstRun [] 2000 = some ordersEvolvedMetadata := rfl
  exact hdoc

def ordersSecondVersion : IcebergTableState :=
  stateOf ordersEvolvedMetadata (ordersEvolution.target "cdc/orders" ordersFirstRun)

/-- The store after that. -/
def ordersEvolved : Store (Object ℕ) :=
  (run (fun _ => 0) (ordersEvolution.program "cdc/orders" ordersFirstRun) noFaults
    (ordersFinalized ordersFlushed 1000 ∅)).store

theorem run_ordersEvolution : ∃ faults', run (fun _ => 0)
    (ordersEvolution.program "cdc/orders" ordersFirstRun) noFaults
      (ordersFinalized ordersFlushed 1000 ∅) =
        ⟨.ok (versionFile "cdc/orders" 2), ordersEvolved, faults'⟩ := by
  obtain ⟨s', faults', hrun⟩ : ∃ s' faults', run (fun _ => 0)
      (ordersEvolution.program "cdc/orders" ordersFirstRun) noFaults
        (ordersFinalized ordersFlushed 1000 ∅) =
          ⟨.ok (ordersEvolution.target "cdc/orders" ordersFirstRun), s', faults'⟩ :=
    produces_ordersEvolution.run_eq _
  have hstore : ordersEvolved = s' := congrArg Outcome.store hrun
  rw [newest_ordersFirstRun.located.target (by decide) rfl] at hrun
  exact ⟨faults', by rw [hstore]; exact hrun⟩

theorem newest_ordersEvolved : Newest "cdc/orders" 2 ordersSecondVersion ordersEvolved := by
  obtain ⟨faults', hrun⟩ := run_ordersEvolution
  obtain ⟨doc, hdoc, -, hstore⟩ := evolvePartition_ok hrun
  obtain rfl : ordersEvolvedMetadata = doc := Option.some.inj hdoc
  have hfirst := newest_ordersFirstRun
  have hlocated := hfirst.located.next hfirst.pos (by decide) rfl produces_ordersEvolution
  apply newest_of_put (by decide) (by decide) hlocated
  · intro key hkey htable _
    by_cases hold : key = versionKey "cdc/orders" 1
    · rw [hold]
      exact older_versionKey (by decide) (by decide)
    · exact (hfirst.older key hkey htable hold).mono (by decide) (by decide)
  · intro key _
    rw [hstore]
    rfl

/-- The second run's file is not in the manifest list of the first one. -/
theorem not_listed_ordersRestarted (after : Store (Object ℕ)) :
    ¬ (⟨ordersRestarted, 3000, ordersEvolved, after⟩ : FinalizeCall ℕ).Listed ordersTarget
      ordersSecondVersion := by
  have hcurrent : ordersSecondVersion.currentSnapshotId.bind ordersSecondVersion.snapshot? =
      some (createdSnapshot "s3://lake/cdc/orders" ordersFlushed.dataFiles 1000).withoutFiles := by
    rfl
  have hobject : (createdSnapshot "s3://lake/cdc/orders" ordersFlushed.dataFiles
      1000).withoutFiles.manifestObject = "cdc/orders/metadata/snap-1000-manifest-list.json" := by
    rfl
  have hmanifest : ordersEvolved.lookup "cdc/orders/metadata/snap-1000-manifest-list.json" =
      some (.json (manifestList "s3://lake/cdc/orders" ordersFlushed.dataFiles 1000)) := by rfl
  rintro (⟨id, snap, hid, hsnap, heq⟩ | hlists)
  · rw [hid, Option.bind_some, hsnap, Option.some.injEq] at hcurrent
    rw [hcurrent, hobject] at heq
    have hne : "cdc/orders/metadata/snap-1000-manifest-list.json" ≠
        createdManifest ordersTarget 3000 := by decide
    exact hne heq
  · obtain ⟨id, snap, doc, hid, hsnap, hlookup, hpath⟩ := hlists
      ⟨"cdc/orders/2024-05-02/batch-070809-0001.parquet", 200, 2⟩ List.mem_cons_self
    rw [hid, Option.bind_some, hsnap, Option.some.injEq] at hcurrent
    rw [hcurrent, hobject] at hlookup
    obtain rfl : manifestList "s3://lake/cdc/orders" ordersFlushed.dataFiles 1000 = doc := by
      have heq := hmanifest.symm.trans hlookup
      simpa using heq
    exact absurd hpath (by decide)

/-- A second run creates the table again: the snapshot of the first is gone. Where the table has come
to its second version, the second run leaves it, and its data file is in no snapshot. -/
theorem restart_loses_data :
    (∃ call calls s, PipelineRun (fun _ => 0) ordersParquet ordersTarget (call :: calls) s ∧
      call.sink = ordersRestarted ∧ call.before = ordersFinalized ordersFlushed 1000 ∅ ∧
      ¬ call.KeepsCommitted (fun _ => 0) ordersTarget) ∧
    ∃ call calls s, PipelineRun (fun _ => 0) ordersParquet ordersTarget (call :: calls) s ∧
      call.sink = ordersRestarted ∧ call.before = ordersEvolved ∧
      ¬ call.KeepsCommitted (fun _ => 0) ordersTarget := by
  have hfirst := newest_ordersFirstRun.view (fun _ => 0) spellsItself_orders
  constructor
  · have hrun : (run (fun _ => 0) (ordersRestarted.finalizeIceberg "c5b1" 3000) noFaults
        (ordersFinalized ordersFlushed 1000 ∅)).result =
          .ok "cdc/orders/metadata/v1.metadata.json" := by rfl
    refine ⟨⟨ordersRestarted, 3000, _, _⟩, _, _, pipelineRun_orders.finalize reaches_ordersRestarted
      ⟨rfl, rfl⟩ (run_eq_of_result _ hrun), rfl, rfl, ?_⟩
    rw [keepsCommitted_iff_fits pipelineRun_orders.held ⟨rfl, rfl⟩ (run_eq_of_result _ hrun)]
    rintro ⟨-, hfits⟩
    have hrepeats := (hfits _ _ hfirst).1 rfl
    have hsnap := hrepeats.snapshots (createdSnapshot ordersTarget.location ordersFlushed.dataFiles
      1000).withoutFiles (by rw [ordersFirstRun, createdState_snapshots]; exact List.mem_singleton_self _)
    exact absurd hsnap.1 (by decide)
  · obtain ⟨faults', hevolve⟩ := run_ordersEvolution
    have hevolved : PipelineRun (fun _ => 0) ordersParquet ordersTarget _ ordersEvolved :=
      pipelineRun_orders.maintain (c := ordersEvolution) rfl hfirst hevolve
    have hrun : (run (fun _ => 0) (ordersRestarted.finalizeIceberg "c5b1" 3000) noFaults
        ordersEvolved).result = .ok "cdc/orders/metadata/v1.metadata.json" := by rfl
    refine ⟨⟨ordersRestarted, 3000, _, _⟩, _, _, hevolved.finalize reaches_ordersRestarted
      ⟨rfl, rfl⟩ (run_eq_of_result _ hrun), rfl, rfl, ?_⟩
    rw [keepsCommitted_iff_fits hevolved.held ⟨rfl, rfl⟩ (run_eq_of_result _ hrun)]
    rintro ⟨-, hfits⟩
    have hlater : versionKey "cdc/orders" 2 ≠ versionKey ordersTarget.sinkPrefix 1 := by decide
    have hlisted :=
      (hfits _ _ (newest_ordersEvolved.view (fun _ => 0) spellsItself_orders)).2 hlater
    exact not_listed_ordersRestarted _ hlisted

end Orders
end RustLake.Sink
