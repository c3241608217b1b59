import RustLake.Iceberg.Orphans
import RustLake.Order.Run
import RustLake.Sink.Restarts

/-! The sinks, the commits and the compactions on one prefix, taken one after another, and the keys
that they put: data files in the directories of days, and `.json` files. -/
namespace RustLake.Sink
open RustLake.Json RustLake.ObjectStore RustLake.Iceberg RustLake.Text

variable {Row : Type}

/-- The key of a `.parquet` file. -/
def IsParquet (key : Path) : Prop := ".parquet".toList <:+ key.toList

instance : DecidablePred IsParquet := fun key =>
  inferInstanceAs (Decidable (".parquet".toList <:+ key.toList))

/-- The key of a `.json` file. -/
def IsJson (key : Path) : Prop := ".json".toList <:+ key.toList

/-- The snapshots that a commit on a table expires. -/
def dropped (state : IcebergTableState) : Commit → List SnapshotInfo
  | .expire olderThanMs retainLastN _ => expiredSnapshots state olderThanMs retainLastN
  | _ => []

theorem mem_of_mem_dropped {state : IcebergTableState} {c : Commit} {snap : SnapshotInfo}
    (h : snap ∈ dropped state c) : snap ∈ state.snapshots := by
  cases c with
  | expire olderThanMs retainLastN nowMs => exact mem_snapshots_of_mem_expired h
  | _ => cases h

/-- A key that the sinks or the compactions of a prefix choose for a data file. -/
def DataKey (pfx : String) (key : Path) : Prop :=
  ∃ (now : DateTime) (name : String), IsSegment name ∧ ".parquet".toList <:+ name.toList ∧
    name.toList.head? ≠ some 'v' ∧ key = Path.ofText (datedFile pfx now.datePart name)

theorem IsParquet.not_isJson {key : Path} (h : IsParquet key) : ¬ IsJson key :=
  not_json_of_parquet h

theorem dataKey_batch (pfx : String) (now : DateTime) (filesWritten : UInt64) :
    DataKey pfx (Path.ofText
      (datedFile pfx now.datePart (ParquetSink.batchName now filesWritten))) := by
  have hname : (ParquetSink.batchName now filesWritten).toList =
      "batch-".toList ++ (now.timePart ++ "-" ++ padded 4 filesWritten.toNat).toList ++
        ".parquet".toList := by
    simp [ParquetSink.batchName, String.toList_append]
  refine ⟨now, _, isSegment_batchName now filesWritten, ?_, ?_, rfl⟩
  · rw [hname]
    exact List.suffix_append _ _
  · rw [hname]
    simp

theorem dataKey_compacted {pfx : String} {now : DateTime} {key : Path}
    (h : CompactedKey pfx now.datePart key) : DataKey pfx key := by
  obtain ⟨fileCounter, rfl⟩ := h
  have hname : (compactedName fileCounter).toList =
      "compacted-".toList ++ (padFour fileCounter).toList ++ ".parquet".toList := by
    simp [compactedName, String.toList_append]
  refine ⟨now, _, isSegment_compactedName fileCounter, ?_, ?_, rfl⟩
  · rw [hname]
    exact List.suffix_append _ _
  · rw [hname]
    simp

theorem DataKey.isParquet {pfx : String} {key : Path} (h : DataKey pfx key) : IsParquet key := by
  obtain ⟨now, name, hname, hsuffix, -, rfl⟩ := h
  have hfile := fileName_suffix (Path.ofText (datedFile pfx now.datePart name))
  rw [fileName_ofText_datedFile pfx _ hname] at hfile
  exact hsuffix.trans hfile

theorem DataKey.not_namedV {pfx : String} {key : Path} (h : DataKey pfx key) : ¬ NamedV key := by
  obtain ⟨now, name, hname, -, hhead, rfl⟩ := h
  intro hnamed
  obtain ⟨rest, hrest⟩ := hnamed
  rw [fileName_ofText_datedFile pfx _ hname] at hrest
  exact hhead (by rw [hrest]; rfl)

theorem DataKey.isUnder {pfx : String} {key : Path} (h : DataKey pfx key) :
    key.isUnder (Path.ofText pfx) = true := by
  obtain ⟨now, name, hname, -, -, rfl⟩ := h
  exact isUnder_datedFile pfx (isSegment_datePart now) hname

theorem isSegment_data : IsSegment "data" := by
  unfold IsSegment
  decide

/-- No data file is put below `data/`. -/
theorem DataKey.not_isUnder_data {pfx : String} {key : Path} (h : DataKey pfx key) :
    key.isUnder (Path.ofText (pfx ++ "/data")) = false := by
  obtain ⟨now, name, hname, -, -, rfl⟩ := h
  have hday : "data" ≠ now.datePart := by
    intro heq
    have hdash : '-' ∈ now.datePart.toList := by
      unfold DateTime.datePart
      simp [String.toList_append]
    rw [← heq] at hdash
    exact absurd hdash (by decide)
  have htext : pfx ++ "/data" = pfx ++ "/" ++ "data" := by
    rw [String.append_assoc]
    rfl
  rw [htext]
  exact not_isUnder_datedFile pfx (isSegment_datePart now) hname isSegment_data hday

section Touches
variable {K : Path → Prop}

/-- A creation puts two files. -/
theorem touches_writeIcebergMetadata {tablePrefix : String} {nowMs : Int64}
    (hversion : K (Path.ofText (tablePrefix ++ "/metadata/v1.metadata.json")))
    (hmanifest : K (Path.ofText (tablePrefix ++ "/metadata/" ++ manifestListName nowMs)))
    (schema : ArrowSchema) (files : List DataFileInfo) (tableUuid bucket : String) :
    (writeIcebergMetadata tablePrefix schema files tableUuid bucket nowMs :
      Program (Object Row) String).Touches K := by
  unfold writeIcebergMetadata
  split
  · trivial
  · refine ⟨hversion, fun r => .bind (touches_orFail _ _ r) fun _ => ⟨hmanifest, fun r => ?_⟩⟩
    exact .bind (touches_orFail _ _ r) fun _ => trivial

theorem touches_finalizeIceberg {sink : ParquetSink Row} {target : SinkTarget} {nowMs : Int64}
    (hat : sink.At target) (hversion : K (versionKey target.sinkPrefix 1))
    (hmanifest : K (createdManifest target nowMs)) (tableUuid : String) :
    (sink.finalizeIceberg tableUuid nowMs).Touches K := by
  unfold ParquetSink.finalizeIceberg ParquetSink.finalizeIcebergIncremental
  split
  · trivial
  · split
    · trivial
    · rw [hat.2]
      apply touches_writeIcebergMetadata _ hmanifest
      rw [versionFile_one]
      exact hversion

variable {state : IcebergTableState}
  (hversion : ∀ version, K (Path.ofText (versionPath state.location version)))
include hversion

theorem touches_putVersion (version : Int32) (doc : Value) :
    (putVersion state.location version doc : Program (Object Row) String).Touches K :=
  ⟨hversion version, fun r => .bind (touches_orFail _ _ r) fun _ => trivial⟩

omit hversion in
theorem touches_deletedManifests {snaps : List SnapshotInfo}
    (h : ∀ snap ∈ snaps, K (manifestListKey state.location snap)) :
    (deleteManifests state.location snaps : Program (Object Row) ℕ).Touches K := by
  induction snaps with
  | nil => trivial
  | cons snap rest ih =>
    obtain ⟨hsnap, hrest⟩ := List.forall_mem_cons.mp h
    exact ⟨hsnap, fun r => .bind (ih hrest) fun _ => trivial⟩

/-- A commit on a table puts metadata files, the manifest list of its own snapshot, and deletes
those of the snapshots that it expires. -/
theorem touches_commit {c : Commit} (hc : c.isCreate = false) (tablePrefix : String)
    (hmanifest : c.addsSnapshot = true → K (manifestKey state c.nowMs))
    (hdropped : ∀ snap ∈ dropped state c, K (manifestListKey state.location snap)) :
    (c.program tablePrefix state : Program (Object Row) String).Touches K := by
  cases c with
  | create => cases hc
  | append files schema operation nowMs =>
    change (appendSnapshot state files schema operation nowMs : Program (Object Row) String).Touches K
    unfold appendSnapshot
    split
    · trivial
    · refine ⟨hmanifest rfl, fun r => .bind (touches_orFail _ _ r) fun _ => ?_⟩
      exact .bind (touches_orPanic _ _) fun doc => touches_putVersion hversion _ doc
  | evolveSchema changes nowMs =>
    change (evolveSchema state changes nowMs : Program (Object Row) String).Touches K
    unfold evolveSchema
    split
    · trivial
    · split
      · trivial
      · refine .bind (touches_orFail _ _ _) fun new => .bind (touches_orPanic _ _) fun doc => ?_
        exact touches_putVersion hversion _ doc
  | evolvePartition newFields nowMs =>
    exact .bind (touches_orPanic _ _) fun doc => touches_putVersion hversion _ doc
  | expire olderThanMs retainLastN nowMs =>
    change (expireSnapshots state olderThanMs retainLastN nowMs >>= fun result =>
      pure result.metadataPath : Program (Object Row) String).Touches K
    refine .bind ?_ fun _ => trivial
    unfold expireSnapshots
    dsimp only
    split
    · trivial
    · refine .bind (touches_deletedManifests hdropped) fun deleted => ?_
      refine .bind (touches_orPanic _ _) fun doc => ?_
      exact .bind (touches_putVersion hversion _ doc) fun _ => trivial

end Touches

theorem isJson_createdManifest (target : SinkTarget) (nowMs : Int64) :
    IsJson (createdManifest target nowMs) := by
  apply @json_suffix_ofText _ ("snap-" ++ toString nowMs ++ "-manifest-list").toList
  rw [fileName_manifest]
  simp [manifestListName, String.toList_append]

theorem isJson_versionKey (tablePrefix : String) (n : ℕ) : IsJson (versionKey tablePrefix n) := by
  have hname : ".json".toList <:+ (versionName n).toList := by
    simp only [versionName, String.toList_append]
    exact List.suffix_append_of_suffix (by decide)
  have hfile := fileName_suffix (versionKey tablePrefix n)
  rw [fileName_versionKey] at hfile
  exact hname.trans hfile

theorem isSegment_manifestListName (id : Int64) : IsSegment (manifestListName id) := by
  have hstart : Plain "snap-" := plain_of_all (by decide)
  have hend : Plain "-manifest-list.json" := plain_of_all (by decide)
  have hplain : Plain (manifestListName id) := (hstart.append (plain_toString id.toInt)).append hend
  have hmem : 's' ∈ (manifestListName id).toList := by
    simp [manifestListName, String.toList_append]
  exact hplain.isSegment hmem (by decide)

/-- Manifest lists of different snapshots have different keys. -/
theorem createdManifest_inj {target : SinkTarget} {id id' : Int64}
    (h : createdManifest target id = createdManifest target id') : id = id' := by
  have hkey : ∀ id, createdManifest target id =
      Path.ofText (datedFile target.sinkPrefix "metadata" (manifestListName id)) := by
    intro id
    unfold createdManifest datedFile
    simp only [String.append_assoc]
    rfl
  have hnames := congrArg fileName h
  rw [hkey, hkey, fileName_ofText_datedFile _ _ (isSegment_manifestListName id),
    fileName_ofText_datedFile _ _ (isSegment_manifestListName id')] at hnames
  have htexts : toString id.toInt = toString id'.toInt := by
    have hsame := String.toList_injective hnames
    unfold manifestListName at hsame
    exact (String.append_right_inj _).mp ((String.append_left_inj _).mp hsame)
  exact Int64.toInt_inj.mp (toString_int_inj htexts)

section Calls
variable {size : Object Row → ℕ} {P : Parquet Row} {sink sink' : ParquetSink Row}
  {now : DateTime} {result : Except String Unit} {faults faults' : Faults}
  {s s' : Store (Object Row)}

/-- What a call of a sink puts: nothing, or one data file that the sink remembers. -/
structure Stores (sink sink' : ParquetSink Row) (log : List (Path × Object Row))
    (s s' : Store (Object Row)) : Prop where
  sinkPrefix : sink'.sinkPrefix = sink.sinkPrefix
  bucket : sink'.bucket = sink.bucket
  files : (log = [] ∧ s' = s ∧ sink'.dataFiles = sink.dataFiles) ∨
    ∃ df rows length, DataKey sink.sinkPrefix (Path.ofText df.filePath) ∧
      log = [(Path.ofText df.filePath, .parquet rows length)] ∧
      s' = s.insert (Path.ofText df.filePath) (.parquet rows length) ∧
      sink'.dataFiles = sink.dataFiles ++ [df]

theorem flush_stores
    (hrun : run size (sink.flush P now) faults s = ⟨.ok (sink', result), s', faults'⟩) :
    Stores sink sink' (putLog size (sink.flush P now) faults s) s s' := by
  unfold ParquetSink.flush at hrun ⊢
  cases hbuffer : sink.buffer with
  | nil =>
    simp only [hbuffer] at hrun ⊢
    cases hrun
    exact ⟨rfl, rfl, Or.inl ⟨rfl, rfl, rfl⟩⟩
  | cons first rest =>
    simp only [hbuffer] at hrun ⊢
    cases hencode : P.encode first.schema ((first :: rest).map (·.rows)) with
    | error e =>
      simp only [hencode] at hrun ⊢
      cases hrun
      exact ⟨rfl, rfl, Or.inl ⟨rfl, rfl, rfl⟩⟩
    | ok length =>
      simp only [hencode, run_put] at hrun ⊢
      cases h0 : faults 0 with
      | some e =>
        rw [answer_of_some h0, effect_of_some h0] at hrun
        rw [putLog_put_of_some size h0]
        cases hrun
        exact ⟨rfl, rfl, Or.inl ⟨rfl, rfl, rfl⟩⟩
      | none =>
        rw [answer_of_none h0, effect_of_none h0] at hrun
        rw [putLog_put_of_none size h0]
        cases hrun
        have hkey := dataKey_batch sink.sinkPrefix now (sink.filesWritten + 1)
        exact ⟨rfl, rfl, Or.inr ⟨⟨_, _, _⟩, _, _, hkey, rfl, rfl, rfl⟩⟩

theorem writeBatch_stores {batch : RecordBatch Row}
    (hrun : run size (sink.writeBatch P now batch) faults s = ⟨.ok (sink', result), s', faults'⟩) :
    Stores sink sink' (putLog size (sink.writeBatch P now batch) faults s) s s' := by
  unfold ParquetSink.writeBatch at hrun ⊢
  dsimp only at hrun ⊢
  split
  · rename_i hfull
    rw [if_pos hfull] at hrun
    obtain ⟨hsink, hbucket, hfiles⟩ := flush_stores hrun
    exact ⟨hsink, hbucket, hfiles⟩
  · rename_i hroom
    rw [if_neg hroom] at hrun
    cases hrun
    exact ⟨rfl, rfl, Or.inl ⟨rfl, rfl, rfl⟩⟩

end Calls

section Compaction

/-- What a compaction does to the store, however it ends: it puts files of its day, and then it may
append a snapshot. -/
theorem compactTable_cases (size : Object Row → ℕ) (P : Parquet Row) (state : IcebergTableState)
    (recorded : Int64 → List DataFileInfo) (targetFileSizeMb : UInt64) (schema : ArrowSchema)
    (now : DateTime) (nowMs : Int64) (faults : Faults) (s : Store (Object Row)) :
    ∃ s₁ : Store (Object Row),
      (∀ key, s₁.lookup key = s.lookup key ∨
        CompactedKey (stripS3Prefix state.location) now.datePart key ∧ key ∈ s₁) ∧
      ((run size (compactTable P (state.attach recorded) targetFileSizeMb schema now.datePart nowMs)
          faults s).store = s₁ ∨
        ∃ files faults₁, (run size (compactTable P (state.attach recorded) targetFileSizeMb schema
            now.datePart nowMs) faults s).store =
          (run size (appendSnapshot state files schema "replace" nowMs) faults₁ s₁).store) := by
  have hkept : ∀ key, s.lookup key = s.lookup key ∨
      CompactedKey (stripS3Prefix state.location) now.datePart key ∧ key ∈ s := fun key => Or.inl rfl
  unfold compactTable
  dsimp only
  split
  · exact ⟨s, hkept, Or.inl rfl⟩
  · have hreads := run_readBatches size P (allFilePaths (state.attach recorded)) faults s
    rw [run_bind]
    cases hread : run size (readBatches P (allFilePaths (state.attach recorded))) faults s with
    | mk read s₀ faults₀ =>
      rw [hread] at hreads
      dsimp only at hreads
      subst hreads
      cases read with
      | error e => exact ⟨_, hkept, Or.inl rfl⟩
      | ok batches =>
        dsimp only
        split
        · exact ⟨_, hkept, Or.inl rfl⟩
        · have hwrites := lookup_run_of_adds size
            (adds_writeCompacted P (stripS3Prefix state.location) now.datePart schema
              (targetFileSizeMb * 1024 * 1024) batches [] 0 0) faults₀ s₀
          rw [run_bind]
          cases hwrite : run size (writeCompacted P (stripS3Prefix (state.attach recorded).location)
            now.datePart schema (targetFileSizeMb * 1024 * 1024) batches [] 0 0) faults₀ s₀ with
          | mk written s₁ faults₁ =>
            rw [attach_location] at hwrite
            rw [hwrite] at hwrites
            cases written with
            | error e => exact ⟨s₁, hwrites, Or.inl rfl⟩
            | ok files =>
              refine ⟨s₁, hwrites, Or.inr ⟨files, faults₁, ?_⟩⟩
              dsimp only
              rw [appendSnapshot_attach]
              exact store_run_map size _ _ faults₁ s₁

end Compaction

/-- The sinks that have been opened at a prefix, and the store. -/
structure Lake (Row : Type) where
  sinks : List (ParquetSink Row)
  store : Store (Object Row)

/-- What is done at a prefix. Sinks are counted as they have been opened; commits and compactions
are on the table that readers see, and a compaction may be given the data files of its snapshots. -/
inductive Action (Row : Type) where
  | openSink (flushThreshold : UInt64)
  | writeBatch (i : ℕ) (now : DateTime) (batch : RecordBatch Row)
  | flush (i : ℕ) (now : DateTime)
  | finalize (i : ℕ) (tableUuid : String) (nowMs : Int64)
  | commit (c : Commit)
  | compact (recorded : Int64 → List DataFileInfo) (targetFileSizeMb : UInt64)
      (schema : ArrowSchema) (now : DateTime) (nowMs : Int64)

section Step
variable (size : Object Row → ℕ) (P : Parquet Row) (target : SinkTarget)

/-- The table that readers see. -/
def visible (s : Store (Object Row)) : Option IcebergTableState :=
  match tableView size target.sinkPrefix s with
  | .ok (some (_, state)) => some state
  | _ => none

/-- A call of a sink, which may change the sink. -/
def Lake.call (lake : Lake Row) (i : ℕ) (faults : Faults)
    (program : ParquetSink Row → Program (Object Row) (ParquetSink Row × Except String Unit)) :
    Option (Lake Row) := do
  let sink ← lake.sinks[i]?
  match run size (program sink) faults lake.store with
  | ⟨.ok (sink', _), store, _⟩ => some ⟨lake.sinks.set i sink', store⟩
  | ⟨.error _, _, _⟩ => none

/-- An action in a store with the given faults. It cannot be taken where it names no sink, or where
there is no table to see. -/
def step (lake : Lake Row) : Action Row × Faults → Option (Lake Row)
  | (.openSink flushThreshold, _) => some { lake with
      sinks := lake.sinks ++ [.new target.sinkPrefix target.bucket flushThreshold] }
  | (.writeBatch i now batch, faults) => lake.call size i faults (·.writeBatch P now batch)
  | (.flush i now, faults) => lake.call size i faults (·.flush P now)
  | (.finalize i tableUuid nowMs, faults) => lake.sinks[i]?.map fun sink => { lake with
      store := (run size (sink.finalizeIceberg tableUuid nowMs) faults lake.store).store }
  | (.commit c, faults) =>
    if c.isCreate then none
    else (visible size target lake.store).map fun state => { lake with
      store := (run size (c.program target.sinkPrefix state) faults lake.store).store }
  | (.compact recorded targetFileSizeMb schema now nowMs, faults) =>
    (visible size target lake.store).map fun state => { lake with
      store := (run size (compactTable P (state.attach recorded) targetFileSizeMb schema now.datePart
        nowMs) faults lake.store).store }

end Step

/-- Each snapshot's manifest list is under its own id. -/
def OwnsManifests (state : IcebergTableState) : Prop :=
  ∀ snap ∈ state.snapshots,
    snap.manifestListPath = state.location ++ "/metadata/" ++ manifestListName snap.snapshotId

section Visible
variable {size : Object Row → ℕ} {target : SinkTarget} {s s' : Store (Object Row)}
  {state after : IcebergTableState}

theorem visible_eq_some :
    visible size target s = some state ↔
      ∃ key, tableView size target.sinkPrefix s = .ok (some (key, state)) := by
  unfold visible
  constructor
  · intro h
    split at h
    · rename_i key seen hview
      rw [Option.some.injEq] at h
      exact ⟨key, by rw [hview, h]⟩
    · cases h
  · rintro ⟨key, hview⟩
    rw [hview]

theorem visible_congr (h : SameMetadata s s') : visible size target s' = visible size target s := by
  unfold visible
  rw [tableView_congr size target.sinkPrefix h]

/-- What a table looks like after a commit on it: as before, or as the commit has made it. -/
theorem Held.visible_commit (h : Held target s) {c : Commit} (hc : c.isCreate = false)
    (hstate : visible size target s = some state) {faults : Faults}
    (hafter : visible size target (run size (c.program target.sinkPrefix state) faults s).store =
      some after) :
    after = state ∨ ∃ doc, c.Produces target.sinkPrefix state doc ∧
      after = stateOf doc (c.target target.sinkPrefix state) := by
  obtain ⟨key, hview⟩ := visible_eq_some.mp hstate
  obtain ⟨key', hview'⟩ := visible_eq_some.mp hafter
  obtain ⟨n, -, -, hnewest, -, -⟩ := h.of_view hview
  cases hrun : run size (c.program target.sinkPrefix state) faults s with
  | mk result s' faults' =>
    rw [hrun] at hview'
    rcases hnewest.commit hc hrun with hkept | ⟨doc, hdoc, -, hmade⟩
    · exact Or.inl (hkept.eq_of_view hview').2.2
    · exact Or.inr ⟨doc, hdoc, (hmade.eq_of_view hview').2.2⟩

/-- What readers see after `finalize_iceberg`: what they saw, or the table that it has created where
they saw none or a first version. -/
theorem Held.visible_finalize (h : Held target s) {sink : ParquetSink Row} (hat : sink.At target)
    {tableUuid : String} {nowMs : Int64} {faults : Faults}
    (hafter : visible size target (run size (sink.finalizeIceberg tableUuid nowMs) faults s).store =
      some after) :
    visible size target s = some after ∨
      (∃ schema, after = createdState target schema sink.dataFiles tableUuid nowMs) ∧
        ∀ before, visible size target s = some before → before.metadataVersion = 1 := by
  cases hrun : run size (sink.finalizeIceberg tableUuid nowMs) faults s with
  | mk result s' faults' =>
    rw [hrun] at hafter
    obtain ⟨key', hview'⟩ := visible_eq_some.mp hafter
    rcases finalizeIceberg_leaves hat hrun with hsame | ⟨schema, hput⟩
    · left
      rw [← hafter]
      exact (visible_congr hsame).symm
    · rcases held_created h hput with ⟨hnew, hfirst⟩ | ⟨n, held, -, hold, hkept, -⟩
      · refine Or.inr ⟨⟨schema, (hnew.eq_of_view hview').2.2⟩, fun before hbefore => ?_⟩
        obtain ⟨key, hview⟩ := visible_eq_some.mp hbefore
        obtain ⟨n, -, -, hnewest, -, -⟩ := h.of_view hview
        obtain rfl := hfirst n before hnewest
        exact hnewest.located.version (by decide)
      · obtain ⟨hspells, -, rfl⟩ := hkept.eq_of_view hview'
        exact Or.inl (visible_eq_some.mpr ⟨_, hold.view size hspells⟩)

theorem Held.location (h : Held target s) (hstate : visible size target s = some state) :
    state.location = target.location := by
  obtain ⟨key, hview⟩ := visible_eq_some.mp hstate
  obtain ⟨n, -, -, -, hlocation, -⟩ := h.of_view hview
  exact hlocation

/-- A commit makes tables whose manifest lists are under the ids of the snapshots. -/
theorem OwnsManifests.commit (h : OwnsManifests state) {c : Commit} (hc : c.isCreate = false)
    {doc : Value} (hdoc : c.Produces target.sinkPrefix state doc) {path : Path}
    (hloaded : state = stateOf state.metadata path) (path' : Path) :
    OwnsManifests (stateOf doc path') := by
  have hlocation : (stateOf doc path').location = state.location := by
    rw [hloaded]
    exact hdoc.location hc
  have hold : ∀ snap ∈ parseSnapshots state.metadata,
      snap.manifestListPath = state.location ++ "/metadata/" ++ manifestListName snap.snapshotId := by
    have hsnaps : state.snapshots = parseSnapshots state.metadata := by
      rw [hloaded]
      rfl
    rw [← hsnaps]
    exact h
  intro snap hsnap
  rw [hlocation]
  change snap ∈ parseSnapshots doc at hsnap
  cases c with
  | create => cases hc
  | append files schema operation nowMs =>
    rcases mem_parseSnapshots_appendedMetadata hdoc.2 hsnap with hmem | rfl
    · exact hold snap hmem
    · rw [parseSnapshot_manifestListPath, parseSnapshot_snapshotId]
  | evolveSchema changes nowMs =>
    obtain ⟨-, _, _, -, -, hdoc⟩ := hdoc
    rw [parseSnapshots_congr (get_evolvedMetadata hdoc (by decide))] at hsnap
    exact hold snap hsnap
  | evolvePartition newFields nowMs =>
    rw [parseSnapshots_congr (get_repartitionedMetadata hdoc (by decide))] at hsnap
    exact hold snap hsnap
  | expire olderThanMs retainLastN nowMs =>
    exact hold snap (mem_parseSnapshots_expiredMetadata hdoc.2 hsnap)

theorem ownsManifests_created (schema : ArrowSchema) (files : List DataFileInfo)
    (tableUuid : String) (nowMs : Int64) :
    OwnsManifests (createdState target schema files tableUuid nowMs) := by
  intro snap hsnap
  rw [createdState_snapshots, List.mem_singleton] at hsnap
  rw [hsnap]
  rfl

end Visible

/-- What holds of a lake that has come from one with nothing at the prefix. -/
structure Sound (size : Object Row → ℕ) (target : SinkTarget) (lake : Lake Row) : Prop where
  held : Held target lake.store
  owns : ∀ state, visible size target lake.store = some state → OwnsManifests state
  sinks : ∀ sink ∈ lake.sinks, sink.At target ∧ ∀ df ∈ sink.dataFiles,
    DataKey target.sinkPrefix (Path.ofText df.filePath) ∧ Path.ofText df.filePath ∈ lake.store
  files : ∀ key ∈ lake.store, IsParquet key → key.isUnder (Path.ofText target.sinkPrefix) = true →
    DataKey target.sinkPrefix key

/-- Nothing is at the prefix yet. -/
def Lake.Fresh (target : SinkTarget) (lake : Lake Row) : Prop :=
  lake.sinks = [] ∧ ∀ key ∈ lake.store, ¬ InTable target.sinkPrefix key ∧
    key.isUnder (Path.ofText target.sinkPrefix) = false

section Sound
variable {size : Object Row → ℕ} {P : Parquet Row} {target : SinkTarget} {lake lake' : Lake Row}
  {s s' : Store (Object Row)} {state : IcebergTableState}

theorem Lake.Fresh.invisible (h : lake.Fresh target) : visible size target lake.store = none := by
  have hheld : Held target lake.store := Or.inl fun key hkey => (h.2 key hkey).1
  cases hstate : visible size target lake.store with
  | none => rfl
  | some state =>
    obtain ⟨key, hview⟩ := visible_eq_some.mp hstate
    obtain ⟨n, -, -, hnewest, -, -⟩ := hheld.of_view hview
    have hmem := mem_of_lookup hnewest.lookup
    exact absurd (inTable_versionKey _ n) (h.2 _ hmem).1

theorem Lake.Fresh.sound (h : lake.Fresh target) : Sound size target lake := by
  refine ⟨Or.inl fun key hkey => (h.2 key hkey).1, ?_, ?_, ?_⟩
  · intro state hstate
    rw [h.invisible] at hstate
    cases hstate
  · intro sink hsink
    rw [h.1] at hsink
    cases hsink
  · intro key hkey _ hunder
    rw [(h.2 key hkey).2] at hunder
    cases hunder

/-- An expiry deletes a manifest list of the target under the key that its commit has put it
under. -/
theorem manifestListKey_at (target : SinkTarget) {snap : SnapshotInfo} {id : Int64}
    (h : snap.manifestListPath = target.location ++ "/metadata/" ++ manifestListName id) :
    manifestListKey target.location snap = createdManifest target id := by
  have hdrop : snap.manifestListPath.toList.dropPrefix? target.location.toList =
      some ("/metadata/" ++ manifestListName id).toList := by
    refine List.dropPrefix?_eq_some_iff.mpr ⟨target.location.toList, ?_, by simp⟩
    rw [h, ← String.toList_append, String.append_assoc]
  have htext : target.location ++ ("/metadata/" ++ manifestListName id) =
      "s3://" ++ target.bucket ++ "/" ++
        (target.sinkPrefix ++ "/metadata/" ++ manifestListName id) := by
    simp only [SinkTarget.location, String.append_assoc]
  unfold manifestListKey
  rw [hdrop]
  dsimp only
  rw [String.ofList_toList, htext, stripS3Prefix_location target.plain, createdManifest]

theorem Sound.manifestListKey_eq (h : Sound size target lake)
    (hstate : visible size target lake.store = some state) {snap : SnapshotInfo}
    (hsnap : snap ∈ state.snapshots) :
    manifestListKey state.location snap = createdManifest target snap.snapshotId := by
  have hpath := h.owns state hstate snap hsnap
  rw [h.held.location hstate] at hpath ⊢
  exact manifestListKey_at target hpath

theorem Sound.json_manifests (h : Sound size target lake)
    (hstate : visible size target lake.store = some state) {snap : SnapshotInfo}
    (hsnap : snap ∈ state.snapshots) : IsJson (manifestListKey state.location snap) := by
  rw [h.manifestListKey_eq hstate hsnap]
  exact isJson_createdManifest target snap.snapshotId

/-- Where only `.json` files have changed, what there is to know of data files has not. -/
theorem Sound.of_json (h : Sound size target lake)
    (hsame : ∀ key, ¬ IsJson key → s'.lookup key = lake.store.lookup key) (hheld : Held target s')
    (howns : ∀ state, visible size target s' = some state → OwnsManifests state) :
    Sound size target ⟨lake.sinks, s'⟩ := by
  refine ⟨hheld, howns, ?_, ?_⟩
  · intro sink hsink
    obtain ⟨hat, hfiles⟩ := h.sinks sink hsink
    refine ⟨hat, fun df hdf => ?_⟩
    obtain ⟨hkey, hmem⟩ := hfiles df hdf
    exact ⟨hkey, (mem_iff_of_lookup_eq (hsame _ hkey.isParquet.not_isJson)).mpr hmem⟩
  · intro key hkey hparquet hunder
    exact h.files key ((mem_iff_of_lookup_eq (hsame key hparquet.not_isJson)).mp hkey) hparquet hunder

theorem Sound.finalize (h : Sound size target lake) {sink : ParquetSink Row}
    (hsink : sink ∈ lake.sinks) (tableUuid : String) (nowMs : Int64) (faults : Faults) :
    Sound size target ⟨lake.sinks,
      (run size (sink.finalizeIceberg tableUuid nowMs) faults lake.store).store⟩ := by
  have hat := (h.sinks sink hsink).1
  apply h.of_json
  · intro key hkey
    have htouches := touches_finalizeIceberg hat (isJson_versionKey target.sinkPrefix 1)
      (isJson_createdManifest target nowMs) tableUuid
    exact lookup_run_of_touches size htouches faults lake.store hkey
  · exact h.held.finalize hat rfl
  · intro after hafter
    rcases h.held.visible_finalize hat hafter with hbefore | ⟨⟨schema, rfl⟩, -⟩
    · exact h.owns after hbefore
    · exact ownsManifests_created schema sink.dataFiles tableUuid nowMs

theorem Sound.touches_json (h : Sound size target lake) {c : Commit} (hc : c.isCreate = false)
    (hstate : visible size target lake.store = some state) :
    (c.program target.sinkPrefix state : Program (Object Row) String).Touches IsJson := by
  have hversion : ∀ version, IsJson (Path.ofText (versionPath state.location version)) :=
    json_versionPath state.location
  have hmanifest : c.addsSnapshot = true → IsJson (manifestKey state c.nowMs) :=
    fun _ => json_manifestKey state c.nowMs
  have hdropped : ∀ snap ∈ dropped state c, IsJson (manifestListKey state.location snap) :=
    fun snap hsnap => h.json_manifests hstate (mem_of_mem_dropped hsnap)
  exact touches_commit hversion hc target.sinkPrefix hmanifest hdropped

theorem Sound.commit (h : Sound size target lake) {c : Commit} (hc : c.isCreate = false)
    (hstate : visible size target lake.store = some state) (faults : Faults) :
    Sound size target ⟨lake.sinks,
      (run size (c.program target.sinkPrefix state) faults lake.store).store⟩ := by
  obtain ⟨key, hview⟩ := visible_eq_some.mp hstate
  apply h.of_json
  · intro key hkey
    exact lookup_run_of_touches size (h.touches_json hc hstate) faults lake.store hkey
  · exact h.held.maintain hc hview rfl
  · intro after hafter
    rcases h.held.visible_commit hc hstate hafter with rfl | ⟨doc, hdoc, rfl⟩
    · exact h.owns _ hstate
    · obtain ⟨n, -, -, hnewest, -, -⟩ := h.held.of_view hview
      exact (h.owns state hstate).commit hc hdoc hnewest.located.loaded _

/-- Data files that are put do not change what readers see of the table. -/
theorem sameMetadata_of_dataKey (h : ∀ key, s'.lookup key = s.lookup key ∨
    DataKey target.sinkPrefix key ∧ key ∈ s') : SameMetadata s s' := by
  intro key hkey
  rcases h key with hsame | ⟨hdata, -⟩
  · exact hsame
  · exact absurd hkey hdata.not_namedV

/-- Data files may be put at any time. -/
theorem Sound.of_dataKey (h : Sound size target lake)
    (hadds : ∀ key, s'.lookup key = lake.store.lookup key ∨
      DataKey target.sinkPrefix key ∧ key ∈ s') : Sound size target ⟨lake.sinks, s'⟩ := by
  have hmetadata := sameMetadata_of_dataKey hadds
  refine ⟨h.held.congr fun key htable => hmetadata key htable.1, ?_, ?_, ?_⟩
  · intro state hstate
    rw [visible_congr hmetadata] at hstate
    exact h.owns state hstate
  · intro sink hsink
    obtain ⟨hat, hfiles⟩ := h.sinks sink hsink
    refine ⟨hat, fun df hdf => ?_⟩
    obtain ⟨hkey, hmem⟩ := hfiles df hdf
    rcases hadds (Path.ofText df.filePath) with hsame | ⟨-, hput⟩
    · exact ⟨hkey, (mem_iff_of_lookup_eq hsame).mpr hmem⟩
    · exact ⟨hkey, hput⟩
  · intro key hkey hparquet hunder
    rcases hadds key with hsame | ⟨hdata, -⟩
    · exact h.files key ((mem_iff_of_lookup_eq hsame).mp hkey) hparquet hunder
    · exact hdata

theorem Stores.adds {sink sink' : ParquetSink Row} {log : List (Path × Object Row)}
    (h : Stores sink sink' log s s') (key : Path) :
    s'.lookup key = s.lookup key ∨ DataKey sink.sinkPrefix key ∧ key ∈ s' := by
  rcases h.files with ⟨-, rfl, -⟩ | ⟨df, rows, length, hkey, -, rfl, -⟩
  · exact Or.inl rfl
  · by_cases heq : key = Path.ofText df.filePath
    · rw [heq]
      exact Or.inr ⟨hkey, (AList.mem_insert s).mpr (Or.inl rfl)⟩
    · exact Or.inl (AList.lookup_insert_ne heq)

theorem Sound.call (h : Sound size target lake) {i : ℕ} {sink sink' : ParquetSink Row}
    (hsink : lake.sinks[i]? = some sink) {log : List (Path × Object Row)}
    (hstores : Stores sink sink' log lake.store s') :
    Sound size target ⟨lake.sinks.set i sink', s'⟩ := by
  obtain ⟨⟨hbucket, hpfx⟩, hfiles⟩ := h.sinks sink (List.mem_of_getElem? hsink)
  have hadds := hstores.adds
  rw [hpfx] at hadds
  have hstored := h.of_dataKey hadds
  refine ⟨hstored.held, hstored.owns, fun other hother => ?_, hstored.files⟩
  rcases List.mem_or_eq_of_mem_set hother with hold | rfl
  · exact hstored.sinks other hold
  · refine ⟨⟨hstores.bucket.trans hbucket, hstores.sinkPrefix.trans hpfx⟩, fun df hdf => ?_⟩
    have hold := (hstored.sinks sink (List.mem_of_getElem? hsink)).2
    rcases hstores.files with ⟨-, -, hsame⟩ | ⟨new, rows, length, hkey, -, rfl, hsame⟩
    · rw [hsame] at hdf
      exact hold df hdf
    · rw [hsame, List.mem_append, List.mem_singleton] at hdf
      rcases hdf with hmem | rfl
      · exact hold df hmem
      · rw [hpfx] at hkey
        exact ⟨hkey, (AList.mem_insert _).mpr (Or.inl rfl)⟩

theorem Sound.compact (h : Sound size target lake)
    (hstate : visible size target lake.store = some state) (recorded : Int64 → List DataFileInfo)
    (targetFileSizeMb : UInt64) (schema : ArrowSchema) (now : DateTime) (nowMs : Int64)
    (faults : Faults) :
    Sound size target ⟨lake.sinks, (run size (compactTable P (state.attach recorded)
      targetFileSizeMb schema now.datePart nowMs) faults lake.store).store⟩ := by
  have hstrip : stripS3Prefix state.location = target.sinkPrefix := by
    rw [h.held.location hstate]
    exact stripS3Prefix_location target.plain target.sinkPrefix
  obtain ⟨s₁, hwrites, hstore⟩ := compactTable_cases size P state recorded targetFileSizeMb schema
    now nowMs faults lake.store
  have hadds : ∀ key, s₁.lookup key = lake.store.lookup key ∨
      DataKey target.sinkPrefix key ∧ key ∈ s₁ := by
    intro key
    rcases hwrites key with hsame | ⟨hkey, hmem⟩
    · exact Or.inl hsame
    · rw [hstrip] at hkey
      exact Or.inr ⟨dataKey_compacted hkey, hmem⟩
  have hwritten := h.of_dataKey hadds
  rcases hstore with hend | ⟨files, faults₁, happend⟩
  · rw [hend]
    exact hwritten
  · rw [happend]
    have hstate₁ : visible size target s₁ = some state := by
      rw [visible_congr (sameMetadata_of_dataKey hadds), hstate]
    exact hwritten.commit (c := .append files schema "replace" nowMs) rfl hstate₁ faults₁

theorem Lake.call_eq_some {i : ℕ} {faults : Faults}
    {program : ParquetSink Row → Program (Object Row) (ParquetSink Row × Except String Unit)}
    (h : lake.call size i faults program = some lake') :
    ∃ sink sink' result s' faults', lake.sinks[i]? = some sink ∧
      run size (program sink) faults lake.store = ⟨.ok (sink', result), s', faults'⟩ ∧
      lake' = ⟨lake.sinks.set i sink', s'⟩ := by
  unfold Lake.call at h
  obtain ⟨sink, hsink, h⟩ := Option.bind_eq_some_iff.mp h
  split at h
  · rename_i sink' result s' faults' hrun
    exact ⟨sink, sink', result, s', faults', hsink, hrun, (Option.some.inj h).symm⟩
  · cases h

/-- Every action keeps the lake sound. -/
theorem Sound.step (h : Sound size target lake) {call : Action Row × Faults}
    (hstep : step size P target lake call = some lake') : Sound size target lake' := by
  obtain ⟨action, faults⟩ := call
  cases action with
  | openSink flushThreshold =>
    obtain rfl := Option.some.inj hstep
    refine ⟨h.held, h.owns, fun sink hsink => ?_, h.files⟩
    rcases List.mem_append.mp hsink with hold | hnew
    · exact h.sinks sink hold
    · rw [List.mem_singleton.mp hnew]
      exact ⟨⟨rfl, rfl⟩, fun df hdf => absurd hdf List.not_mem_nil⟩
  | writeBatch i now batch =>
    obtain ⟨sink, sink', result, s', faults', hsink, hrun, rfl⟩ := Lake.call_eq_some hstep
    exact h.call hsink (writeBatch_stores hrun)
  | flush i now =>
    obtain ⟨sink, sink', result, s', faults', hsink, hrun, rfl⟩ := Lake.call_eq_some hstep
    exact h.call hsink (flush_stores hrun)
  | finalize i tableUuid nowMs =>
    obtain ⟨sink, hsink, rfl⟩ := Option.map_eq_some_iff.mp hstep
    exact h.finalize (List.mem_of_getElem? hsink) tableUuid nowMs faults
  | commit c =>
    cases hc : c.isCreate with
    | true => simp [Sink.step, hc] at hstep
    | false =>
      rw [Sink.step, if_neg (by rw [hc]; exact Bool.false_ne_true)] at hstep
      obtain ⟨state, hstate, rfl⟩ := Option.map_eq_some_iff.mp hstep
      exact h.commit hc hstate faults
  | compact recorded targetFileSizeMb schema now nowMs =>
    obtain ⟨state, hstate, rfl⟩ := Option.map_eq_some_iff.mp hstep
    exact h.compact hstate recorded targetFileSizeMb schema now nowMs faults

end Sound

end RustLake.Sink
