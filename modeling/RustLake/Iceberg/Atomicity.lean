import RustLake.Iceberg.View

/-! When a failed commit leaves the table as readers saw it. -/
namespace RustLake.Iceberg
open RustLake.Json RustLake.ObjectStore RustLake.Text

/-- The commits of a table. Every one but the first starts from a loaded state. -/
inductive Commit where
  | create (schema : ArrowSchema) (dataFiles : List DataFileInfo) (tableUuid bucket : String)
      (nowMs : Int64)
  | append (newDataFiles : List DataFileInfo) (schema : ArrowSchema) (operation : String)
      (nowMs : Int64)
  | evolveSchema (changes : List SchemaChange) (nowMs : Int64)
  | evolvePartition (newFields : List PartitionField) (nowMs : Int64)
  | expire (olderThanMs : Int64) (retainLastN : ℕ) (nowMs : Int64)

variable {Row : Type}

/-- The metadata path that the commit returns. -/
def Commit.program (tablePrefix : String) (state : IcebergTableState) :
    Commit → Program (Object Row) String
  | .create schema dataFiles tableUuid bucket nowMs =>
    writeIcebergMetadata tablePrefix schema dataFiles tableUuid bucket nowMs
  | .append newDataFiles schema operation nowMs =>
    appendSnapshot state newDataFiles schema operation nowMs
  | .evolveSchema changes nowMs => RustLake.Iceberg.evolveSchema state changes nowMs
  | .evolvePartition newFields nowMs => RustLake.Iceberg.evolvePartition state newFields nowMs
  | .expire olderThanMs retainLastN nowMs => do
    let result ← expireSnapshots state olderThanMs retainLastN nowMs
    return result.metadataPath

/-- The object that a snapshot names as its manifest list. -/
def SnapshotInfo.manifestObject (snap : SnapshotInfo) : Path :=
  Path.ofText (stripS3Prefix snap.manifestListPath)

/-- The keys that `expire_snapshots` has deleted when it comes to put the metadata. -/
def deletedKeys (location : String) (snaps : List SnapshotInfo) (faults : Faults) : List Path :=
  faults.passed (snaps.map (manifestListKey location))

section Store
variable (size : Object Row → ℕ) (tablePrefix : String)

/-- The state a commit is given: any for a creation, else the one readers see. -/
def Commit.StartsFrom (s : Store (Object Row)) (state : IcebergTableState) : Commit → Prop
  | .create .. => True
  | _ => ∃ path, tableView size tablePrefix s = .ok (some (path, state))

/-- Readers see the same in both stores, and every manifest list that the visible metadata
names and that was there before is still there. -/
def TableKept (before after : Store (Object Row)) : Prop :=
  tableView size tablePrefix after = tableView size tablePrefix before ∧
    ∀ path state, tableView size tablePrefix after = .ok (some (path, state)) →
      ∀ snap ∈ state.snapshots, snap.manifestObject ∈ before → snap.manifestObject ∈ after

/-- A run that ends in `Err` keeps the table. -/
def ErrKeepsTable {α : Type} (program : Program (Object Row) α) (faults : Faults)
    (s : Store (Object Row)) : Prop :=
  ∀ message, (run size program faults s).result = .error (.error message) →
    TableKept size tablePrefix s (run size program faults s).store

/-- When an `Err` of the commit is harmless. A creation must not fail between its two puts,
unless readers do not see the document that the first one left. An expiry whose metadata put
fails must have deleted nothing that a visible snapshot names or that readers see. -/
def Commit.Harmless (s : Store (Object Row)) (state : IcebergTableState) (faults : Faults) :
    Commit → Prop
  | .create schema dataFiles tableUuid bucket nowMs =>
    dataFiles = [] ∨ faults 0 ≠ none ∨ faults 1 = none ∨
      tableView size tablePrefix
        (s.insert (Path.ofText (tablePrefix ++ "/metadata/v1.metadata.json"))
          (.json (initialMetadata ("s3://" ++ bucket ++ "/" ++ tablePrefix) schema dataFiles
            tableUuid nowMs))) = tableView size tablePrefix s
  | .append .. => True
  | .evolveSchema .. => True
  | .evolvePartition .. => True
  | .expire olderThanMs retainLastN _ =>
    let expired := expiredSnapshots state olderThanMs retainLastN
    let deleted := deletedKeys state.location expired faults
    faults expired.length = none ∨
      (∀ snap ∈ state.snapshots, snap.manifestObject ∈ deleted → snap.manifestObject ∉ s) ∧
        tableView size tablePrefix (s.eraseAll deleted) = tableView size tablePrefix s

variable {size tablePrefix}

theorem TableKept.refl (s : Store (Object Row)) : TableKept size tablePrefix s s :=
  ⟨rfl, fun _ _ _ _ _ h => h⟩

/-- Readers do not see a put under a key that is no metadata file. -/
theorem TableKept.insert {s : Store (Object Row)} {key : Path} (hkey : ¬ NamedV key)
    (object : Object Row) : TableKept size tablePrefix s (s.insert key object) := by
  refine ⟨tableView_congr size tablePrefix fun other hother => ?_,
    fun _ _ _ _ _ hmem => (AList.mem_insert s).mpr (Or.inr hmem)⟩
  exact AList.lookup_insert_ne fun h => hkey (h ▸ hother)

theorem run_putVersion (location : String) (version : Int32) (doc : Value) (faults : Faults)
    (s : Store (Object Row)) :
    run size (putVersion location version doc) faults s =
      match faults 0 with
      | none => ⟨.ok (versionPath location version),
          s.insert (Path.ofText (versionPath location version)) (.json doc), faults.next⟩
      | some e => ⟨.error (.error ("S3 PUT metadata: " ++ e)), s, faults.next⟩ := by
  cases h : faults 0 <;>
    simp [putVersion, h, answer_of_none, answer_of_some, effect_of_none, effect_of_some]

/-- A commit that ends in one put has left the store alone when it fails. -/
theorem store_of_putVersion_error {location : String} {version : Int32} {doc : Value}
    {faults : Faults} {s : Store (Object Row)} {e : Failure}
    (h : (run size (putVersion location version doc) faults s).result = .error e) :
    (run size (putVersion location version doc) faults s).store = s := by
  rw [run_putVersion] at h ⊢
  cases h0 : faults 0 <;> simp_all

theorem appendSnapshot_errKeepsTable (state : IcebergTableState) (files : List DataFileInfo)
    (schema : ArrowSchema) (operation : String) (nowMs : Int64) (faults : Faults)
    (s : Store (Object Row)) :
    ErrKeepsTable size tablePrefix (appendSnapshot state files schema operation nowMs)
      faults s := by
  intro message
  unfold appendSnapshot
  split
  · exact fun _ => .refl s
  · cases h0 : faults 0 with
    | some e =>
      simp only [run_put, answer_of_some h0, effect_of_some h0, Program.orFail_error,
        Program.fail_bind, run_fail]
      exact fun _ => .refl s
    | none =>
      simp only [run_put, answer_of_none h0, effect_of_none h0, Program.orFail_ok,
        Program.done_bind]
      cases appendedMetadata state files schema operation nowMs with
      | none => simp
      | some doc =>
        intro h
        rw [Program.orPanic_some, Program.done_bind] at h ⊢
        rw [store_of_putVersion_error h]
        exact .insert (not_namedV_manifest _ nowMs) _

theorem evolvePartition_errKeepsTable (state : IcebergTableState)
    (newFields : List PartitionField) (nowMs : Int64) (faults : Faults)
    (s : Store (Object Row)) :
    ErrKeepsTable size tablePrefix (evolvePartition state newFields nowMs) faults s := by
  intro message
  unfold evolvePartition
  cases repartitionedMetadata state newFields nowMs with
  | none => simp
  | some doc =>
    intro h
    rw [Program.orPanic_some, Program.done_bind] at h ⊢
    rw [store_of_putVersion_error h]
    exact .refl s

theorem evolveSchema_errKeepsTable (state : IcebergTableState) (changes : List SchemaChange)
    (nowMs : Int64) (faults : Faults) (s : Store (Object Row)) :
    ErrKeepsTable size tablePrefix (evolveSchema state changes nowMs) faults s := by
  intro message
  unfold evolveSchema
  split
  · exact fun _ => .refl s
  · split
    · exact fun _ => .refl s
    · rename_i current _
      dsimp only
      cases changes.foldlM applyChange
          (current.fields, ((current.fields.map (·.id)).max?).getD 0) with
      | error message => exact fun _ => .refl s
      | ok new =>
        simp only [Program.orFail_ok, Program.done_bind]
        cases evolvedMetadata state new.1 new.2 nowMs with
        | none => simp
        | some doc =>
          intro h
          rw [Program.orPanic_some, Program.done_bind] at h ⊢
          rw [store_of_putVersion_error h]
          exact .refl s

/-- The metadata put of a creation comes first, so its second put can fail with the document
already in the store. -/
theorem writeIcebergMetadata_errKeepsTable_iff (schema : ArrowSchema)
    (dataFiles : List DataFileInfo) (tableUuid bucket : String) (nowMs : Int64)
    (faults : Faults) (s : Store (Object Row)) (state : IcebergTableState) :
    ErrKeepsTable size tablePrefix
        (writeIcebergMetadata tablePrefix schema dataFiles tableUuid bucket nowMs) faults s ↔
      (Commit.create schema dataFiles tableUuid bucket nowMs).Harmless size tablePrefix s state
        faults := by
  simp only [Commit.Harmless, ErrKeepsTable, writeIcebergMetadata, List.isEmpty_iff]
  split
  · rename_i hempty
    exact iff_of_true (fun _ _ => .refl s) (Or.inl hempty)
  · rename_i hfiles
    cases h0 : faults 0 with
    | some e =>
      refine iff_of_true (fun message _ => ?_) (Or.inr (Or.inl (by simp)))
      simp only [run_put, answer_of_some h0, effect_of_some h0, Program.orFail_error,
        Program.fail_bind, run_fail]
      exact .refl s
    | none =>
      cases h1 : faults.next 0 with
      | none =>
        refine iff_of_true (fun message h => ?_) (Or.inr (Or.inr (Or.inl h1)))
        simp [answer_of_none h0, answer_of_none h1] at h
      | some e =>
        have h1' : faults 1 ≠ none := fun h => by simp [Faults.next, h] at h1
        simp only [hfiles, h1', ne_eq, not_true_eq_false, false_or, run_put, answer_of_none h0,
          effect_of_none h0, Program.orFail_ok, Program.done_bind, answer_of_some h1,
          effect_of_some h1, Program.orFail_error, Program.fail_bind, run_fail]
        constructor
        · exact fun h => (h _ rfl).1
        · exact fun h message _ =>
            ⟨h, fun _ _ _ _ _ hmem => (AList.mem_insert s).mpr (Or.inr hmem)⟩

/-- Deleting manifest lists never fails as a whole. -/
theorem run_deleteManifests (location : String) (snaps : List SnapshotInfo) (faults : Faults)
    (s : Store (Object Row)) :
    run size (deleteManifests location snaps) faults s =
      ⟨.ok (deletedKeys location snaps faults).length,
        s.eraseAll (deletedKeys location snaps faults), faults.skip snaps.length⟩ := by
  unfold deletedKeys
  induction snaps generalizing faults s with
  | nil => rfl
  | cons snap rest ih =>
    cases h0 : faults 0 with
    | none =>
      simp only [deleteManifests, run_delete, run_bind, ih, run_pure, List.map_cons,
        Faults.passed, h0, answer_of_none h0, effect_of_none h0, Store.eraseAll_cons,
        List.length_cons, Faults.skip_next]
      simp [Except.isOk, Except.toBool, Nat.add_comm]
    | some e =>
      simp only [deleteManifests, run_delete, run_bind, ih, run_pure, List.map_cons,
        Faults.passed, h0, answer_of_some h0, effect_of_some h0, List.length_cons,
        Faults.skip_next]
      simp [Except.isOk, Except.toBool]

theorem snapshots_eq_nil_of_not_obj {doc : Value} (h : ∀ fields, doc ≠ .obj fields) :
    parseSnapshots doc = [] := by
  cases doc <;> first | rfl | exact absurd rfl (h _)

/-- The document of a state with snapshots can be indexed. -/
theorem expiredMetadata_isSome {doc : Value} {path : Path} (ids : List Int64) (nowMs : Int64)
    (h : (stateOf doc path).snapshots ≠ []) :
    ∃ doc', expiredMetadata (stateOf doc path) ids nowMs = some doc' := by
  cases doc with
  | obj fields => exact ⟨_, rfl⟩
  | _ => exact absurd (snapshots_eq_nil_of_not_obj (by simp)) h

theorem mem_snapshots_of_mem_expired {state : IcebergTableState} {olderThanMs : Int64}
    {retainLastN : ℕ} {snap : SnapshotInfo}
    (h : snap ∈ expiredSnapshots state olderThanMs retainLastN) : snap ∈ state.snapshots := by
  have hsorted := List.mem_of_mem_take (List.mem_of_mem_filter h)
  exact (List.perm_insertionSort _ _).mem_iff.mp hsorted

variable (size) in
/-- A run of `expire_snapshots` with something to expire: what it deletes and then puts. -/
theorem run_expireSnapshots {path : Path} {state : IcebergTableState}
    (hstate : state = stateOf state.metadata path) {olderThanMs : Int64} {retainLastN : ℕ}
    (hne : expiredSnapshots state olderThanMs retainLastN ≠ []) (nowMs : Int64)
    (faults : Faults) (s : Store (Object Row)) :
    let expired := expiredSnapshots state olderThanMs retainLastN
    let deleted := deletedKeys state.location expired faults
    let newPath := versionPath state.location (state.metadataVersion + 1)
    ∃ doc, expiredMetadata state (expired.map (·.snapshotId)) nowMs = some doc ∧
      run size (expireSnapshots state olderThanMs retainLastN nowMs) faults s =
        match faults expired.length with
        | some e => ⟨.error (.error ("S3 PUT metadata: " ++ e)), s.eraseAll deleted,
            faults.skip (expired.length + 1)⟩
        | none => ⟨.ok ⟨expired.length, expired.map (·.snapshotId), deleted.length, newPath⟩,
            (s.eraseAll deleted).insert (Path.ofText newPath) (.json doc),
            faults.skip (expired.length + 1)⟩ := by
  intro expired deleted newPath
  obtain ⟨first, hfirst⟩ := List.exists_mem_of_ne_nil _ hne
  have hsnaps : (stateOf state.metadata path).snapshots ≠ [] := by
    rw [← hstate]
    exact List.ne_nil_of_mem (mem_snapshots_of_mem_expired hfirst)
  obtain ⟨doc, hdoc⟩ := expiredMetadata_isSome (expired.map (·.snapshotId)) nowMs hsnaps
  rw [← hstate] at hdoc
  refine ⟨doc, hdoc, ?_⟩
  have hnotEmpty : ¬ (expiredSnapshots state olderThanMs retainLastN).isEmpty = true := by
    simpa using hne
  rw [expireSnapshots, if_neg hnotEmpty]
  simp only [run_bind, run_deleteManifests, expired, hdoc, Program.orPanic_some, run_done,
    run_putVersion, Faults.skip_apply_zero, Faults.next_skip]
  cases faults (expiredSnapshots state olderThanMs retainLastN).length <;>
    simp [deleted, newPath, expired]

theorem expireSnapshots_errKeepsTable_iff {s : Store (Object Row)} {path : Path}
    {state : IcebergTableState}
    (hview : tableView size tablePrefix s = .ok (some (path, state)))
    (olderThanMs : Int64) (retainLastN : ℕ) (nowMs : Int64) (faults : Faults) :
    ErrKeepsTable size tablePrefix (expireSnapshots state olderThanMs retainLastN nowMs)
        faults s ↔
      (Commit.expire olderThanMs retainLastN nowMs).Harmless size tablePrefix s state
        faults := by
  by_cases hne : expiredSnapshots state olderThanMs retainLastN = []
  · have hok : (run size (expireSnapshots state olderThanMs retainLastN nowMs) faults s).result
        = .ok ⟨0, [], 0, ""⟩ := by simp [expireSnapshots, hne]
    refine iff_of_true (fun message h => ?_) (Or.inr ⟨?_, ?_⟩)
    · rw [hok] at h
      cases h
    · simp [hne, deletedKeys, Faults.passed]
    · simp [hne, deletedKeys, Faults.passed]
  · have hstate := (eq_stateOf_of_tableView size hview).1
    obtain ⟨doc, -, hrun⟩ := run_expireSnapshots size hstate hne nowMs faults s
    simp only [ErrKeepsTable, Commit.Harmless, hrun]
    cases faults (expiredSnapshots state olderThanMs retainLastN).length with
    | none => simp
    | some e =>
      simp only [reduceCtorEq, false_or]
      constructor
      · intro h
        obtain ⟨hsame, hlists⟩ := h _ rfl
        refine ⟨fun snap hsnap hdeleted hpresent => ?_, hsame⟩
        have hmem := hlists path state (hsame.trans hview) snap hsnap hpresent
        exact (Store.mem_eraseAll.mp hmem).2 hdeleted
      · rintro ⟨hunnamed, hsame⟩ message -
        refine ⟨hsame, fun path' state' hview' snap hsnap hpresent => ?_⟩
        obtain rfl : state = state' := by
          have := hview.symm.trans (hsame.symm.trans hview')
          simp at this
          exact this.2
        exact Store.mem_eraseAll.mpr ⟨hpresent, fun hd => hunnamed snap hsnap hd hpresent⟩

/-- What a program makes of its value does not matter to the store. -/
theorem errKeepsTable_map {α β : Type} (p : Program (Object Row) α) (f : α → β)
    (faults : Faults) (s : Store (Object Row)) :
    ErrKeepsTable size tablePrefix (p >>= fun a => pure (f a)) faults s ↔
      ErrKeepsTable size tablePrefix p faults s := by
  unfold ErrKeepsTable
  rw [run_bind]
  rcases run size p faults s with ⟨result, after, left⟩
  cases result <;> simp

/-- An `Err` of a commit keeps the table exactly when it is harmless: always for appends and
evolutions, not for a creation or an expiry that fails halfway. -/
theorem errKeepsTable_iff_harmless (c : Commit) {s : Store (Object Row)}
    {state : IcebergTableState} (h : c.StartsFrom size tablePrefix s state) (faults : Faults) :
    ErrKeepsTable size tablePrefix (c.program tablePrefix state) faults s ↔
      c.Harmless size tablePrefix s state faults := by
  cases c with
  | create schema dataFiles tableUuid bucket nowMs =>
    exact writeIcebergMetadata_errKeepsTable_iff schema dataFiles tableUuid bucket nowMs faults s
      state
  | append files schema operation nowMs =>
    exact iff_of_true (appendSnapshot_errKeepsTable state files schema operation nowMs faults s)
      trivial
  | evolveSchema changes nowMs =>
    exact iff_of_true (evolveSchema_errKeepsTable state changes nowMs faults s) trivial
  | evolvePartition newFields nowMs =>
    exact iff_of_true (evolvePartition_errKeepsTable state newFields nowMs faults s) trivial
  | expire olderThanMs retainLastN nowMs =>
    obtain ⟨path, hview⟩ := h
    exact (errKeepsTable_map _ _ faults s).trans
      (expireSnapshots_errKeepsTable_iff hview olderThanMs retainLastN nowMs faults)

end Store

section Orders

private def snapshotDoc (id : ℤ) (manifest : String) : Value :=
  .obj [("snapshot-id", .num id), ("timestamp-ms", .num id), ("manifest-list", .str manifest)]

/-- A table of two snapshots at its second version. -/
def ordersDoc : Value :=
  .obj [
    ("location", .str "s3://lake/orders"),
    ("current-snapshot-id", .num 2000),
    ("snapshots", .arr [
      snapshotDoc 1000 "s3://lake/orders/metadata/snap-1000-manifest-list.json",
      snapshotDoc 2000 "s3://lake/orders/metadata/snap-2000-manifest-list.json"])]

def ordersPath : Path := "orders/metadata/v2.metadata.json"

def ordersStore : Store (Object ℕ) :=
  ((∅ : Store (Object ℕ)).insert ordersPath (.json ordersDoc)).insert
    "orders/metadata/snap-1000-manifest-list.json" (.other 310)

private theorem ordersStore_view : tableView (fun _ => 0) "orders" ordersStore =
    .ok (some (ordersPath, stateOf ordersDoc ordersPath)) := by rfl

theorem errKeepsTable_iff_harmless_orders :
    ErrKeepsTable (fun _ => 0) "orders" ((Commit.expire 1500 1 3000).program "orders"
        (stateOf ordersDoc ordersPath)) (failAt 0 "503 Slow Down") ordersStore ↔
      (Commit.expire 1500 1 3000).Harmless (fun _ => 0) "orders" ordersStore
        (stateOf ordersDoc ordersPath) (failAt 0 "503 Slow Down") :=
  errKeepsTable_iff_harmless (.expire 1500 1 3000) ⟨ordersPath, ordersStore_view⟩ _

/-- Creating a table with its second put failing leaves a table to readers; expiring a
snapshot with the metadata put failing leaves that snapshot without its manifest list. -/
theorem not_errKeepsTable_orders :
    (¬ ErrKeepsTable (fun _ => 0) "orders" ((Commit.create [⟨"id", .int64, false⟩]
        [⟨"orders/part-0.parquet", 900, 3⟩] "c5b1" "lake" 1000).program "orders"
          (stateOf .null "")) (failAt 1 "503 Slow Down") (∅ : Store (Object ℕ))) ∧
    (Commit.expire 1500 1 3000).StartsFrom (fun _ => 0) "orders" ordersStore
      (stateOf ordersDoc ordersPath) ∧
    ¬ ErrKeepsTable (fun _ => 0) "orders" ((Commit.expire 1500 1 3000).program "orders"
        (stateOf ordersDoc ordersPath)) (failAt 1 "503 Slow Down") ordersStore := by
  refine ⟨fun h => ?_, ⟨ordersPath, ordersStore_view⟩, fun h => ?_⟩
  · have hsame := (h _ rfl).1
    rw [tableView_eq, tableView_eq] at hsame
    exact absurd (congrArg (fun view => view.toOption.map Option.isSome) hsame) (by decide +kernel)
  · rw [Commit.program, errKeepsTable_map, expireSnapshots_errKeepsTable_iff ordersStore_view] at h
    rcases h with hput | ⟨hunnamed, -⟩
    · exact absurd hput (by decide)
    · exact absurd (hunnamed _ List.mem_cons_self) (by decide +kernel)

end Orders
end RustLake.Iceberg
