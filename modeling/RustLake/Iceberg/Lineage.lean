import RustLake.Iceberg.History
import RustLake.Iceberg.Compaction

/-! What a successful commit makes of a table, and runs of commits in which each one starts from
the table reloaded from the path that the one before it returned. -/
namespace RustLake.Iceberg
open RustLake.Json RustLake.ObjectStore RustLake.Text

def Commit.nowMs : Commit → Int64
  | .create _ _ _ _ nowMs => nowMs
  | .append _ _ _ nowMs => nowMs
  | .evolveSchema _ nowMs => nowMs
  | .evolvePartition _ nowMs => nowMs
  | .expire _ _ nowMs => nowMs

def Commit.isCreate : Commit → Bool
  | .create .. => true
  | _ => false

/-- The path of the metadata file that a commit puts. -/
def Commit.target (tablePrefix : String) (state : IcebergTableState) : Commit → String
  | .create .. => tablePrefix ++ "/metadata/v1.metadata.json"
  | _ => versionPath state.location (state.metadataVersion + 1)

/-- The document that a commit puts when it succeeds. -/
def Commit.Produces (tablePrefix : String) (state : IcebergTableState) (doc : Value) :
    Commit → Prop
  | .create schema dataFiles tableUuid bucket nowMs => dataFiles ≠ [] ∧
    doc = initialMetadata ("s3://" ++ bucket ++ "/" ++ tablePrefix) schema dataFiles tableUuid
      nowMs
  | .append newDataFiles schema operation nowMs => newDataFiles ≠ [] ∧
    appendedMetadata state newDataFiles schema operation nowMs = some doc
  | .evolveSchema changes nowMs => changes ≠ [] ∧ ∃ current new,
    state.schemas.find? (·.schemaId = state.currentSchemaId) = some current ∧
      changes.foldlM applyChange (current.fields, ((current.fields.map (·.id)).max?).getD 0) =
        .ok new ∧
      evolvedMetadata state new.1 new.2 nowMs = some doc
  | .evolvePartition newFields nowMs => repartitionedMetadata state newFields nowMs = some doc
  | .expire olderThanMs retainLastN nowMs =>
    expiredSnapshots state olderThanMs retainLastN ≠ [] ∧
      expiredMetadata state ((expiredSnapshots state olderThanMs retainLastN).map (·.snapshotId))
        nowMs = some doc

variable {Row : Type}

/-- The stores hold the same metadata files. -/
def SameMetadata (s t : Store (Object Row)) : Prop := ∀ key, NamedV key → t.lookup key = s.lookup key

theorem SameMetadata.refl (s : Store (Object Row)) : SameMetadata s s := fun _ _ => rfl

theorem SameMetadata.trans {s t u : Store (Object Row)} (h : SameMetadata s t)
    (h' : SameMetadata t u) : SameMetadata s u := fun key hkey => (h' key hkey).trans (h key hkey)

theorem SameMetadata.insert_left {s t : Store (Object Row)} (h : SameMetadata s t) (key : Path)
    (object : Object Row) : SameMetadata (s.insert key object) (t.insert key object) := by
  intro other hother
  by_cases hkey : other = key
  · rw [hkey, AList.lookup_insert, AList.lookup_insert]
  · rw [AList.lookup_insert_ne hkey, AList.lookup_insert_ne hkey, h other hother]

theorem SameMetadata.insert {s : Store (Object Row)} {key : Path} (hkey : ¬ NamedV key)
    (object : Object Row) : SameMetadata s (s.insert key object) :=
  fun _ hother => AList.lookup_insert_ne fun heq => hkey (heq ▸ hother)

section Run
variable {size : Object Row → ℕ} {tablePrefix : String} {state : IcebergTableState}
  {faults faults' : Faults} {s s' : Store (Object Row)} {path : String}

theorem putVersion_ok {location : String} {version : Int32} {doc : Value}
    (h : run size (putVersion location version doc) faults s = ⟨.ok path, s', faults'⟩) :
    path = versionPath location version ∧ s' = s.insert (Path.ofText path) (.json doc) := by
  unfold putVersion at h
  simp only [run_put] at h
  obtain ⟨_, hput, h⟩ := run_orFail_bind_ok size h
  rw [effect_of_none (answer_eq_ok hput).1] at h
  cases h
  exact ⟨rfl, rfl⟩

theorem writeIcebergMetadata_ok {schema : ArrowSchema} {dataFiles : List DataFileInfo}
    {tableUuid bucket : String} {nowMs : Int64}
    (h : run size (writeIcebergMetadata tablePrefix schema dataFiles tableUuid bucket nowMs)
      faults s = ⟨.ok path, s', faults'⟩) :
    dataFiles ≠ [] ∧ path = tablePrefix ++ "/metadata/v1.metadata.json" ∧
      s' = (s.insert (Path.ofText path) (.json (initialMetadata
          ("s3://" ++ bucket ++ "/" ++ tablePrefix) schema dataFiles tableUuid nowMs))).insert
        (Path.ofText (tablePrefix ++ "/metadata/" ++ manifestListName nowMs))
        (.json (manifestList ("s3://" ++ bucket ++ "/" ++ tablePrefix) dataFiles nowMs)) := by
  unfold writeIcebergMetadata at h
  split at h
  · cases h
  · rename_i hfiles
    simp only [run_put] at h
    obtain ⟨_, hput, h⟩ := run_orFail_bind_ok size h
    rw [effect_of_none (answer_eq_ok hput).1] at h
    simp only [run_put] at h
    obtain ⟨_, hput', h⟩ := run_orFail_bind_ok size h
    rw [effect_of_none (answer_eq_ok hput').1] at h
    cases h
    exact ⟨by simpa using hfiles, rfl, rfl⟩

theorem evolveSchema_ok {changes : List SchemaChange} {nowMs : Int64}
    (h : run size (evolveSchema state changes nowMs) faults s = ⟨.ok path, s', faults'⟩) :
    ∃ doc, (Commit.evolveSchema changes nowMs).Produces tablePrefix state doc ∧
      path = versionPath state.location (state.metadataVersion + 1) ∧
      s' = s.insert (Path.ofText path) (.json doc) := by
  unfold evolveSchema at h
  split at h
  · cases h
  · rename_i hchanges
    split at h
    · cases h
    · rename_i current hcurrent
      obtain ⟨new, hnew, h⟩ := run_orFail_bind_ok size h
      obtain ⟨doc, hdoc, h⟩ := run_orPanic_bind_ok size h
      exact ⟨doc, ⟨by simpa using hchanges, current, new, hcurrent, hnew, hdoc⟩, putVersion_ok h⟩

theorem evolvePartition_ok {newFields : List PartitionField} {nowMs : Int64}
    (h : run size (evolvePartition state newFields nowMs) faults s = ⟨.ok path, s', faults'⟩) :
    ∃ doc, repartitionedMetadata state newFields nowMs = some doc ∧
      path = versionPath state.location (state.metadataVersion + 1) ∧
      s' = s.insert (Path.ofText path) (.json doc) := by
  obtain ⟨doc, hdoc, h⟩ := run_orPanic_bind_ok size h
  exact ⟨doc, hdoc, putVersion_ok h⟩

/-- An expiry either finds nothing and puts nothing, or puts a new version. -/
theorem expireSnapshots_cases {olderThanMs : Int64} {retainLastN : ℕ} {nowMs : Int64}
    {result : ExpireResult}
    (h : run size (expireSnapshots state olderThanMs retainLastN nowMs) faults s =
      ⟨.ok result, s', faults'⟩) :
    (expiredSnapshots state olderThanMs retainLastN = [] ∧ result.metadataPath = "" ∧ s' = s) ∨
    ∃ doc, (Commit.expire olderThanMs retainLastN nowMs).Produces tablePrefix state doc ∧
      result.metadataPath = versionPath state.location (state.metadataVersion + 1) ∧
      s' = (s.eraseAll (deletedKeys state.location
        (expiredSnapshots state olderThanMs retainLastN) faults)).insert
          (Path.ofText result.metadataPath) (.json doc) := by
  unfold expireSnapshots at h
  dsimp only at h
  split at h
  · rename_i hempty
    cases h
    exact Or.inl ⟨by simpa using hempty, rfl, rfl⟩
  · rename_i hne
    rw [run_bind, run_deleteManifests] at h
    obtain ⟨doc, hdoc, h⟩ := run_orPanic_bind_ok size h
    obtain ⟨path, s₁, faults₁, hput, h⟩ := run_bind_ok size h
    cases h
    obtain ⟨hpath, hstore⟩ := putVersion_ok hput
    exact Or.inr ⟨doc, ⟨by simpa using hne, hdoc⟩, hpath, hstore⟩

theorem expireSnapshots_ok {olderThanMs : Int64} {retainLastN : ℕ} {nowMs : Int64}
    {result : ExpireResult}
    (h : run size (expireSnapshots state olderThanMs retainLastN nowMs) faults s =
      ⟨.ok result, s', faults'⟩) (hpath : result.metadataPath ≠ "") :
    ∃ doc, (Commit.expire olderThanMs retainLastN nowMs).Produces tablePrefix state doc ∧
      result.metadataPath = versionPath state.location (state.metadataVersion + 1) ∧
      s' = (s.eraseAll (deletedKeys state.location
        (expiredSnapshots state olderThanMs retainLastN) faults)).insert
          (Path.ofText result.metadataPath) (.json doc) := by
  rcases @expireSnapshots_cases _ _ tablePrefix _ _ _ _ _ _ _ _ _ h with ⟨-, hnone, -⟩ | hput
  · exact absurd hnone hpath
  · exact hput

theorem sameMetadata_deleted
    (h : ∀ snap ∈ state.snapshots, ¬ NamedV (manifestListKey state.location snap))
    (olderThanMs : Int64) (retainLastN : ℕ) (faults : Faults) (s : Store (Object Row)) :
    SameMetadata s (s.eraseAll (deletedKeys state.location
      (expiredSnapshots state olderThanMs retainLastN) faults)) := by
  intro key hkey
  refine Store.lookup_eraseAll_of_notMem fun hdeleted => ?_
  obtain ⟨snap, hsnap, rfl⟩ := List.mem_map.mp (Faults.mem_of_mem_passed hdeleted)
  exact h snap (mem_snapshots_of_mem_expired hsnap) hkey

/-- A commit that returns the path of a metadata file: the document it has put there, and, when
the manifest lists of the table are no metadata files themselves, nothing else readers see. -/
theorem Commit.run_ok {c : Commit}
    (h : run size (c.program tablePrefix state) faults s = ⟨.ok path, s', faults'⟩)
    (hpath : path ≠ "") :
    ∃ doc, c.Produces tablePrefix state doc ∧ path = c.target tablePrefix state ∧
      s'.lookup (Path.ofText path) = some (.json doc) ∧
      ((∀ snap ∈ state.snapshots, ¬ NamedV (manifestListKey state.location snap)) →
        SameMetadata (s.insert (Path.ofText path) (.json doc)) s') := by
  cases c with
  | create schema dataFiles tableUuid bucket nowMs =>
    obtain ⟨hfiles, rfl, rfl⟩ := writeIcebergMetadata_ok h
    have hmanifest := not_namedV_manifest tablePrefix nowMs
    refine ⟨_, ⟨hfiles, rfl⟩, rfl, ?_, fun _ => .insert hmanifest _⟩
    have hnamed : NamedV (Path.ofText (tablePrefix ++ "/metadata/v1.metadata.json")) := by
      rw [versionText_one]
      exact namedV_versionText tablePrefix 1
    rw [AList.lookup_insert_ne fun heq => hmanifest (by rwa [← heq]), AList.lookup_insert]
  | append newDataFiles schema operation nowMs =>
    obtain ⟨doc, hdoc, rfl, rfl⟩ := appendSnapshot_ok h
    have hfiles : newDataFiles ≠ [] := by
      rintro rfl
      cases h
    refine ⟨doc, ⟨hfiles, hdoc⟩, rfl, AList.lookup_insert _, fun _ => ?_⟩
    exact (SameMetadata.insert (not_namedV_manifest _ nowMs) _).insert_left _ _
  | evolveSchema changes nowMs =>
    obtain ⟨doc, hdoc, rfl, rfl⟩ := @evolveSchema_ok _ _ tablePrefix _ _ _ _ _ _ _ _ h
    exact ⟨doc, hdoc, rfl, AList.lookup_insert _, fun _ => .refl _⟩
  | evolvePartition newFields nowMs =>
    obtain ⟨doc, hdoc, rfl, rfl⟩ := evolvePartition_ok h
    exact ⟨doc, hdoc, rfl, AList.lookup_insert _, fun _ => .refl _⟩
  | expire olderThanMs retainLastN nowMs =>
    obtain ⟨result, s₁, faults₁, hrun, hdone⟩ := run_bind_ok size h
    cases hdone
    obtain ⟨doc, hdoc, hpath, hstore⟩ := expireSnapshots_ok hrun hpath
    rw [hstore]
    refine ⟨doc, hdoc, hpath, AList.lookup_insert _, fun hlists => SameMetadata.insert_left ?_ _ _⟩
    exact sameMetadata_deleted hlists _ _ _ s

end Run

/-- The commit succeeds on some store, under some faults, and the table reloaded from the path
it returns is `state'`. -/
def Commit.Makes (tablePrefix : String) (c : Commit) (state state' : IcebergTableState) : Prop :=
  ∃ (Row : Type) (size : Object Row → ℕ) (faults faults' : Faults) (s s' : Store (Object Row))
    (path : String), path ≠ "" ∧
      run size (c.program tablePrefix state) faults s = ⟨.ok path, s', faults'⟩ ∧
      (run size (loadTableState path) noFaults s').result = .ok state'

section Document
variable {tablePrefix : String} {c : Commit} {state state' : IcebergTableState} {doc : Value}

/-- The reloaded table is the one of the document that the commit has put. -/
theorem Commit.Makes.produces (h : c.Makes tablePrefix state state') :
    ∃ doc, c.Produces tablePrefix state doc ∧ state' = stateOf doc (c.target tablePrefix state) := by
  obtain ⟨Row, size, faults, faults', s, s', path, hpath, hrun, hload⟩ := h
  obtain ⟨doc, hdoc, htarget, hlook, -⟩ := c.run_ok hrun hpath
  refine ⟨doc, hdoc, ?_⟩
  rw [run_loadTableState, Store.found_eq_ok.mpr hlook] at hload
  rw [← htarget]
  exact (Except.ok.inj hload).symm

theorem Commit.Produces.unique {doc' : Value} (h : c.Produces tablePrefix state doc)
    (h' : c.Produces tablePrefix state doc') : doc = doc' := by
  cases c with
  | create => exact h.2.trans h'.2.symm
  | append => exact Option.some.inj (h.2.symm.trans h'.2)
  | evolveSchema =>
    obtain ⟨-, current, new, hcurrent, hnew, hdoc⟩ := h
    obtain ⟨-, current', new', hcurrent', hnew', hdoc'⟩ := h'
    obtain rfl := Option.some.inj (hcurrent.symm.trans hcurrent')
    obtain rfl := Except.ok.inj (hnew.symm.trans hnew')
    exact Option.some.inj (hdoc.symm.trans hdoc')
  | evolvePartition => exact Option.some.inj (h.symm.trans h')
  | expire => exact Option.some.inj (h.2.symm.trans h'.2)

/-- Where no store call fails, the commit returns its path. -/
theorem Commit.Produces.run_eq {Row : Type} {size : Object Row → ℕ}
    (h : c.Produces tablePrefix state doc) (s : Store (Object Row)) :
    ∃ s' faults', run size (c.program tablePrefix state) noFaults s =
      ⟨.ok (c.target tablePrefix state), s', faults'⟩ := by
  cases c with
  | create schema dataFiles tableUuid bucket nowMs =>
    have hfiles : dataFiles.isEmpty = false := by simpa using h.1
    simp only [Commit.program, writeIcebergMetadata, hfiles]
    exact ⟨_, _, rfl⟩
  | append newDataFiles schema operation nowMs =>
    have hfiles : newDataFiles.isEmpty = false := by simpa using h.1
    simp only [Commit.program, appendSnapshot, hfiles, h.2]
    exact ⟨_, _, rfl⟩
  | evolveSchema changes nowMs =>
    obtain ⟨hchanges, current, new, hcurrent, hnew, hdoc⟩ := h
    have hsome : changes.isEmpty = false := by simpa using hchanges
    simp only [Commit.program, RustLake.Iceberg.evolveSchema, hsome, hcurrent, hnew, hdoc,
      Program.orFail_ok, Program.done_bind]
    exact ⟨_, _, rfl⟩
  | evolvePartition newFields nowMs =>
    have hdoc : repartitionedMetadata state newFields nowMs = some doc := h
    simp only [Commit.program, RustLake.Iceberg.evolvePartition, hdoc]
    exact ⟨_, _, rfl⟩
  | expire olderThanMs retainLastN nowMs =>
    obtain ⟨hne, hdoc⟩ := h
    have hsome : (expiredSnapshots state olderThanMs retainLastN).isEmpty = false := by
      simpa using hne
    simp only [Commit.program, expireSnapshots, hsome, Bool.false_eq_true, if_false, run_bind,
      run_deleteManifests, hdoc]
    exact ⟨_, _, rfl⟩

theorem target_ne_empty (c : Commit) (tablePrefix : String) (state : IcebergTableState) :
    c.target tablePrefix state ≠ "" := by
  have hnamed : ∀ directory version, versionText directory version ≠ "" := by
    intro directory version heq
    have hname := fileName_versionText directory version
    rw [heq] at hname
    cases hname
  cases c with
  | create =>
    unfold Commit.target
    rw [versionText_one]
    exact hnamed _ _
  | _ => exact hnamed _ _

/-- A document that a commit can put is put and reloaded. -/
theorem Commit.makes_of_produces (h : c.Produces tablePrefix state doc) :
    c.Makes tablePrefix state (stateOf doc (c.target tablePrefix state)) := by
  obtain ⟨s', faults', hrun⟩ : ∃ s' faults', run (fun _ => 0) (c.program tablePrefix state) noFaults
      (∅ : Store (Object ℕ)) = ⟨.ok (c.target tablePrefix state), s', faults'⟩ := h.run_eq _
  have hne := target_ne_empty c tablePrefix state
  obtain ⟨doc', hdoc', -, hlook, -⟩ := c.run_ok hrun hne
  obtain rfl := h.unique hdoc'
  refine ⟨ℕ, fun _ => 0, noFaults, faults', ∅, s', _, hne, hrun, ?_⟩
  rw [run_loadTableState, Store.found_eq_ok.mpr hlook]
  rfl

/-- The document has all arrays that commits add to. -/
def WellFormed (doc : Value) : Prop := ∀ key ∈ arrayKeys, HasArray doc key

theorem WellFormed.initial (location : String) (schema : ArrowSchema) (files : List DataFileInfo)
    (tableUuid : String) (nowMs : Int64) :
    WellFormed (initialMetadata location schema files tableUuid nowMs) := by
  intro key hkey
  simp only [arrayKeys, List.mem_cons, List.not_mem_nil, or_false] at hkey
  rcases hkey with rfl | rfl | rfl | rfl
  · exact ⟨_, rfl⟩
  · exact ⟨_, rfl⟩
  · exact ⟨_, rfl⟩
  · exact ⟨_, rfl⟩

theorem Commit.Produces.wellFormed (h : c.Produces tablePrefix state doc)
    (hstate : WellFormed state.metadata) : WellFormed doc := by
  intro key hkey
  cases c with
  | create schema dataFiles tableUuid bucket nowMs =>
    obtain ⟨-, rfl⟩ := h
    exact WellFormed.initial _ _ _ _ _ key hkey
  | append => exact hasArray_appendedMetadata h.2 hkey (hstate key hkey)
  | evolveSchema =>
    obtain ⟨-, _, _, -, -, h⟩ := h
    exact hasArray_evolvedMetadata h hkey (hstate key hkey)
  | evolvePartition => exact hasArray_repartitionedMetadata h hkey (hstate key hkey)
  | expire => exact hasArray_expiredMetadata h.2 hkey (hstate key hkey)

/-- Every commit on a table logs the version it starts from. -/
theorem Commit.Produces.log (h : c.Produces tablePrefix state doc) (hc : c.isCreate = false)
    (hstate : WellFormed state.metadata) :
    arrayAt doc "metadata-log" =
      arrayAt state.metadata "metadata-log" ++ [logEntry state c.nowMs] := by
  have harray := hstate "metadata-log" (by decide)
  cases c with
  | create => cases hc
  | append => exact log_appendedMetadata h.2 harray
  | evolveSchema =>
    obtain ⟨-, _, _, -, -, h⟩ := h
    exact log_evolvedMetadata h harray
  | evolvePartition => exact log_repartitionedMetadata h harray
  | expire => exact log_expiredMetadata h.2 harray

theorem Commit.Produces.location (h : c.Produces tablePrefix state doc) (hc : c.isCreate = false) :
    strAt doc "location" "" = strAt state.metadata "location" "" := by
  refine strAt_congr ?_ _
  cases c with
  | create => cases hc
  | append => exact get_appendedMetadata h.2 (by decide)
  | evolveSchema =>
    obtain ⟨-, _, _, -, -, h⟩ := h
    exact get_evolvedMetadata h (by decide)
  | evolvePartition => exact get_repartitionedMetadata h (by decide)
  | expire => exact get_expiredMetadata h.2 (by decide)

end Document

/-- Commits with the tables they made, the latest first. The table is created, and each later
commit starts from the table reloaded after the one before. Every commit is allowed after those
before it. -/
inductive Trace (tablePrefix : String)
    (allowed : List (Commit × IcebergTableState) → Commit → Prop) :
    List (Commit × IcebergTableState) → Prop
  | create {c : Commit} {state state' : IcebergTableState} : c.isCreate = true → allowed [] c →
      c.Makes tablePrefix state state' → Trace tablePrefix allowed [(c, state')]
  | commit {c last : Commit} {state state' : IcebergTableState}
      {trace : List (Commit × IcebergTableState)} :
      Trace tablePrefix allowed ((last, state) :: trace) → c.isCreate = false →
      allowed ((last, state) :: trace) c → c.Makes tablePrefix state state' →
      Trace tablePrefix allowed ((c, state') :: (last, state) :: trace)

section Trace
variable {tablePrefix : String} {allowed : List (Commit × IcebergTableState) → Commit → Prop}
  {trace : List (Commit × IcebergTableState)}

/-- Every table of a trace is the one of a well-formed document. -/
theorem Trace.wellFormed (h : Trace tablePrefix allowed trace) {c : Commit}
    {state : IcebergTableState} (hmem : (c, state) ∈ trace) :
    WellFormed state.metadata ∧ ∃ path, state = stateOf state.metadata path := by
  induction h generalizing c state with
  | create hcreate hallowed hmakes =>
    obtain ⟨rfl, rfl⟩ := Prod.mk.inj (List.mem_singleton.mp hmem)
    obtain ⟨doc, hdoc, rfl⟩ := hmakes.produces
    cases c with
    | create =>
      obtain ⟨-, rfl⟩ := hdoc
      exact ⟨.initial _ _ _ _ _, _, rfl⟩
    | _ => cases hcreate
  | commit htrace hc hallowed hmakes ih =>
    rcases List.mem_cons.mp hmem with heq | hmem
    · obtain ⟨rfl, rfl⟩ := Prod.mk.inj heq
      obtain ⟨doc, hdoc, rfl⟩ := hmakes.produces
      exact ⟨hdoc.wellFormed (ih List.mem_cons_self).1, _, rfl⟩
    · exact ih hmem

/-- What a run had come to before its last commits. -/
theorem Trace.suffix {later earlier : List (Commit × IcebergTableState)}
    {e : Commit × IcebergTableState} (h : Trace tablePrefix allowed (later ++ e :: earlier)) :
    Trace tablePrefix allowed (e :: earlier) := by
  induction later with
  | nil => exact h
  | cons last later ih =>
    apply ih
    generalize hrest : later ++ e :: earlier = rest at h
    cases rest with
    | nil => simp at hrest
    | cons next rest =>
      rw [List.cons_append, hrest] at h
      cases h with
      | commit htrace => exact htrace

end Trace
end RustLake.Iceberg
