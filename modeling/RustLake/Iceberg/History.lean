import RustLake.Iceberg.Atomicity
import RustLake.Iceberg.Documents

/-! Histories of a bucket in which one table is committed to and data files are uploaded,
with a record of the data files that each snapshot was made for. -/
namespace RustLake.Iceberg
open RustLake.Json RustLake.ObjectStore RustLake.Text

structure History (Row : Type) where
  store : Store (Object Row)
  /-- The id of each snapshot written and the data files handed to its commit. -/
  recorded : List (Int64 × List DataFileInfo)

variable {Row : Type}

/-- The snapshot that a commit wrote: a creation has written it with its first put. -/
def Commit.records (faults : Faults) (result : Except Failure String) :
    Commit → List (Int64 × List DataFileInfo)
  | .create _ dataFiles _ _ nowMs =>
    if dataFiles ≠ [] ∧ faults 0 = none then [(nowMs, dataFiles)] else []
  | .append newDataFiles _ _ nowMs => if result.isOk then [(nowMs, newDataFiles)] else []
  | _ => []

section Runs
variable (size : Object Row → ℕ) (tablePrefix : String)

def History.commit (w : History Row) (c : Commit) (state : IcebergTableState)
    (faults : Faults) : History Row :=
  let outcome := run size (c.program tablePrefix state) faults w.store
  { store := outcome.store, recorded := w.recorded ++ c.records faults outcome.result }

/-- The histories of an empty bucket: uploads of objects that are no JSON documents, and
commits under any faults, each from the state that readers see. -/
inductive Reached : History Row → Prop
  | empty : Reached { store := ∅, recorded := [] }
  | upload {w : History Row} (hw : Reached w) (path : Path) (object : Object Row)
      (hobject : ∀ doc, object ≠ .json doc) :
      Reached { w with store := w.store.insert path object }
  | commit {w : History Row} (hw : Reached w) {c : Commit} {state : IcebergTableState}
      (hstart : c.StartsFrom size tablePrefix w.store state) (faults : Faults) :
      Reached (w.commit size tablePrefix c state faults)

end Runs

/-- The metadata documents that a commit may put. -/
def Commit.Writes (tablePrefix : String) (state : IcebergTableState) (doc : Value) :
    Commit → Prop
  | .create schema dataFiles tableUuid bucket nowMs =>
    doc = initialMetadata ("s3://" ++ bucket ++ "/" ++ tablePrefix) schema dataFiles tableUuid
      nowMs
  | .append newDataFiles schema operation nowMs =>
    appendedMetadata state newDataFiles schema operation nowMs = some doc
  | .evolveSchema _ nowMs =>
    ∃ newFields maxId, evolvedMetadata state newFields maxId nowMs = some doc
  | .evolvePartition newFields nowMs => repartitionedMetadata state newFields nowMs = some doc
  | .expire _ _ nowMs => ∃ ids, expiredMetadata state ids nowMs = some doc

/-- A put of a metadata file holds a document with this property. -/
def PutsDoc (D : Value → Prop) (key : Path) (object : Object Row) : Prop :=
  NamedV key → ∀ doc, object = .json doc → D doc

theorem PutsDoc.of_doc {D : Value → Prop} {key : Path} {doc : Value} (h : D doc) :
    PutsDoc D key (.json doc : Object Row) := by
  intro _ other hother
  cases hother
  exact h

theorem PutsDoc.of_manifest {D : Value → Prop} (a : String) (id : Int64) (doc : Value) :
    PutsDoc D (Path.ofText (a ++ "/metadata/" ++ manifestListName id))
      (.json doc : Object Row) :=
  fun hkey => absurd hkey (not_namedV_manifest a id)

theorem puts_putVersion {D : Value → Prop} {doc : Value} (h : D doc) (location : String)
    (version : Int32) : (putVersion location version doc : Program (Object Row) String).Puts
      (PutsDoc D) := by
  refine ⟨.of_doc h, fun r => ?_⟩
  exact .bind (puts_orFail _ _ r) fun _ => trivial

theorem puts_deleteManifests (P : Path → Object Row → Prop) (location : String)
    (snaps : List SnapshotInfo) :
    (deleteManifests location snaps : Program (Object Row) ℕ).Puts P := by
  induction snaps with
  | nil => trivial
  | cons snap rest ih => exact fun r => .bind ih fun _ => trivial

section Puts
variable {D : Value → Prop} {state : IcebergTableState} {nowMs : Int64}

theorem puts_writeIcebergMetadata {tablePrefix bucket : String} {schema : ArrowSchema}
    {files : List DataFileInfo} {tableUuid : String}
    (h : D (initialMetadata ("s3://" ++ bucket ++ "/" ++ tablePrefix) schema files tableUuid
      nowMs)) :
    (writeIcebergMetadata tablePrefix schema files tableUuid bucket nowMs :
      Program (Object Row) String).Puts (PutsDoc D) := by
  unfold writeIcebergMetadata
  split
  · trivial
  · refine ⟨.of_doc h, fun r => .bind (puts_orFail _ _ r) fun _ => ?_⟩
    refine ⟨.of_manifest tablePrefix nowMs _, fun r => ?_⟩
    exact .bind (puts_orFail _ _ r) fun _ => trivial

theorem puts_appendSnapshot {files : List DataFileInfo} {schema : ArrowSchema}
    {operation : String}
    (h : ∀ doc, appendedMetadata state files schema operation nowMs = some doc → D doc) :
    (appendSnapshot state files schema operation nowMs : Program (Object Row) String).Puts
      (PutsDoc D) := by
  unfold appendSnapshot
  split
  · trivial
  · refine ⟨.of_manifest _ nowMs _, fun r => .bind (puts_orFail _ _ r) fun _ => ?_⟩
    exact .orPanic_bind fun doc hdoc => puts_putVersion (h doc hdoc) _ _

theorem puts_evolveSchema {changes : List SchemaChange}
    (h : ∀ newFields maxId doc,
      evolvedMetadata state newFields maxId nowMs = some doc → D doc) :
    (evolveSchema state changes nowMs : Program (Object Row) String).Puts (PutsDoc D) := by
  unfold evolveSchema
  split
  · trivial
  · split
    · trivial
    · refine .bind (puts_orFail _ _ _) fun new => ?_
      exact .orPanic_bind fun doc hdoc => puts_putVersion (h _ _ doc hdoc) _ _

theorem puts_evolvePartition {newFields : List PartitionField}
    (h : ∀ doc, repartitionedMetadata state newFields nowMs = some doc → D doc) :
    (evolvePartition state newFields nowMs : Program (Object Row) String).Puts (PutsDoc D) :=
  .orPanic_bind fun doc hdoc => puts_putVersion (h doc hdoc) _ _

theorem puts_expireSnapshots {olderThanMs : Int64} {retainLastN : ℕ}
    (h : ∀ ids doc, expiredMetadata state ids nowMs = some doc → D doc) :
    (expireSnapshots state olderThanMs retainLastN nowMs :
      Program (Object Row) ExpireResult).Puts (PutsDoc D) := by
  unfold expireSnapshots
  dsimp only
  split
  · trivial
  · refine .bind (puts_deleteManifests _ _ _) fun n => ?_
    refine .orPanic_bind fun doc hdoc => ?_
    exact .bind (puts_putVersion (h _ doc hdoc) _ _) fun _ => trivial

end Puts

theorem puts_commit (tablePrefix : String) (state : IcebergTableState) (c : Commit) :
    (c.program tablePrefix state : Program (Object Row) String).Puts
      (PutsDoc fun doc => c.Writes tablePrefix state doc) := by
  cases c with
  | create schema dataFiles tableUuid bucket nowMs => exact puts_writeIcebergMetadata rfl
  | append files schema operation nowMs => exact puts_appendSnapshot fun _ hdoc => hdoc
  | evolveSchema changes nowMs =>
    exact puts_evolveSchema fun newFields maxId _ hdoc => ⟨newFields, maxId, hdoc⟩
  | evolvePartition newFields nowMs => exact puts_evolvePartition fun _ hdoc => hdoc
  | expire olderThanMs retainLastN nowMs =>
    exact .bind (puts_expireSnapshots fun ids _ hdoc => ⟨ids, hdoc⟩) fun _ => trivial

/-- A property of documents holds of all metadata files. -/
def AllDocs (D : Value → Prop) (s : Store (Object Row)) : Prop :=
  ∀ key doc, NamedV key → s.lookup key = some (.json doc) → D doc

section Runs
variable {size : Object Row → ℕ} {tablePrefix : String}

/-- The document of a visible state is that of a metadata file. -/
theorem AllDocs.metadata {D : Value → Prop} {s : Store (Object Row)} (h : AllDocs D s)
    {path : Path} {state : IcebergTableState}
    (hview : tableView size tablePrefix s = .ok (some (path, state))) : D state.metadata := by
  obtain ⟨-, hlook, hlatest⟩ := eq_stateOf_of_tableView size hview
  obtain ⟨-, ver, hver, -⟩ := latestOf_spec hlatest
  exact h _ _ (namedV_of_fileVersion hver).ofText hlook

/-- A property that every commit hands on from the state it starts from to the document it
writes holds of all metadata files of every history. -/
theorem Reached.allDocs {D : Value → Prop}
    (hcreate : ∀ location schema files tableUuid nowMs,
      D (initialMetadata location schema files tableUuid nowMs))
    (hstep : ∀ (c : Commit) (path : Path) (metadata doc : Value), D metadata →
      c.Writes tablePrefix (stateOf metadata path) doc → D doc)
    {w : History Row} (hw : Reached size tablePrefix w) : AllDocs D w.store := by
  induction hw with
  | empty =>
    intro key doc _ hlook
    cases hlook
  | upload hw path object hobject ih =>
    intro key doc hkey hlook
    by_cases hpath : key = path
    · subst hpath
      rw [AList.lookup_insert, Option.some.injEq] at hlook
      exact absurd hlook (hobject doc)
    · rw [AList.lookup_insert_ne hpath] at hlook
      exact ih key doc hkey hlook
  | @commit w hw c state hstart faults ih =>
    intro key doc hkey hlook
    rcases lookup_run_of_puts size (puts_commit tablePrefix state c) faults w.store hlook with
      hold | hnew
    · exact ih key doc hkey hold
    · have hwrites := hnew hkey doc rfl
      have hloaded : (∃ path, tableView size tablePrefix w.store = .ok (some (path, state))) →
          D doc := by
        rintro ⟨path, hview⟩
        have hstate := (eq_stateOf_of_tableView size hview).1
        rw [hstate] at hwrites
        exact hstep c path state.metadata doc (ih.metadata hview) hwrites
      cases c with
      | create schema files tableUuid bucket nowMs =>
        subst hwrites
        exact hcreate _ _ _ _ _
      | append => exact hloaded hstart
      | evolveSchema => exact hloaded hstart
      | evolvePartition => exact hloaded hstart
      | expire => exact hloaded hstart

/-- Every manifest list of the document is named by a `.json` path. -/
def JsonManifests (doc : Value) : Prop :=
  ∀ snap ∈ parseSnapshots doc, ".json".toList <:+ snap.manifestListPath.toList

theorem json_suffix_manifestListName (a : String) (id : Int64) :
    ".json".toList <:+ (a ++ "/metadata/" ++ manifestListName id).toList := by
  refine ⟨(a ++ "/metadata/snap-" ++ toString id ++ "-manifest-list").toList, ?_⟩
  simp [manifestListName, String.toList_append]

theorem JsonManifests.initial (location : String) (schema : ArrowSchema)
    (files : List DataFileInfo) (tableUuid : String) (nowMs : Int64) :
    JsonManifests (initialMetadata location schema files tableUuid nowMs) := by
  obtain ⟨snap, hsnaps, -, hpath⟩ :=
    parseSnapshots_initialMetadata location schema files tableUuid nowMs
  intro other hother
  rw [hsnaps, List.mem_singleton] at hother
  rw [hother, hpath]
  exact json_suffix_manifestListName location nowMs

theorem JsonManifests.step {c : Commit} {path : Path} {metadata doc : Value}
    (h : JsonManifests metadata) (hdoc : c.Writes tablePrefix (stateOf metadata path) doc) :
    JsonManifests doc := by
  cases c with
  | create schema files tableUuid bucket nowMs =>
    subst hdoc
    exact .initial _ _ _ _ _
  | append files schema operation nowMs =>
    intro snap hsnap
    rcases mem_parseSnapshots_appendedMetadata hdoc hsnap with hold | rfl
    · exact h snap hold
    · rw [parseSnapshot_manifestListPath]
      exact json_suffix_manifestListName _ nowMs
  | evolveSchema changes nowMs =>
    obtain ⟨newFields, maxId, hdoc⟩ := hdoc
    unfold JsonManifests
    rw [parseSnapshots_congr (get_evolvedMetadata hdoc (by decide))]
    exact h
  | evolvePartition newFields nowMs =>
    unfold JsonManifests
    rw [parseSnapshots_congr (get_repartitionedMetadata hdoc (by decide))]
    exact h
  | expire olderThanMs retainLastN nowMs =>
    obtain ⟨ids, hdoc⟩ := hdoc
    exact fun snap hsnap => h snap (mem_parseSnapshots_expiredMetadata hdoc hsnap)

/-- In every history the manifest lists of the visible table are `.json` paths. -/
theorem Reached.jsonManifests {w : History Row} (hw : Reached size tablePrefix w) {path : Path}
    {state : IcebergTableState}
    (hview : tableView size tablePrefix w.store = .ok (some (path, state))) :
    JsonManifests state.metadata :=
  (hw.allDocs JsonManifests.initial fun _ _ _ _ h hdoc => h.step hdoc).metadata hview

end Runs
end RustLake.Iceberg
