import RustLake.Iceberg.Resolve
import RustLake.Iceberg.Versions

/-! The chain of versions that commits make of a table: what the store holds of it, what readers
see, and what the next commit adds. -/
namespace RustLake.Iceberg
open RustLake.Json RustLake.ObjectStore RustLake.Text

/-- The bucket that a creation names has no slash in its name, as no bucket has. -/
def Commit.PlainBucket : Commit → Prop
  | .create _ _ _ bucket _ => '/' ∉ bucket.toList
  | _ => True

/-- The files that the metadata log names. -/
def logFiles (doc : Value) : List String :=
  (arrayAt doc "metadata-log").map fun entry => strAt entry "metadata-file" ""

/-- The table of the n-th version: it lies under its prefix, logs all earlier versions, and its
manifest lists are named so. -/
structure Located (tablePrefix : String) (n : ℕ) (state : IcebergTableState) : Prop where
  bucket : ∃ bucket : String, '/' ∉ bucket.toList ∧
    state.location = "s3://" ++ bucket ++ "/" ++ tablePrefix
  loaded : state = stateOf state.metadata (versionFile tablePrefix n)
  wellFormed : WellFormed state.metadata
  log : logFiles state.metadata =
    (List.range (n - 1)).map fun k => state.location ++ "/metadata/" ++ versionName (k + 1)
  manifests : ∀ snap ∈ parseSnapshots state.metadata, ∃ id,
    snap.manifestListPath = state.location ++ "/metadata/" ++ manifestListName id

section Located
variable {tablePrefix : String} {n : ℕ} {state : IcebergTableState}

theorem Located.strip (h : Located tablePrefix n state) :
    stripS3Prefix state.location = tablePrefix := by
  obtain ⟨bucket, hbucket, hlocation⟩ := h.bucket
  rw [hlocation, stripS3Prefix_location hbucket]

theorem Located.version (h : Located tablePrefix n state) (hn : n < 2 ^ 31) :
    state.metadataVersion = Int32.ofNat n := by
  rw [h.loaded]
  change (fileVersion (fileName (versionFile tablePrefix n))).getD 1 = _
  rw [fileName_versionFile, fileVersion_versionName hn]
  rfl

theorem Located.snapshots (h : Located tablePrefix n state) :
    state.snapshots = parseSnapshots state.metadata := by
  rw [h.loaded]
  rfl

/-- The next version's file is the one that a commit puts. -/
theorem Located.target (h : Located tablePrefix n state) (hn : n + 1 < 2 ^ 31) {c : Commit}
    (hc : c.isCreate = false) : c.target tablePrefix state = versionFile tablePrefix (n + 1) := by
  have hpath : versionPath state.location (state.metadataVersion + 1) =
      versionFile tablePrefix (n + 1) := by
    rw [versionPath_eq, h.strip, h.version (by omega), ← versionText_ofNat hn, Int32.ofNat_add]
    rfl
  cases c with
  | create => cases hc
  | _ => exact hpath

theorem Located.not_namedV (h : Located tablePrefix n state) {snap : SnapshotInfo}
    (hsnap : snap ∈ state.snapshots) : ¬ NamedV (manifestListKey state.location snap) := by
  rw [h.snapshots] at hsnap
  obtain ⟨id, hid⟩ := h.manifests snap hsnap
  obtain ⟨bucket, hbucket, hlocation⟩ := h.bucket
  have hdrop : snap.manifestListPath.toList.dropPrefix? state.location.toList =
      some ("/metadata/" ++ manifestListName id).toList := by
    refine List.dropPrefix?_eq_some_iff.mpr ⟨state.location.toList, ?_, by simp⟩
    rw [hid, ← String.toList_append, String.append_assoc]
  have htext : state.location ++ ("/metadata/" ++ manifestListName id) =
      "s3://" ++ bucket ++ "/" ++ (tablePrefix ++ "/metadata/" ++ manifestListName id) := by
    rw [hlocation]
    simp only [String.append_assoc]
  unfold manifestListKey
  rw [hdrop]
  dsimp only
  rw [String.ofList_toList, htext, stripS3Prefix_location hbucket]
  exact not_namedV_manifest tablePrefix id

theorem target_of_isCreate {c : Commit} (hc : c.isCreate = true) (tablePrefix : String)
    (state : IcebergTableState) : c.target tablePrefix state = versionFile tablePrefix 1 := by
  cases c with
  | create => exact (versionText_one tablePrefix).trans (versionText_ofNat (by decide) tablePrefix)
  | _ => cases hc

/-- A new table is located at its prefix. -/
theorem located_initial {bucket : String} (hbucket : '/' ∉ bucket.toList) (schema : ArrowSchema)
    (files : List DataFileInfo) (tableUuid : String) (nowMs : Int64) :
    Located tablePrefix 1 (stateOf (initialMetadata ("s3://" ++ bucket ++ "/" ++ tablePrefix) schema
      files tableUuid nowMs) (versionFile tablePrefix 1)) := by
  refine ⟨⟨bucket, hbucket, rfl⟩, rfl, .initial _ _ _ _ _, rfl, fun snap hsnap => ?_⟩
  obtain ⟨only, honly, -, hpath⟩ := parseSnapshots_initialMetadata
    ("s3://" ++ bucket ++ "/" ++ tablePrefix) schema files tableUuid nowMs
  have hmem : snap ∈ [only] := honly ▸ hsnap
  rw [List.mem_singleton.mp hmem]
  exact ⟨nowMs, hpath⟩

theorem logEntry_file (h : Located tablePrefix n state) (hn : n < 2 ^ 31) (nowMs : Int64) :
    strAt (logEntry state nowMs) "metadata-file" "" =
      state.location ++ "/metadata/" ++ versionName n := by
  change state.location ++ "/metadata/v" ++ toString state.metadataVersion ++ ".metadata.json" = _
  rw [h.version hn, toString_ofNat hn]
  apply String.toList_injective
  simp [versionName, String.toList_append]

/-- Snapshots of the document that a commit puts: old ones, and one with a manifest list of its
own. -/
theorem Commit.Produces.manifests {c : Commit} {doc : Value}
    (hdoc : c.Produces tablePrefix state doc) (hc : c.isCreate = false)
    (h : Located tablePrefix n state) {snap : SnapshotInfo} (hsnap : snap ∈ parseSnapshots doc) :
    ∃ id, snap.manifestListPath = state.location ++ "/metadata/" ++ manifestListName id := by
  cases c with
  | create => cases hc
  | append files schema operation nowMs =>
    rcases mem_parseSnapshots_appendedMetadata hdoc.2 hsnap with hold | rfl
    · exact h.manifests snap hold
    · exact ⟨nowMs, parseSnapshot_manifestListPath _ _ _ _⟩
  | evolveSchema changes nowMs =>
    obtain ⟨-, _, _, -, -, hdoc⟩ := hdoc
    rw [parseSnapshots_congr (get_evolvedMetadata hdoc (by decide))] at hsnap
    exact h.manifests snap hsnap
  | evolvePartition newFields nowMs =>
    rw [parseSnapshots_congr (get_repartitionedMetadata hdoc (by decide))] at hsnap
    exact h.manifests snap hsnap
  | expire olderThanMs retainLastN nowMs =>
    exact h.manifests snap (mem_parseSnapshots_expiredMetadata hdoc.2 hsnap)

/-- A commit makes the next version of its table. -/
theorem Located.next (h : Located tablePrefix n state) (hpos : 0 < n) (hn : n + 1 < 2 ^ 31)
    {c : Commit} (hc : c.isCreate = false) {doc : Value}
    (hdoc : c.Produces tablePrefix state doc) :
    Located tablePrefix (n + 1) (stateOf doc (c.target tablePrefix state)) := by
  have hlocation : (stateOf doc (c.target tablePrefix state)).location = state.location := by
    rw [h.loaded]
    exact hdoc.location hc
  refine ⟨?_, ?_, hdoc.wellFormed h.wellFormed, ?_, fun snap hsnap => ?_⟩
  · rw [hlocation]
    exact h.bucket
  · rw [h.target hn hc]
    rfl
  · have hlog := congrArg (List.map fun entry => strAt entry "metadata-file" "")
      (hdoc.log hc h.wellFormed)
    have hlast := logEntry_file h (by omega) c.nowMs
    obtain ⟨k, rfl⟩ : ∃ k, n = k + 1 := ⟨n - 1, by omega⟩
    change logFiles doc = _
    rw [hlocation, Nat.add_sub_cancel, List.range_succ, List.map_append]
    refine hlog.trans ?_
    rw [List.map_append]
    exact congrArg₂ (· ++ ·) h.log (congrArg (fun file => [file]) hlast)
  · rw [hlocation]
    exact hdoc.manifests hc h hsnap

end Located

/-- Commits on a table in a bucket with a plain name, with the tables they made. -/
abbrev PlainTrace (tablePrefix : String) : List (Commit × IcebergTableState) → Prop :=
  Trace tablePrefix fun _ c => c.PlainBucket

theorem PlainTrace.located {tablePrefix : String} {c : Commit} {state : IcebergTableState}
    {trace : List (Commit × IcebergTableState)} (h : PlainTrace tablePrefix ((c, state) :: trace))
    (hlen : trace.length + 1 < 2 ^ 31) : Located tablePrefix (trace.length + 1) state := by
  generalize htrace : (c, state) :: trace = full at h
  induction h generalizing c state trace with
  | @create c' state₀ made hcreate hallowed hmakes =>
    obtain ⟨⟨rfl, rfl⟩, rfl⟩ := by simpa using htrace
    obtain ⟨doc, hdoc, rfl⟩ := hmakes.produces
    rw [target_of_isCreate hcreate]
    cases c with
    | create schema files tableUuid bucket nowMs =>
      obtain ⟨-, rfl⟩ := hdoc
      exact located_initial hallowed _ _ _ _
    | _ => cases hcreate
  | @commit c' last state₀ made trace' htrace' hc hallowed hmakes ih =>
    obtain ⟨⟨rfl, rfl⟩, rfl⟩ := by simpa using htrace
    rw [List.length_cons] at hlen ⊢
    obtain ⟨doc, hdoc, rfl⟩ := hmakes.produces
    exact (ih (by omega) rfl).next (by omega) hlen hc hdoc

variable {Row : Type}

/-- The store holds the tables of a trace as the versions of its table, and no other metadata
files of it. -/
structure VersionChain (tablePrefix : String) (trace : List (Commit × IcebergTableState))
    (s : Store (Object Row)) : Prop where
  made : PlainTrace tablePrefix trace
  bound : trace.length < 2 ^ 31
  keys : ∀ key ∈ s, InTable tablePrefix key →
    ∃ n, 0 < n ∧ n ≤ trace.length ∧ key = versionKey tablePrefix n
  docs : ∀ later e earlier, trace = later ++ e :: earlier →
    s.lookup (versionKey tablePrefix (earlier.length + 1)) = some (.json e.2.metadata)

section Store
variable {tablePrefix : String} {c : Commit} {state : IcebergTableState}
  {trace : List (Commit × IcebergTableState)} {s s' : Store (Object Row)}

theorem mem_of_lookup {key : Path} {object : Object Row} (h : s.lookup key = some object) :
    key ∈ s := AList.lookup_isSome.mp (by rw [h]; rfl)

/-- Other keys of the store do not matter. -/
theorem VersionChain.congr (h : VersionChain tablePrefix trace s)
    (hsame : ∀ key, InTable tablePrefix key → s'.lookup key = s.lookup key) :
    VersionChain tablePrefix trace s' := by
  refine ⟨h.made, h.bound, fun key hkey htable => ?_, fun later e earlier heq => ?_⟩
  · refine h.keys key ?_ htable
    rwa [← AList.lookup_isSome, ← hsame key htable, AList.lookup_isSome]
  · rw [hsame _ (inTable_versionKey _ _)]
    exact h.docs later e earlier heq

theorem VersionChain.lookup_head (h : VersionChain tablePrefix ((c, state) :: trace) s) :
    s.lookup (versionKey tablePrefix (trace.length + 1)) = some (.json state.metadata) :=
  h.docs [] _ trace rfl

theorem VersionChain.located (h : VersionChain tablePrefix ((c, state) :: trace) s) :
    Located tablePrefix (trace.length + 1) state := PlainTrace.located h.made h.bound

/-- Each version of the chain is one of the table. -/
theorem VersionChain.located_of_eq (h : VersionChain tablePrefix trace s)
    {later earlier : List (Commit × IcebergTableState)} (heq : trace = later ++ (c, state) :: earlier) :
    Located tablePrefix (earlier.length + 1) state := by
  have hmade := h.made
  have hbound := h.bound
  rw [heq] at hmade hbound
  rw [List.length_append, List.length_cons] at hbound
  exact PlainTrace.located hmade.suffix (by omega)

/-- Listing finds the last version. -/
theorem VersionChain.latest (h : VersionChain tablePrefix ((c, state) :: trace) s) :
    latestOf (s.listing (metadataPrefix tablePrefix)) =
      some (versionKey tablePrefix (trace.length + 1)) := by
  have hbound := h.bound
  rw [List.length_cons] at hbound
  have hver : fileVersion (fileName (versionKey tablePrefix (trace.length + 1))) =
      some (Int32.ofNat (trace.length + 1)) := by
    rw [fileName_versionKey, fileVersion_versionName hbound]
  refine latestOf_eq (Store.mem_listing.mpr ⟨mem_of_lookup h.lookup_head, isUnder_versionKey _ _⟩)
    hver ?_ fun key hkey v hv => ?_
  · rw [Int32.lt_iff_toInt_lt, Int32.toInt_ofNat_of_lt hbound]
    exact Int.natCast_pos.mpr (Nat.succ_pos _)
  · obtain ⟨hmem, hunder⟩ := Store.mem_listing.mp hkey
    obtain ⟨n, hpos, hle, rfl⟩ := h.keys key hmem ⟨namedV_of_fileVersion hv, Or.inl hunder⟩
    rw [List.length_cons] at hle
    rw [fileName_versionKey, fileVersion_versionName (by omega), Option.some.injEq] at hv
    rcases Nat.lt_or_eq_of_le hle with hlt | rfl
    · left
      rw [← hv, Int32.lt_iff_toInt_lt, Int32.toInt_ofNat_of_lt (by omega),
        Int32.toInt_ofNat_of_lt hbound]
      omega
    · exact Or.inr rfl

/-- What text made from a version's key leads to is that version, or nothing. -/
theorem VersionChain.lookup_ofText (h : VersionChain tablePrefix trace s) {n : ℕ}
    (hn : n < 2 ^ 31) {object : Object Row}
    (hlook : s.lookup (Path.ofText (versionKey tablePrefix n)) = some object) :
    Path.ofText (versionKey tablePrefix n) = versionKey tablePrefix n := by
  obtain ⟨m, -, hle, hkey⟩ := h.keys _ (mem_of_lookup hlook) (inTable_ofText_versionKey _ _)
  have hname := congrArg fileName hkey
  rw [fileName_ofText_versionKey, fileName_versionKey] at hname
  have hbound := h.bound
  rw [versionName_inj hn (by omega) hname]
  rw [versionName_inj hn (by omega) hname] at hkey
  exact hkey

/-- Readers see the last version. -/
theorem VersionChain.eq_of_tableView {size : Object Row → ℕ} {key : Path}
    {seen : IcebergTableState} (h : VersionChain tablePrefix ((c, state) :: trace) s)
    (hview : tableView size tablePrefix s = .ok (some (key, seen))) :
    key = versionKey tablePrefix (trace.length + 1) ∧ seen = state := by
  obtain ⟨hseen, hlook, hlatest⟩ := eq_stateOf_of_tableView size hview
  obtain rfl : key = versionKey tablePrefix (trace.length + 1) :=
    (Option.some.inj (h.latest.symm.trans hlatest)).symm
  refine ⟨rfl, ?_⟩
  have htext : Path.ofText (versionKey tablePrefix (trace.length + 1)) =
      versionKey tablePrefix (trace.length + 1) := h.lookup_ofText h.bound hlook
  rw [htext, h.lookup_head, Option.some.injEq, Object.json.injEq] at hlook
  have hstate := h.located.loaded
  rw [hseen, hstate, ← hlook]
  unfold stateOf
  rw [fileName_versionKey, fileName_versionFile]

/-- The next version's file is new. -/
theorem VersionChain.fresh (h : VersionChain tablePrefix trace s) (hn : trace.length + 1 < 2 ^ 31) :
    versionKey tablePrefix (trace.length + 1) ∉ s := by
  intro hmem
  obtain ⟨m, -, hle, hkey⟩ := h.keys _ hmem (inTable_versionKey _ _)
  have hname := congrArg fileName hkey
  rw [fileName_versionKey, fileName_versionKey] at hname
  have hsame := versionName_inj hn (by omega) hname
  omega

/-- One more commit on the last version goes on with the chain. -/
theorem VersionChain.extend (h : VersionChain tablePrefix trace s) {made : IcebergTableState}
    (htrace : PlainTrace tablePrefix ((c, made) :: trace)) (hn : trace.length + 1 < 2 ^ 31)
    (hput : ∀ key, InTable tablePrefix key → s'.lookup key =
      (s.insert (versionKey tablePrefix (trace.length + 1)) (.json made.metadata)).lookup key) :
    VersionChain tablePrefix ((c, made) :: trace) s' := by
  refine ⟨htrace, hn, fun key hkey htable => ?_, fun later e earlier heq => ?_⟩
  · rw [← AList.lookup_isSome, hput key htable, AList.lookup_isSome, AList.mem_insert] at hkey
    rcases hkey with rfl | hold
    · exact ⟨trace.length + 1, Nat.succ_pos _, le_refl _, rfl⟩
    · obtain ⟨n, hpos, hle, rfl⟩ := h.keys key hold htable
      exact ⟨n, hpos, hle.trans (Nat.le_succ _), rfl⟩
  · rw [hput _ (inTable_versionKey _ _)]
    cases later with
    | nil =>
      obtain ⟨rfl, rfl⟩ := List.cons.inj heq
      exact AList.lookup_insert _
    | cons first later =>
      have htail : trace = later ++ e :: earlier := (List.cons.inj heq).2
      have hlen : trace.length = later.length + (earlier.length + 1) := by
        rw [htail, List.length_append, List.length_cons]
      rw [AList.lookup_insert_ne, h.docs later e earlier htail]
      intro hkey
      have hname := congrArg fileName hkey
      rw [fileName_versionKey, fileName_versionKey] at hname
      have hsame := versionName_inj (by omega) hn hname
      omega

/-- A new table starts a chain. -/
theorem versionChain_create {made : IcebergTableState} (hc : c.isCreate = true)
    (hplain : c.PlainBucket) (hmakes : c.Makes tablePrefix state made)
    (hnone : ∀ key ∈ s, ¬ InTable tablePrefix key)
    (hput : ∀ key, InTable tablePrefix key → s'.lookup key =
      (s.insert (versionKey tablePrefix 1) (.json made.metadata)).lookup key) :
    VersionChain tablePrefix [(c, made)] s' := by
  refine ⟨.create hc hplain hmakes, Nat.one_lt_two_pow (by decide), fun key hkey htable => ?_,
    fun later e earlier heq => ?_⟩
  · rw [← AList.lookup_isSome, hput key htable, AList.lookup_isSome, AList.mem_insert] at hkey
    rcases hkey with rfl | hold
    · exact ⟨1, Nat.one_pos, le_refl _, rfl⟩
    · exact absurd htable (hnone key hold)
  · obtain ⟨rfl, hcons⟩ := List.append_eq_singleton_iff.mp heq.symm |>.resolve_right (by simp)
    obtain ⟨rfl, rfl⟩ := List.cons.inj hcons
    rw [hput _ (inTable_versionKey _ _)]
    exact AList.lookup_insert _

end Store
end RustLake.Iceberg
