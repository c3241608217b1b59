import RustLake.Iceberg.Maintenance

/-! What readers see of a table depends only on the objects whose file name starts with
`v`; manifest lists are none of these. -/
namespace RustLake.Iceberg
open RustLake.Json RustLake.ObjectStore RustLake.Text

theorem keepLatest_of_none {best : Int32 × Option Path} {key : Path}
    (h : fileVersion (fileName key) = none) : keepLatest best key = best := by
  simp [keepLatest, h]

/-- Only keys with a version number count. -/
theorem latestOf_filter (keys : List Path) :
    latestOf (keys.filter fun key => (fileVersion (fileName key)).isSome) = latestOf keys := by
  unfold latestOf
  generalize ((0, none) : Int32 × Option Path) = best
  induction keys generalizing best with
  | nil => rfl
  | cons key keys ih =>
    cases h : fileVersion (fileName key) with
    | none => simp [h, ih, keepLatest_of_none h]
    | some ver => simp [h, ih]

/-- The greatest version of a list comes with the path of a key that has it. -/
theorem foldl_keepLatest_spec (keys : List Path) (best : Int32 × Option Path) :
    keys.foldl keepLatest best = best ∨
      ∃ key ∈ keys, ∃ ver, fileVersion (fileName key) = some ver ∧ best.1 < ver ∧
        keys.foldl keepLatest best = (ver, some key) := by
  induction keys generalizing best with
  | nil => exact Or.inl rfl
  | cons key keys ih =>
    rw [List.foldl_cons]
    cases h : fileVersion (fileName key) with
    | none =>
      rw [keepLatest_of_none h]
      rcases ih best with hb | ⟨k, hk, hrest⟩
      · exact Or.inl hb
      · exact Or.inr ⟨k, List.mem_cons_of_mem _ hk, hrest⟩
    | some ver =>
      by_cases hlt : best.1 < ver
      · have hstep : keepLatest best key = (ver, some key) := by simp [keepLatest, h, hlt]
        rw [hstep]
        rcases ih (ver, some key) with hb | ⟨k, hk, v, hv, hlt', hrest⟩
        · exact Or.inr ⟨key, List.mem_cons_self, ver, h, hlt, hb⟩
        · refine Or.inr ⟨k, List.mem_cons_of_mem _ hk, v, hv, ?_, hrest⟩
          rw [Int32.lt_iff_toInt_lt] at *
          exact lt_trans hlt hlt'
      · have hstep : keepLatest best key = best := by simp [keepLatest, h, hlt]
        rw [hstep]
        rcases ih best with hb | ⟨k, hk, hrest⟩
        · exact Or.inl hb
        · exact Or.inr ⟨k, List.mem_cons_of_mem _ hk, hrest⟩

theorem latestOf_spec {keys : List Path} {path : Path} (h : latestOf keys = some path) :
    path ∈ keys ∧ ∃ ver, fileVersion (fileName path) = some ver ∧ 0 < ver := by
  rcases foldl_keepLatest_spec keys (0, none) with hb | ⟨key, hk, ver, hv, hlt, hb⟩
  · rw [latestOf, hb] at h
    cases h
  · rw [latestOf, hb, Option.some.injEq] at h
    subst h
    exact ⟨hk, ver, hv, hlt⟩

/-- The file names of metadata files start so; those of manifest lists do not. -/
def NamedV (key : Path) : Prop := ∃ rest, fileName key = 'v' :: rest

theorem namedV_of_fileVersion {key : Path} {ver : Int32}
    (h : fileVersion (fileName key) = some ver) : NamedV key := by
  unfold fileVersion at h
  cases hname : fileName key with
  | nil => simp [hname, List.dropPrefix?] at h
  | cons c rest =>
    by_cases hc : c = 'v'
    · exact ⟨rest, by rw [hname, hc]⟩
    · simp [hname, List.dropPrefix?, hc] at h

theorem encodeSegment_cons {c : Char} (rest : List Char) (hdot : c ≠ '.')
    (hc : encodes c = false) : ∃ rest', encodeSegment (c :: rest) = c :: rest' := by
  refine ⟨rest.flatMap encodeChar, ?_⟩
  simp [encodeSegment, encodeChar, hdot, hc]

theorem NamedV.ofText {key : Path} (h : NamedV key) : NamedV (Path.ofText key) := by
  obtain ⟨rest, hname⟩ := h
  have hplain : 'v' ≠ '.' ∧ encodes 'v' = false := by decide
  obtain ⟨rest', henc⟩ := encodeSegment_cons rest hplain.1 hplain.2
  exact ⟨rest', by rw [fileName_ofText _ (by simp [hname]), hname, henc]⟩

theorem slash_notMem_toString (n : ℤ) : '/' ∉ (toString n).toList := by
  have hnat : ∀ m : ℕ, '/' ∉ (toString m).toList := by
    intro m hm
    rw [Nat.toString_eq_ofList_toDigits, String.toList_ofList] at hm
    simpa using Nat.isDigit_of_mem_toDigits (by decide) (by decide) hm
  cases n with
  | ofNat m => exact hnat m
  | negSucc m =>
    change '/' ∉ ("-" ++ toString (m + 1)).toList
    rw [String.toList_append, List.mem_append, not_or]
    exact ⟨by decide, hnat (m + 1)⟩

/-- The path of a version of the metadata below a directory. -/
def versionText (directory : String) (version : Int32) : String :=
  directory ++ "/metadata/v" ++ toString version ++ ".metadata.json"

theorem versionPath_eq (location : String) (version : Int32) :
    versionPath location version = versionText (stripS3Prefix location) version := rfl

/-- The first version is put under this path when the table is created. -/
theorem versionText_one (directory : String) :
    directory ++ "/metadata/v1.metadata.json" = versionText directory 1 := by
  have hone : "/metadata/v1.metadata.json" = "/metadata/v" ++ toString (1 : Int32) ++
      ".metadata.json" := by decide
  rw [hone, versionText, String.append_assoc, String.append_assoc, String.append_assoc]

theorem fileName_versionText (directory : String) (version : Int32) :
    fileName (versionText directory version) =
      'v' :: (toString version ++ ".metadata.json").toList := by
  have htext : (versionText directory version).toList = (directory.toList ++ "/metadata".toList) ++
      '/' :: ("v" ++ toString version ++ ".metadata.json").toList := by
    simp [versionText, String.toList_append]
  have hclean : '/' ∉ ("v" ++ toString version ++ ".metadata.json").toList := by
    simp only [String.toList_append, List.mem_append, not_or]
    exact ⟨⟨by decide, slash_notMem_toString version.toInt⟩, by decide⟩
  rw [fileName, htext, afterLast_append_cons _ hclean]
  simp [String.toList_append]

/-- The file name of a key made for a version of the metadata starts with `v`. -/
theorem namedV_versionText (directory : String) (version : Int32) :
    NamedV (Path.ofText (versionText directory version)) :=
  NamedV.ofText ⟨_, fileName_versionText directory version⟩

theorem namedV_versionPath (location : String) (version : Int32) :
    NamedV (Path.ofText (versionPath location version)) := namedV_versionText _ version

theorem fileName_manifest (a : String) (id : Int64) :
    fileName (a ++ "/metadata/" ++ manifestListName id) = (manifestListName id).toList := by
  have htext : (a ++ "/metadata/" ++ manifestListName id).toList =
      (a.toList ++ "/metadata".toList) ++ '/' :: (manifestListName id).toList := by
    simp [String.toList_append]
  rw [fileName, htext]
  refine afterLast_append_cons _ ?_
  simp only [manifestListName, String.toList_append, List.mem_append, not_or]
  exact ⟨⟨by decide, slash_notMem_toString id.toInt⟩, by decide⟩

/-- The file name of a key made for a manifest list starts with `s`. -/
theorem not_namedV_manifest (a : String) (id : Int64) :
    ¬ NamedV (Path.ofText (a ++ "/metadata/" ++ manifestListName id)) := by
  have hname := fileName_manifest a id
  have hcons : (manifestListName id).toList =
      's' :: ("nap-" ++ toString id ++ "-manifest-list.json").toList := by
    simp [manifestListName, String.toList_append]
  have hplain : 's' ≠ '.' ∧ encodes 's' = false := by decide
  obtain ⟨rest', henc⟩ := encodeSegment_cons
    ("nap-" ++ toString id ++ "-manifest-list.json").toList hplain.1 hplain.2
  rintro ⟨rest, h⟩
  rw [fileName_ofText _ (by rw [hname, hcons]; simp), hname, hcons, henc] at h
  simp at h

/-- A manifest list and a metadata file never have the same key. -/
theorem manifestKey_ne (state : IcebergTableState) (nowMs : Int64) (location : String)
    (version : Int32) : manifestKey state nowMs ≠ Path.ofText (versionPath location version) := by
  intro heq
  have hnamed := namedV_versionPath location version
  rw [← heq] at hnamed
  exact not_namedV_manifest _ nowMs hnamed

/-- The key of a `.json` file ends so. -/
theorem json_suffix_ofText {s : String} {a : List Char} (h : fileName s = a ++ ".json".toList) :
    ".json".toList <:+ (Path.ofText s).toList := by
  have hne : fileName s ≠ [] := by rw [h]; simp
  have henc : encodeSegment (fileName s) = a.flatMap encodeChar ++ ".json".toList := by
    have hplain : ".json".toList.flatMap encodeChar = ".json".toList := by decide
    have hlen : 5 ≤ (fileName s).length := by rw [h]; simp
    have hdot : fileName s ≠ ['.'] := fun heq => by rw [heq] at hlen; simp at hlen
    have hdots : fileName s ≠ ['.', '.'] := fun heq => by rw [heq] at hlen; simp at hlen
    rw [encodeSegment, if_neg hdot, if_neg hdots, h, List.flatMap_append, hplain]
  have hsuffix := fileName_suffix (Path.ofText s)
  rw [fileName_ofText s hne, henc] at hsuffix
  exact (List.suffix_append _ _).trans hsuffix

theorem json_manifestKey (state : IcebergTableState) (nowMs : Int64) :
    ".json".toList <:+ (manifestKey state nowMs).toList := by
  refine @json_suffix_ofText _ ("snap-" ++ toString nowMs ++ "-manifest-list").toList ?_
  rw [fileName_manifest]
  simp [manifestListName, String.toList_append]

theorem json_versionPath (location : String) (version : Int32) :
    ".json".toList <:+ (Path.ofText (versionPath location version)).toList := by
  refine @json_suffix_ofText _ ("v" ++ toString version ++ ".metadata").toList ?_
  rw [versionPath_eq, fileName_versionText]
  simp [String.toList_append]

section View
variable {Row : Type} (size : Object Row → ℕ)

theorem run_findLatestMetadata (tablePrefix : String) (s : Store (Object Row)) :
    run size (findLatestMetadata tablePrefix) noFaults s =
      ⟨.ok (latestOf (s.listing (metadataPrefix tablePrefix))), s, noFaults⟩ := by
  simp [findLatestMetadata, run, Function.comp_def]

theorem tableView_eq (tablePrefix : String) (s : Store (Object Row)) :
    tableView size tablePrefix s =
      match latestOf (s.listing (metadataPrefix tablePrefix)) with
      | none => .ok none
      | some path => (loadedFrom path (s.found (Path.ofText path))).map
          fun state => some (path, state) := by
  unfold tableView openTable
  rw [run_bind, run_findLatestMetadata]
  cases latestOf (s.listing (metadataPrefix tablePrefix)) with
  | none => rfl
  | some path =>
    simp only [run_bind, run_loadTableState]
    cases loadedFrom path (s.found (Path.ofText path)) <;> rfl

omit size in
theorem latestOf_listing_congr (pfx : Path) {s t : Store (Object Row)}
    (h : ∀ key, NamedV key → s.lookup key = t.lookup key) :
    latestOf (s.listing pfx) = latestOf (t.listing pfx) := by
  have hmem : ∀ key, (fileVersion (fileName key)).isSome = true → (key ∈ s ↔ key ∈ t) := by
    intro key hkey
    obtain ⟨ver, hver⟩ := Option.isSome_iff_exists.mp hkey
    rw [← AList.lookup_isSome, ← AList.lookup_isSome, h key (namedV_of_fileVersion hver)]
  rw [← latestOf_filter, Store.filter_listing_congr hmem, latestOf_filter]

/-- Stores that agree on metadata files look the same to readers. -/
theorem tableView_congr (tablePrefix : String) {s t : Store (Object Row)}
    (h : ∀ key, NamedV key → s.lookup key = t.lookup key) :
    tableView size tablePrefix s = tableView size tablePrefix t := by
  rw [tableView_eq, tableView_eq, latestOf_listing_congr _ h]
  cases hl : latestOf (t.listing (metadataPrefix tablePrefix)) with
  | none => rfl
  | some path =>
    obtain ⟨-, ver, hver, -⟩ := latestOf_spec hl
    simp only [Store.found, h _ (namedV_of_fileVersion hver).ofText]

/-- The state readers see is the one its own document stands for. -/
theorem eq_stateOf_of_tableView {tablePrefix : String} {s : Store (Object Row)} {path : Path}
    {state : IcebergTableState} (h : tableView size tablePrefix s = .ok (some (path, state))) :
    state = stateOf state.metadata path ∧
      s.lookup (Path.ofText path) = some (.json state.metadata) ∧
      latestOf (s.listing (metadataPrefix tablePrefix)) = some path := by
  rw [tableView_eq] at h
  split at h
  · simp at h
  · rename_i p hp
    unfold loadedFrom Store.found at h
    cases hlook : s.lookup (Path.ofText p) with
    | none => simp [hlook, Except.map] at h
    | some object =>
      cases object with
      | json doc =>
        simp only [hlook, Object.parseJson, Except.map, Except.ok.injEq, Option.some.injEq,
          Prod.mk.injEq] at h
        obtain ⟨rfl, rfl⟩ := h
        exact ⟨rfl, hlook, hp⟩
      | parquet rows len => simp [hlook, Object.parseJson, Except.map] at h
      | other len => simp [hlook, Object.parseJson, Except.map] at h

end View

end RustLake.Iceberg
