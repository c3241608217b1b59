import RustLake.Iceberg.Chain
import RustLake.Iceberg.Reload

/-! The newest version of a table in a store that also holds older metadata files, which others may
overwrite: what readers see of it, and what commits make of it. -/
namespace RustLake.Iceberg
open RustLake.Json RustLake.ObjectStore RustLake.Text

variable {Row : Type}

/-- The key of the metadata directory has no character that object paths encode. -/
def SpellsItself (tablePrefix : String) : Prop :=
  Path.ofText (metadataPrefix tablePrefix) = metadataPrefix tablePrefix

/-- A metadata file of a lower version, or of none. -/
def Older (n : ℕ) (key : Path) : Prop :=
  ∀ ver, fileVersion (fileName key) = some ver → ver < Int32.ofNat n

/-- The store holds a table at its n-th version, and every other metadata file is older. -/
structure Newest (tablePrefix : String) (n : ℕ) (state : IcebergTableState)
    (s : Store (Object Row)) : Prop where
  pos : 0 < n
  bound : n < 2 ^ 31
  located : Located tablePrefix n state
  lookup : s.lookup (versionKey tablePrefix n) = some (.json state.metadata)
  older : ∀ key ∈ s, InTable tablePrefix key → key ≠ versionKey tablePrefix n → Older n key

theorem ofText_versionKey_iff (tablePrefix : String) (n : ℕ) :
    Path.ofText (versionKey tablePrefix n) = versionKey tablePrefix n ↔
      SpellsItself tablePrefix := by
  have hkey : Path.ofText (versionKey tablePrefix n) =
      Path.ofText (metadataPrefix tablePrefix) ++ "/" ++ versionName n := by
    rw [versionKey_eq, ofText_child (segments_metadataPrefix_ne_nil tablePrefix)
      (slash_notMem_versionName n) (versionName_ne_nil n), encodeSegment_versionName,
      String.ofList_toList]
  rw [hkey, versionKey_eq, SpellsItself]
  constructor
  · intro heq
    have hlist := congrArg String.toList heq
    simp only [String.toList_append, List.append_assoc] at hlist
    exact String.toList_injective (List.append_cancel_right hlist)
  · intro heq
    rw [heq]

theorem older_versionKey {tablePrefix : String} {m n : ℕ} (hm : m < n) (hn : n < 2 ^ 31) :
    Older n (versionKey tablePrefix m) := by
  intro ver hver
  rw [fileName_versionKey, fileVersion_versionName (by omega), Option.some.injEq] at hver
  rw [← hver, Int32.lt_iff_toInt_lt, Int32.toInt_ofNat_of_lt (by omega), Int32.toInt_ofNat_of_lt hn]
  omega

theorem Older.mono {m n : ℕ} {key : Path} (h : Older m key) (hle : m ≤ n) (hn : n < 2 ^ 31) :
    Older n key := by
  intro ver hver
  have hlt := h ver hver
  rw [Int32.lt_iff_toInt_lt, Int32.toInt_ofNat_of_lt (by omega)] at hlt
  rw [Int32.lt_iff_toInt_lt, Int32.toInt_ofNat_of_lt hn]
  omega

section Store
variable {tablePrefix : String} {n : ℕ} {state : IcebergTableState} {s s' : Store (Object Row)}

theorem mem_iff_of_lookup_eq {key : Path} (h : s'.lookup key = s.lookup key) :
    key ∈ s' ↔ key ∈ s := by
  rw [← AList.lookup_isSome, h, AList.lookup_isSome]

/-- Only changes to older files have been made. -/
theorem Newest.keep (h : Newest tablePrefix n state s)
    (hsame : ∀ key, InTable tablePrefix key → s'.lookup key = s.lookup key ∨
      key ≠ versionKey tablePrefix n ∧ Older n key) : Newest tablePrefix n state s' := by
  refine ⟨h.pos, h.bound, h.located, ?_, ?_⟩
  · rcases hsame _ (inTable_versionKey tablePrefix n) with heq | ⟨hne, -⟩
    · rw [heq]
      exact h.lookup
    · exact absurd rfl hne
  · intro key hkey htable hne
    rcases hsame key htable with heq | ⟨-, holder⟩
    · exact h.older key ((mem_iff_of_lookup_eq heq).mp hkey) htable hne
    · exact holder

/-- A put of a version over files that are all older. -/
theorem newest_of_put (hpos : 0 < n) (hbound : n < 2 ^ 31) (hlocated : Located tablePrefix n state)
    (holder : ∀ key ∈ s, InTable tablePrefix key → key ≠ versionKey tablePrefix n → Older n key)
    (hput : ∀ key, InTable tablePrefix key → s'.lookup key =
      (s.insert (versionKey tablePrefix n) (.json state.metadata)).lookup key) :
    Newest tablePrefix n state s' := by
  refine ⟨hpos, hbound, hlocated, ?_, ?_⟩
  · rw [hput _ (inTable_versionKey tablePrefix n), AList.lookup_insert]
  · intro key hkey htable hne
    have hlookup := hput key htable
    rw [AList.lookup_insert_ne hne] at hlookup
    exact holder key ((mem_iff_of_lookup_eq hlookup).mp hkey) htable hne

/-- Listing finds the newest version. -/
theorem Newest.latest (h : Newest tablePrefix n state s) :
    latestOf (s.listing (metadataPrefix tablePrefix)) = some (versionKey tablePrefix n) := by
  have hver : fileVersion (fileName (versionKey tablePrefix n)) = some (Int32.ofNat n) := by
    rw [fileName_versionKey, fileVersion_versionName h.bound]
  have hmem : versionKey tablePrefix n ∈ s.listing (metadataPrefix tablePrefix) :=
    Store.mem_listing.mpr ⟨mem_of_lookup h.lookup, isUnder_versionKey tablePrefix n⟩
  have hpos : (0 : Int32) < Int32.ofNat n := by
    rw [Int32.lt_iff_toInt_lt, Int32.toInt_ofNat_of_lt h.bound]
    exact Int.natCast_pos.mpr h.pos
  apply latestOf_eq hmem hver hpos
  intro key hkey ver hkeyVer
  obtain ⟨hstored, hunder⟩ := Store.mem_listing.mp hkey
  by_cases hne : key = versionKey tablePrefix n
  · exact Or.inr hne
  · exact Or.inl (h.older key hstored ⟨namedV_of_fileVersion hkeyVer, Or.inl hunder⟩ hne ver hkeyVer)

/-- Where the prefix spells itself, readers see the newest version. -/
theorem Newest.view (size : Object Row → ℕ) (h : Newest tablePrefix n state s)
    (hspells : SpellsItself tablePrefix) :
    tableView size tablePrefix s = .ok (some (versionKey tablePrefix n, state)) := by
  have htext := (ofText_versionKey_iff tablePrefix n).mpr hspells
  have hstate : stateOf state.metadata (versionKey tablePrefix n) = state := by
    rw [h.located.loaded]
    unfold stateOf
    rw [fileName_versionKey, fileName_versionFile]
  rw [tableView_eq, h.latest]
  dsimp only
  rw [htext, Store.found_eq_ok.mpr h.lookup]
  have hloaded : loadedFrom (versionKey tablePrefix n) (.ok (.json state.metadata) :
      Except String (Object Row)) = .ok state := by
    change Except.ok (stateOf state.metadata (versionKey tablePrefix n)) = _
    rw [hstate]
  rw [hloaded]
  rfl

/-- What readers see of it at all is the newest version, and then the prefix spells itself. -/
theorem Newest.eq_of_view {size : Object Row → ℕ} {key : Path} {seen : IcebergTableState}
    (h : Newest tablePrefix n state s)
    (hview : tableView size tablePrefix s = .ok (some (key, seen))) :
    SpellsItself tablePrefix ∧ key = versionKey tablePrefix n ∧ seen = state := by
  obtain ⟨-, hlookup, hlatest⟩ := eq_stateOf_of_tableView size hview
  rw [h.latest, Option.some.injEq] at hlatest
  have hspells : SpellsItself tablePrefix := by
    rw [← ofText_versionKey_iff tablePrefix n]
    by_contra hne
    rw [← hlatest] at hlookup
    have holder := h.older _ (mem_of_lookup hlookup) (inTable_ofText_versionKey tablePrefix n) hne
    have hver : fileVersion (fileName (Path.ofText (versionKey tablePrefix n))) =
        some (Int32.ofNat n) := by
      rw [fileName_ofText_versionKey, fileVersion_versionName h.bound]
    exact Int32.lt_irrefl (holder _ hver)
  have hseen := (h.view size hspells).symm.trans hview
  simp only [Except.ok.injEq, Option.some.injEq, Prod.mk.injEq] at hseen
  exact ⟨hspells, hseen.1.symm, hseen.2.symm⟩

/-- There is only one newest version. -/
theorem Newest.version_unique {n' : ℕ} {state' : IcebergTableState}
    (h : Newest tablePrefix n state s) (h' : Newest tablePrefix n' state' s) : n = n' := by
  have hkeys : versionKey tablePrefix n = versionKey tablePrefix n' :=
    Option.some.inj (h.latest.symm.trans h'.latest)
  have hnames := congrArg fileName hkeys
  rw [fileName_versionKey, fileName_versionKey] at hnames
  exact versionName_inj h.bound h'.bound hnames

end Store

/-- After the last number comes a file that is older than all. -/
theorem older_overflow (directory : String) :
    Older (2 ^ 31 - 1) (Path.ofText (versionText directory (Int32.ofNat (2 ^ 31 - 1) + 1))) := by
  have hnext : Int32.ofNat (2 ^ 31 - 1) + 1 = -2147483648 := by decide
  have hname : fileName (versionText directory (-2147483648)) =
      "v-2147483648.metadata.json".toList := by
    rw [fileName_versionText]
    decide
  have hkey : fileName (Path.ofText (versionText directory (-2147483648))) =
      encodeSegment "v-2147483648.metadata.json".toList := by
    rw [fileName_ofText _ (by rw [hname]; decide), hname]
  have hver : fileVersion (encodeSegment "v-2147483648.metadata.json".toList) =
      some (-2147483648) := by decide
  intro ver hfound
  rw [hnext, hkey, hver, Option.some.injEq] at hfound
  rw [← hfound]
  decide

section Commits
variable {size : Object Row → ℕ} {tablePrefix : String} {n : ℕ} {state : IcebergTableState}
  {faults faults' : Faults} {s s' : Store (Object Row)} {result : Except Failure String}

theorem putVersion_cases {location : String} {version : Int32} {doc : Value}
    (h : run size (putVersion location version doc) faults s = ⟨result, s', faults'⟩) :
    s' = s ∨ s' = s.insert (Path.ofText (versionPath location version)) (.json doc) := by
  rw [run_putVersion] at h
  cases h0 : faults 0 with
  | none =>
    rw [h0] at h
    cases h
    exact Or.inr rfl
  | some e =>
    rw [h0] at h
    cases h
    exact Or.inl rfl

/-- What a commit on a table leaves of the metadata files: they are as before, or it has put the
document that it makes. -/
def Commit.Leaves (tablePrefix : String) (state : IcebergTableState) (c : Commit)
    (s s' : Store (Object Row)) : Prop :=
  SameMetadata s s' ∨ ∃ doc, c.Produces tablePrefix state doc ∧
    SameMetadata (s.insert (Path.ofText (c.target tablePrefix state)) (.json doc)) s'

theorem appendSnapshot_leaves {files : List DataFileInfo} {schema : ArrowSchema}
    {operation : String} {nowMs : Int64}
    (h : run size (appendSnapshot state files schema operation nowMs) faults s =
      ⟨result, s', faults'⟩) :
    (Commit.append files schema operation nowMs).Leaves tablePrefix state s s' := by
  have hmanifest : SameMetadata s (s.insert (manifestKey state nowMs)
      (.json (manifestList state.location files nowMs))) :=
    .insert (not_namedV_manifest _ nowMs) _
  unfold appendSnapshot at h
  split at h
  · cases h
    exact Or.inl (.refl s)
  · rename_i hfiles
    cases h0 : faults 0 with
    | some e =>
      simp only [run_put, answer_of_some h0, effect_of_some h0, Program.orFail_error,
        Program.fail_bind, run_fail] at h
      cases h
      exact Or.inl (.refl s)
    | none =>
      simp only [run_put, answer_of_none h0, effect_of_none h0, Program.orFail_ok,
        Program.done_bind] at h
      cases hdoc : appendedMetadata state files schema operation nowMs with
      | none =>
        rw [hdoc] at h
        cases h
        exact Or.inl hmanifest
      | some doc =>
        rw [hdoc, Program.orPanic_some, Program.done_bind] at h
        rcases putVersion_cases h with rfl | rfl
        · exact Or.inl hmanifest
        · exact Or.inr ⟨doc, ⟨by simpa using hfiles, hdoc⟩, hmanifest.insert_left _ _⟩

theorem evolveSchema_leaves {changes : List SchemaChange} {nowMs : Int64}
    (h : run size (evolveSchema state changes nowMs) faults s = ⟨result, s', faults'⟩) :
    (Commit.evolveSchema changes nowMs).Leaves tablePrefix state s s' := by
  unfold evolveSchema at h
  split at h
  · cases h
    exact Or.inl (.refl s)
  · rename_i hchanges
    split at h
    · cases h
      exact Or.inl (.refl s)
    · rename_i current hcurrent
      dsimp only at h
      cases hnew : changes.foldlM applyChange
          (current.fields, ((current.fields.map (·.id)).max?).getD 0) with
      | error message =>
        rw [hnew] at h
        cases h
        exact Or.inl (.refl s)
      | ok new =>
        rw [hnew, Program.orFail_ok, Program.done_bind] at h
        cases hdoc : evolvedMetadata state new.1 new.2 nowMs with
        | none =>
          rw [hdoc] at h
          cases h
          exact Or.inl (.refl s)
        | some doc =>
          rw [hdoc, Program.orPanic_some, Program.done_bind] at h
          rcases putVersion_cases h with rfl | rfl
          · exact Or.inl (.refl _)
          · exact Or.inr ⟨doc, ⟨by simpa using hchanges, current, new, hcurrent, hnew, hdoc⟩, .refl _⟩

theorem evolvePartition_leaves {newFields : List PartitionField} {nowMs : Int64}
    (h : run size (evolvePartition state newFields nowMs) faults s = ⟨result, s', faults'⟩) :
    (Commit.evolvePartition newFields nowMs).Leaves tablePrefix state s s' := by
  unfold evolvePartition at h
  cases hdoc : repartitionedMetadata state newFields nowMs with
  | none =>
    rw [hdoc] at h
    cases h
    exact Or.inl (.refl s)
  | some doc =>
    rw [hdoc, Program.orPanic_some, Program.done_bind] at h
    rcases putVersion_cases h with rfl | rfl
    · exact Or.inl (.refl _)
    · exact Or.inr ⟨doc, hdoc, .refl _⟩

theorem expireSnapshots_leaves {path : Path} (hstate : state = stateOf state.metadata path)
    (hlists : ∀ snap ∈ state.snapshots, ¬ NamedV (manifestListKey state.location snap))
    {olderThanMs : Int64} {retainLastN : ℕ} {nowMs : Int64} (faults : Faults)
    (s : Store (Object Row)) :
    (Commit.expire olderThanMs retainLastN nowMs).Leaves tablePrefix state s
      (run size (expireSnapshots state olderThanMs retainLastN nowMs) faults s).store := by
  by_cases hne : expiredSnapshots state olderThanMs retainLastN = []
  · have hstore : (run size (expireSnapshots state olderThanMs retainLastN nowMs) faults s).store =
        s := by simp [expireSnapshots, hne]
    rw [hstore]
    exact Or.inl (.refl s)
  · obtain ⟨doc, hdoc, hrun⟩ := run_expireSnapshots size hstate hne nowMs faults s
    have hdeleted := sameMetadata_deleted hlists olderThanMs retainLastN faults s
    rw [hrun]
    cases faults (expiredSnapshots state olderThanMs retainLastN).length with
    | some e => exact Or.inl hdeleted
    | none => exact Or.inr ⟨doc, ⟨hne, hdoc⟩, hdeleted.insert_left _ _⟩

/-- Every commit on a table leaves the metadata files so, whether or not it fails. -/
theorem Commit.leaves {c : Commit} (hc : c.isCreate = false) {path : Path}
    (hstate : state = stateOf state.metadata path)
    (hlists : ∀ snap ∈ state.snapshots, ¬ NamedV (manifestListKey state.location snap))
    (h : run size (c.program tablePrefix state) faults s = ⟨result, s', faults'⟩) :
    c.Leaves tablePrefix state s s' := by
  cases c with
  | create => cases hc
  | append => exact appendSnapshot_leaves h
  | evolveSchema => exact evolveSchema_leaves h
  | evolvePartition => exact evolvePartition_leaves h
  | expire olderThanMs retainLastN nowMs =>
    have hstore : (run size (expireSnapshots state olderThanMs retainLastN nowMs) faults s).store =
        s' := (store_run_map size _ ExpireResult.metadataPath faults s).symm.trans
      (congrArg Outcome.store h)
    rw [← hstore]
    exact expireSnapshots_leaves hstate hlists faults s

/-- The document that a commit makes is the next version, once it is put. -/
theorem Newest.next (h : Newest tablePrefix n state s) (hn : n + 1 < 2 ^ 31) {c : Commit}
    (hc : c.isCreate = false) {doc : Value} (hdoc : c.Produces tablePrefix state doc)
    (hput : SameMetadata (s.insert (Path.ofText (c.target tablePrefix state)) (.json doc)) s') :
    (stateOf doc (c.target tablePrefix state)).location = state.location ∧
      Newest tablePrefix (n + 1) (stateOf doc (c.target tablePrefix state)) s' := by
  have htarget := h.located.target hn hc
  rw [htarget] at hput
  have hlocated := h.located.next h.pos hn hc hdoc
  have hlocation : (stateOf doc (c.target tablePrefix state)).location = state.location := by
    rw [h.located.loaded]
    exact hdoc.location hc
  refine ⟨hlocation, newest_of_put (Nat.succ_pos n) hn hlocated ?_ fun key htable =>
    hput key htable.1⟩
  intro key hkey htable _
  by_cases hold : key = versionKey tablePrefix n
  · rw [hold]
    exact older_versionKey (Nat.lt_succ_self n) hn
  · exact (h.older key hkey htable hold).mono (Nat.le_succ n) hn

/-- After any commit on it the table is there as before or at its next version. -/
theorem Newest.commit (h : Newest tablePrefix n state s) {c : Commit} (hc : c.isCreate = false)
    (hrun : run size (c.program tablePrefix state) faults s = ⟨result, s', faults'⟩) :
    Newest tablePrefix n state s' ∨ ∃ doc, c.Produces tablePrefix state doc ∧
      (stateOf doc (c.target tablePrefix state)).location = state.location ∧
      Newest tablePrefix (n + 1) (stateOf doc (c.target tablePrefix state)) s' := by
  have hbound := h.bound
  have hlists : ∀ snap ∈ state.snapshots, ¬ NamedV (manifestListKey state.location snap) :=
    fun snap hsnap => h.located.not_namedV hsnap
  rcases Commit.leaves hc h.located.loaded hlists hrun with hsame | ⟨doc, hdoc, hput⟩
  · exact Or.inl (h.keep fun key htable => Or.inl (hsame key htable.1))
  · by_cases hn : n + 1 < 2 ^ 31
    · exact Or.inr ⟨doc, hdoc, h.next hn hc hdoc hput⟩
    · have hlast : n = 2 ^ 31 - 1 := by omega
      have hversion := h.located.version hbound
      have htarget : c.target tablePrefix state =
          versionText tablePrefix (Int32.ofNat (2 ^ 31 - 1) + 1) := by
        have hpath : versionPath state.location (state.metadataVersion + 1) =
            versionText tablePrefix (Int32.ofNat (2 ^ 31 - 1) + 1) := by
          rw [versionPath_eq, h.located.strip, hversion, hlast]
        cases c with
        | create => cases hc
        | _ => exact hpath
      rw [htarget] at hput
      left
      apply h.keep
      intro key htable
      by_cases hkey : key = Path.ofText (versionText tablePrefix (Int32.ofNat (2 ^ 31 - 1) + 1))
      · have holder := older_overflow tablePrefix
        rw [← hkey, ← hlast] at holder
        refine Or.inr ⟨?_, holder⟩
        intro heq
        have hver : fileVersion (fileName key) = some (Int32.ofNat n) := by
          rw [heq, fileName_versionKey, fileVersion_versionName hbound]
        exact Int32.lt_irrefl (holder _ hver)
      · left
        rw [hput key htable.1, AList.lookup_insert_ne hkey]

/-- The path that a creation puts its document under is the one of the first version. -/
theorem versionFile_one (tablePrefix : String) :
    tablePrefix ++ "/metadata/v1.metadata.json" = versionFile tablePrefix 1 :=
  (versionText_one tablePrefix).trans (versionText_ofNat (by decide) tablePrefix)

/-- What a creation leaves of the metadata files, whether or not it fails. -/
theorem writeIcebergMetadata_leaves {schema : ArrowSchema} {files : List DataFileInfo}
    {tableUuid bucket : String} {nowMs : Int64}
    (h : run size (writeIcebergMetadata tablePrefix schema files tableUuid bucket nowMs) faults s =
      ⟨result, s', faults'⟩) :
    SameMetadata s s' ∨ SameMetadata (s.insert (versionKey tablePrefix 1) (.json (initialMetadata
      ("s3://" ++ bucket ++ "/" ++ tablePrefix) schema files tableUuid nowMs))) s' := by
  have hmanifest := not_namedV_manifest tablePrefix nowMs
  unfold writeIcebergMetadata at h
  split at h
  · cases h
    exact Or.inl (.refl s)
  · rw [versionFile_one] at h
    cases h0 : faults 0 with
    | some e =>
      simp only [run_put, answer_of_some h0, effect_of_some h0, Program.orFail_error,
        Program.fail_bind, run_fail] at h
      cases h
      exact Or.inl (.refl s)
    | none =>
      right
      simp only [run_put, answer_of_none h0, effect_of_none h0, Program.orFail_ok,
        Program.done_bind] at h
      cases h1 : faults.next 0 with
      | some e =>
        simp only [answer_of_some h1, effect_of_some h1, Program.orFail_error,
          Program.fail_bind, run_fail] at h
        cases h
        exact .refl _
      | none =>
        simp only [answer_of_none h1, effect_of_none h1, Program.orFail_ok,
          Program.done_bind, run_pure] at h
        cases h
        exact .insert hmanifest _

end Commits
end RustLake.Iceberg
