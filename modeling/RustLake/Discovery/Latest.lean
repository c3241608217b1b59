import RustLake.Iceberg.Versions
import RustLake.Order.Best
import RustLake.Sql.AsOf

/-! The newest metadata file of a table, as the warehouse scanner finds it by the names in the folder,
and as the writer of the table does. -/
namespace RustLake.Discovery
open Iceberg ObjectStore Text

def isMetadataFile (file : String) : Bool := ".metadata.json".toList.isSuffixOf file.toList

/-- The number at the start of a name: what follows `v`, or what stands before the first hyphen. -/
def scannedVersion (file : String) : Option Int64 :=
  let start := file.toList.takeWhile (· ≠ '.')
  match start.dropPrefix? ['v'] with
  | some digits => Sql.parseI64 digits
  | none => Sql.parseI64 (start.takeWhile (· ≠ '-'))

/-- One turn of the loop in the scanner's `find_latest_metadata`. -/
def keepScanned (best : Int64 × Option String) (file : String) : Int64 × Option String :=
  if isMetadataFile file then
    match scannedVersion file with
    | some version => if best.1 < version then (version, some file) else best
    | none => best
  else best

def findLatestMetadata (files : List String) : Option String :=
  ((files.foldl keepScanned (-1, none)).2).or (files.filter isMetadataFile).max?

/-- The names `v{N}.metadata.json`. -/
def IsVersionFile (n : ℕ) (file : String) : Prop := n < 2 ^ 31 ∧ file = versionName n

/-- The names `{N}-{uuid}.metadata.json`, the number with or without zeros before it. -/
def IsUuidFile (n : ℕ) (file : String) : Prop :=
  n < 2 ^ 31 ∧ ∃ digits uuid : String, parseDigits digits.toList = some n ∧
    file = digits ++ "-" ++ uuid ++ ".metadata.json"

def IsNamed (n : ℕ) (file : String) : Prop := IsVersionFile n file ∨ IsUuidFile n file

/-- For every order in which the files of the folder are listed: where all metadata files are `v`-names,
the scanner and the writer pick the same file, and the scanner picks a file of the greatest version. -/
structure SameVersion (folder : String) (names : List String) : Prop where
  agree : (∀ f ∈ names, isMetadataFile f = true → ∃ n, IsVersionFile n f) →
    ∀ scanned listed : List String, scanned.Perm names → listed.Perm names →
      latestOf (listed.map fun f => folder ++ "/" ++ f) =
        (findLatestMetadata scanned).map fun f => folder ++ "/" ++ f
  greatest : (∃ f ∈ names, ∃ n, IsNamed n f) → ∀ scanned : List String, scanned.Perm names →
    ∃ f n, findLatestMetadata scanned = some f ∧ IsNamed n f ∧
      ∀ g ∈ names, ∀ m, IsNamed m g → m ≤ n

/-- The only metadata file is that of version 0. -/
def OnlyVersionZero (names : List String) : Prop :=
  versionName 0 ∈ names ∧ ∀ f ∈ names, isMetadataFile f = true → f = versionName 0

/-- Metadata files of other names do not begin with a number as great as that of every named one. -/
def OthersOlder (names : List String) : Prop :=
  ∀ f ∈ names, isMetadataFile f = true → (∀ n, ¬ IsNamed n f) → ∀ version,
    scannedVersion f = some version → (∃ g ∈ names, ∃ n, IsNamed n g) →
      ∃ g ∈ names, ∃ n, IsNamed n g ∧ version.toInt < n

section Names
variable {file : String} {n : ℕ}

theorem parseI64_digits {s : List Char} (h : parseDigits s = some n) (hn : n < 2 ^ 63) :
    Sql.parseI64 s = some (Int64.ofInt n) := by
  have hdigits : s ≠ [] ∧ s.all Char.isDigit = true := by
    unfold parseDigits at h
    split at h
    · assumption
    · cases h
  unfold Sql.parseI64
  split
  · exact absurd hdigits.2 (by simp)
  · exact absurd hdigits.2 (by simp)
  · rw [h, Option.bind_some, if_pos hn]

theorem toInt_ofInt_nat (hn : n < 2 ^ 31) : (Int64.ofInt n).toInt = n :=
  Int64.toInt_ofInt_of_le (by omega) (by omega)

theorem isMetadataFile_append (a : String) : isMetadataFile (a ++ ".metadata.json") = true := by
  rw [isMetadataFile, String.toList_append, List.isSuffixOf_iff_suffix]
  exact List.suffix_append _ _

theorem isDigit_of_parseDigits {s : List Char} (h : parseDigits s = some n) :
    s ≠ [] ∧ ∀ c ∈ s, c.isDigit = true := by
  unfold parseDigits at h
  split at h
  · rename_i hs
    exact ⟨hs.1, List.all_eq_true.mp hs.2⟩
  · cases h

theorem takeWhile_before {word rest : List Char} {sep : Char} (hword : sep ∉ word) :
    (word ++ sep :: rest).takeWhile (· ≠ sep) = word := by
  rw [List.takeWhile_append_of_pos fun c hc => by
    simpa using fun heq : c = sep => hword (heq ▸ hc)]
  simp

theorem IsVersionFile.scanned (h : IsVersionFile n file) :
    isMetadataFile file = true ∧ scannedVersion file = some (Int64.ofInt n) := by
  obtain ⟨hn, rfl⟩ := h
  have htext : (versionName n).toList =
      ('v' :: (toString n).toList) ++ '.' :: "metadata.json".toList := by
    rw [toList_versionName, String.toList_append]
    rfl
  have hdigits : (toString n).toList = Nat.toDigits 10 n := Nat.toList_repr
  have hdot : '.' ∉ 'v' :: (toString n).toList := by
    intro hmem
    rcases List.mem_cons.mp hmem with hv | hdigit
    · exact absurd hv (by decide)
    · rw [hdigits] at hdigit
      exact absurd (Nat.isDigit_of_mem_toDigits (by decide) (by decide) hdigit) (by decide)
  refine ⟨isMetadataFile_append _, ?_⟩
  have hdrop : ('v' :: (toString n).toList).dropPrefix? ['v'] = some (toString n).toList :=
    List.dropPrefix?_eq_some_iff.mpr ⟨['v'], rfl, by simp⟩
  unfold scannedVersion
  rw [htext, takeWhile_before hdot]
  dsimp only
  rw [hdrop]
  dsimp only
  rw [hdigits]
  exact parseI64_digits (parseDigits_toDigits n) (by omega)

theorem IsUuidFile.scanned (h : IsUuidFile n file) :
    isMetadataFile file = true ∧ scannedVersion file = some (Int64.ofInt n) := by
  obtain ⟨hn, digits, uuid, hdigits, rfl⟩ := h
  refine ⟨isMetadataFile_append _, ?_⟩
  obtain ⟨hne, hall⟩ := isDigit_of_parseDigits hdigits
  have hnone : ∀ c : Char, c.isDigit = false → c ∉ digits.toList := by
    intro c hc hmem
    rw [hall c hmem] at hc
    cases hc
  have htext : (digits ++ "-" ++ uuid ++ ".metadata.json").toList =
      digits.toList ++ '-' :: (uuid.toList ++ ".metadata.json".toList) := by
    simp [String.toList_append]
  obtain ⟨rest, hstart⟩ : ∃ rest, (digits.toList ++ '-' :: (uuid.toList ++
      ".metadata.json".toList)).takeWhile (· ≠ '.') = digits.toList ++ '-' :: rest := by
    rw [List.takeWhile_append_of_pos fun c hc => by
      simpa using fun heq : c = '.' => hnone '.' rfl (heq ▸ hc)]
    exact ⟨_, by rw [List.takeWhile_cons_of_pos (by decide)]⟩
  have hdrop : (digits.toList ++ '-' :: rest).dropPrefix? ['v'] = none := by
    obtain ⟨c, cs, hcons⟩ := List.exists_cons_of_ne_nil hne
    have hv : c ≠ 'v' := by
      rintro rfl
      exact hnone 'v' rfl (hcons ▸ List.mem_cons_self)
    rw [hcons]
    simp [List.dropPrefix?, hv]
  unfold scannedVersion
  rw [htext, hstart]
  dsimp only
  rw [hdrop]
  dsimp only
  rw [takeWhile_before (hnone '-' rfl)]
  exact parseI64_digits hdigits (by omega)

theorem IsNamed.scanned (h : IsNamed n file) :
    isMetadataFile file = true ∧ scannedVersion file = some (Int64.ofInt n) :=
  h.elim IsVersionFile.scanned IsUuidFile.scanned

theorem IsNamed.lt (h : IsNamed n file) : n < 2 ^ 31 := h.elim (·.1) (·.1)

/-- A file has one version. -/
theorem IsNamed.unique {m : ℕ} (h : IsNamed n file) (h' : IsNamed m file) : n = m := by
  have hsame := Option.some.inj (h.scanned.2.symm.trans h'.scanned.2)
  have hint := congrArg Int64.toInt hsame
  rw [toInt_ofInt_nat h.lt, toInt_ofInt_nat h'.lt] at hint
  omega

end Names

section Pick
variable {folder : String} {names scanned listed : List String}

/-- The key by which the scanner goes. -/
def scanKey (file : String) : Option Int64 :=
  if isMetadataFile file then scannedVersion file else none

theorem findLatestMetadata_eq (files : List String) : findLatestMetadata files =
    (Best.pick scanKey (-1) files).or (files.filter isMetadataFile).max? := by
  have hturn : keepScanned = Best.better scanKey := by
    funext best file
    unfold keepScanned Best.better scanKey
    cases isMetadataFile file with
    | false => rfl
    | true => cases scannedVersion file <;> rfl
  rw [findLatestMetadata, hturn]
  rfl

theorem latestOf_eq_pick (keys : List Path) :
    latestOf keys = Best.pick (fun key => fileVersion (fileName key)) 0 keys := by
  have hturn : keepLatest = Best.better fun key => fileVersion (fileName key) := by
    funext best key
    unfold keepLatest Best.better
    dsimp only
    cases fileVersion (fileName key) <;> rfl
  rw [latestOf, hturn]
  rfl

theorem IsNamed.scanKey {n : ℕ} {file : String} (h : IsNamed n file) :
    scanKey file = some (Int64.ofInt n) ∧ (-1 : Int64) < Int64.ofInt n := by
  obtain ⟨hfile, hversion⟩ := h.scanned
  refine ⟨by rw [Discovery.scanKey, hfile, if_pos rfl, hversion], ?_⟩
  rw [Int64.lt_iff_toInt_lt, toInt_ofInt_nat h.lt]
  have hone : (-1 : Int64).toInt = -1 := rfl
  omega

/-- A file with a version for the writer is a metadata file. -/
theorem isMetadataFile_of_fileVersion {file : String} {version : Int32}
    (h : fileVersion file.toList = some version) : isMetadataFile file = true := by
  unfold fileVersion at h
  obtain ⟨rest, hrest, h⟩ := Option.bind_eq_some_iff.mp h
  obtain ⟨digits, hdigits, -⟩ := Option.bind_eq_some_iff.mp h
  obtain ⟨pfx, hpfx, -⟩ := List.dropPrefix?_eq_some_iff.mp hrest
  obtain ⟨sfx, hsfx, hend⟩ := List.dropSuffix?_eq_some_iff.mp hdigits
  rw [isMetadataFile, List.isSuffixOf_iff_suffix, hpfx, hsfx, ← eq_of_beq hend, ← List.append_assoc]
  exact List.suffix_append _ _

theorem int64_lt (a b : Int64) : a < b ↔ a.toInt < b.toInt := Int64.lt_iff_toInt_lt

theorem int32_lt (a b : Int32) : a < b ↔ a.toInt < b.toInt := Int32.lt_iff_toInt_lt

/-- With a named file the scanner picks one whose number no other file exceeds. -/
theorem exists_pick_of_named {f : String} {n : ℕ} (hf : f ∈ scanned) (hn : IsNamed n f) :
    ∃ m version, findLatestMetadata scanned = some m ∧ m ∈ scanned ∧
      Best.pick scanKey (-1) scanned = some m ∧ scanKey m = some version ∧
      ∀ g ∈ scanned, ∀ k, IsNamed k g → (k : ℤ) ≤ version.toInt := by
  obtain ⟨m, hpick⟩ := Best.exists_pick int64_lt hf hn.scanKey.1 hn.scanKey.2
  obtain ⟨hmem, version, hkey, -, hmax⟩ := Best.pick_max int64_lt hpick
  refine ⟨m, version, by rw [findLatestMetadata_eq, hpick, Option.some_or], hmem, hpick, hkey, ?_⟩
  intro g hg k hk
  have hle := hmax g hg _ hk.scanKey.1
  rwa [toInt_ofInt_nat hk.lt] at hle

/-- The file is read with its number when it is a metadata file. -/
theorem of_scanKey {f : String} {version : Int64} (h : scanKey f = some version) :
    isMetadataFile f = true ∧ scannedVersion f = some version := by
  unfold scanKey at h
  split at h
  · rename_i hfile
    exact ⟨hfile, h⟩
  · cases h

theorem OthersOlder.greatest (h : OthersOlder names) {f : String} {n : ℕ} (hf : f ∈ names)
    (hn : IsNamed n f) (hperm : scanned.Perm names) :
    ∃ m k, findLatestMetadata scanned = some m ∧ IsNamed k m ∧
      ∀ g ∈ names, ∀ j, IsNamed j g → j ≤ k := by
  obtain ⟨m, version, hfind, hmem, -, hkey, hmax⟩ :=
    exists_pick_of_named (hperm.mem_iff.mpr hf) hn
  obtain ⟨hfile, hversion⟩ := of_scanKey hkey
  have hnamed : ∃ k, IsNamed k m := by
    by_contra hnone
    obtain ⟨g, hg, k, hk, hlt⟩ := h m (hperm.mem_iff.mp hmem) hfile
      (fun k hk => hnone ⟨k, hk⟩) version hversion ⟨f, hf, n, hn⟩
    have hle := hmax g (hperm.mem_iff.mpr hg) k hk
    omega
  obtain ⟨k, hk⟩ := hnamed
  obtain rfl : version = Int64.ofInt k := Option.some.inj (hkey.symm.trans hk.scanKey.1)
  rw [toInt_ofInt_nat hk.lt] at hmax
  refine ⟨m, k, hfind, hk, fun g hg j hj => ?_⟩
  have hle := hmax g (hperm.mem_iff.mpr hg) j hj
  omega

/-- A file with another name and as great a number is picked when it is listed first. -/
theorem othersOlder_of_greatest
    (h : (∃ f ∈ names, ∃ n, IsNamed n f) → ∀ scanned : List String, scanned.Perm names →
      ∃ f n, findLatestMetadata scanned = some f ∧ IsNamed n f ∧
        ∀ g ∈ names, ∀ m, IsNamed m g → m ≤ n) : OthersOlder names := by
  intro f hf hfile hother version hversion hnamed
  by_contra hnone
  have hgreat : ∀ g ∈ names, ∀ n, IsNamed n g → (n : ℤ) ≤ version.toInt := by
    intro g hg n hn
    by_contra hlt
    exact hnone ⟨g, hg, n, hn, by omega⟩
  have hkey : scanKey f = some version := by rw [scanKey, if_pos hfile, hversion]
  have hperm : (f :: names.erase f).Perm names := (List.perm_cons_erase hf).symm
  obtain ⟨g, hg, n, hn⟩ := hnamed
  have hcounts : (-1 : Int64) < version := by
    rw [int64_lt]
    have hle := hgreat g hg n hn
    have hone : (-1 : Int64).toInt = -1 := rfl
    omega
  obtain ⟨m, k, hfind, hk, -⟩ := h ⟨g, hg, n, hn⟩ _ hperm
  obtain ⟨m', version', hfind', hmem, hpick, hkey', -⟩ :=
    exists_pick_of_named (hperm.mem_iff.mpr hg) hn
  obtain rfl : m' = m := Option.some.inj (hfind'.symm.trans hfind)
  rcases Best.pick_cons int64_lt hkey hcounts hpick hk.scanKey.1 with rfl | hlt
  · exact hother k hk
  · rw [toInt_ofInt_nat hk.lt] at hlt
    have hle := hgreat m' (hperm.mem_iff.mp hmem) k hk
    omega

/-- Where all metadata files are `v`-names, the one with the greatest number is picked by both, unless
the greatest number is 0. -/
theorem agree_of_versionFiles (hslash : ∀ f ∈ names, '/' ∉ f.toList)
    (hall : ∀ f ∈ names, isMetadataFile f = true → ∃ n, IsVersionFile n f)
    (hzero : ¬ OnlyVersionZero names) (hscanned : scanned.Perm names)
    (hlisted : listed.Perm names) :
    latestOf (listed.map fun f => folder ++ "/" ++ f) =
      (findLatestMetadata scanned).map fun f => folder ++ "/" ++ f := by
  have hname : ∀ f ∈ names, fileName (folder ++ "/" ++ f) = f.toList := by
    intro f hf
    have htext : (folder ++ "/" ++ f).toList = folder.toList ++ '/' :: f.toList := by simp
    rw [fileName, htext, afterLast_append_cons _ (hslash f hf)]
  by_cases hsome : ∃ f ∈ names, isMetadataFile f = true
  · obtain ⟨f₀, hf₀, hfile₀⟩ := hsome
    obtain ⟨n₀, hn₀⟩ := hall f₀ hf₀ hfile₀
    obtain ⟨f, version, hfind, hmem, -, hkey, hmax⟩ :=
      exists_pick_of_named (hscanned.mem_iff.mpr hf₀) (Or.inl hn₀)
    have hf := hscanned.mem_iff.mp hmem
    obtain ⟨n, hn⟩ := hall f hf (of_scanKey hkey).1
    obtain rfl : version = Int64.ofInt n :=
      Option.some.inj (hkey.symm.trans (IsNamed.scanKey (Or.inl hn)).1)
    rw [toInt_ofInt_nat hn.1] at hmax
    have hpos : 0 < n := by
      by_contra hnpos
      obtain rfl : n = 0 := by omega
      apply hzero
      refine ⟨hn.2 ▸ hf, fun g hg hgfile => ?_⟩
      obtain ⟨k, hk⟩ := hall g hg hgfile
      have hle := hmax g (hscanned.mem_iff.mpr hg) k (Or.inl hk)
      obtain rfl : k = 0 := by omega
      exact hk.2
    have hwriter : Best.pick (fun key => fileVersion (fileName key)) 0
        (listed.map fun f => folder ++ "/" ++ f) = some (folder ++ "/" ++ f) := by
      apply Best.pick_of_greatest int32_lt (k := Int32.ofNat n)
      · exact List.mem_map_of_mem (hlisted.mem_iff.mpr hf)
      · rw [hname f hf, hn.2, fileVersion_versionName hn.1]
      · rw [int32_lt, Int32.toInt_ofNat_of_lt hn.1]
        exact Int.natCast_pos.mpr hpos
      · intro key hkeyMem hne other hother
        obtain ⟨g, hg, rfl⟩ := List.mem_map.mp hkeyMem
        have hgmem := hlisted.mem_iff.mp hg
        rw [hname g hgmem] at hother
        obtain ⟨k, hk⟩ := hall g hgmem (isMetadataFile_of_fileVersion hother)
        rw [hk.2, fileVersion_versionName hk.1, Option.some.injEq] at hother
        rw [← hother, Int32.toInt_ofNat_of_lt hk.1, Int32.toInt_ofNat_of_lt hn.1]
        have hle := hmax g (hscanned.mem_iff.mpr hgmem) k (Or.inl hk)
        have hdiff : k ≠ n := by
          rintro rfl
          exact hne (by rw [hk.2, hn.2])
        omega
    rw [hfind, latestOf_eq_pick, hwriter]
    rfl
  · have hnone : ∀ f ∈ names, isMetadataFile f = false := by
      intro f hf
      cases hfile : isMetadataFile f with
      | false => rfl
      | true => exact absurd ⟨f, hf, hfile⟩ hsome
    have hscan : findLatestMetadata scanned = none := by
      have hfilter : scanned.filter isMetadataFile = [] := by
        rw [List.filter_eq_nil_iff]
        intro f hf
        rw [hnone f (hscanned.mem_iff.mp hf)]
        exact Bool.false_ne_true
      cases hpick : Best.pick scanKey (-1) scanned with
      | none => rw [findLatestMetadata_eq, hpick, hfilter]; rfl
      | some m =>
        obtain ⟨hmem, version, hkey, -⟩ := Best.pick_max int64_lt hpick
        have hfile := (of_scanKey hkey).1
        rw [hnone m (hscanned.mem_iff.mp hmem)] at hfile
        cases hfile
    have hwrite : latestOf (listed.map fun f => folder ++ "/" ++ f) = none := by
      rw [latestOf_eq_pick]
      cases hpick : Best.pick (fun key => fileVersion (fileName key)) 0
          (listed.map fun f => folder ++ "/" ++ f) with
      | none => rfl
      | some key =>
        obtain ⟨hmem, version, hkey, -⟩ := Best.pick_max int32_lt hpick
        obtain ⟨g, hg, rfl⟩ := List.mem_map.mp hmem
        have hgmem := hlisted.mem_iff.mp hg
        rw [hname g hgmem] at hkey
        have hfile := isMetadataFile_of_fileVersion hkey
        rw [hnone g hgmem] at hfile
        cases hfile
    rw [hscan, hwrite]
    rfl

/-- The scanner picks a file of version 0, and the writer finds none. -/
theorem not_agree_of_versionZero (folder : String) (h : OnlyVersionZero names)
    (hslash : ∀ f ∈ names, '/' ∉ f.toList) :
    latestOf (names.map fun f => folder ++ "/" ++ f) = none ∧
      findLatestMetadata names = some (versionName 0) := by
  have hnamed : IsVersionFile 0 (versionName 0) := ⟨Nat.two_pow_pos 31, rfl⟩
  constructor
  · rw [latestOf_eq_pick]
    cases hpick : Best.pick (fun key => fileVersion (fileName key)) 0
        (names.map fun f => folder ++ "/" ++ f) with
    | none => rfl
    | some key =>
      obtain ⟨hmem, version, hkey, hlt, -⟩ := Best.pick_max int32_lt hpick
      obtain ⟨g, hg, rfl⟩ := List.mem_map.mp hmem
      have htext : (folder ++ "/" ++ g).toList = folder.toList ++ '/' :: g.toList := by simp
      rw [fileName, htext, afterLast_append_cons _ (hslash g hg)] at hkey
      rw [h.2 g hg (isMetadataFile_of_fileVersion hkey),
        fileVersion_versionName (Nat.two_pow_pos 31), Option.some.injEq] at hkey
      rw [← hkey] at hlt
      exact absurd hlt (by decide)
  · obtain ⟨m, version, hfind, hmem, -, hkey, -⟩ := exists_pick_of_named h.1 (Or.inl hnamed)
    rw [hfind, h.2 m hmem (of_scanKey hkey).1]

/-- Discovery and the writer see the same version of a table in every listing order exactly when the
only metadata file is not that of version 0 and metadata files of other names are older. -/
theorem sameVersion_iff (folder : String) (hslash : ∀ f ∈ names, '/' ∉ f.toList) :
    SameVersion folder names ↔ ¬ OnlyVersionZero names ∧ OthersOlder names := by
  constructor
  · intro h
    refine ⟨fun hzero => ?_, othersOlder_of_greatest h.greatest⟩
    obtain ⟨hwriter, hscanner⟩ := not_agree_of_versionZero folder hzero hslash
    have hagree := h.agree (fun f hf hfile => ⟨0, Nat.two_pow_pos 31, hzero.2 f hf hfile⟩) names names
      (List.Perm.refl _) (List.Perm.refl _)
    rw [hwriter, hscanner] at hagree
    cases hagree
  · rintro ⟨hzero, hothers⟩
    constructor
    · intro hall scanned listed hscanned hlisted
      exact agree_of_versionFiles hslash hall hzero hscanned hlisted
    · rintro ⟨f, hf, n, hn⟩ scanned hperm
      exact hothers.greatest hf hn hperm

end Pick

section Orders

/-- A table with two versions. -/
theorem sameVersion_iff_orders :
    SameVersion "orders/metadata"
        ["v1.metadata.json", "snap-1000-manifest-list.json", "v2.metadata.json"] ↔
      ¬ OnlyVersionZero ["v1.metadata.json", "snap-1000-manifest-list.json", "v2.metadata.json"] ∧
        OthersOlder ["v1.metadata.json", "snap-1000-manifest-list.json", "v2.metadata.json"] := by
  apply sameVersion_iff
  intro f hf
  simp only [List.mem_cons, List.not_mem_nil, or_false] at hf
  rcases hf with rfl | rfl | rfl <;> decide

/-- The writer does not see version 0, and the scanner takes the number at the start of a backup's name
for its version. -/
theorem not_sameVersion_orders : ¬ SameVersion "orders/metadata" ["v0.metadata.json"] ∧
    ¬ SameVersion "orders/metadata" ["v3.metadata.json", "v9.bak.metadata.json"] := by
  constructor
  · intro h
    have hzero : versionName 0 = "v0.metadata.json" := by decide
    have hagree := h.agree (fun f hf _ => ⟨0, Nat.two_pow_pos 31, by
      rw [List.mem_singleton.mp hf, hzero]⟩) _ _ (List.Perm.refl _) (List.Perm.refl _)
    exact absurd hagree (by decide)
  · intro h
    have hthree : IsNamed 3 "v3.metadata.json" := Or.inl ⟨by omega, by decide⟩
    obtain ⟨f, n, hfind, hn, -⟩ := h.greatest ⟨_, List.mem_cons_self, 3, hthree⟩ _ (List.Perm.refl _)
    have hbackup : findLatestMetadata ["v3.metadata.json", "v9.bak.metadata.json"] =
        some "v9.bak.metadata.json" := by decide
    obtain rfl : "v9.bak.metadata.json" = f := Option.some.inj (hbackup.symm.trans hfind)
    rcases hn with ⟨hlt, hname⟩ | ⟨-, digits, uuid, hdigits, hname⟩
    · have hversion : fileVersion "v9.bak.metadata.json".toList = none := by decide
      rw [hname, fileVersion_versionName hlt] at hversion
      cases hversion
    · obtain ⟨hne, hall⟩ := isDigit_of_parseDigits hdigits
      obtain ⟨c, cs, hcons⟩ := List.exists_cons_of_ne_nil hne
      have hc : c.isDigit = true := hall c (hcons ▸ List.mem_cons_self)
      have hchars := congrArg String.toList hname
      simp only [String.toList_append, hcons, List.cons_append] at hchars
      have hfirst : 'v' = c := List.head_eq_of_cons_eq hchars
      rw [← hfirst] at hc
      exact absurd hc (by decide)

end Orders
end RustLake.Discovery
