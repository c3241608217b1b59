import RustLake.ObjectStore.DatedFile
import RustLake.Iceberg.Lineage

/-! The metadata files of a table by their numbers: the keys they are put under, how listing and
parsing find the greatest one, and what a run of commits makes of the log. -/
namespace RustLake.Iceberg
open RustLake.Json RustLake.ObjectStore RustLake.Text

/-- The file name of a version. -/
def versionName (n : ℕ) : String := "v" ++ toString n ++ ".metadata.json"

/-- The path of a version below a table's prefix. -/
def versionFile (tablePrefix : String) (n : ℕ) : String :=
  tablePrefix ++ "/metadata/" ++ versionName n

/-- The key of a version. -/
def versionKey (tablePrefix : String) (n : ℕ) : Path := Path.ofText (versionFile tablePrefix n)

theorem versionFile_eq (directory : String) (n : ℕ) :
    versionFile directory n = directory ++ "/metadata/v" ++ toString n ++ ".metadata.json" := by
  apply String.toList_injective
  simp [versionFile, versionName, String.toList_append]

theorem toString_ofNat {n : ℕ} (h : n < 2 ^ 31) : toString (Int32.ofNat n) = toString n := by
  have hint : (Int32.ofNat n).toInt = n := Int32.toInt_ofNat_of_lt h
  change toString (Int32.ofNat n).toInt = _
  rw [hint]
  rfl

theorem versionText_ofNat {n : ℕ} (h : n < 2 ^ 31) (tablePrefix : String) :
    versionText tablePrefix (Int32.ofNat n) = versionFile tablePrefix n := by
  rw [versionFile_eq, ← toString_ofNat h]
  rfl

theorem toList_versionName (n : ℕ) :
    (versionName n).toList = 'v' :: (toString n ++ ".metadata.json").toList := by
  simp [versionName, String.toList_append]

theorem fileVersion_versionName {n : ℕ} (h : n < 2 ^ 31) :
    fileVersion (versionName n).toList = some (Int32.ofNat n) := by
  rw [toList_versionName]
  unfold fileVersion
  have hdrop : List.dropPrefix? ('v' :: (toString n ++ ".metadata.json").toList) ['v'] =
      some (toString n ++ ".metadata.json").toList :=
    List.dropPrefix?_eq_some_iff.mpr ⟨['v'], rfl, by simp⟩
  have hsuffix : List.dropSuffix? (toString n ++ ".metadata.json").toList ".metadata.json".toList =
      some (toString n).toList :=
    List.dropSuffix?_eq_some_iff.mpr ⟨_, String.toList_append, by simp⟩
  rw [hdrop, Option.bind_eq_bind, Option.bind_some, hsuffix]
  exact parseI32_toString h

/-- No character of a version's file name is encoded. -/
theorem plain_versionName (n : ℕ) : ∀ c ∈ (versionName n).toList, encodes c = false := by
  intro c hc
  rw [toList_versionName, List.mem_cons, String.toList_append, List.mem_append] at hc
  rcases hc with rfl | hdigit | hend
  · decide
  · have hs : (toString n).toList = Nat.toDigits 10 n := Nat.toList_repr
    rw [hs] at hdigit
    exact encodes_of_isDigit (Nat.isDigit_of_mem_toDigits (by decide) (by decide) hdigit)
  · exact plain_of_all (by decide) c hend

theorem encodeSegment_versionName (n : ℕ) :
    encodeSegment (versionName n).toList = (versionName n).toList :=
  encodeSegment_of_plain (plain_versionName n) (by rw [toList_versionName]; simp)
    (by rw [toList_versionName]; simp)

theorem slash_notMem_versionName (n : ℕ) : '/' ∉ (versionName n).toList := by
  intro hmem
  exact absurd (plain_versionName n '/' hmem) (by decide)

theorem versionName_ne_nil (n : ℕ) : (versionName n).toList ≠ [] := by
  rw [toList_versionName]
  simp

theorem metadataPrefix_eq (tablePrefix : String) :
    metadataPrefix tablePrefix = Path.ofText (tablePrefix ++ "/metadata") := by
  have htext : tablePrefix ++ "/metadata/" = tablePrefix ++ "/metadata" ++ "/" := by
    rw [String.append_assoc]
    rfl
  unfold metadataPrefix
  rw [htext, ofText_slash]

/-- The key of a version is its file name below the key of the metadata directory. -/
theorem versionKey_eq (tablePrefix : String) (n : ℕ) :
    versionKey tablePrefix n = metadataPrefix tablePrefix ++ "/" ++ versionName n := by
  have htext : versionFile tablePrefix n = tablePrefix ++ "/metadata" ++ "/" ++ versionName n := by
    unfold versionFile
    rw [String.append_assoc, String.append_assoc, String.append_assoc]
    rfl
  have hsegments : segments (tablePrefix ++ "/metadata").toList ≠ [] := by
    have hlist : (tablePrefix ++ "/metadata").toList =
        tablePrefix.toList ++ '/' :: "metadata".toList := by simp
    have hlast : segments "metadata".toList = ["metadata".toList] := by decide
    rw [hlist, segments_append, hlast]
    simp
  unfold versionKey
  rw [htext, ofText_child hsegments (slash_notMem_versionName n) (versionName_ne_nil n),
    encodeSegment_versionName, String.ofList_toList, metadataPrefix_eq]

theorem fileName_child (pfx : String) (n : ℕ) :
    fileName (pfx ++ "/" ++ versionName n) = (versionName n).toList := by
  have htext : (pfx ++ "/" ++ versionName n).toList = pfx.toList ++ '/' :: (versionName n).toList := by
    simp
  rw [fileName, htext, afterLast_append_cons _ (slash_notMem_versionName n)]

theorem fileName_versionFile (tablePrefix : String) (n : ℕ) :
    fileName (versionFile tablePrefix n) = (versionName n).toList := by
  have htext : versionFile tablePrefix n = tablePrefix ++ "/metadata" ++ "/" ++ versionName n := by
    unfold versionFile
    rw [String.append_assoc, String.append_assoc, String.append_assoc]
    rfl
  rw [htext, fileName_child]

theorem fileName_versionKey (tablePrefix : String) (n : ℕ) :
    fileName (versionKey tablePrefix n) = (versionName n).toList := by
  rw [versionKey_eq, fileName_child]

/-- A key that is made from a version's key has the same file name. -/
theorem fileName_ofText_versionKey (tablePrefix : String) (n : ℕ) :
    fileName (Path.ofText (versionKey tablePrefix n)) = (versionName n).toList := by
  have hne : fileName (versionKey tablePrefix n) ≠ [] := by
    rw [fileName_versionKey]
    exact versionName_ne_nil n
  rw [fileName_ofText _ hne, fileName_versionKey, encodeSegment_versionName]

theorem namedV_of_fileName {key : Path} {n : ℕ} (h : fileName key = (versionName n).toList) :
    NamedV key := ⟨_, h.trans (toList_versionName n)⟩

theorem versionName_inj {m n : ℕ} (hm : m < 2 ^ 31) (hn : n < 2 ^ 31)
    (h : (versionName m).toList = (versionName n).toList) : m = n := by
  have hversion := fileVersion_versionName hm
  rw [h, fileVersion_versionName hn, Option.some.injEq] at hversion
  have hint := congrArg Int32.toInt hversion
  rw [Int32.toInt_ofNat_of_lt hm, Int32.toInt_ofNat_of_lt hn] at hint
  omega

/-- The keys of a table's metadata files, and those which text made from such keys may lead
to. -/
def InTable (tablePrefix : String) (key : Path) : Prop :=
  NamedV key ∧ (key.isUnder (metadataPrefix tablePrefix) = true ∨
    key.isUnder (Path.ofText (metadataPrefix tablePrefix)) = true)

theorem isUnder_versionKey (tablePrefix : String) (n : ℕ) :
    (versionKey tablePrefix n).isUnder (metadataPrefix tablePrefix) = true := by
  rw [versionKey_eq]
  exact isUnder_child _ _

theorem inTable_versionKey (tablePrefix : String) (n : ℕ) :
    InTable tablePrefix (versionKey tablePrefix n) :=
  ⟨namedV_of_fileName (fileName_versionKey tablePrefix n), Or.inl (isUnder_versionKey _ _)⟩

theorem segments_metadataPrefix_ne_nil (tablePrefix : String) :
    segments (metadataPrefix tablePrefix).toList ≠ [] := by
  have hlast : segments "metadata".toList = ["metadata".toList] := by decide
  have htext : (tablePrefix ++ "/metadata").toList =
      tablePrefix.toList ++ '/' :: "metadata".toList := by simp
  rw [metadataPrefix_eq, ofText_eq, htext, segments_append, hlast, String.toList_ofList]
  rcases joinSlash_concat (segments tablePrefix.toList) "metadata".toList with h | ⟨a, h⟩
  · rw [h, hlast]
    simp
  · rw [h, segments_append, hlast]
    simp

theorem inTable_ofText_versionKey (tablePrefix : String) (n : ℕ) :
    InTable tablePrefix (Path.ofText (versionKey tablePrefix n)) := by
  refine ⟨namedV_of_fileName (fileName_ofText_versionKey tablePrefix n), Or.inr ?_⟩
  rw [versionKey_eq, ofText_child (segments_metadataPrefix_ne_nil tablePrefix)
    (slash_notMem_versionName n) (versionName_ne_nil n)]
  exact isUnder_child _ _

/-- The greatest version of a listing is found, however many digits it has. -/
theorem latestOf_eq {keys : List Path} {path : Path} {ver : Int32} (hmem : path ∈ keys)
    (hver : fileVersion (fileName path) = some ver) (hpos : 0 < ver)
    (hmax : ∀ key ∈ keys, ∀ v, fileVersion (fileName key) = some v → v < ver ∨ key = path) :
    latestOf keys = some path := by
  have hfold : ∀ best : Int32 × Option Path,
      (best = (ver, some path) ∨ best.1 < ver ∧ path ∈ keys) →
        keys.foldl keepLatest best = (ver, some path) := by
    clear hmem
    induction keys with
    | nil =>
      rintro best (rfl | ⟨-, hmem⟩)
      · rfl
      · cases hmem
    | cons key keys ih =>
      intro best hbest
      rw [List.foldl_cons]
      refine ih (fun k hk => hmax k (List.mem_cons_of_mem _ hk)) _ ?_
      cases hkey : fileVersion (fileName key) with
      | none =>
        rw [keepLatest_of_none hkey]
        refine hbest.imp_right fun ⟨hlt, hmem⟩ => ⟨hlt, ?_⟩
        rcases List.mem_cons.mp hmem with rfl | hmem
        · rw [hkey] at hver
          cases hver
        · exact hmem
      | some v =>
        have hbound := hmax key List.mem_cons_self v hkey
        unfold keepLatest
        simp only [hkey]
        have hself : key = path → v = ver := by
          rintro rfl
          exact Option.some.inj (hkey.symm.trans hver)
        simp only [Int32.lt_iff_toInt_lt] at hbest hbound ⊢
        split_ifs with hnew
        · rcases hbound with hlt | hpath
          · rcases hbest with rfl | ⟨-, hmem⟩
            · exact absurd hlt (lt_asymm hnew)
            · rcases List.mem_cons.mp hmem with heq | hmem
              · rw [hself heq.symm] at hlt
                omega
              · exact Or.inr ⟨hlt, hmem⟩
          · exact Or.inl (by rw [hself hpath, hpath])
        · rcases hbest with hbest | ⟨hlt, hmem⟩
          · exact Or.inl hbest
          · rcases List.mem_cons.mp hmem with heq | hmem
            · rw [hself heq.symm] at hnew
              exact absurd hlt hnew
            · exact Or.inr ⟨hlt, hmem⟩
  exact congrArg Prod.snd (hfold (0, none) (Or.inr ⟨hpos, hmem⟩))

theorem stripS3Prefix_location {bucket : String} (h : '/' ∉ bucket.toList) (tablePrefix : String) :
    stripS3Prefix ("s3://" ++ bucket ++ "/" ++ tablePrefix) = tablePrefix := by
  have hdrop : ("s3://" ++ bucket ++ "/" ++ tablePrefix).toList.dropPrefix? "s3://".toList =
      some (bucket.toList ++ '/' :: tablePrefix.toList) :=
    List.dropPrefix?_eq_some_iff.mpr ⟨"s3://".toList, by simp [String.toList_append], by simp⟩
  unfold stripS3Prefix
  rw [hdrop]
  simp only [afterFirst?_append h, String.ofList_toList]

end RustLake.Iceberg
