import RustLake.Text.Basic
import Mathlib.Data.List.Basic

/-! Object keys as `object_store::path::Path` makes them from text: empty segments are
dropped and every other segment is percent-encoded. -/
namespace RustLake.ObjectStore
open RustLake.Text

abbrev Path := String

/-- Characters of a segment that are percent-encoded: controls, everything outside
ASCII, and the delimiters and wildcards that stores treat specially. -/
def encodes (c : Char) : Bool :=
  decide (c.toNat < 32) || decide (127 ≤ c.toNat) ||
    [34, 35, 37, 42, 47, 60, 62, 63, 91, 92, 93, 94, 96, 123, 124, 125, 126].contains c.toNat

def encodeByte (b : UInt8) : List Char :=
  ['%', (Nat.digitChar (b.toNat / 16)).toUpper, (Nat.digitChar (b.toNat % 16)).toUpper]

def encodeChar (c : Char) : List Char :=
  if encodes c then (String.utf8EncodeChar c).flatMap encodeByte else [c]

/-- `PathPart::from`. -/
def encodeSegment (seg : List Char) : List Char :=
  if seg = ['.'] then "%2E".toList
  else if seg = ['.', '.'] then "%2E%2E".toList
  else seg.flatMap encodeChar

def splitSlash : List Char → List (List Char)
  | [] => [[]]
  | c :: cs =>
    if c = '/' then [] :: splitSlash cs
    else match splitSlash cs with
      | [] => [[c]]
      | seg :: segs => (c :: seg) :: segs

def joinSlash : List (List Char) → List Char
  | [] => []
  | [seg] => seg
  | seg :: segs => seg ++ '/' :: joinSlash segs

/-- `ObjectPath::from`. -/
def Path.ofText (s : String) : Path :=
  String.ofList (joinSlash (((splitSlash s.toList).map encodeSegment).filter (· ≠ [])))

/-- The last segment of a key: `path.rsplit('/').next()`. -/
def fileName (p : Path) : List Char := afterLast '/' p.toList

/-- A key lies below a prefix when the prefix is a run of its leading segments. -/
def Path.isUnder (key pfx : Path) : Bool :=
  decide (pfx = "") || (pfx.toList ++ ['/']).isPrefixOf key.toList

theorem splitSlash_of_notMem {s : List Char} (hs : '/' ∉ s) : splitSlash s = [s] := by
  induction s with
  | nil => rfl
  | cons c cs ih =>
    obtain ⟨hc, hcs⟩ := not_or.mp (mt List.mem_cons.mpr hs)
    simp [splitSlash, ih hcs, Ne.symm hc]

theorem splitSlash_append (a b : List Char) :
    splitSlash (a ++ '/' :: b) = splitSlash a ++ splitSlash b := by
  induction a with
  | nil => simp [splitSlash]
  | cons c cs ih =>
    by_cases hc : c = '/'
    · simp [splitSlash, hc, ih]
    · cases h : splitSlash cs with
      | nil => cases cs <;> simp [splitSlash] at h; split_ifs at h; split at h <;> simp at h
      | cons seg segs => simp [splitSlash, hc, ih, h]

theorem joinSlash_concat (segs : List (List Char)) (seg : List Char) :
    joinSlash (segs ++ [seg]) = seg ∨
      ∃ a, joinSlash (segs ++ [seg]) = a ++ '/' :: seg := by
  induction segs with
  | nil => exact Or.inl rfl
  | cons s segs ih =>
    right
    have hne : segs ++ [seg] ≠ [] := by simp
    obtain ⟨hd, tl, htl⟩ := List.exists_cons_of_ne_nil hne
    have hstep : joinSlash (s :: segs ++ [seg]) = s ++ '/' :: joinSlash (segs ++ [seg]) := by
      rw [List.cons_append, htl, joinSlash]
      simp
    rcases ih with h | ⟨a, h⟩
    · exact ⟨s, by rw [hstep, h]⟩
    · exact ⟨s ++ '/' :: a, by rw [hstep, h]; simp⟩

theorem slash_notMem_encodeByte (b : UInt8) : '/' ∉ encodeByte b := by
  have hdigit : ∀ n < 16, '/' ≠ (Nat.digitChar n).toUpper := by decide
  have hhi := hdigit (b.toNat / 16) (by have := b.toNat_lt; omega)
  have hlo := hdigit (b.toNat % 16) (Nat.mod_lt _ (by decide))
  simp [encodeByte, hhi, hlo]

theorem slash_notMem_encodeSegment {seg : List Char} (h : '/' ∉ seg) :
    '/' ∉ encodeSegment seg := by
  unfold encodeSegment
  split_ifs
  · decide
  · decide
  · intro hmem
    obtain ⟨c, hc, hcm⟩ := List.mem_flatMap.mp hmem
    unfold encodeChar at hcm
    split_ifs at hcm
    · obtain ⟨b, -, hb⟩ := List.mem_flatMap.mp hcm
      exact slash_notMem_encodeByte b hb
    · exact h (List.mem_singleton.mp hcm ▸ hc)

theorem encodeChar_ne_nil (c : Char) : encodeChar c ≠ [] := by
  unfold encodeChar
  split_ifs
  · have hlen : 0 < (String.utf8EncodeChar c).length := by
      rw [String.length_utf8EncodeChar]; exact c.utf8Size_pos
    obtain ⟨b, bs, hb⟩ := List.exists_cons_of_length_pos hlen
    simp [hb, encodeByte]
  · simp

theorem encodeSegment_ne_nil {seg : List Char} (h : seg ≠ []) : encodeSegment seg ≠ [] := by
  unfold encodeSegment
  split_ifs
  · decide
  · decide
  · obtain ⟨c, cs, rfl⟩ := List.exists_cons_of_ne_nil h
    simp [encodeChar_ne_nil]

/-- The file name of a key is the encoded file name of the text it was made from. -/
theorem fileName_ofText (s : String) (h : fileName s ≠ []) :
    fileName (Path.ofText s) = encodeSegment (fileName s) := by
  have hns : '/' ∉ fileName s := sep_notMem_afterLast _ _
  have hlast : ∃ segs, ((splitSlash s.toList).map encodeSegment).filter (· ≠ []) =
      segs ++ [encodeSegment (fileName s)] := by
    rcases eq_afterLast_or_exists_append '/' s.toList with hs | ⟨a, hs⟩
    · refine ⟨[], ?_⟩
      have : splitSlash s.toList = [fileName s] := by
        rw [hs]; exact splitSlash_of_notMem hns
      simp [this, encodeSegment_ne_nil h]
    · refine ⟨((splitSlash a).map encodeSegment).filter (· ≠ []), ?_⟩
      have : splitSlash s.toList = splitSlash a ++ [fileName s] := by
        rw [hs, splitSlash_append, splitSlash_of_notMem (sep_notMem_afterLast _ _)]; rfl
      simp [this, encodeSegment_ne_nil h]
  obtain ⟨segs, hsegs⟩ := hlast
  unfold fileName Path.ofText
  rw [String.toList_ofList, hsegs]
  have hclean := slash_notMem_encodeSegment hns
  rcases joinSlash_concat segs (encodeSegment (fileName s)) with hj | ⟨a, hj⟩
  · rw [hj]; exact afterLast_of_notMem hclean
  · rw [hj]; exact afterLast_append_cons a hclean

theorem fileName_suffix (key : Path) : fileName key <:+ key.toList := by
  unfold fileName
  rcases eq_afterLast_or_exists_append '/' key.toList with heq | ⟨a, heq⟩
  · exact ⟨[], heq.symm⟩
  · refine ⟨a ++ ['/'], ?_⟩
    rw [List.append_assoc]
    exact heq.symm

/-- The segments that a key keeps of a text. -/
def segments (s : List Char) : List (List Char) :=
  ((splitSlash s).map encodeSegment).filter (· ≠ [])

theorem ofText_eq (s : String) : Path.ofText s = String.ofList (joinSlash (segments s.toList)) := rfl

theorem segments_append (a b : List Char) :
    segments (a ++ '/' :: b) = segments a ++ segments b := by
  unfold segments
  rw [splitSlash_append, List.map_append, List.filter_append]

theorem segments_of_notMem {name : List Char} (hslash : '/' ∉ name) (hne : name ≠ []) :
    segments name = [encodeSegment name] := by
  unfold segments
  rw [splitSlash_of_notMem hslash]
  simp [encodeSegment_ne_nil hne]

theorem joinSlash_append_singleton {segs : List (List Char)} (h : segs ≠ []) (seg : List Char) :
    joinSlash (segs ++ [seg]) = joinSlash segs ++ '/' :: seg := by
  induction segs with
  | nil => exact absurd rfl h
  | cons s rest ih =>
    cases rest with
    | nil => simp [joinSlash]
    | cons t rest =>
      have hstep := ih (by simp)
      simp only [List.cons_append, joinSlash, List.append_assoc] at hstep ⊢
      rw [hstep]

theorem slash_notMem_splitSlash {s seg : List Char} (h : seg ∈ splitSlash s) : '/' ∉ seg := by
  induction s generalizing seg with
  | nil =>
    rw [List.mem_singleton.mp h]
    exact List.not_mem_nil
  | cons c cs ih =>
    rw [splitSlash] at h
    split_ifs at h with hc
    · rcases List.mem_cons.mp h with rfl | hrest
      · exact List.not_mem_nil
      · exact ih hrest
    · split at h
      · rw [List.mem_singleton.mp h, List.mem_singleton]
        exact Ne.symm hc
      · rename_i first segs heq
        rcases List.mem_cons.mp h with rfl | hrest
        · rw [List.mem_cons, not_or]
          exact ⟨Ne.symm hc, ih (by rw [heq]; exact List.mem_cons_self)⟩
        · exact ih (by rw [heq]; exact List.mem_cons_of_mem _ hrest)

theorem length_splitSlash (s : List Char) : (splitSlash s).length = s.count '/' + 1 := by
  induction s with
  | nil => rfl
  | cons c cs ih =>
    by_cases hc : c = '/'
    · rw [hc, List.count_cons_self, ← ih]
      rfl
    · rw [List.count_cons_of_ne hc, ← ih, splitSlash, if_neg hc]
      split
      · rename_i hnil
        rw [hnil] at ih
        cases ih
      · rename_i heq
        rw [heq]
        rfl

theorem slash_notMem_segments {s seg : List Char} (h : seg ∈ segments s) : '/' ∉ seg ∧ seg ≠ [] := by
  obtain ⟨hmem, hne⟩ := List.mem_filter.mp h
  obtain ⟨part, hpart, rfl⟩ := List.mem_map.mp hmem
  exact ⟨slash_notMem_encodeSegment (slash_notMem_splitSlash hpart), by simpa using hne⟩

theorem splitSlash_joinSlash {segs : List (List Char)} (h : ∀ seg ∈ segs, '/' ∉ seg)
    (hne : segs ≠ []) : splitSlash (joinSlash segs) = segs := by
  induction segs with
  | nil => exact absurd rfl hne
  | cons seg rest ih =>
    obtain ⟨hseg, hrest⟩ := List.forall_mem_cons.mp h
    cases rest with
    | nil => exact splitSlash_of_notMem hseg
    | cons next rest =>
      have hstep : joinSlash (seg :: next :: rest) = seg ++ '/' :: joinSlash (next :: rest) := rfl
      rw [hstep, splitSlash_append, splitSlash_of_notMem hseg, ih hrest (by simp)]
      rfl

/-- A key has a slash between each two of its segments. -/
theorem count_ofText (s : String) :
    (Path.ofText s).toList.count '/' = (segments s.toList).length - 1 := by
  rw [ofText_eq, String.toList_ofList]
  cases hsegs : segments s.toList with
  | nil => rfl
  | cons seg rest =>
    have hsplit := congrArg List.length (@splitSlash_joinSlash (seg :: rest)
      (fun part hpart => (slash_notMem_segments (hsegs ▸ hpart)).1) (by simp))
    rw [length_splitSlash] at hsplit
    omega

/-- A key has no more slashes than the text it was made from. -/
theorem count_ofText_le (s : String) : (Path.ofText s).toList.count '/' ≤ s.toList.count '/' := by
  have hlen : (segments s.toList).length ≤ s.toList.count '/' + 1 := by
    rw [← length_splitSlash]
    exact Nat.le_trans (List.length_filter_le _ _) (Nat.le_of_eq (List.length_map _))
  rw [count_ofText]
  omega

/-- Keys are the same only when their segments are. -/
theorem segments_inj {a b : String} (h : Path.ofText a = Path.ofText b) :
    segments a.toList = segments b.toList := by
  have hjoin : joinSlash (segments a.toList) = joinSlash (segments b.toList) :=
    String.ofList_injective h
  have hclean : ∀ s : String, ∀ seg ∈ segments s.toList, '/' ∉ seg :=
    fun s seg hseg => (slash_notMem_segments hseg).1
  have hempty : ∀ s : String, joinSlash (segments s.toList) = [] → segments s.toList = [] := by
    intro s hnil
    by_contra hne
    have hsplit := splitSlash_joinSlash (hclean s) hne
    rw [hnil] at hsplit
    have hmem : [] ∈ segments s.toList := by
      rw [← hsplit]
      exact List.mem_singleton_self _
    exact (slash_notMem_segments hmem).2 rfl
  by_cases ha : segments a.toList = []
  · rw [ha] at hjoin
    rw [ha, hempty b hjoin.symm]
  · by_cases hb : segments b.toList = []
    · rw [hb] at hjoin
      exact absurd (hempty a hjoin) ha
    · rw [← splitSlash_joinSlash (hclean a) ha, ← splitSlash_joinSlash (hclean b) hb, hjoin]

/-- The segments of a prefix begin the segments of every key below it. -/
theorem segments_prefix_of_isUnder {a b : String}
    (h : Path.isUnder (Path.ofText a) (Path.ofText b) = true) :
    segments b.toList <+: segments a.toList := by
  have hclean : ∀ s : String, ∀ seg ∈ segments s.toList, '/' ∉ seg :=
    fun s seg hseg => (slash_notMem_segments hseg).1
  by_cases hb : segments b.toList = []
  · rw [hb]
    exact List.nil_prefix
  · have hpfx : joinSlash (segments b.toList) ++ ['/'] <+: joinSlash (segments a.toList) := by
      have hsplit := splitSlash_joinSlash (hclean b) hb
      rw [Path.isUnder, Bool.or_eq_true, decide_eq_true_eq, List.isPrefixOf_iff_prefix, ofText_eq,
        ofText_eq, String.toList_ofList, String.toList_ofList] at h
      rcases h with hempty | hbelow
      · have hnil : joinSlash (segments b.toList) = [] := String.ofList_injective hempty
        rw [hnil] at hsplit
        have hmem : [] ∈ segments b.toList := by
          rw [← hsplit]
          exact List.mem_singleton_self _
        exact absurd rfl (slash_notMem_segments hmem).2
      · exact hbelow
    obtain ⟨rest, hrest⟩ := hpfx
    rw [List.append_assoc, List.singleton_append] at hrest
    have ha : segments a.toList ≠ [] := by
      intro hnil
      rw [hnil] at hrest
      exact List.append_ne_nil_of_right_ne_nil _ (List.cons_ne_nil _ _) hrest
    have hsegs := congrArg splitSlash hrest
    rw [splitSlash_append, splitSlash_joinSlash (hclean b) hb, splitSlash_joinSlash (hclean a) ha]
      at hsegs
    exact ⟨splitSlash rest, hsegs⟩

/-- A trailing slash makes no difference to a key. -/
theorem ofText_slash (a : String) : Path.ofText (a ++ "/") = Path.ofText a := by
  have htext : (a ++ "/").toList = a.toList ++ '/' :: [] := by simp
  rw [ofText_eq, ofText_eq, htext, segments_append]
  have hnil : segments [] = [] := by decide
  rw [hnil, List.append_nil]

/-- The key of a file in a directory lies below the key of the directory. -/
theorem ofText_child {a : String} (ha : segments a.toList ≠ []) {name : String}
    (hslash : '/' ∉ name.toList) (hne : name.toList ≠ []) :
    Path.ofText (a ++ "/" ++ name) =
      Path.ofText a ++ "/" ++ String.ofList (encodeSegment name.toList) := by
  have htext : (a ++ "/" ++ name).toList = a.toList ++ '/' :: name.toList := by simp
  rw [ofText_eq, ofText_eq, htext, segments_append, segments_of_notMem hslash hne,
    joinSlash_append_singleton ha]
  apply String.toList_injective
  simp

theorem isUnder_child (pfx name : String) : Path.isUnder (pfx ++ "/" ++ name) pfx = true := by
  unfold Path.isUnder
  rw [Bool.or_eq_true]
  refine Or.inr (List.isPrefixOf_iff_prefix.mpr ⟨name.toList, ?_⟩)
  simp

theorem encodeSegment_of_plain {seg : List Char} (h : ∀ c ∈ seg, encodes c = false)
    (hdot : seg ≠ ['.']) (hdots : seg ≠ ['.', '.']) : encodeSegment seg = seg := by
  unfold encodeSegment
  rw [if_neg hdot, if_neg hdots]
  have hchars : ∀ c ∈ seg, encodeChar c = [c] := by
    intro c hc
    unfold encodeChar
    rw [h c hc]
    rfl
  rw [List.flatMap_congr hchars]
  simp

theorem encodes_of_isDigit {c : Char} (h : c.isDigit = true) : encodes c = false := by
  have hrange : 48 ≤ c.toNat ∧ c.toNat ≤ 57 := by
    simpa [Char.isDigit, UInt32.le_iff_toNat_le] using h
  unfold encodes
  have hall : ∀ n < 58, 48 ≤ n → (decide (n < 32) || decide (127 ≤ n) ||
      [34, 35, 37, 42, 47, 60, 62, 63, 91, 92, 93, 94, 96, 123, 124, 125, 126].contains n) =
        false := by decide
  exact hall _ (by omega) hrange.1

end RustLake.ObjectStore
