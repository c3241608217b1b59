import RustLake.ObjectStore.Path

/-! Files that lie in a directory of their day: the texts that chrono makes of a time, and the keys
of the files. -/
namespace RustLake.ObjectStore
open RustLake.Text

/-- `chrono::DateTime<Utc>`, to the second. -/
structure DateTime where
  year : ℕ
  month : ℕ
  day : ℕ
  hour : ℕ
  minute : ℕ
  second : ℕ
deriving DecidableEq, Repr

/-- `{:0width}` of a number. -/
def padded (width n : ℕ) : String :=
  let digits := (toString n).toList
  String.ofList (List.replicate (width - digits.length) '0' ++ digits)

/-- `format("%Y-%m-%d")`; chrono puts a sign before years of more than four digits. -/
def DateTime.datePart (t : DateTime) : String :=
  (if 9999 < t.year then "+" else "") ++ padded 4 t.year ++ "-" ++ padded 2 t.month ++ "-" ++
    padded 2 t.day

/-- `format("%H%M%S")`. -/
def DateTime.timePart (t : DateTime) : String :=
  padded 2 t.hour ++ padded 2 t.minute ++ padded 2 t.second

example : DateTime.datePart ⟨2024, 5, 1, 7, 8, 9⟩ = "2024-05-01" ∧
    DateTime.timePart ⟨2024, 5, 1, 7, 8, 9⟩ = "070809" := by decide

/-- No character of the text is encoded. -/
def Plain (s : String) : Prop := ∀ c ∈ s.toList, encodes c = false

theorem plain_of_all {s : String} (h : s.toList.all (fun c => !encodes c) = true) : Plain s := by
  intro c hc
  simpa using List.all_eq_true.mp h c hc

theorem Plain.append {a b : String} (ha : Plain a) (hb : Plain b) : Plain (a ++ b) := by
  intro c hc
  rw [String.toList_append, List.mem_append] at hc
  exact hc.elim (ha c) (hb c)

theorem plain_padded (width n : ℕ) : Plain (padded width n) := by
  intro c hc
  unfold padded at hc
  rw [String.toList_ofList, List.mem_append] at hc
  rcases hc with hzero | hdigit
  · rw [(List.mem_replicate.mp hzero).2]
    decide
  · have hs : (toString n).toList = Nat.toDigits 10 n := Nat.toList_repr
    rw [hs] at hdigit
    exact encodes_of_isDigit (Nat.isDigit_of_mem_toDigits (by decide) (by decide) hdigit)

theorem plain_toString (n : Int) : Plain (toString n) := by
  have hnat : ∀ m : ℕ, Plain (toString m) := by
    intro m c hc
    rw [Nat.toString_eq_ofList_toDigits, String.toList_ofList] at hc
    exact encodes_of_isDigit (Nat.isDigit_of_mem_toDigits (by decide) (by decide) hc)
  cases n with
  | ofNat m => exact hnat m
  | negSucc m =>
    have hminus : Plain "-" := plain_of_all (by decide)
    exact hminus.append (hnat (m + 1))

theorem plain_datePart (t : DateTime) : Plain t.datePart := by
  have hsign : Plain (if 9999 < t.year then "+" else "") := by
    split
    · exact plain_of_all (by decide)
    · exact plain_of_all (by decide)
  have hdash : Plain "-" := plain_of_all (by decide)
  exact ((((hsign.append (plain_padded _ _)).append hdash).append (plain_padded _ _)).append
    hdash).append (plain_padded _ _)

theorem plain_timePart (t : DateTime) : Plain t.timePart :=
  ((plain_padded _ _).append (plain_padded _ _)).append (plain_padded _ _)

/-- A text that is one segment, which a key keeps as it is. -/
def IsSegment (s : String) : Prop := segments s.toList = [s.toList]

theorem Plain.isSegment {s : String} (h : Plain s) {c : Char} (hc : c ∈ s.toList)
    (hdot : c ≠ '.') : IsSegment s := by
  have hslash : '/' ∉ s.toList := fun hmem => absurd (h '/' hmem) (by decide)
  have hne : s.toList ≠ [] := List.ne_nil_of_mem hc
  unfold IsSegment
  rw [segments_of_notMem hslash hne, encodeSegment_of_plain h]
  · intro heq
    rw [heq, List.mem_singleton] at hc
    exact hdot hc
  · intro heq
    rw [heq] at hc
    simp [hdot] at hc

theorem isSegment_datePart (t : DateTime) : IsSegment t.datePart := by
  have hdash : '-' ∈ t.datePart.toList := by
    unfold DateTime.datePart
    simp [String.toList_append]
  exact (plain_datePart t).isSegment hdash (by decide)

/-- The key of a file or directory in a directory. -/
def Path.child (dir : Path) (name : String) : Path := if dir = "" then name else dir ++ "/" ++ name

theorem IsSegment.ne_empty {s : String} (h : IsSegment s) : s ≠ "" := by
  rintro rfl
  have hnil : segments "".toList = [] := by decide
  unfold IsSegment at h
  rw [hnil] at h
  cases h

theorem Path.child_child (dir : Path) {day : String} (hday : IsSegment day) (name : String) :
    (dir.child day).child name = dir.child (day ++ "/" ++ name) := by
  unfold Path.child
  by_cases hdir : dir = ""
  · rw [if_pos hdir, if_pos hdir, if_neg hday.ne_empty]
  · have hne : dir ++ "/" ++ day ≠ "" := by
      intro heq
      have hlist := congrArg String.toList heq
      simp [String.toList_append] at hlist
    rw [if_neg hdir, if_neg hdir, if_neg hne]
    simp only [String.append_assoc]

theorem ofText_eq_empty {a : String} : Path.ofText a = "" ↔ segments a.toList = [] := by
  constructor
  · intro h
    have hempty : Path.ofText "" = "" := by decide
    exact (segments_inj (h.trans hempty.symm)).trans (by decide)
  · intro h
    rw [ofText_eq, h]
    rfl

theorem ofText_append_segment (a : String) {name : String} (h : IsSegment name) :
    Path.ofText (a ++ "/" ++ name) = (Path.ofText a).child name := by
  have htext : (a ++ "/" ++ name).toList = a.toList ++ '/' :: name.toList := by simp
  have hname : segments name.toList = [name.toList] := h
  unfold Path.child
  split
  · rename_i hempty
    rw [ofText_eq, htext, segments_append, ofText_eq_empty.mp hempty, hname, List.nil_append]
    exact String.ofList_toList
  · rename_i hne
    have hsegs : segments a.toList ≠ [] := fun h => hne (ofText_eq_empty.mpr h)
    rw [ofText_eq, ofText_eq, htext, segments_append, hname, joinSlash_append_singleton hsegs]
    apply String.toList_injective
    simp

/-- A file in the directory of a day. -/
def datedFile (pfx day name : String) : String := pfx ++ "/" ++ day ++ "/" ++ name

theorem ofText_datedFile (pfx : String) {day name : String} (hday : IsSegment day)
    (hname : IsSegment name) :
    Path.ofText (datedFile pfx day name) = (Path.ofText pfx).child (day ++ "/" ++ name) := by
  unfold datedFile
  rw [ofText_append_segment _ hname, ofText_append_segment _ hday, Path.child_child _ hday]

/-- Files below one prefix have the same key only when they are of the same day. -/
theorem day_of_ofText_datedFile {pfx day day' name name' : String} (hday : IsSegment day)
    (hday' : IsSegment day') (hname : IsSegment name) (hname' : IsSegment name')
    (h : Path.ofText (datedFile pfx day name) = Path.ofText (datedFile pfx day' name')) :
    day = day' := by
  have hsegments : ∀ day name : String, IsSegment day → IsSegment name →
      segments (datedFile pfx day name).toList =
        segments pfx.toList ++ [day.toList, name.toList] := by
    intro day name hday hname
    have htext : (datedFile pfx day name).toList =
        pfx.toList ++ '/' :: (day.toList ++ '/' :: name.toList) := by
      unfold datedFile
      simp
    rw [htext, segments_append, segments_append, hday, hname]
    rfl
  have hsame := segments_inj h
  rw [hsegments _ _ hday hname, hsegments _ _ hday' hname', List.append_cancel_left_eq] at hsame
  exact String.toList_injective (List.cons.inj hsame).1

theorem IsSegment.slash_notMem {s : String} (h : IsSegment s) : '/' ∉ s.toList := by
  have hmem : s.toList ∈ segments s.toList := by
    have hsegments : segments s.toList = [s.toList] := h
    rw [hsegments]
    exact List.mem_singleton_self _
  exact (slash_notMem_segments hmem).1

theorem fileName_datedFile (pfx day : String) {name : String} (hname : IsSegment name) :
    fileName (datedFile pfx day name) = name.toList := by
  have htext : (datedFile pfx day name).toList =
      (pfx ++ "/" ++ day).toList ++ '/' :: name.toList := by
    simp [datedFile, String.toList_append]
  unfold fileName
  rw [htext]
  exact afterLast_append_cons _ hname.slash_notMem

/-- The key of a file in the directory of a day ends in the name of the file. -/
theorem fileName_ofText_datedFile (pfx day : String) {name : String} (hname : IsSegment name) :
    fileName (Path.ofText (datedFile pfx day name)) = name.toList := by
  have hne : name.toList ≠ [] := fun hnil => hname.ne_empty (String.toList_injective hnil)
  have hfile := fileName_datedFile pfx day hname
  have hsegment : encodeSegment name.toList = name.toList := by
    have hsegments := segments_of_notMem hname.slash_notMem hne
    have hsame : segments name.toList = [name.toList] := hname
    rw [hsame] at hsegments
    exact (List.cons.inj hsegments).1.symm
  rw [fileName_ofText _ (by rw [hfile]; exact hne), hfile, hsegment]

/-- The file lies below the prefix, -/
theorem isUnder_datedFile (pfx : String) {day name : String} (hday : IsSegment day)
    (hname : IsSegment name) :
    (Path.ofText (datedFile pfx day name)).isUnder (Path.ofText pfx) = true := by
  rw [ofText_datedFile pfx hday hname]
  unfold Path.child
  split
  · rename_i hempty
    rw [hempty]
    rfl
  · exact isUnder_child _ _

/-- and not in another directory there. -/
theorem not_isUnder_datedFile (pfx : String) {day name dir : String} (hday : IsSegment day)
    (hname : IsSegment name) (hdir : IsSegment dir) (hne : dir ≠ day) :
    (Path.ofText (datedFile pfx day name)).isUnder (Path.ofText (pfx ++ "/" ++ dir)) = false := by
  have hparts : ¬ dir.toList ++ ['/'] <+: (day ++ "/" ++ name).toList := by
    rintro ⟨rest, hrest⟩
    have hsame : dir.toList ++ '/' :: rest = day.toList ++ '/' :: name.toList := by
      simpa [String.toList_append] using hrest
    have hfirst : ∀ {a : List Char} (b : List Char), '/' ∉ a →
        (a ++ '/' :: b).takeWhile (· ≠ '/') = a := by
      intro a b ha
      have hall : ∀ c ∈ a, decide (c ≠ '/') = true :=
        fun c hc => decide_eq_true fun heq => ha (heq ▸ hc)
      rw [List.takeWhile_append_of_pos hall, List.takeWhile_cons_of_neg (by simp), List.append_nil]
    have hword := congrArg (List.takeWhile (· ≠ '/')) hsame
    rw [hfirst _ hdir.slash_notMem, hfirst _ hday.slash_notMem] at hword
    exact hne (String.toList_injective hword)
  rw [ofText_datedFile pfx hday hname, ofText_append_segment pfx hdir]
  unfold Path.isUnder Path.child
  split
  · rw [Bool.or_eq_false_iff]
    refine ⟨by simpa using hdir.ne_empty, ?_⟩
    rw [Bool.eq_false_iff, ne_eq, List.isPrefixOf_iff_prefix]
    exact hparts
  · rw [Bool.or_eq_false_iff]
    constructor
    · have hslash : '/' ∈ (Path.ofText pfx ++ "/" ++ dir).toList := by simp
      rw [decide_eq_false_iff_not]
      intro hempty
      rw [hempty] at hslash
      exact absurd hslash (by decide)
    · rw [Bool.eq_false_iff, ne_eq, List.isPrefixOf_iff_prefix]
      intro hbegins
      apply hparts
      have hcut : (Path.ofText pfx ++ "/").toList ++ (dir.toList ++ ['/']) <+:
          (Path.ofText pfx ++ "/").toList ++ (day ++ "/" ++ name).toList := by
        simpa [String.toList_append] using hbegins
      exact (List.prefix_append_right_inj _).mp hcut

end RustLake.ObjectStore
