import RustLake.Sql.SparkCuts
import RustLake.Text.Rewriting

/-! The functions of Spark that are renamed in a text: whole identifiers outside quotes, all at
once. The map of functions does the same exactly where it cuts out nothing else. -/
namespace RustLake.Sql
open RustLake.Rewriting

/-- The rule of an entry of the map, unless it has the function under its own name. -/
def renamingOf (entry : String × String × String) : Option (Rule Char) :=
  if entry.1 = entry.2.1 then none else some ⟨entry.1.toList, entry.2.1.toList⟩

def renamings : List (Rule Char) := functionMap.filterMap renamingOf

/-- The name of a function that a text begins with, up to the parentheses that the map has. -/
def nameAt (t : List Char) : Option (Name Char.toUpper) :=
  renamings.findSome? fun rule =>
    if h : (t.take rule.key.length).map Char.toUpper = rule.key then
      some ⟨rule, t.take rule.key.length, h⟩
    else none

section
variable (unicode : Unicode)

def isIdentifier (c : Char) : Bool := unicode.isAlphanumeric c || c = '_'

/-- The names in a text behind the gap so far: within quotes there is none, nor behind a letter of
an identifier. What belongs to a name that has been found is skipped. -/
def markedFrom : Option Char → Bool → ℕ → List Char → List Char → Marked Char.toUpper
  | _, _, _, gap, [] => .rest gap
  | quote, inIdentifier, skip + 1, gap, _ :: rest => markedFrom quote inIdentifier skip gap rest
  | some q, _, 0, gap, c :: rest =>
    markedFrom (if c = q then none else some q) false 0 (gap ++ [c]) rest
  | none, inIdentifier, 0, gap, c :: rest =>
    if c = '\'' ∨ c = '"' then markedFrom (some c) false 0 (gap ++ [c]) rest
    else
      match if inIdentifier then none else nameAt (c :: rest) with
      | some n => .name gap n (markedFrom none false (n.span.length - 1) [] rest)
      | none => markedFrom none (isIdentifier unicode c) 0 (gap ++ [c]) rest

def marked (sql : List Char) : Marked Char.toUpper := markedFrom unicode none false 0 [] sql

/-- The part of the translation that renames functions. -/
def translateFunctions (sql : List Char) : Option (List Char) :=
  (functionMap.foldlM (translateFunction unicode) (sql, [])).map Prod.fst

/-- It renames each function that stands as a whole identifier outside quotes, all at once. -/
def FunctionsRenamed (sql : List Char) : Prop :=
  translateFunctions unicode sql = some (marked unicode sql).renamed

/-- The upper-cased copy of a text does not have the function. -/
def NoneLeft (key t : List Char) : Prop :=
  find (unicode.upper.text key) (unicode.upper.text t) = none

/-- The copy has the function first where the text before the span ends. -/
def CutsOut (key before span rest : List Char) : Prop :=
  find (unicode.upper.text key) (unicode.upper.text (before ++ (span ++ rest))) =
    some (byteLength before) ∧ byteLength span = byteLength key

variable {unicode} {rule : Rule Char} {t out : List Char}

theorem rewrites_of_replaceFunction {rounds : ℕ} (hkey : rule.key ≠ [])
    (hupper : unicode.upper.text rule.key ≠ []) (hrounds : t.length ≤ rounds)
    (h : replaceFunction unicode rule.key rule.new rounds t = some out) :
    Rewrites (NoneLeft unicode) (CutsOut unicode) rule t out := by
  induction rounds generalizing t out with
  | zero =>
    obtain rfl : t = [] := List.length_eq_zero_iff.mp (Nat.le_zero.mp hrounds)
    cases h
    refine .done ?_
    have hnone : find (unicode.upper.text rule.key) [] = none := if_neg hupper
    exact hnone
  | succ rounds ih =>
    rw [replaceFunction] at h
    cases hfind : find (unicode.upper.text rule.key) (unicode.upper.text t) with
    | none =>
      rw [hfind] at h
      cases h
      exact .done hfind
    | some pos =>
      rw [hfind] at h
      obtain ⟨⟨before, behind⟩, hbefore, h⟩ := Option.bind_eq_some_iff.mp h
      obtain ⟨⟨front, rest⟩, hfront, h⟩ := Option.bind_eq_some_iff.mp h
      obtain ⟨replaced, hreplaced, h⟩ := Option.bind_eq_some_iff.mp h
      cases h
      obtain ⟨htext, hlength⟩ := splitAtByte?_eq_some_iff.mp hbefore
      obtain ⟨htext', hlength'⟩ := splitAtByte?_eq_some_iff.mp hfront
      have hpos := byteLength_pos hkey
      obtain ⟨span, rfl⟩ : ∃ span, front = before ++ span := by
        rcases List.append_eq_append_iff.mp (htext.symm.trans htext') with ⟨span, hspan, -⟩ |
          ⟨beyond, hbeyond, -⟩
        · exact ⟨span, hspan⟩
        · rw [hbeyond, byteLength_append] at hlength
          omega
      have hwidth : byteLength span = byteLength rule.key := by
        rw [byteLength_append] at hlength'
        omega
      have hshorter := length_lt_of_splitAtByte? (by omega) hfront
      have hrest := ih (t := rest) (by omega) hreplaced
      rw [List.append_assoc] at htext'
      rw [htext'] at hfind ⊢
      rw [← hlength] at hfind
      rw [List.append_assoc]
      exact .cut ⟨hfind, hwidth⟩ hrest

theorem replaceFunction_of_rewrites {rounds : ℕ} (hkey : rule.key ≠ []) (hrounds : t.length ≤ rounds)
    (h : Rewrites (NoneLeft unicode) (CutsOut unicode) rule t out) :
    replaceFunction unicode rule.key rule.new rounds t = some out := by
  induction h generalizing rounds with
  | @done t hnone =>
    have hfind : find (unicode.upper.text rule.key) (unicode.upper.text t) = none := hnone
    cases rounds with
    | zero => rfl
    | succ rounds => rw [replaceFunction, hfind]
  | @cut before span rest out hcut _ ih =>
    obtain ⟨hfind, hwidth⟩ := hcut
    have hspan : 0 < span.length := by
      have hpos := byteLength_pos hkey
      refine List.length_pos_iff.mpr fun hnil => ?_
      rw [hnil] at hwidth
      have hzero : byteLength ([] : List Char) = 0 := rfl
      omega
    simp only [List.length_append] at hrounds
    cases rounds with
    | zero => omega
    | succ rounds =>
      have hbefore : splitAtByte? (byteLength before) (before ++ (span ++ rest)) =
          some (before, span ++ rest) := splitAtByte?_append _ _
      have hfront : splitAtByte? (byteLength before + byteLength rule.key)
          (before ++ (span ++ rest)) = some (before ++ span, rest) := by
        rw [splitAtByte?_eq_some_iff, byteLength_append, hwidth]
        exact ⟨(List.append_assoc _ _ _).symm, rfl⟩
      rw [replaceFunction, hfind]
      dsimp only
      rw [hbefore, hfront, ← List.append_assoc]
      dsimp only [Option.bind_eq_bind, Option.bind_some]
      rw [ih (by omega)]
      rfl

theorem key_ne_nil {entry : String × String × String} (h : entry ∈ functionMap) :
    entry.1.toList ≠ [] :=
  (of_decide_eq_true (List.all_eq_true.mp ascii_functionMap entry h)).1

theorem functions_ascii {entry : String × String × String} (h : entry ∈ functionMap) :
    (entry.1.toList ++ entry.2.1.toList).all fun c => c.toNat < 128 :=
  (of_decide_eq_true (List.all_eq_true.mp ascii_functionMap entry h)).2

/-- The keys are in capitals. -/
theorem upper_key {entry : String × String × String} (h : entry ∈ functionMap) :
    unicode.upper.text entry.1.toList = entry.1.toList := by
  have hall : functionMap.all fun entry =>
      entry.1.toList.all fun c => c.toNat < 128 ∧ c.toUpper = c := by decide +kernel
  exact upper_capitals (List.all_eq_true.mp hall entry h)

theorem translateFunction_same {entry : String × String × String} (h : entry.1 = entry.2.1)
    (done : List Char × List String) : translateFunction unicode done entry = some done := by
  obtain ⟨sparkFn, dfFn, desc⟩ := entry
  unfold translateFunction
  dsimp only at h ⊢
  rw [if_pos h, ite_self]

/-- An entry that changes texts rewrites the text by its rule, whatever it notes. -/
theorem translateFunction_iff {entry : String × String × String} (hmem : entry ∈ functionMap)
    (hne : entry.1 ≠ entry.2.1) (notes : List String) :
    (∃ notes', translateFunction unicode (t, notes) entry = some (out, notes')) ↔
      Rewrites (NoneLeft unicode) (CutsOut unicode) ⟨entry.1.toList, entry.2.1.toList⟩ t out := by
  have hkey := key_ne_nil hmem
  have hupper : unicode.upper.text entry.1.toList ≠ [] := by
    rw [upper_key hmem]
    exact hkey
  have hrewrites : replaceFunction unicode entry.1.toList entry.2.1.toList t.length t = some out ↔
      Rewrites (NoneLeft unicode) (CutsOut unicode) ⟨entry.1.toList, entry.2.1.toList⟩ t out :=
    ⟨@rewrites_of_replaceFunction _ ⟨entry.1.toList, entry.2.1.toList⟩ _ _ _ hkey hupper (le_refl _),
      @replaceFunction_of_rewrites _ ⟨entry.1.toList, entry.2.1.toList⟩ _ _ _ hkey (le_refl _)⟩
  rw [← hrewrites]
  obtain ⟨sparkFn, dfFn, desc⟩ := entry
  unfold translateFunction
  dsimp only at hne hrewrites ⊢
  rw [if_neg hne]
  by_cases hcontains : unicode.upper.text sparkFn.toList <:+: unicode.upper.text t
  · rw [if_pos hcontains]
    constructor
    · rintro ⟨notes', h⟩
      obtain ⟨result, hresult, h⟩ := Option.bind_eq_some_iff.mp h
      cases h
      exact hresult
    · intro h
      exact ⟨_, Option.bind_eq_some_iff.mpr ⟨out, h, rfl⟩⟩
  · have hnone : find (unicode.upper.text sparkFn.toList) (unicode.upper.text t) = none :=
      find_eq_none_iff.mpr hcontains
    have hsame : replaceFunction unicode sparkFn.toList dfFn.toList t.length t = some t := by
      cases t with
      | nil => rfl
      | cons c t => rw [List.length_cons, replaceFunction, hnone]
    rw [if_neg hcontains, hsame, Option.some.injEq]
    constructor
    · rintro ⟨notes', h⟩
      exact congrArg Prod.fst (Option.some.inj h)
    · rintro rfl
      exact ⟨notes, rfl⟩

theorem translateFunctions_iff (sql : List Char) :
    translateFunctions unicode sql = some out ↔
      RewritesAll (NoneLeft unicode) (CutsOut unicode) renamings sql out := by
  have hall : ∀ entries : List (String × String × String), (∀ entry ∈ entries, entry ∈ functionMap) →
      ∀ t notes, (entries.foldlM (translateFunction unicode) (t, notes)).map Prod.fst = some out ↔
        RewritesAll (NoneLeft unicode) (CutsOut unicode) (entries.filterMap renamingOf) t out := by
    intro entries hentries
    induction entries with
    | nil =>
      intro t notes
      constructor
      · intro h
        cases h
        exact .nil
      · intro h
        cases h
        rfl
    | cons entry entries ih =>
      intro t notes
      obtain ⟨hmem, hrest⟩ := List.forall_mem_cons.mp hentries
      rw [List.foldlM_cons]
      by_cases hsame : entry.1 = entry.2.1
      · have hnone : renamingOf entry = none := if_pos hsame
        rw [translateFunction_same hsame, List.filterMap_cons_none hnone]
        exact ih hrest t notes
      · have hsome : renamingOf entry = some ⟨entry.1.toList, entry.2.1.toList⟩ := if_neg hsame
        rw [List.filterMap_cons_some hsome]
        constructor
        · intro h
          obtain ⟨⟨result, notes'⟩, hfold, hresult⟩ := Option.map_eq_some_iff.mp h
          obtain ⟨⟨t', notes''⟩, hstep, hfold⟩ := Option.bind_eq_some_iff.mp hfold
          refine .cons ((translateFunction_iff hmem hsame notes).mp ⟨_, hstep⟩) ?_
          exact (ih hrest t' notes'').mp (Option.map_eq_some_iff.mpr ⟨_, hfold, hresult⟩)
        · intro h
          cases h with
          | cons hfirst hothers =>
            obtain ⟨notes', hstep⟩ := (translateFunction_iff hmem hsame notes).mpr hfirst
            rw [hstep]
            exact (ih hrest _ notes').mpr hothers
  exact hall functionMap (fun _ h => h) sql []

theorem nameAt_cases {n : Name Char.toUpper} (h : nameAt t = some n) :
    n.rule ∈ renamings ∧ n.span <+: t := by
  obtain ⟨rule, hmem, hrule⟩ := List.exists_of_findSome?_eq_some h
  split_ifs at hrule with hspelled
  cases hrule
  exact ⟨hmem, List.take_prefix _ _⟩

theorem mem_renamings {rule : Rule Char} (h : rule ∈ renamings) :
    ∃ entry ∈ functionMap, rule = ⟨entry.1.toList, entry.2.1.toList⟩ := by
  obtain ⟨entry, hentry, hrule⟩ := List.mem_filterMap.mp h
  unfold renamingOf at hrule
  split_ifs at hrule with hsame
  exact ⟨entry, hentry, (Option.some.inj hrule).symm⟩

theorem span_ne_nil {n : Name Char.toUpper} (h : n.rule ∈ renamings) : n.span ≠ [] := by
  obtain ⟨entry, hentry, hrule⟩ := mem_renamings h
  intro hnil
  have hspelled := n.spelled
  rw [hnil, hrule] at hspelled
  exact key_ne_nil hentry hspelled.symm

/-- Nothing of the text is lost in the marked text. -/
theorem text_markedFrom (quote : Option Char) (inIdentifier : Bool) (skip : ℕ) (gap t : List Char) :
    (markedFrom unicode quote inIdentifier skip gap t).text = gap ++ t.drop skip := by
  induction t generalizing quote inIdentifier skip gap with
  | nil => cases quote <;> cases skip <;> simp [markedFrom, Marked.text]
  | cons c rest ih =>
    cases skip with
    | succ skip => cases quote <;> exact ih _ _ _ _
    | zero =>
      have hgap : (gap ++ [c]) ++ rest.drop 0 = gap ++ (c :: rest).drop 0 := by simp
      cases quote with
      | some q =>
        rw [markedFrom, ih]
        exact hgap
      | none =>
        rw [markedFrom]
        by_cases hquote : c = '\'' ∨ c = '"'
        · rw [if_pos hquote, ih]
          exact hgap
        · rw [if_neg hquote]
          cases hname : if inIdentifier then none else nameAt (c :: rest) with
          | none =>
            dsimp only
            rw [ih]
            exact hgap
          | some n =>
            have hfound : nameAt (c :: rest) = some n := by
              split_ifs at hname
              exact hname
            obtain ⟨hmem, behind, hbehind⟩ := nameAt_cases hfound
            obtain ⟨d, span, hspan⟩ := List.exists_cons_of_ne_nil (span_ne_nil hmem)
            rw [hspan] at hbehind
            obtain ⟨rfl, hrest⟩ := List.cons.inj hbehind
            dsimp only
            rw [Marked.text, ih, hspan, ← hrest]
            simp

theorem toNat_lt_of_toUpper {c d : Char} (hd : d.toNat < 128) (h : c.toUpper = d) :
    c.toNat < 128 := by
  unfold Char.toUpper at h
  split at h
  · rename_i hlower
    have hbound : c.val.toNat ≤ 122 := UInt32.le_iff_toNat_le.mp hlower.2
    have hval : c.toNat = c.val.toNat := rfl
    omega
  · rw [h]
    exact hd

theorem toUpper_eq_underscore {c : Char} (h : c.toUpper = '_') : c = '_' := by
  have hascii : c.toNat < 128 := toNat_lt_of_toUpper (by decide) h
  have hall : ∀ n : Fin 128, (Char.ofNat n).toUpper = '_' → Char.ofNat n = '_' := by
    decide +kernel
  have hchar := hall ⟨c.toNat, hascii⟩
  rw [Char.ofNat_toNat] at hchar
  exact hchar h

/-- A name is found behind a quote, behind what is no letter of an identifier, or behind another
name. -/
theorem fits_markedFrom {quote : Option Char} {inIdentifier : Bool} {skip : ℕ} {gap t : List Char}
    (hquote : ∀ q, quote = some q → q = '\'' ∨ q = '"')
    (hgap : quote = none → inIdentifier = false → gap.getLast?.map Char.toUpper ≠ some '_') :
    (markedFrom unicode quote inIdentifier skip gap t).Fits '_' renamings := by
  induction t generalizing quote inIdentifier skip gap with
  | nil => cases quote <;> cases skip <;> exact trivial
  | cons c rest ih =>
    have hlast : (gap ++ [c]).getLast? = some c := List.getLast?_concat
    have hplain : c ≠ '_' → (gap ++ [c]).getLast?.map Char.toUpper ≠ some '_' := by
      intro hne hbarrier
      rw [hlast] at hbarrier
      exact hne (toUpper_eq_underscore (Option.some.inj hbarrier))
    cases skip with
    | succ skip => cases quote <;> exact ih hquote hgap
    | zero =>
      cases quote with
      | some q =>
        rw [markedFrom]
        refine ih ?_ ?_
        · intro q' hq'
          split_ifs at hq' with hclosed
          exact hquote q' hq'
        · intro hopen _
          split_ifs at hopen with hclosed
          refine hplain ?_
          rw [hclosed]
          rcases hquote q rfl with rfl | rfl <;> decide
      | none =>
        rw [markedFrom]
        by_cases hc : c = '\'' ∨ c = '"'
        · rw [if_pos hc]
          refine ih ?_ fun h => by cases h
          rintro q hq
          cases hq
          exact hc
        · rw [if_neg hc]
          cases hname : if inIdentifier then none else nameAt (c :: rest) with
          | none =>
            refine ih (fun q hq => by cases hq) fun _ hidentifier => hplain ?_
            rintro rfl
            simp [isIdentifier] at hidentifier
          | some n =>
            have hfound : inIdentifier = false ∧ nameAt (c :: rest) = some n := by
              split_ifs at hname with hin
              exact ⟨Bool.eq_false_iff.mpr hin, hname⟩
            refine ⟨⟨(nameAt_cases hfound.2).1, hgap rfl hfound.1⟩, ih (fun q hq => by cases hq) ?_⟩
            intro _ _ hnil
            cases hnil

theorem fits_marked (sql : List Char) : (marked unicode sql).Fits '_' renamings :=
  fits_markedFrom (fun q hq => by cases hq) fun _ _ hnil => by cases hnil

theorem marked_text (sql : List Char) : (marked unicode sql).text = sql :=
  text_markedFrom none false 0 [] sql

theorem renaming_ascii {rule : Rule Char} (h : rule ∈ renamings) :
    (∀ c ∈ rule.key, c.toNat < 128) ∧ ∀ c ∈ rule.new, c.toNat < 128 := by
  obtain ⟨entry, hentry, rfl⟩ := mem_renamings h
  have hascii := functions_ascii hentry
  rw [List.all_append, Bool.and_eq_true] at hascii
  exact ⟨fun c hc => of_decide_eq_true (List.all_eq_true.mp hascii.1 c hc),
    fun c hc => of_decide_eq_true (List.all_eq_true.mp hascii.2 c hc)⟩

theorem upper_renaming {rule : Rule Char} (h : rule ∈ renamings) :
    unicode.upper.text rule.key = rule.key := by
  obtain ⟨entry, hentry, rfl⟩ := mem_renamings h
  exact upper_key hentry

theorem keepsSizes_of_ascii (h : ∀ c ∈ t, c.toNat < 128) : KeepsSizes unicode t :=
  keepsSizes_ascii (List.all_eq_true.mpr fun c hc => decide_eq_true (h c hc))

theorem toNat_lt_of_utf8Size {c : Char} (h : c.utf8Size = 1) : c.toNat < 128 := by
  have hle := UInt32.le_iff_toNat_le.mp (Char.utf8Size_eq_one_iff.mp h)
  have hval : c.toNat = c.val.toNat := rfl
  have hbound : (0x7f : UInt32).toNat = 127 := rfl
  omega

theorem utf8Size_of_ascii {c : Char} (h : c.toNat < 128) : c.utf8Size = 1 :=
  Char.utf8Size_eq_one_iff.mpr (UInt32.le_iff_toNat_le.mpr (Nat.le_of_lt_succ h))

/-- What has an ASCII word as its copy spells that word in ASCII. -/
theorem KeepsSizes.map_toUpper {span word : List Char} (h : KeepsSizes unicode span)
    (hupper : unicode.upper.text span = word) (hword : ∀ c ∈ word, c.toNat < 128) :
    span.map Char.toUpper = word := by
  induction span generalizing word with
  | nil => exact hupper
  | cons c span ih =>
    obtain ⟨⟨d, hd, hsize⟩, hspan⟩ := List.forall_mem_cons.mp h
    rw [upper_cons hd] at hupper
    subst hupper
    obtain ⟨hdascii, hrest⟩ := List.forall_mem_cons.mp hword
    have hascii : c.toNat < 128 :=
      toNat_lt_of_utf8Size (hsize.symm.trans (utf8Size_of_ascii hdascii))
    rw [unicode.upper.ascii c hascii] at hd
    rw [List.map_cons, ih hspan rfl hrest, List.singleton_inj.mp hd]

theorem upper_of_spelled {span : List Char} {rule : Rule Char} (h : rule ∈ renamings)
    (hspan : span.map Char.toUpper = rule.key) : unicode.upper.text span = rule.key := by
  refine (unicode.upper.text_ascii fun c hc => ?_).trans hspan
  refine toNat_lt_of_toUpper ((renaming_ascii h).1 c.toUpper ?_) rfl
  rw [← hspan]
  exact List.mem_map_of_mem hc

/-- Of two beginnings of a text, the one with less bytes has less characters. -/
theorem length_le_of_byteLength {a b x y : List Char} (h : a ++ b = x ++ y)
    (hle : byteLength a ≤ byteLength x) : a.length ≤ x.length := by
  rcases List.append_eq_append_iff.mp h with ⟨d, rfl, -⟩ | ⟨d, rfl, -⟩
  · rw [List.length_append]
    omega
  · rw [byteLength_append] at hle
    have hnil : d = [] := eq_nil_of_byteLength (by omega)
    rw [hnil, List.append_nil]

/-- On texts that keep their sizes, the functions are found where they stand. -/
theorem exact_keepsSizes : Exact (NoneLeft unicode) (CutsOut unicode) Char.toUpper
    (KeepsSizes unicode) renamings where
  append := ⟨KeepsSizes.of_append, fun h => h.1.append h.2⟩
  new := fun rule hrule => keepsSizes_of_ascii (renaming_ascii hrule).2
  cut := by
    intro rule hrule before span rest hsizes hcut
    obtain ⟨hfind, hwidth⟩ := hcut
    have hkey := (renaming_ascii hrule).1
    have hupper : unicode.upper.text rule.key = rule.key := upper_renaming hrule
    constructor
    · obtain ⟨before', span', rest', htext, hlength, hwidth', hsame⟩ :=
        (keepsSizes_of_ascii hkey).exists_word hsizes hfind
      obtain ⟨rfl, hbehind⟩ := append_inj_byteLength htext hlength.symm
      obtain ⟨rfl, -⟩ := append_inj_byteLength hbehind (hwidth.trans hwidth'.symm)
      exact hsizes.of_append.2.of_append.1.map_toUpper (hsame.trans hupper) hkey
    · intro before' span' rest' htext hspelled
      have hcopy : unicode.upper.text (before ++ (span ++ rest)) =
          unicode.upper.text before' ++ (unicode.upper.text rule.key ++ unicode.upper.text rest') := by
        rw [htext, Uppercase.text_append, Uppercase.text_append, upper_of_spelled hrule hspelled,
          hupper]
      have hle := find_le hfind hcopy
      rw [htext] at hsizes
      rw [hsizes.of_append.1.byteLength_upper] at hle
      exact length_le_of_byteLength htext hle
  done := by
    intro rule hrule t hsizes hnone before span rest htext hspelled
    have hupper : unicode.upper.text rule.key = rule.key := upper_renaming hrule
    refine find_eq_none_iff.mp hnone ⟨unicode.upper.text before, unicode.upper.text rest, ?_⟩
    rw [htext, Uppercase.text_append, Uppercase.text_append, upper_of_spelled hrule hspelled, hupper,
      List.append_assoc]

/-- Weights of the letters and the underscore, by which each renaming makes a text heavier. -/
def letterWeights : List ℤ :=
  [4, 5, 5, -5, -5, 1, 7, -4, 2, 0, 0, -7, 2, -8, -1, 1,
   0, -1, 3, -2, -3, -2, 4, -6, 11, -10, 0, 0, 0, 0, -2]

def letterWeight (c : Char) : ℤ :=
  if c = '(' ∨ c = ')' then -1
  else if c.toNat < 65 then 0
  else letterWeights.getD (c.toNat - 65) 0

theorem separate_renamings : Separate letterWeight Char.toUpper '_' renamings where
  nonempty := fun rule hrule hnil => by
    obtain ⟨entry, hentry, rfl⟩ := mem_renamings hrule
    exact key_ne_nil hentry hnil
  gains := by decide +kernel
  self := by decide +kernel
  ends := by
    intro rule hrule
    have hall : renamings.all fun rule => rule.new.getLast?.any fun c => c.toUpper ≠ '_' := by
      decide +kernel
    have hany := List.all_eq_true.mp hall rule hrule
    cases hlast : rule.new.getLast? with
    | none =>
      rw [hlast] at hany
      cases hany
    | some c =>
      rw [hlast] at hany
      exact ⟨c, rfl, of_decide_eq_true hany⟩
  before := by
    have hall : renamings.Pairwise fun rule later =>
        (∀ n < later.key.length, later.key.drop n <+: rule.key ∨ rule.key <+: later.key.drop n →
          later.key.drop n = rule.key ∧
            weigh letterWeight Char.toUpper later.new + keyWeight letterWeight rule.key <
              keyWeight letterWeight later.key + weigh letterWeight Char.toUpper rule.new) ∧
        ∀ n < rule.key.length, 0 < n →
          rule.key.drop n <+: later.key ∨ later.key <+: rule.key.drop n →
          rule.key.drop n = later.key ∧ (rule.key.take n).getLast? = some '_' := by
      decide +kernel
    exact hall.imp fun h => ⟨h.1, h.2⟩

variable (unicode) in
/-- Where each rule cuts out its own functions and nothing else, the translation renames all
functions at once; and on a text whose characters keep their sizes it does so only there. -/
theorem functionsRenamed_iff (sql : List Char) :
    (AllCutNames (NoneLeft unicode) (CutsOut unicode) renamings (marked unicode sql) →
      FunctionsRenamed unicode sql) ∧
    (KeepsSizes unicode sql → (FunctionsRenamed unicode sql ↔
      AllCutNames (NoneLeft unicode) (CutsOut unicode) renamings (marked unicode sql))) := by
  have hfits : (marked unicode sql).Fits '_' renamings := fits_marked sql
  have henough : AllCutNames (NoneLeft unicode) (CutsOut unicode) renamings (marked unicode sql) →
      FunctionsRenamed unicode sql := by
    intro hall
    have hrewrites := hall.rewritesAll (Marked.Forall.imp hfits fun _ _ hn => hn.1)
    rw [marked_text] at hrewrites
    exact (translateFunctions_iff sql).mpr hrewrites
  refine ⟨henough, fun hsizes => ⟨fun hrenamed => ?_, henough⟩⟩
  have hrewrites := (translateFunctions_iff sql).mp hrenamed
  exact hrewrites.allCutNames exact_keepsSizes separate_renamings hfits (marked_text sql) hsizes rfl

/-- The rule for `INT(` cuts a longer name. -/
theorem not_functionsRenamed_bigint :
    ¬ FunctionsRenamed Unicode.asciiOnly "BIGINT(x)".toList := by
  unfold FunctionsRenamed
  decide +kernel

end
end RustLake.Sql
