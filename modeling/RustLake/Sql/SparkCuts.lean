import RustLake.Rust.Slices
import RustLake.Sql.SparkCompat

/-! Where the translation of Spark SQL cuts a text: at the positions of words in its upper-cased
copy, which are those of the words in the text itself only while the copy keeps the lengths. -/
namespace RustLake.Sql

/-- A loop that replaces the occurrences of a word: where the next one is said to be, the text that
remains, and what remains behind the occurrence. A word of `width` bytes is cut out. -/
structure CutLoop (σ : Type) where
  position : σ → Option ℕ
  text : σ → List Char
  next : σ → ℕ → Option σ
  width : ℕ
  next_text : ∀ {s s' pos}, next s pos = some s' →
    ∃ before, text s = before ++ text s' ∧ byteLength before = pos + width
  next_of_cut : ∀ {s pos before span rest}, position s = some pos →
    text s = before ++ (span ++ rest) → byteLength before = pos → byteLength span = width →
    ∃ s', next s pos = some s' ∧ text s' = rest

namespace CutLoop
variable {σ : Type} (loop : CutLoop σ) (IsWord : List Char → Prop) (new : List Char)

def run : ℕ → σ → Option (List Char)
  | 0, s => some (loop.text s)
  | rounds + 1, s =>
    match loop.position s with
    | none => some (loop.text s)
    | some pos => do
      let (before, _) ← splitAtByte? pos (loop.text s)
      let s' ← loop.next s pos
      let replaced ← run rounds s'
      return before ++ new ++ replaced

/-- The states that the loop comes to. -/
inductive Comes : σ → σ → Prop
  | refl (s : σ) : Comes s s
  | step {s s' s'' : σ} {pos : ℕ} : loop.position s = some pos → loop.next s pos = some s' →
      Comes s' s'' → Comes s s''

/-- What stands in the text at the position is the word. -/
def CutsAt (s : σ) (pos : ℕ) : Prop :=
  ∃ before span rest, loop.text s = before ++ (span ++ rest) ∧ byteLength before = pos ∧
    byteLength span = loop.width ∧ IsWord span

/-- In each round the position is one of the word in the text. -/
def Aligned (s : σ) : Prop :=
  ∀ s', loop.Comes s s' → ∀ pos, loop.position s' = some pos → loop.CutsAt IsWord s' pos

/-- The loop comes to an end; each span that it cuts out is the word, and all other characters are
kept as they are. -/
inductive Keeps : σ → List Char → Prop
  | done {s : σ} : loop.position s = none → Keeps s (loop.text s)
  | cut {s s' : σ} {pos : ℕ} {before span out : List Char} : loop.position s = some pos →
      loop.next s pos = some s' → loop.text s = before ++ (span ++ loop.text s') →
      byteLength before = pos → IsWord span → Keeps s' out → Keeps s (before ++ new ++ out)

/-- Some words in a text have given way to another, and nothing else has changed. -/
inductive Replaced : List Char → List Char → Prop
  | rest (s : List Char) : Replaced s s
  | word {before span rest out : List Char} : IsWord span → Replaced rest out →
      Replaced (before ++ (span ++ rest)) (before ++ new ++ out)

variable {new}

theorem run_none {s : σ} (h : loop.position s = none) (rounds : ℕ) :
    loop.run new (rounds + 1) s = some (loop.text s) := by
  rw [run, h]

theorem run_some {s : σ} {pos : ℕ} (h : loop.position s = some pos) (rounds : ℕ) :
    loop.run new (rounds + 1) s = (splitAtByte? pos (loop.text s)).bind fun parts =>
      (loop.next s pos).bind fun s' =>
        (loop.run new rounds s').bind fun replaced => some (parts.1 ++ new ++ replaced) := by
  rw [run, h]
  rfl

variable {loop IsWord} {s : σ} {out : List Char}

theorem Keeps.replaced (h : loop.Keeps IsWord new s out) :
    Replaced IsWord new (loop.text s) out := by
  induction h with
  | done => exact .rest _
  | cut _ _ htext _ hword _ ih =>
    rw [htext]
    exact .word hword ih

theorem Keeps.exists_end (h : loop.Keeps IsWord new s out) : ∃ s', loop.position s' = none := by
  induction h with
  | done hnone => exact ⟨_, hnone⟩
  | cut _ _ _ _ _ _ ih => exact ih

theorem Keeps.aligned (h : loop.Keeps IsWord new s out) : loop.Aligned IsWord s := by
  induction h with
  | done hnone =>
    intro s' hcomes pos hpos
    cases hcomes with
    | refl =>
      rw [hnone] at hpos
      cases hpos
    | step hpos' =>
      rw [hnone] at hpos'
      cases hpos'
  | @cut s s' pos before span out hpos hnext htext hbefore hword _ ih =>
    intro s'' hcomes pos' hpos'
    cases hcomes with
    | refl =>
      obtain rfl := Option.some.inj (hpos.symm.trans hpos')
      obtain ⟨front, hfront, hlength⟩ := loop.next_text hnext
      have hsame : before ++ span = front := by
        rw [htext, ← List.append_assoc] at hfront
        exact List.append_cancel_right hfront
      rw [← hsame, byteLength_append, hbefore] at hlength
      exact ⟨before, span, _, htext, hbefore, by omega, hword⟩
    | step hpos'' hnext' hcomes =>
      obtain rfl := Option.some.inj (hpos.symm.trans hpos'')
      obtain rfl := Option.some.inj (hnext.symm.trans hnext')
      exact ih _ hcomes _ hpos'

theorem Aligned.next (h : loop.Aligned IsWord s) {pos : ℕ} {s' : σ}
    (hpos : loop.position s = some pos) (hnext : loop.next s pos = some s') :
    loop.Aligned IsWord s' := fun _ hcomes => h _ (.step hpos hnext hcomes)

section Measure
variable {measure : σ → ℕ}
variable (hmeasure : ∀ {s s' pos}, loop.position s = some pos → loop.next s pos = some s' →
  measure s' < measure s)
include hmeasure

/-- As many rounds as the measure says are enough. -/
theorem Keeps.run_eq (h : loop.Keeps IsWord new s out) {rounds : ℕ} (hrounds : measure s ≤ rounds) :
    loop.run new rounds s = some out := by
  induction h generalizing rounds with
  | done hnone =>
    cases rounds with
    | zero => rfl
    | succ rounds => exact run_none _ hnone rounds
  | @cut s s' pos before span out hpos hnext htext hbefore _ _ ih =>
    have hless := hmeasure hpos hnext
    cases rounds with
    | zero => omega
    | succ rounds =>
      have hsplit : splitAtByte? pos (loop.text s) = some (before, span ++ loop.text s') :=
        splitAtByte?_eq_some_iff.mpr ⟨htext, hbefore⟩
      rw [run_some _ hpos, hsplit, hnext]
      simp only [Option.bind_some]
      rw [ih (by omega), Option.bind_some]

theorem Aligned.exists_keeps (h : loop.Aligned IsWord s) : ∃ out, loop.Keeps IsWord new s out := by
  induction hn : measure s using Nat.strong_induction_on generalizing s with
  | _ n ih =>
    cases hpos : loop.position s with
    | none => exact ⟨_, .done hpos⟩
    | some pos =>
      obtain ⟨before, span, rest, htext, hbefore, hspan, hword⟩ := h s (.refl s) pos hpos
      obtain ⟨s', hnext, rfl⟩ := loop.next_of_cut hpos htext hbefore hspan
      obtain ⟨out, hout⟩ := ih (measure s') (hn ▸ hmeasure hpos hnext) (h.next hpos hnext) rfl
      exact ⟨_, .cut hpos hnext htext hbefore hword hout⟩

/-- The loop does its work exactly if it finds the word where it cuts. -/
theorem keeps_iff_aligned : (∃ out, loop.run new (measure s) s = some out ∧
    loop.Keeps IsWord new s out) ↔ loop.Aligned IsWord s := by
  constructor
  · rintro ⟨out, -, h⟩
    exact h.aligned
  · intro h
    obtain ⟨out, hout⟩ : ∃ out, loop.Keeps IsWord new s out := Aligned.exists_keeps hmeasure h
    exact ⟨out, hout.run_eq hmeasure (le_refl _), hout⟩

end Measure
end CutLoop

section
variable (unicode : Unicode)

/-- The text is a word, but for the case of its letters. -/
def SameWord (word span : List Char) : Prop := unicode.upper.text span = unicode.upper.text word

/-- The loop over the occurrences of a function, whose upper-cased copy is made again in each round. -/
def functionLoop (sparkFn : List Char) : CutLoop (List Char) where
  position remaining := find (unicode.upper.text sparkFn) (unicode.upper.text remaining)
  text remaining := remaining
  next remaining pos := (splitAtByte? (pos + byteLength sparkFn) remaining).map Prod.snd
  width := byteLength sparkFn
  next_text := by
    intro s s' pos h
    obtain ⟨⟨before, rest⟩, hsplit, rfl⟩ := Option.map_eq_some_iff.mp h
    exact ⟨before, splitAtByte?_eq_some_iff.mp hsplit⟩
  next_of_cut := by
    intro s pos before span rest _ htext hbefore hspan
    have hsplit : splitAtByte? (pos + byteLength sparkFn) s = some (before ++ span, rest) := by
      rw [splitAtByte?_eq_some_iff, byteLength_append, List.append_assoc]
      exact ⟨htext, by omega⟩
    exact ⟨rest, by rw [hsplit]; rfl, rfl⟩

/-- The loop of `case_insensitive_replace`, which cuts one upper-cased copy along with the text. -/
def replaceLoop (pattern : List Char) : CutLoop (List Char × List Char) where
  position s := find (unicode.upper.text pattern) s.2
  text s := s.1
  next s pos := do
    let (_, rest) ← splitAtByte? (pos + byteLength pattern) s.1
    let (_, restUpper) ← splitAtByte? (pos + byteLength (unicode.upper.text pattern)) s.2
    return (rest, restUpper)
  width := byteLength pattern
  next_text := by
    intro s s' pos h
    obtain ⟨⟨before, rest⟩, hsplit, h⟩ := Option.bind_eq_some_iff.mp h
    obtain ⟨upper, -, h⟩ := Option.bind_eq_some_iff.mp h
    cases h
    exact ⟨before, splitAtByte?_eq_some_iff.mp hsplit⟩
  next_of_cut := by
    intro s pos before span rest hpos htext hbefore hspan
    have hsplit : splitAtByte? (pos + byteLength pattern) s.1 = some (before ++ span, rest) := by
      rw [splitAtByte?_eq_some_iff, byteLength_append, List.append_assoc]
      exact ⟨htext, by omega⟩
    obtain ⟨front, back, -, hupper⟩ := splitAtByte?_find hpos
    exact ⟨(rest, back), by rw [hsplit, hupper]; rfl, rfl⟩

variable {unicode} {sparkFn pattern new : List Char}

theorem replaceFunction_eq_run (rounds : ℕ) (remaining : List Char) :
    replaceFunction unicode sparkFn new rounds remaining =
      (functionLoop unicode sparkFn).run new rounds remaining := by
  induction rounds generalizing remaining with
  | zero => rfl
  | succ rounds ih =>
    rw [replaceFunction]
    cases hfind : find (unicode.upper.text sparkFn) (unicode.upper.text remaining) with
    | none => exact ((functionLoop unicode sparkFn).run_none hfind rounds).symm
    | some pos =>
      dsimp only
      have hnext : (functionLoop unicode sparkFn).next remaining pos =
          (splitAtByte? (pos + byteLength sparkFn) remaining).map Prod.snd := rfl
      have htext : (functionLoop unicode sparkFn).text remaining = remaining := rfl
      rw [(functionLoop unicode sparkFn).run_some hfind rounds, hnext, htext]
      cases splitAtByte? pos remaining with
      | none => rfl
      | some parts =>
        cases splitAtByte? (pos + byteLength sparkFn) remaining with
        | none => rfl
        | some parts' =>
          exact congrArg (fun rest : Option (List Char) => rest.bind fun replaced =>
            some (parts.1 ++ new ++ replaced)) (ih parts'.2)

theorem caseInsensitiveReplaceFrom_eq_run (rounds : ℕ) (s : List Char × List Char) :
    caseInsensitiveReplaceFrom unicode pattern new rounds s.1 s.2 =
      (replaceLoop unicode pattern).run new rounds s := by
  induction rounds generalizing s with
  | zero => rfl
  | succ rounds ih =>
    rw [caseInsensitiveReplaceFrom]
    cases hfind : find (unicode.upper.text pattern) s.2 with
    | none => exact ((replaceLoop unicode pattern).run_none hfind rounds).symm
    | some pos =>
      dsimp only
      have hnext : (replaceLoop unicode pattern).next s pos =
          (splitAtByte? (pos + byteLength pattern) s.1).bind fun parts =>
            (splitAtByte? (pos + byteLength (unicode.upper.text pattern)) s.2).bind fun upper =>
              some (parts.2, upper.2) := rfl
      have htext : (replaceLoop unicode pattern).text s = s.1 := rfl
      rw [(replaceLoop unicode pattern).run_some hfind rounds, hnext, htext]
      cases splitAtByte? pos s.1 with
      | none => rfl
      | some parts =>
        cases splitAtByte? (pos + byteLength pattern) s.1 with
        | none => rfl
        | some parts' =>
          cases splitAtByte? (pos + byteLength (unicode.upper.text pattern)) s.2 with
          | none => rfl
          | some parts'' =>
            exact congrArg (fun rest : Option (List Char) => rest.bind fun replaced =>
              some (parts.1 ++ new ++ replaced)) (ih (parts'.2, parts''.2))

theorem find_nil (s : List Char) : find [] s = some 0 := by
  cases s with
  | nil => rfl
  | cons c s => exact if_pos List.nil_prefix

/-- The loop over the occurrences of a function ends, and keeps all else, exactly where it cuts the
function out. -/
theorem replaceFunction_keeps_iff (sparkFn new t : List Char) :
    (∃ out, replaceFunction unicode sparkFn new t.length t = some out ∧
      (functionLoop unicode sparkFn).Keeps (SameWord unicode sparkFn) new t out) ↔
    sparkFn ≠ [] ∧ (functionLoop unicode sparkFn).Aligned (SameWord unicode sparkFn) t := by
  by_cases hempty : sparkFn = []
  · refine iff_of_false ?_ fun h => h.1 hempty
    rintro ⟨out, -, hkeeps⟩
    obtain ⟨s, hend⟩ := hkeeps.exists_end
    have hfind : find (unicode.upper.text sparkFn) (unicode.upper.text s) = some 0 := by
      rw [hempty]
      exact find_nil _
    exact Option.some_ne_none 0 (hfind.symm.trans hend)
  · have hmeasure : ∀ {s s' : List Char} {pos : ℕ},
        (functionLoop unicode sparkFn).position s = some pos →
        (functionLoop unicode sparkFn).next s pos = some s' → s'.length < s.length := by
      intro s s' pos _ hnext
      obtain ⟨⟨before, rest⟩, hsplit, rfl⟩ := Option.map_eq_some_iff.mp hnext
      have hpos := byteLength_pos hempty
      exact length_lt_of_splitAtByte? (by omega) hsplit
    rw [replaceFunction_eq_run, CutLoop.keeps_iff_aligned hmeasure]
    exact (and_iff_right hempty).symm

/-- The same of `case_insensitive_replace`. -/
theorem caseInsensitiveReplace_keeps_iff (input pattern new : List Char) :
    (∃ out, caseInsensitiveReplace unicode input pattern new = some out ∧
      (replaceLoop unicode pattern).Keeps (SameWord unicode pattern) new
        (input, unicode.upper.text input) out) ↔
    unicode.upper.text pattern ≠ [] ∧
      (replaceLoop unicode pattern).Aligned (SameWord unicode pattern)
        (input, unicode.upper.text input) := by
  by_cases hempty : unicode.upper.text pattern = []
  · refine iff_of_false ?_ fun h => h.1 hempty
    rintro ⟨out, -, hkeeps⟩
    obtain ⟨s, hend⟩ := hkeeps.exists_end
    have hfind : find (unicode.upper.text pattern) s.2 = some 0 := by
      rw [hempty]
      exact find_nil _
    exact Option.some_ne_none 0 (hfind.symm.trans hend)
  · have hmeasure : ∀ {s s' : List Char × List Char} {pos : ℕ},
        (replaceLoop unicode pattern).position s = some pos →
        (replaceLoop unicode pattern).next s pos = some s' → s'.2.length < s.2.length := by
      intro s s' pos _ hnext
      obtain ⟨parts, -, hnext⟩ := Option.bind_eq_some_iff.mp hnext
      obtain ⟨⟨front, back⟩, hsplit, hnext⟩ := Option.bind_eq_some_iff.mp hnext
      cases hnext
      have hpos := byteLength_pos hempty
      exact length_lt_of_splitAtByte? (by omega) hsplit
    have hrun : caseInsensitiveReplace unicode input pattern new =
        (replaceLoop unicode pattern).run new (unicode.upper.text input).length
          (input, unicode.upper.text input) :=
      caseInsensitiveReplaceFrom_eq_run _ (input, unicode.upper.text input)
    rw [hrun]
    exact (CutLoop.keeps_iff_aligned (s := (input, unicode.upper.text input)) hmeasure).trans
      (and_iff_right hempty).symm

end

/-- A step of the translation: what it keeps of a text, and the texts on which it does so. -/
structure Stage where
  run : List Char × List String → Option (List Char × List String)
  Keeps : List Char → List Char → Prop
  Aligned : List Char → Prop
  exact : ∀ done, (∃ done', run done = some done' ∧ Keeps done.1 done'.1) ↔ Aligned done.1

namespace Stage

/-- All steps come to an end, one after the other, and each keeps what it should. -/
def AllKeep : List Stage → List Char × List String → List Char × List String → Prop
  | [], done, out => out = done
  | stage :: stages, done, out =>
    ∃ done', stage.run done = some done' ∧ stage.Keeps done.1 done'.1 ∧ AllKeep stages done' out

/-- Each step is aligned on the text that it starts with. -/
def AllAligned : List Stage → List Char × List String → Prop
  | [], _ => True
  | stage :: stages, done =>
    stage.Aligned done.1 ∧ ∀ done', stage.run done = some done' → AllAligned stages done'

theorem exists_allKeep_iff (stages : List Stage) (done : List Char × List String) :
    (∃ out, AllKeep stages done out) ↔ AllAligned stages done := by
  induction stages generalizing done with
  | nil => exact iff_of_true ⟨done, rfl⟩ trivial
  | cons stage stages ih =>
    constructor
    · rintro ⟨out, done', hrun, hkeeps, hrest⟩
      refine ⟨(stage.exact done).mp ⟨done', hrun, hkeeps⟩, ?_⟩
      intro done'' hrun'
      obtain rfl := Option.some.inj (hrun.symm.trans hrun')
      exact (ih done').mp ⟨out, hrest⟩
    · rintro ⟨haligned, hrest⟩
      obtain ⟨done', hrun, hkeeps⟩ := (stage.exact done).mpr haligned
      obtain ⟨out, hout⟩ := (ih done').mpr (hrest done' hrun)
      exact ⟨out, done', hrun, hkeeps, hout⟩

theorem AllKeep.run_eq {stages : List Stage} {done out : List Char × List String}
    (h : AllKeep stages done out) : stages.foldlM (fun done stage => stage.run done) done = some out := by
  induction stages generalizing done with
  | nil =>
    cases h
    rfl
  | cons stage stages ih =>
    obtain ⟨done', hrun, -, hrest⟩ := h
    rw [List.foldlM_cons, hrun]
    exact ih hrest

end Stage

section
variable (unicode : Unicode)

/-- An entry of the map of functions. -/
def functionStage (entry : String × String × String) : Stage where
  run done := translateFunction unicode done entry
  Keeps t t' :=
    if entry.1 = entry.2.1 then t' = t
    else (functionLoop unicode entry.1.toList).Keeps (SameWord unicode entry.1.toList)
      entry.2.1.toList t t'
  Aligned t := entry.1 ≠ entry.2.1 → entry.1.toList ≠ [] ∧
    (functionLoop unicode entry.1.toList).Aligned (SameWord unicode entry.1.toList) t
  exact := by
    obtain ⟨sparkFn, dfFn, desc⟩ := entry
    rintro ⟨t, notes⟩
    unfold translateFunction
    dsimp only
    by_cases hsame : sparkFn = dfFn
    · simp only [hsame, if_true, ite_self]
      exact iff_of_true ⟨_, rfl, rfl⟩ fun h => absurd rfl h
    · simp only [hsame, if_false, ne_eq, not_false_eq_true, forall_const]
      rw [← replaceFunction_keeps_iff sparkFn.toList dfFn.toList t]
      by_cases hcontains : unicode.upper.text sparkFn.toList <:+: unicode.upper.text t
      · rw [if_pos hcontains]
        constructor
        · rintro ⟨done', hrun, hkeeps⟩
          obtain ⟨out, hout, hdone⟩ := Option.bind_eq_some_iff.mp hrun
          cases hdone
          exact ⟨out, hout, hkeeps⟩
        · rintro ⟨out, hout, hkeeps⟩
          exact ⟨_, Option.bind_eq_some_iff.mpr ⟨out, hout, rfl⟩, hkeeps⟩
      · rw [if_neg hcontains]
        have hnone : (functionLoop unicode sparkFn.toList).position t = none :=
          find_eq_none_iff.mpr hcontains
        have hkeeps : (functionLoop unicode sparkFn.toList).Keeps (SameWord unicode sparkFn.toList)
            dfFn.toList t t := .done hnone
        have hnonempty : sparkFn.toList ≠ [] := by
          intro hempty
          rw [hempty] at hcontains
          exact hcontains List.nil_infix
        refine iff_of_true ⟨_, rfl, hkeeps⟩ ?_
        exact (replaceFunction_keeps_iff _ _ t).mpr ⟨hnonempty, hkeeps.aligned⟩

/-- Words that give way to others where a condition on the text holds. -/
def replaceStage (pattern new : List Char) (note : String) (cond : List Char → Prop)
    [DecidablePred cond] (hpattern : unicode.upper.text pattern ≠ []) : Stage where
  run done :=
    if cond done.1 then
      (caseInsensitiveReplace unicode done.1 pattern new).map fun translated =>
        (translated, done.2 ++ [note])
    else some done
  Keeps t t' :=
    if cond t then (replaceLoop unicode pattern).Keeps (SameWord unicode pattern) new
      (t, unicode.upper.text t) t'
    else t' = t
  Aligned t := cond t →
    (replaceLoop unicode pattern).Aligned (SameWord unicode pattern) (t, unicode.upper.text t)
  exact := by
    rintro ⟨t, notes⟩
    by_cases hcond : cond t
    · simp only [hcond, if_true, forall_const]
      have hiff : _ ↔ (replaceLoop unicode pattern).Aligned (SameWord unicode pattern)
          (t, unicode.upper.text t) :=
        (caseInsensitiveReplace_keeps_iff t pattern new).trans (and_iff_right hpattern)
      rw [← hiff]
      constructor
      · rintro ⟨done', hrun, hkeeps⟩
        obtain ⟨out, hout, rfl⟩ := Option.map_eq_some_iff.mp hrun
        exact ⟨out, hout, hkeeps⟩
      · rintro ⟨out, hout, hkeeps⟩
        exact ⟨_, Option.map_eq_some_iff.mpr ⟨out, hout, rfl⟩, hkeeps⟩
    · simp only [hcond, if_false]
      exact iff_of_true ⟨_, rfl, rfl⟩ fun h => h.elim

variable {unicode} in
theorem upper_capitals {word : List Char} (h : word.all fun c => c.toNat < 128 ∧ c.toUpper = c) :
    unicode.upper.text word = word := by
  have hall : ∀ c ∈ word, c.toNat < 128 ∧ c.toUpper = c := fun c hc =>
    of_decide_eq_true (List.all_eq_true.mp h c hc)
  rw [unicode.upper.text_ascii fun c hc => (hall c hc).1]
  exact (List.map_congr_left fun c hc => (hall c hc).2).trans (List.map_id word)

variable {unicode} in
/-- A spelling of a word has no ASCII character that the word does not have. -/
theorem ne_of_sameWord {word span : List Char} {c d : Char} (h : SameWord unicode word span)
    (hd : d.toNat < 128) (hword : d.toUpper ∉ unicode.upper.text word) (hc : c ∈ span) : c ≠ d := by
  rintro rfl
  have hmem : c.toUpper ∈ unicode.upper.text span :=
    List.mem_flatMap.mpr ⟨c, hc, by rw [unicode.upper.ascii c hd, List.mem_singleton]⟩
  rw [h] at hmem
  exact hword hmem

/-- The clause that goes with its columns: at the position is the word, and the rest goes up to a
semicolon or a parenthesis. -/
def distributeStage : Stage where
  run := dropDistributeBy unicode
  Keeps t t' :=
    match find "DISTRIBUTE BY".toList (unicode.upper.text t) with
    | none => t' = t
    | some pos => ∃ before span rest, t = before ++ (span ++ rest) ∧ byteLength before = pos ∧
        SameWord unicode "DISTRIBUTE BY".toList span ∧
        t' = before ++ rest.dropWhile fun c => c ≠ ';' ∧ c ≠ ')'
  Aligned t := ∀ pos, find "DISTRIBUTE BY".toList (unicode.upper.text t) = some pos →
    ∃ before span rest, t = before ++ (span ++ rest) ∧ byteLength before = pos ∧
      SameWord unicode "DISTRIBUTE BY".toList span
  exact := by
    rintro ⟨t, notes⟩
    unfold dropDistributeBy
    dsimp only
    cases hfind : find "DISTRIBUTE BY".toList (unicode.upper.text t) with
    | none => exact iff_of_true ⟨_, rfl, rfl⟩ fun pos h => by cases h
    | some pos =>
      dsimp only
      constructor
      · rintro ⟨done', -, before, span, rest, htext, hlength, hword, -⟩ pos' hpos
        cases hpos
        exact ⟨before, span, rest, htext, hlength, hword⟩
      · intro h
        obtain ⟨before, span, rest, htext, hlength, hword⟩ := h pos rfl
        have hsplit : splitAtByte? pos t = some (before, span ++ rest) :=
          splitAtByte?_eq_some_iff.mpr ⟨htext, hlength⟩
        have hdrop : (span ++ rest).dropWhile (fun c => c ≠ ';' ∧ c ≠ ')') =
            rest.dropWhile fun c => c ≠ ';' ∧ c ≠ ')' :=
          List.dropWhile_append_of_pos fun c hc => by
            have hupper : unicode.upper.text "DISTRIBUTE BY".toList = "DISTRIBUTE BY".toList :=
              upper_capitals (by decide)
            have hsemicolon : c ≠ ';' :=
              ne_of_sameWord hword (by decide) (by rw [hupper]; decide) hc
            have hparenthesis : c ≠ ')' :=
              ne_of_sameWord hword (by decide) (by rw [hupper]; decide) hc
            exact decide_eq_true ⟨hsemicolon, hparenthesis⟩
        refine ⟨(before ++ rest.dropWhile (fun c => c ≠ ';' ∧ c ≠ ')'),
          notes ++ ["DISTRIBUTE BY removed (DataFusion handles automatically)"]), ?_, before, span,
          rest, htext, hlength, hword, rfl⟩
        rw [hsplit, ← hdrop]
        rfl

theorem upper_clusterBy : unicode.upper.text "CLUSTER BY".toList ≠ [] := by
  rw [upper_capitals (by decide)]
  decide

theorem upper_sortBy : unicode.upper.text "SORT BY".toList ≠ [] := by
  rw [upper_capitals (by decide)]
  decide

def clusterStage : Stage :=
  replaceStage unicode "CLUSTER BY".toList "ORDER BY".toList "CLUSTER BY → ORDER BY"
    (fun t => "CLUSTER BY".toList <:+: unicode.upper.text t) (upper_clusterBy unicode)

def sortStage : Stage :=
  replaceStage unicode "SORT BY".toList "ORDER BY".toList "SORT BY → ORDER BY"
    (fun t => "SORT BY".toList <:+: unicode.upper.text t ∧
      ¬ "ORDER BY".toList <:+: unicode.upper.text t) (upper_sortBy unicode)

/-- The steps of the translation, in their order. -/
def stages : List Stage :=
  functionMap.map (functionStage unicode) ++ [distributeStage unicode, clusterStage unicode,
    sortStage unicode]

variable {unicode}

theorem clusterStage_run (done : List Char × List String) :
    (clusterStage unicode).run done = clusterBy unicode done := by
  unfold clusterStage replaceStage clusterBy
  dsimp only
  split_ifs with hcontains
  · exact Option.map_eq_bind
  · rfl

theorem sortStage_run (done : List Char × List String) :
    (sortStage unicode).run done = sortBy unicode done := by
  unfold sortStage replaceStage sortBy
  dsimp only
  split_ifs with hcontains
  · exact Option.map_eq_bind
  · rfl

theorem translateSparkSql_eq (sql : List Char) :
    translateSparkSql unicode sql =
      ((stages unicode).foldlM (fun done (stage : Stage) => stage.run done) (sql, [])).map fun done =>
        ⟨sql, done.1, !(noteUnsupported unicode done).2.isEmpty, (noteUnsupported unicode done).2⟩ := by
  unfold translateSparkSql stages
  rw [List.foldlM_append, List.foldlM_map]
  simp only [Option.bind_eq_bind, Option.map_bind, Function.comp_def, List.foldlM_cons,
    List.foldlM_nil, clusterStage_run, sortStage_run]
  rfl

theorem exists_translated_iff (sql : List Char) :
    (∃ result notes, translateSparkSql unicode sql = some result ∧
      Stage.AllKeep (stages unicode) (sql, []) (result.translated, notes)) ↔
    Stage.AllAligned (stages unicode) (sql, []) := by
  rw [← Stage.exists_allKeep_iff]
  constructor
  · rintro ⟨result, notes, -, hkeeps⟩
    exact ⟨_, hkeeps⟩
  · rintro ⟨⟨t, notes⟩, hkeeps⟩
    refine ⟨⟨sql, t, !(noteUnsupported unicode (t, notes)).2.isEmpty,
      (noteUnsupported unicode (t, notes)).2⟩, notes, ?_, hkeeps⟩
    rw [translateSparkSql_eq, hkeeps.run_eq]
    rfl

/-- Each character has one capital, and that is of its own size, as in ASCII. -/
def KeepsSizes (unicode : Unicode) (t : List Char) : Prop :=
  ∀ c ∈ t, ∃ d, unicode.upper.char c = [d] ∧ d.utf8Size = c.utf8Size

theorem utf8Size_toUpper {c : Char} (h : c.toNat < 128) : c.toUpper.utf8Size = c.utf8Size := by
  have hall : ∀ n : Fin 128, (Char.ofNat n).toUpper.utf8Size = (Char.ofNat n).utf8Size := by
    decide +kernel
  have hchar := hall ⟨c.toNat, h⟩
  rwa [Char.ofNat_toNat] at hchar

theorem keepsSizes_ascii {t : List Char} (h : t.all fun c => c.toNat < 128) :
    KeepsSizes unicode t := by
  intro c hc
  have hascii : c.toNat < 128 := of_decide_eq_true (List.all_eq_true.mp h c hc)
  exact ⟨c.toUpper, unicode.upper.ascii c hascii, utf8Size_toUpper hascii⟩

theorem KeepsSizes.of_append {a b : List Char} (h : KeepsSizes unicode (a ++ b)) :
    KeepsSizes unicode a ∧ KeepsSizes unicode b :=
  ⟨fun c hc => h c (List.mem_append_left b hc), fun c hc => h c (List.mem_append_right a hc)⟩

theorem KeepsSizes.append {a b : List Char} (ha : KeepsSizes unicode a) (hb : KeepsSizes unicode b) :
    KeepsSizes unicode (a ++ b) := fun c hc => (List.mem_append.mp hc).elim (ha c) (hb c)

theorem upper_cons {c d : Char} (h : unicode.upper.char c = [d]) (t : List Char) :
    unicode.upper.text (c :: t) = d :: unicode.upper.text t := by
  rw [Uppercase.text, List.flatMap_cons, h]
  rfl

/-- A position in the upper-cased copy is the same in such a text. -/
theorem KeepsSizes.exists_split {t before after : List Char} (h : KeepsSizes unicode t)
    (hupper : unicode.upper.text t = before ++ after) :
    ∃ front back, t = front ++ back ∧ unicode.upper.text front = before ∧
      unicode.upper.text back = after ∧ byteLength front = byteLength before := by
  induction before generalizing t with
  | nil => exact ⟨[], t, rfl, rfl, hupper, rfl⟩
  | cons d before ih =>
    cases t with
    | nil => cases hupper
    | cons c t =>
      obtain ⟨⟨d', hd', hsize⟩, ht⟩ := List.forall_mem_cons.mp h
      rw [upper_cons hd', List.cons_append] at hupper
      obtain ⟨rfl, hrest⟩ := List.cons.inj hupper
      obtain ⟨front, back, rfl, hfront, hback, hlength⟩ := ih ht hrest
      refine ⟨c :: front, back, rfl, ?_, hback, ?_⟩
      · rw [upper_cons hd', hfront]
      · rw [byteLength_cons, byteLength_cons, hlength, hsize]

theorem KeepsSizes.byteLength_upper {t : List Char} (h : KeepsSizes unicode t) :
    byteLength (unicode.upper.text t) = byteLength t := by
  induction t with
  | nil => rfl
  | cons c t ih =>
    obtain ⟨⟨d, hd, hsize⟩, ht⟩ := List.forall_mem_cons.mp h
    rw [upper_cons hd, byteLength_cons, byteLength_cons, ih ht, hsize]

/-- Where the word is found in the copy, it stands in the text. -/
theorem KeepsSizes.exists_word {word t : List Char} {pos : ℕ} (hword : KeepsSizes unicode word)
    (ht : KeepsSizes unicode t) (hpos : find (unicode.upper.text word) (unicode.upper.text t) = some pos) :
    ∃ before span rest, t = before ++ (span ++ rest) ∧ byteLength before = pos ∧
      byteLength span = byteLength word ∧ SameWord unicode word span := by
  obtain ⟨before, after, hupper, rfl⟩ := find_eq_some hpos
  obtain ⟨front, back, rfl, -, hback, hlength⟩ := ht.exists_split hupper
  obtain ⟨span, rest, rfl, hspan, -, hsize⟩ := ht.of_append.2.exists_split hback
  exact ⟨front, span, rest, rfl, hlength, hsize.trans hword.byteLength_upper, hspan⟩

theorem ascii_functionMap : functionMap.all fun entry => entry.1.toList ≠ [] ∧
    (entry.1.toList ++ entry.2.1.toList).all fun c => c.toNat < 128 := by
  decide +kernel

variable (unicode) in
/-- The translation of a text, and the replacing of a word in it, come to an end and keep all that
they do not replace exactly if each position that is found in an upper-cased copy is one of the
word in the text that is cut there. -/
theorem translations_keep_iff :
    (∀ sql, (∃ result notes, translateSparkSql unicode sql = some result ∧
        Stage.AllKeep (stages unicode) (sql, []) (result.translated, notes)) ↔
      Stage.AllAligned (stages unicode) (sql, [])) ∧
    ∀ input pattern replacement,
      (∃ out, caseInsensitiveReplace unicode input pattern replacement = some out ∧
        (replaceLoop unicode pattern).Keeps (SameWord unicode pattern) replacement
          (input, unicode.upper.text input) out) ↔
      unicode.upper.text pattern ≠ [] ∧
        (replaceLoop unicode pattern).Aligned (SameWord unicode pattern)
          (input, unicode.upper.text input) :=
  ⟨exists_translated_iff, fun input pattern replacement =>
    caseInsensitiveReplace_keeps_iff input pattern replacement⟩

/-- The mappings of the ASCII letters, and of a letter of two bytes that has a capital of one. -/
def dotless : Unicode where
  lower := Unicode.asciiOnly.lower
  upper := ⟨fun c => if c = 'ı' then ['I'] else [c.toUpper], fun c hc => if_neg (by
    rintro rfl
    revert hc
    decide)⟩
  isAlphanumeric := Unicode.asciiOnly.isAlphanumeric
  ascii := Unicode.asciiOnly.ascii

/-- Behind that letter the copy has the function at a position inside the letter. -/
theorem not_exists_translated_dotless :
    ¬ ∃ result notes, translateSparkSql dotless "ıNVL(a)".toList = some result ∧
      Stage.AllKeep (stages dotless) ("ıNVL(a)".toList, []) (result.translated, notes) := by
  have hpanics : translateSparkSql dotless "ıNVL(a)".toList = none := by decide +kernel
  rintro ⟨result, notes, hsome, -⟩
  rw [hpanics] at hsome
  cases hsome

end
end RustLake.Sql
