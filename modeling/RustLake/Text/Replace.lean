import Mathlib.Data.List.Infix

/-! Replacing every occurrence of a pattern in a text, and texts in which some stretches
stand between marks: what replacing a marked stretch does to them. -/
namespace RustLake.Text
variable {α : Type} [DecidableEq α]

/-- The matches are taken from the left and do not overlap; the number counts the letters
left to skip of the last one. -/
def replaceFrom (pat rep : List α) : ℕ → List α → List α
  | _, [] => []
  | n + 1, _ :: s => replaceFrom pat rep n s
  | 0, c :: s =>
    if pat <+: c :: s then rep ++ replaceFrom pat rep (pat.length - 1) s
    else c :: replaceFrom pat rep 0 s

/-- Replace all occurrences of a nonempty pattern. -/
def replaceAll (pat rep s : List α) : List α := replaceFrom pat rep 0 s

theorem replaceFrom_drop (pat rep : List α) (n : ℕ) (s : List α) :
    replaceFrom pat rep n s = replaceAll pat rep (s.drop n) := by
  induction s generalizing n with
  | nil => cases n <;> rfl
  | cons c s ih =>
    cases n with
    | zero => rfl
    | succ n => exact ih n

/-- A match at the front is replaced. -/
theorem replaceAll_match {pat : List α} (hpat : pat ≠ []) (rep s : List α) :
    replaceAll pat rep (pat ++ s) = rep ++ replaceAll pat rep s := by
  obtain ⟨c, cs, rfl⟩ := List.exists_cons_of_ne_nil hpat
  have hmatch : c :: cs <+: c :: (cs ++ s) := by
    rw [← List.cons_append]
    exact List.prefix_append _ _
  rw [replaceAll, List.cons_append, replaceFrom, if_pos hmatch, replaceFrom_drop]
  simp

/-- Text in which no match begins stays. -/
theorem replaceAll_append {pat rep : List α} (x s : List α)
    (h : ∀ y ≠ [], y <:+ x → ¬ pat <+: y ++ s) :
    replaceAll pat rep (x ++ s) = x ++ replaceAll pat rep s := by
  induction x with
  | nil => rfl
  | cons c x ih =>
    have hfirst : ¬ pat <+: c :: (x ++ s) :=
      h (c :: x) (List.cons_ne_nil _ _) (List.suffix_refl _)
    rw [List.cons_append, replaceAll, replaceFrom, if_neg hfirst, ← replaceAll,
      ih fun y hy hsuffix => h y hy (hsuffix.trans (List.suffix_cons c x)), List.cons_append]

/-- Replacing single letters. -/
theorem replaceAll_singleton (q : α) (rep s : List α) :
    replaceAll [q] rep s = s.flatMap fun c => if c = q then rep else [c] := by
  induction s with
  | nil => rfl
  | cons c s ih =>
    have hmatch : [q] <+: c :: s ↔ c = q := by
      constructor
      · rintro ⟨rest, hrest⟩
        exact (List.cons.inj hrest).1.symm
      · rintro rfl
        exact ⟨s, rfl⟩
    rw [List.flatMap_cons, ← ih, replaceAll, replaceFrom]
    split_ifs with hbegins hc hc
    · rfl
    · exact absurd (hmatch.mp hbegins) hc
    · exact absurd (hmatch.mpr hc) hbegins
    · rfl

/-- A stretch between two marks. -/
def marked (q : α) (p : List α) : List α := q :: p ++ [q]

/-- A text with some stretches in marks: what stands before them, and each of them with what
follows it. -/
structure Marked (α : Type) where
  head : List α
  refs : List (List α × List α)

namespace Marked

def tailText (q : α) (refs : List (List α × List α)) : List α :=
  refs.flatMap fun r => marked q r.1 ++ r.2

def text (q : α) (t : Marked α) : List α := t.head ++ tailText q t.refs

/-- The texts around the marked stretches, each with the marks at its sides. -/
def stretchesFrom (q : α) : List α → List (List α × List α) → List (List α)
  | s, [] => [s]
  | s, (_, after) :: refs => (s ++ [q]) :: stretchesFrom q (q :: after) refs

def stretches (q : α) (t : Marked α) : List (List α) := stretchesFrom q t.head t.refs

/-- A stretch stands in marks at the marked places only. -/
def Clear (q : α) (p : List α) (t : Marked α) : Prop := ∀ x ∈ t.stretches q, ¬ marked q p <:+: x

instance (q : α) (p : List α) (t : Marked α) : Decidable (t.Clear q p) :=
  inferInstanceAs (Decidable (∀ x ∈ t.stretches q, _))

/-- The marked stretches equal to `p` become `name`, without marks. -/
def fillFrom (p name : List α) : List α → List (List α × List α) → Marked α
  | s, [] => ⟨s, []⟩
  | s, (raw, after) :: refs =>
    if raw = p then fillFrom p name (s ++ name ++ after) refs
    else
      let rest := fillFrom p name after refs
      ⟨s, (raw, rest.head) :: rest.refs⟩

def fill (p name : List α) (t : Marked α) : Marked α := fillFrom p name t.head t.refs

/-- Every marked stretch becomes its name. -/
def filled (name : List α → List α) (t : Marked α) : List α :=
  t.head ++ t.refs.flatMap fun r => name r.1 ++ r.2

variable {q : α} {p name : List α}

theorem fillFrom_append (a s : List α) (refs : List (List α × List α)) :
    fillFrom p name (a ++ s) refs =
      ⟨a ++ (fillFrom p name s refs).head, (fillFrom p name s refs).refs⟩ := by
  induction refs generalizing s with
  | nil => rfl
  | cons r refs ih =>
    obtain ⟨raw, after⟩ := r
    unfold fillFrom
    split_ifs with hraw
    · rw [← ih, List.append_assoc, List.append_assoc, List.append_assoc]
    · rfl

theorem text_fillFrom_append (a s : List α) (refs : List (List α × List α)) :
    (fillFrom p name (a ++ s) refs).text q = a ++ (fillFrom p name s refs).text q := by
  rw [fillFrom_append, text, text, List.append_assoc]

/-- What stands before the first mark of a text. -/
theorem takeWhile_before_mark {x : List α} (hx : q ∉ x) (s : List α) :
    (x ++ q :: s).takeWhile (· ≠ q) = x := by
  have hall : ∀ c ∈ x, decide (c ≠ q) = true := fun c hc => by
    simpa using fun h : c = q => hx (h ▸ hc)
  rw [List.takeWhile_append_of_pos hall, List.takeWhile_cons_of_neg (by simp), List.append_nil]

omit [DecidableEq α] in
/-- A match that begins in a text before a mark ends at that mark or before it. -/
theorem marked_infix_of_pfx (hp : q ∉ p) {x y s : List α} (hy : y ≠ []) (hsuffix : y <:+ x)
    (hmatch : marked q p <+: y ++ q :: s) : marked q p <:+: x ++ [q] := by
  obtain ⟨c, z, rfl⟩ := List.exists_cons_of_ne_nil hy
  obtain ⟨hc, hbody⟩ : q = c ∧ p ++ [q] <+: z ++ q :: s := by
    rw [marked, List.cons_append, List.cons_append] at hmatch
    exact List.cons_prefix_cons.mp hmatch
  have hend : z ++ [q] <+: z ++ q :: s := by
    exact ⟨s, by simp⟩
  have hlen : (p ++ [q]).length ≤ (z ++ [q]).length := by
    by_contra hlt
    have hshort : z ++ [q] <+: p := by
      have hle : (z ++ [q]).length ≤ p.length := by simp at hlt ⊢; omega
      exact List.prefix_of_prefix_length_le hend
        ((List.prefix_append p [q]).trans hbody) hle
    exact hp (hshort.subset (by simp))
  have hbegins : marked q p <+: (c :: z) ++ [q] := by
    rw [marked, hc, List.cons_append, List.cons_append]
    exact List.cons_prefix_cons.mpr ⟨rfl, hc ▸ List.prefix_of_prefix_length_le hbody hend hlen⟩
  have hcut : (c :: z) ++ [q] <:+ x ++ [q] := by
    obtain ⟨w, rfl⟩ := hsuffix
    exact ⟨w, by rw [List.append_assoc]⟩
  exact hbegins.isInfix.trans hcut.isInfix

theorem replaceAll_before_mark (hp : q ∉ p) {x : List α} (h : ¬ marked q p <:+: x ++ [q])
    (s : List α) :
    replaceAll (marked q p) name (x ++ q :: s) = x ++ replaceAll (marked q p) name (q :: s) :=
  replaceAll_append x _ fun _ hy hsuffix hmatch =>
    h (marked_infix_of_pfx hp hy hsuffix hmatch)

/-- A marked stretch other than `p` stays, up to its second mark. -/
theorem replaceAll_other (hp : q ∉ p) {raw : List α} (hraw : q ∉ raw) (hne : raw ≠ p)
    (s : List α) :
    replaceAll (marked q p) name (q :: raw ++ q :: s) =
      q :: raw ++ replaceAll (marked q p) name (q :: s) := by
  refine replaceAll_append (q :: raw) (q :: s) fun y hy hsuffix hmatch => ?_
  rcases List.suffix_cons_iff.mp hsuffix with rfl | hlater
  · have hbody : p ++ [q] <+: raw ++ q :: s := by
      rw [marked, List.cons_append, List.cons_append] at hmatch
      exact (List.cons_prefix_cons.mp hmatch).2
    obtain ⟨rest, hrest⟩ := hbody
    rw [List.append_assoc, List.singleton_append] at hrest
    have hcut := congrArg (List.takeWhile (· ≠ q)) hrest
    rw [takeWhile_before_mark hp, takeWhile_before_mark hraw] at hcut
    exact hne hcut.symm
  · obtain ⟨c, z, rfl⟩ := List.exists_cons_of_ne_nil hy
    have hc : q = c := by
      rw [marked, List.cons_append, List.cons_append] at hmatch
      exact (List.cons_prefix_cons.mp hmatch).1
    exact hraw (hlater.subset (hc ▸ List.mem_cons_self))

omit [DecidableEq α] in
theorem stretches_mono {P : List α → Prop} (hmono : ∀ x, P (q :: x) → P x) (s : List α)
    (refs : List (List α × List α)) (h : ∀ x ∈ stretchesFrom q (q :: s) refs, P x) :
    ∀ x ∈ stretchesFrom q s refs, P x := by
  cases refs with
  | nil => simpa [stretchesFrom] using hmono s (h _ (by simp [stretchesFrom]))
  | cons r refs =>
    obtain ⟨raw, after⟩ := r
    simp only [stretchesFrom, List.forall_mem_cons] at h ⊢
    exact ⟨hmono _ h.1, h.2⟩

/-- Replacing a stretch with its marks fills the marked places where it stands and changes
nothing else. -/
theorem replaceAll_stretches (hp : q ∉ p) (s : List α) (refs : List (List α × List α))
    (hraw : ∀ r ∈ refs, q ∉ r.1) (hclear : ∀ x ∈ stretchesFrom q s refs, ¬ marked q p <:+: x) :
    replaceAll (marked q p) name (s ++ tailText q refs) = (fillFrom p name s refs).text q := by
  induction refs generalizing s with
  | nil =>
    have hs : ¬ marked q p <:+: s := hclear s (by simp [stretchesFrom])
    have hstay : replaceAll (marked q p) name (s ++ []) =
        s ++ replaceAll (marked q p) name [] := replaceAll_append s [] fun y hy hsuffix hmatch =>
      hs ((by simpa using hmatch : marked q p <+: y).isInfix.trans hsuffix.isInfix)
    simpa [tailText, fillFrom, text, replaceAll, replaceFrom] using hstay
  | cons r refs ih =>
    obtain ⟨raw, after⟩ := r
    obtain ⟨hq, hraw⟩ := List.forall_mem_cons.mp hraw
    simp only [stretchesFrom, List.forall_mem_cons] at hclear
    have htext : s ++ tailText q ((raw, after) :: refs) =
        s ++ q :: (raw ++ q :: (after ++ tailText q refs)) := by
      simp [tailText, marked]
    rw [htext, replaceAll_before_mark hp hclear.1]
    by_cases hp' : raw = p
    · subst hp'
      have hafter := stretches_mono (P := fun x => ¬ marked q raw <:+: x)
        (fun x hx hin => hx (hin.trans (List.suffix_cons q x).isInfix)) after refs hclear.2
      have hfront : q :: (raw ++ q :: (after ++ tailText q refs)) =
          marked q raw ++ (after ++ tailText q refs) := by simp [marked]
      rw [hfront, replaceAll_match (by simp [marked]), ih after hraw hafter, fillFrom, if_pos rfl,
        List.append_assoc, text_fillFrom_append, text_fillFrom_append]
    · have hrest : q :: (after ++ tailText q refs) = (q :: after) ++ tailText q refs := rfl
      rw [← List.cons_append, replaceAll_other hp hq hp', hrest, ih (q :: after) hraw hclear.2,
        fillFrom, if_neg hp']
      have hcons : (fillFrom p name ([q] ++ after) refs).text q =
          [q] ++ (fillFrom p name after refs).text q := text_fillFrom_append [q] after refs
      rw [List.singleton_append] at hcons
      rw [hcons]
      simp [text, tailText, marked]

theorem replaceAll_text (hp : q ∉ p) {t : Marked α} (hraw : ∀ r ∈ t.refs, q ∉ r.1)
    (hclear : t.Clear q p) :
    replaceAll (marked q p) name (t.text q) = (t.fill p name).text q :=
  replaceAll_stretches hp t.head t.refs hraw hclear

/-- Filling takes the marked stretches equal to `p` away. -/
theorem refs_fillFrom (s : List α) (refs : List (List α × List α)) :
    (fillFrom p name s refs).refs.map (·.1) = (refs.map (·.1)).filter (· ≠ p) := by
  induction refs generalizing s with
  | nil => rfl
  | cons r refs ih =>
    obtain ⟨raw, after⟩ := r
    unfold fillFrom
    split_ifs with hraw
    · simp [hraw, ih]
    · simp [hraw, ih after]

theorem filled_fillFrom (names : List α → List α) (p s : List α)
    (refs : List (List α × List α)) :
    (fillFrom p (names p) s refs).filled names = filled names ⟨s, refs⟩ := by
  induction refs generalizing s with
  | nil => rfl
  | cons r refs ih =>
    obtain ⟨raw, after⟩ := r
    unfold fillFrom
    split_ifs with hraw
    · rw [ih]
      simp [filled, hraw]
    · have hrest := ih after
      unfold filled at hrest ⊢
      simp [hrest]

/-- Filling one stretch after the other, by its name. -/
def fillAll (names : List α → List α) (t : Marked α) (ps : List (List α)) : Marked α :=
  ps.foldl (fun t p => t.fill p (names p)) t

theorem refs_fillAll (names : List α → List α) (t : Marked α) (ps : List (List α)) :
    (t.fillAll names ps).refs.map (·.1) = (t.refs.map (·.1)).filter (· ∉ ps) := by
  induction ps generalizing t with
  | nil => simp [fillAll]
  | cons p ps ih =>
    have hstep := ih (t.fill p (names p))
    unfold fillAll at hstep ⊢
    rw [List.foldl_cons, hstep, fill, refs_fillFrom, List.filter_filter]
    refine List.filter_congr fun raw _ => ?_
    simp [Bool.and_comm]

theorem filled_fillAll (names : List α → List α) (t : Marked α) (ps : List (List α)) :
    (t.fillAll names ps).filled names = t.filled names := by
  induction ps generalizing t with
  | nil => rfl
  | cons p ps ih =>
    have hstep := ih (t.fill p (names p))
    unfold fillAll at hstep ⊢
    rw [List.foldl_cons, hstep, fill, filled_fillFrom]

/-- With all marked stretches filled nothing else is left of the marks. -/
theorem text_fillAll {names : List α → List α} {t : Marked α} {ps : List (List α)}
    (h : ∀ r ∈ t.refs, r.1 ∈ ps) : (t.fillAll names ps).text q = t.filled names := by
  have hnone : (t.fillAll names ps).refs = [] := by
    rw [← List.map_eq_nil_iff (f := (·.1)), refs_fillAll, List.filter_eq_nil_iff]
    intro raw hraw
    obtain ⟨r, hr, rfl⟩ := List.mem_map.mp hraw
    simpa using h r hr
  rw [← filled_fillAll names t ps, text, filled, hnone]
  rfl

end Marked
end RustLake.Text
