import Mathlib.Algebra.BigOperators.Group.List.Basic
import Mathlib.Algebra.Order.Ring.Int
import Mathlib.Data.List.Infix

/-! Rules that replace names in a text one after another, and all names of the text renamed at once.
What the rules cut out beside the names would add to the weight of the text, so that the two agree
exactly where nothing but names is cut out. -/
namespace RustLake.Rewriting

/-- A name, folded to one case, and what takes its place. -/
structure Rule (α : Type) where
  key : List α
  new : List α
deriving DecidableEq

/-- A name of a rule, as it is spelled in a text. -/
structure Name {α : Type} (fold : α → α) where
  rule : Rule α
  span : List α
  spelled : span.map fold = rule.key

/-- A text with the names in it that are to be renamed. -/
inductive Marked {α : Type} (fold : α → α)
  | rest (text : List α)
  | name (gap : List α) (name : Name fold) (behind : Marked fold)

variable {α : Type} {fold : α → α}

namespace Marked

def text : Marked fold → List α
  | rest t => t
  | name gap n behind => gap ++ (n.span ++ behind.text)

/-- All names give way at once. -/
def renamed : Marked fold → List α
  | rest t => t
  | name gap n behind => gap ++ (n.rule.new ++ behind.renamed)

def prepend (front : List α) : Marked fold → Marked fold
  | rest t => rest (front ++ t)
  | name gap n behind => name (front ++ gap) n behind

/-- The names of one rule give way, and are text like any other then. -/
def settle [DecidableEq α] (rule : Rule α) : Marked fold → Marked fold
  | rest t => rest t
  | name gap n behind =>
    if n.rule = rule then (behind.settle rule).prepend (gap ++ rule.new)
    else name gap n (behind.settle rule)

/-- What the names and the text before each of them satisfy. -/
def Forall (P : List α → Name fold → Prop) : Marked fold → Prop
  | rest _ => True
  | name gap n behind => P gap n ∧ behind.Forall P

/-- The names and gaps of a list before a marked text. -/
def behind (front : List (List α × Name fold)) (m : Marked fold) : Marked fold :=
  front.foldr (fun p m => name p.1 p.2 m) m

end Marked

def frontText (front : List (List α × Name fold)) : List α := front.flatMap fun p => p.1 ++ p.2.span

def frontRenamed (front : List (List α × Name fold)) : List α :=
  front.flatMap fun p => p.1 ++ p.2.rule.new

section
variable (Done : List α → List α → Prop) (Cut : List α → List α → List α → List α → Prop)

/-- How a rule rewrites a text: as long as it finds where to, it cuts a span out behind what is
before it. -/
inductive Rewrites (rule : Rule α) : List α → List α → Prop
  | done {t : List α} : Done rule.key t → Rewrites rule t t
  | cut {before span rest out : List α} : Cut rule.key before span rest → Rewrites rule rest out →
      Rewrites rule (before ++ (span ++ rest)) (before ++ (rule.new ++ out))

/-- The rules one after another. -/
inductive RewritesAll : List (Rule α) → List α → List α → Prop
  | nil {t : List α} : RewritesAll [] t t
  | cons {rule : Rule α} {rules : List (Rule α)} {t t' out : List α} :
      Rewrites Done Cut rule t t' → RewritesAll rules t' out → RewritesAll (rule :: rules) t out

/-- A rule cuts out the names that are its own, one after the other, and nothing else. -/
inductive CutsNames (rule : Rule α) : Marked fold → Prop
  | done {m : Marked fold} : Done rule.key m.text → m.Forall (fun _ n => n.rule ≠ rule) →
      CutsNames rule m
  | cut {front : List (List α × Name fold)} {gap : List α} {n : Name fold} {m : Marked fold} :
      n.rule = rule → (∀ p ∈ front, p.2.rule ≠ rule) →
      Cut rule.key (frontText front ++ gap) n.span m.text → CutsNames rule m →
      CutsNames rule (.behind front (.name gap n m))

/-- So does each rule, on the text that the rules before it leave. -/
def AllCutNames [DecidableEq α] : List (Rule α) → Marked fold → Prop
  | [], _ => True
  | rule :: rules, m => CutsNames Done Cut rule m ∧ AllCutNames rules (m.settle rule)

end

namespace Marked
variable {front : List (List α × Name fold)} {m : Marked fold} {P Q : List α → Name fold → Prop}

@[simp] theorem text_prepend (a : List α) (m : Marked fold) : (m.prepend a).text = a ++ m.text := by
  cases m with
  | rest t => rfl
  | name gap n behind => exact List.append_assoc _ _ _

@[simp] theorem renamed_prepend (a : List α) (m : Marked fold) :
    (m.prepend a).renamed = a ++ m.renamed := by
  cases m with
  | rest t => rfl
  | name gap n behind => exact List.append_assoc _ _ _

@[simp] theorem text_behind (front : List (List α × Name fold)) (m : Marked fold) :
    (behind front m).text = frontText front ++ m.text := by
  induction front with
  | nil => rfl
  | cons p front ih =>
    have hstep : (behind (p :: front) m).text = p.1 ++ (p.2.span ++ (behind front m).text) := rfl
    rw [hstep, ih]
    simp [frontText]

@[simp] theorem renamed_behind (front : List (List α × Name fold)) (m : Marked fold) :
    (behind front m).renamed = frontRenamed front ++ m.renamed := by
  induction front with
  | nil => rfl
  | cons p front ih =>
    have hstep : (behind (p :: front) m).renamed =
        p.1 ++ (p.2.rule.new ++ (behind front m).renamed) := rfl
    rw [hstep, ih]
    simp [frontRenamed]

theorem forall_behind : (behind front m).Forall P ↔ (∀ p ∈ front, P p.1 p.2) ∧ m.Forall P := by
  induction front with
  | nil => exact (and_iff_right fun p hp => absurd hp List.not_mem_nil).symm
  | cons p front ih =>
    have hstep : (behind (p :: front) m).Forall P ↔ P p.1 p.2 ∧ (behind front m).Forall P := Iff.rfl
    rw [hstep, ih, List.forall_mem_cons, and_assoc]

theorem Forall.imp (h : m.Forall P) (himp : ∀ gap n, P gap n → Q gap n) : m.Forall Q := by
  induction m with
  | rest => trivial
  | name gap n behind ih => exact ⟨himp gap n h.1, ih h.2⟩

section
variable [DecidableEq α] {rule : Rule α}

theorem renamed_settle (m : Marked fold) : (m.settle rule).renamed = m.renamed := by
  induction m with
  | rest => rfl
  | name gap n behind ih =>
    rw [settle]
    split_ifs with hrule
    · rw [renamed_prepend, ih, renamed, hrule, List.append_assoc]
    · rw [renamed, renamed, ih]

theorem settle_of_forall (h : m.Forall fun _ n => n.rule ≠ rule) : m.settle rule = m := by
  induction m with
  | rest => rfl
  | name gap n behind ih => rw [settle, if_neg h.1, ih h.2]

theorem settle_behind (h : ∀ p ∈ front, p.2.rule ≠ rule) :
    (behind front m).settle rule = behind front (m.settle rule) := by
  induction front with
  | nil => rfl
  | cons p front ih =>
    obtain ⟨hp, hfront⟩ := List.forall_mem_cons.mp h
    have hstep : (behind (p :: front) m).settle rule = name p.1 p.2 ((behind front m).settle rule) :=
      if_neg hp
    rw [hstep, ih hfront]
    rfl

theorem settle_name {gap : List α} {n : Name fold} (h : n.rule = rule) :
    (name gap n m).settle rule = (m.settle rule).prepend (gap ++ rule.new) := if_pos h

theorem Forall.settle {Q : Name fold → Prop} (h : m.Forall fun _ n => Q n) :
    (m.settle rule).Forall fun _ n => Q n ∧ n.rule ≠ rule := by
  induction m with
  | rest => trivial
  | name gap n behind ih =>
    rw [Marked.settle]
    split_ifs with hrule
    · have hrest := ih h.2
      cases hm : behind.settle rule with
      | rest => trivial
      | name gap' n' behind' =>
        rw [hm] at hrest
        exact hrest
    · exact ⟨⟨h.1, hrule⟩, ih h.2⟩

end

theorem renamed_of_forall (h : m.Forall fun _ _ => False) : m.renamed = m.text := by
  cases m with
  | rest => rfl
  | name gap n behind => exact h.1.elim

end Marked

section Agree
variable [DecidableEq α] {Done : List α → List α → Prop}
  {Cut : List α → List α → List α → List α → Prop} {rule : Rule α} {rules : List (Rule α)}
  {m : Marked fold}

theorem CutsNames.rewrites (h : CutsNames Done Cut rule m) :
    Rewrites Done Cut rule m.text (m.settle rule).text := by
  induction h with
  | done hdone hnames =>
    rw [Marked.settle_of_forall hnames]
    exact .done hdone
  | @cut front gap n m hrule hfront hcut _ ih =>
    rw [Marked.settle_behind hfront, Marked.settle_name hrule, Marked.text_behind,
      Marked.text_behind, Marked.text_prepend]
    have htext : frontText front ++ (Marked.name gap n m).text =
        (frontText front ++ gap) ++ (n.span ++ m.text) := (List.append_assoc _ _ _).symm
    have hout : frontText front ++ (gap ++ rule.new ++ (m.settle rule).text) =
        (frontText front ++ gap) ++ (rule.new ++ (m.settle rule).text) := by
      simp only [List.append_assoc]
    rw [htext, hout]
    exact .cut hcut ih

/-- Where each rule cuts out its names and nothing else, the rules rename all names at once. -/
theorem AllCutNames.rewritesAll (h : AllCutNames Done Cut rules m)
    (hamong : m.Forall fun _ n => n.rule ∈ rules) :
    RewritesAll Done Cut rules m.text m.renamed := by
  induction rules generalizing m with
  | nil =>
    have hnone : m.Forall fun _ _ => False := hamong.imp fun _ _ hn => absurd hn List.not_mem_nil
    rw [Marked.renamed_of_forall hnone]
    exact .nil
  | cons rule rules ih =>
    have hsettled : (m.settle rule).Forall fun _ n => n.rule ∈ rules :=
      hamong.settle.imp fun _ n hn => (List.mem_cons.mp hn.1).resolve_left hn.2
    have hrest := ih h.2 hsettled
    rw [Marked.renamed_settle] at hrest
    exact .cons h.1.rewrites hrest

end Agree

section Weights
variable (weight : α → ℤ)

/-- The weight of a text, whose characters weigh what they do in one case. -/
def weigh (fold : α → α) (t : List α) : ℤ := (t.map fun c => weight (fold c)).sum

def keyWeight (key : List α) : ℤ := (key.map weight).sum

@[simp] theorem weigh_append (a b : List α) :
    weigh weight fold (a ++ b) = weigh weight fold a + weigh weight fold b := by
  simp [weigh]

theorem weigh_span (n : Name fold) : weigh weight fold n.span = keyWeight weight n.rule.key := by
  rw [keyWeight, ← n.spelled, List.map_map]
  rfl

/-- A rule comes before another one. Its key can meet a name of the other only as the end of it,
and weighs less alone than the name would as a whole; or as one that has the name as its own end
behind a character that no text before a name ends in. -/
structure Before (fold : α → α) (barrier : α) (rule later : Rule α) : Prop where
  within : ∀ n < later.key.length,
    later.key.drop n <+: rule.key ∨ rule.key <+: later.key.drop n →
    later.key.drop n = rule.key ∧ weigh weight fold later.new + keyWeight weight rule.key <
      keyWeight weight later.key + weigh weight fold rule.new
  across : ∀ n < rule.key.length, 0 < n →
    rule.key.drop n <+: later.key ∨ later.key <+: rule.key.drop n →
    rule.key.drop n = later.key ∧ (rule.key.take n).getLast? = some barrier

/-- Rules whose keys do not overlap themselves and whose rewritings add weight. -/
structure Separate (fold : α → α) (barrier : α) (rules : List (Rule α)) : Prop where
  nonempty : ∀ rule ∈ rules, rule.key ≠ []
  gains : ∀ rule ∈ rules, keyWeight weight rule.key < weigh weight fold rule.new
  self : ∀ rule ∈ rules, ∀ n < rule.key.length, 0 < n →
    ¬ (rule.key.drop n <+: rule.key ∨ rule.key <+: rule.key.drop n)
  ends : ∀ rule ∈ rules, ∃ c, rule.new.getLast? = some c ∧ fold c ≠ barrier
  before : rules.Pairwise (Before weight fold barrier)

/-- The names are those of rules, and no text before one ends in the barrier. -/
def Marked.Fits (barrier : α) (rules : List (Rule α)) : Marked fold → Prop :=
  Marked.Forall fun gap n => n.rule ∈ rules ∧ gap.getLast?.map fold ≠ some barrier

section Hits
variable {weight : α → ℤ} {barrier : α} {rule : Rule α} {rules : List (Rule α)} {m : Marked fold}
  {before span rest gap : List α} {n : Name fold}

theorem weigh_of_spelled {key : List α} (h : span.map fold = key) :
    weigh weight fold span = keyWeight weight key := by
  rw [keyWeight, ← h, List.map_map]
  rfl

/-- A span that is cut out is a name of the rule, -/
def CutsName (rule : Rule α) (m : Marked fold) (before span rest : List α) : Prop :=
  ∃ front gap n behind, m = .behind front (.name gap n behind) ∧ n.rule = rule ∧
    before = frontText front ++ gap ∧ span = n.span ∧ rest = behind.text

/-- or what is left of the text and its names weighs more than with all of them renamed. -/
def AddsWeight (weight : α → ℤ) (barrier : α) (rule : Rule α) (rules : List (Rule α))
    (m : Marked fold) (before rest : List α) : Prop :=
  ∃ (front : List (List α × Name fold)) (x : List α) (behind : Marked fold),
    before = frontText front ++ x ∧ rest = behind.text ∧
    (∀ p ∈ front, p.2.rule ∈ rules ∧ p.1.getLast?.map fold ≠ some barrier) ∧
    behind.Fits barrier rules ∧ weigh weight fold m.renamed < weigh weight fold (frontRenamed front) +
      weigh weight fold x + weigh weight fold rule.new + weigh weight fold behind.renamed

theorem CutsName.behind (h : CutsName rule m before span rest) :
    CutsName rule (.name gap n m) (gap ++ (n.span ++ before)) span rest := by
  obtain ⟨front, gap', n', behind, rfl, hrule, rfl, hspan, hrest⟩ := h
  refine ⟨(gap, n) :: front, gap', n', behind, rfl, hrule, ?_, hspan, hrest⟩
  simp [frontText]

theorem AddsWeight.behind (h : AddsWeight weight barrier rule rules m before rest)
    (hn : n.rule ∈ rules ∧ gap.getLast?.map fold ≠ some barrier) :
    AddsWeight weight barrier rule rules (.name gap n m) (gap ++ (n.span ++ before)) rest := by
  obtain ⟨front, x, behind, rfl, hrest, hfront, hbehind, hless⟩ := h
  refine ⟨(gap, n) :: front, x, behind, by simp [frontText], hrest,
    List.forall_mem_cons.mpr ⟨hn, hfront⟩, hbehind, ?_⟩
  have hrenamed : frontRenamed ((gap, n) :: front) = gap ++ (n.rule.new ++ frontRenamed front) := by
    simp [frontRenamed]
  rw [hrenamed, Marked.renamed]
  simp only [weigh_append]
  omega

/-- A span that begins in a name is that name, or the end of another one. -/
theorem cuts_in_name (hsep : Separate weight fold barrier (rule :: rules))
    (hm : (Marked.name gap n m).Fits barrier (rule :: rules)) {y : List α} (hy : y ≠ [])
    (hname : n.span = before ++ y) (hsplit : span ++ rest = y ++ m.text)
    (hspan : span.map fold = rule.key) :
    CutsName rule (.name gap n m) (gap ++ before) span rest ∨
      AddsWeight weight barrier rule (rule :: rules) (.name gap n m) (gap ++ before) rest := by
  have hkey : n.rule.key = before.map fold ++ y.map fold := by
    rw [← n.spelled, hname, List.map_append]
  have hlength : before.length < n.rule.key.length := by
    have hpos := List.length_pos_iff.mpr hy
    rw [hkey, List.length_append, List.length_map, List.length_map]
    omega
  have hmapped : (before.map fold).length = before.length := List.length_map fold
  have hdrop : n.rule.key.drop before.length = y.map fold := by
    rw [hkey, ← hmapped, List.drop_left]
  have hmeets : n.rule.key.drop before.length <+: rule.key ∨
      rule.key <+: n.rule.key.drop before.length := by
    rw [hdrop, ← hspan]
    have hcases : y <+: span ∨ span <+: y :=
      List.prefix_or_prefix_of_prefix ⟨m.text, hsplit.symm⟩ ⟨rest, rfl⟩
    exact hcases.imp (fun h => h.map fold) fun h => h.map fold
  have hends : y.map fold = rule.key → span = y ∧ rest = m.text := by
    intro hsame
    have hlengths : (span.map fold).length = (y.map fold).length := by rw [hspan, hsame]
    rw [List.length_map, List.length_map] at hlengths
    exact List.append_inj hsplit hlengths
  rcases List.mem_cons.mp hm.1.1 with hrule | hlater
  · left
    have hbefore : before = [] := by
      by_contra hne
      rw [hrule] at hmeets hlength
      exact hsep.self rule List.mem_cons_self _ hlength (List.length_pos_iff.mpr hne) hmeets
    rw [hbefore, List.nil_append] at hname
    obtain ⟨hspan', hrest⟩ := hends (by rw [← hname, n.spelled, hrule])
    exact ⟨[], gap, n, m, rfl, hrule, by rw [hbefore]; simp [frontText], by rw [hspan', hname], hrest⟩
  · right
    have hbefore := (List.pairwise_cons.mp hsep.before).1 n.rule hlater
    obtain ⟨hsame, hweight⟩ := hbefore.within _ hlength hmeets
    rw [hdrop] at hsame
    obtain ⟨-, hrest⟩ := hends hsame
    refine ⟨[], gap ++ before, m, rfl, hrest, fun p hp => absurd hp List.not_mem_nil, hm.2, ?_⟩
    have hname' : weigh weight fold n.span = weigh weight fold before + weigh weight fold y := by
      rw [hname, weigh_append]
    rw [weigh_span, weigh_of_spelled hsame] at hname'
    have hnil : weigh weight fold (frontRenamed ([] : List (List α × Name fold))) = 0 := rfl
    rw [Marked.renamed, hnil]
    simp only [weigh_append]
    omega

/-- A span that begins in the text before a name and goes beyond it has the name as its end, behind
the barrier, so that there is none. -/
theorem not_cuts_over (hsep : Separate weight fold barrier (rule :: rules))
    (hm : (Marked.name gap n m).Fits barrier (rule :: rules)) {y z : List α} (hy : y ≠ [])
    (hz : z ≠ []) (hgap : gap = before ++ y) (hcut : span = y ++ z)
    (hsplit : n.span ++ m.text = z ++ rest) (hspan : span.map fold = rule.key) : False := by
  have hkey : rule.key = y.map fold ++ z.map fold := by rw [← hspan, hcut, List.map_append]
  have hpos : 0 < y.length := List.length_pos_iff.mpr hy
  have hlength : y.length < rule.key.length := by
    have hrest := List.length_pos_iff.mpr hz
    rw [hkey, List.length_append, List.length_map, List.length_map]
    omega
  have hmapped : (y.map fold).length = y.length := List.length_map fold
  have hdrop : rule.key.drop y.length = z.map fold := by
    rw [hkey, ← hmapped, List.drop_left]
  have hmeets : rule.key.drop y.length <+: n.rule.key ∨ n.rule.key <+: rule.key.drop y.length := by
    rw [hdrop, ← n.spelled]
    have hcases : z <+: n.span ∨ n.span <+: z :=
      List.prefix_or_prefix_of_prefix ⟨rest, hsplit.symm⟩ ⟨m.text, rfl⟩
    exact hcases.imp (fun h => h.map fold) fun h => h.map fold
  rcases List.mem_cons.mp hm.1.1 with hrule | hlater
  · rw [hrule] at hmeets
    exact hsep.self rule List.mem_cons_self _ hlength hpos hmeets
  · have hbefore := (List.pairwise_cons.mp hsep.before).1 n.rule hlater
    obtain ⟨-, hbarrier⟩ := hbefore.across _ hlength hpos hmeets
    have htake : rule.key.take y.length = y.map fold := by
      rw [hkey, ← hmapped, List.take_left]
    rw [htake, List.getLast?_map] at hbarrier
    have hlast : gap.getLast? = y.getLast? := by
      rw [hgap, List.getLast?_append]
      cases hsome : y.getLast? with
      | none => exact absurd (List.getLast?_eq_none_iff.mp hsome) hy
      | some c => rfl
    exact hm.1.2 (by rw [hlast]; exact hbarrier)

/-- Where a span that spells the key of a rule stands in a marked text. -/
theorem cuts_cases (hsep : Separate weight fold barrier (rule :: rules))
    (hm : m.Fits barrier (rule :: rules)) (htext : m.text = before ++ (span ++ rest))
    (hspan : span.map fold = rule.key) : CutsName rule m before span rest ∨
      AddsWeight weight barrier rule (rule :: rules) m before rest := by
  have hgains := hsep.gains rule List.mem_cons_self
  have hweight : weigh weight fold span = keyWeight weight rule.key := weigh_of_spelled hspan
  have hnil : weigh weight fold (frontRenamed ([] : List (List α × Name fold))) = 0 := rfl
  induction m generalizing before with
  | rest t =>
    refine Or.inr ⟨[], before, .rest rest, rfl, rfl, fun p hp => absurd hp List.not_mem_nil,
      trivial, ?_⟩
    have hall : t = before ++ (span ++ rest) := htext
    rw [Marked.renamed, Marked.renamed, hall, hnil]
    simp only [weigh_append]
    omega
  | name gap n m ih =>
    have hwithin : ∀ {front : List α}, before = gap ++ front →
        n.span ++ m.text = front ++ (span ++ rest) →
        CutsName rule (.name gap n m) before span rest ∨
          AddsWeight weight barrier rule (rule :: rules) (.name gap n m) before rest := by
      rintro front rfl hsplit
      rcases List.append_eq_append_iff.mp hsplit with ⟨later, rfl, hlater⟩ | ⟨y, hname, hrest⟩
      · exact (ih hm.2 hlater).imp CutsName.behind fun h => h.behind hm.1
      · by_cases hy : y = []
        · rw [hy, List.append_nil] at hname
          rw [hy, List.nil_append] at hrest
          have hlater : m.text = [] ++ (span ++ rest) := hrest.symm
          rw [← hname, ← List.append_nil n.span]
          exact (ih hm.2 hlater).imp CutsName.behind fun h => h.behind hm.1
        · exact cuts_in_name hsep hm hy hname hrest hspan
    rcases List.append_eq_append_iff.mp htext with ⟨front, hbefore, hsplit⟩ | ⟨y, hgap, hsplit⟩
    · exact hwithin hbefore hsplit
    · by_cases hy : y = []
      · rw [hy, List.append_nil] at hgap
        rw [hy, List.nil_append] at hsplit
        have hfront : before = gap ++ [] := by rw [hgap, List.append_nil]
        exact hwithin hfront hsplit.symm
      · have hingap : ∀ {w : List α}, y = span ++ w → rest = w ++ (n.span ++ m.text) →
            AddsWeight weight barrier rule (rule :: rules) (.name gap n m) before rest := by
          rintro w rfl hrest
          refine ⟨[], before, .name w n m, rfl, hrest, fun p hp => absurd hp List.not_mem_nil,
            ⟨⟨hm.1.1, ?_⟩, hm.2⟩, ?_⟩
          · intro hlast
            refine hm.1.2 ?_
            cases hsome : w.getLast? with
            | none =>
              rw [hsome] at hlast
              cases hlast
            | some c =>
              rw [hsome] at hlast
              rw [hgap, List.getLast?_append, List.getLast?_append, hsome]
              exact hlast
          · rw [Marked.renamed, Marked.renamed, hgap, hnil]
            simp only [weigh_append]
            omega
        rcases List.append_eq_append_iff.mp hsplit with ⟨w, hyw, hrest⟩ | ⟨z, hcut, hname⟩
        · exact Or.inr (hingap hyw hrest)
        · by_cases hz : z = []
          · rw [hz, List.append_nil] at hcut
            rw [hz, List.nil_append] at hname
            exact Or.inr (hingap (by rw [hcut, List.append_nil]) hname.symm)
          · exact (not_cuts_over hsep hm hy hz hgap hcut hname hspan).elim

theorem weigh_behind {front : List (List α × Name fold)} :
    weigh weight fold (Marked.behind front m).renamed =
      weigh weight fold (frontRenamed front) + weigh weight fold m.renamed := by
  rw [Marked.renamed_behind, weigh_append]

theorem Marked.Fits.prepend (h : m.Fits barrier rules) {front : List α} {c : α}
    (hlast : front.getLast? = some c) (hc : fold c ≠ barrier) :
    (m.prepend front).Fits barrier rules := by
  cases m with
  | rest => trivial
  | name gap n m =>
    refine ⟨⟨h.1.1, fun hbarrier => ?_⟩, h.2⟩
    rw [List.getLast?_append, hlast] at hbarrier
    cases hsome : gap.getLast? with
    | none =>
      rw [hsome] at hbarrier
      exact hc (Option.some.inj hbarrier)
    | some d =>
      rw [hsome] at hbarrier
      exact h.1.2 (by rw [hsome]; exact hbarrier)

section Exact
variable (Done : List α → List α → Prop) (Cut : List α → List α → List α → List α → Prop)
  (fold : α → α) (P : List α → Prop) (rules : List (Rule α))

/-- On texts of a kind, each span that is cut out is the first one that spells the key. -/
structure Exact : Prop where
  append : ∀ {a b}, P (a ++ b) ↔ P a ∧ P b
  new : ∀ rule ∈ rules, P rule.new
  cut : ∀ rule ∈ rules, ∀ {before span rest}, P (before ++ (span ++ rest)) →
    Cut rule.key before span rest → span.map fold = rule.key ∧
      ∀ before' span' rest', before ++ (span ++ rest) = before' ++ (span' ++ rest') →
        span'.map fold = rule.key → before.length ≤ before'.length
  done : ∀ rule ∈ rules, ∀ {t}, P t → Done rule.key t → ∀ before span rest,
    t = before ++ (span ++ rest) → span.map fold ≠ rule.key

end Exact

variable {Done : List α → List α → Prop}
  {Cut : List α → List α → List α → List α → Prop} {P : List α → Prop} {t t' out : List α}

theorem forall_ne_of_no_span (h : ∀ before span rest, m.text = before ++ (span ++ rest) →
    span.map fold ≠ rule.key) : m.Forall fun _ n => n.rule ≠ rule := by
  induction m with
  | rest => trivial
  | name gap n m ih =>
    refine ⟨fun hrule => h gap n.span m.text rfl (by rw [n.spelled, hrule]), ih ?_⟩
    intro before span rest htext
    refine h (gap ++ (n.span ++ before)) span rest ?_
    rw [Marked.text, htext]
    simp only [List.append_assoc]

/-- A name before the place where the rule finds the first one is not its own. -/
theorem rule_ne_of_mem_front {front : List (List α × Name fold)} {x : List α}
    (hkey : rule.key ≠ [])
    (hfirst : ∀ before' span' rest', frontText front ++ x ++ (span ++ rest) =
      before' ++ (span' ++ rest') → span'.map fold = rule.key →
      (frontText front ++ x).length ≤ before'.length) :
    ∀ p ∈ front, p.2.rule ≠ rule := by
  intro p hp hrule
  obtain ⟨first, later, rfl⟩ := List.append_of_mem hp
  have hspelled : p.2.span.map fold = rule.key := by rw [p.2.spelled, hrule]
  have hspan : p.2.span ≠ [] := by
    intro hnil
    rw [hnil] at hspelled
    exact hkey hspelled.symm
  have hpos := List.length_pos_iff.mpr hspan
  have hle := hfirst (frontText first ++ p.1) p.2.span
    (frontText later ++ x ++ (span ++ rest)) (by simp [frontText]) hspelled
  simp only [frontText, List.flatMap_append, List.flatMap_cons, List.length_append] at hle
  omega

theorem Marked.Fits.of_ne (h : m.Fits barrier (rule :: rules))
    (hnames : m.Forall fun _ n => n.rule ≠ rule) : m.Fits barrier rules := by
  induction m with
  | rest => trivial
  | name gap n m ih =>
    exact ⟨⟨(List.mem_cons.mp h.1.1).resolve_left hnames.1, h.1.2⟩, ih h.2 hnames.2⟩

theorem Separate.tail (h : Separate weight fold barrier (rule :: rules)) :
    Separate weight fold barrier rules where
  nonempty := fun _ hmem => h.nonempty _ (List.mem_cons_of_mem rule hmem)
  gains := fun _ hmem => h.gains _ (List.mem_cons_of_mem rule hmem)
  self := fun _ hmem => h.self _ (List.mem_cons_of_mem rule hmem)
  ends := fun _ hmem => h.ends _ (List.mem_cons_of_mem rule hmem)
  before := (List.pairwise_cons.mp h.before).2

theorem Exact.tail (h : Exact Done Cut fold P (rule :: rules)) : Exact Done Cut fold P rules where
  append := h.append
  new := fun _ hmem => h.new _ (List.mem_cons_of_mem rule hmem)
  cut := fun _ hmem => h.cut _ (List.mem_cons_of_mem rule hmem)
  done := fun _ hmem => h.done _ (List.mem_cons_of_mem rule hmem)

theorem renamed_of_fits_nil (h : m.Fits barrier []) : m.renamed = m.text := by
  refine Marked.renamed_of_forall (Marked.Forall.imp h fun gap n hn => ?_)
  exact absurd hn.1 List.not_mem_nil

variable [DecidableEq α]

/-- A rule either cuts out its names and nothing else, or leaves a text that weighs more than with
all names renamed. -/
theorem Rewrites.cases (h : Rewrites Done Cut rule t out)
    (hexact : Exact Done Cut fold P (rule :: rules))
    (hsep : Separate weight fold barrier (rule :: rules)) (hm : m.Fits barrier (rule :: rules))
    (htext : m.text = t) (hP : P t) :
    P out ∧ ∃ m' : Marked fold, m'.text = out ∧ m'.Fits barrier rules ∧
      (CutsNames Done Cut rule m ∧ m' = m.settle rule ∨
        weigh weight fold m.renamed < weigh weight fold m'.renamed) := by
  have hmem : rule ∈ rule :: rules := List.mem_cons_self
  obtain ⟨c, hlast, hc⟩ := hsep.ends rule hmem
  have hlast' : ∀ front : List α, (front ++ rule.new).getLast? = some c := by
    intro front
    rw [List.getLast?_append, hlast]
    rfl
  induction h generalizing m with
  | done hdone =>
    have hnames : m.Forall fun _ n => n.rule ≠ rule :=
      forall_ne_of_no_span fun before span rest hsplit =>
        hexact.done rule hmem hP hdone before span rest (htext ▸ hsplit)
    refine ⟨hP, m, htext, hm.of_ne hnames, Or.inl ⟨.done (htext ▸ hdone) hnames, ?_⟩⟩
    exact (Marked.settle_of_forall hnames).symm
  | @cut before span rest out hcut _ ih =>
    obtain ⟨hspelled, hfirst⟩ := hexact.cut rule hmem hP hcut
    have hparts := hexact.append.mp hP
    have hPrest : P rest := (hexact.append.mp hparts.2).2
    have hPnew : ∀ {t}, P t → P (before ++ (rule.new ++ t)) := fun ht =>
      hexact.append.mpr ⟨hparts.1, hexact.append.mpr ⟨hexact.new rule hmem, ht⟩⟩
    rcases cuts_cases hsep hm htext hspelled with hname | hadds
    · obtain ⟨front, gap, n, m, rfl, hrule, rfl, rfl, rfl⟩ := hname
      have hfront := rule_ne_of_mem_front (hsep.nonempty rule hmem) hfirst
      obtain ⟨hfits, hfitsName⟩ := Marked.forall_behind.mp hm
      obtain ⟨hPout, m', rfl, hfits', hcases⟩ := ih hfitsName.2 rfl hPrest
      refine ⟨hPnew hPout, .behind front (m'.prepend (gap ++ rule.new)), ?_, ?_, ?_⟩
      · simp only [Marked.text_behind, Marked.text_prepend, List.append_assoc]
      · refine Marked.forall_behind.mpr ⟨fun p hp => ⟨?_, (hfits p hp).2⟩, ?_⟩
        · exact (List.mem_cons.mp (hfits p hp).1).resolve_left (hfront p hp)
        · exact hfits'.prepend (hlast' gap) hc
      · rcases hcases with ⟨hcuts, rfl⟩ | hless
        · refine Or.inl ⟨.cut hrule hfront hcut hcuts, ?_⟩
          rw [Marked.settle_behind hfront, Marked.settle_name hrule]
        · right
          rw [weigh_behind, weigh_behind, Marked.renamed_prepend, Marked.renamed, hrule]
          simp only [weigh_append]
          omega
    · obtain ⟨front, x, m, rfl, rfl, hfits, hfitsRest, hless⟩ := hadds
      have hfront := rule_ne_of_mem_front (hsep.nonempty rule hmem) hfirst
      obtain ⟨hPout, m', rfl, hfits', hcases⟩ := ih hfitsRest rfl hPrest
      refine ⟨hPnew hPout, .behind front (m'.prepend (x ++ rule.new)), ?_, ?_, Or.inr ?_⟩
      · simp only [Marked.text_behind, Marked.text_prepend, List.append_assoc]
      · refine Marked.forall_behind.mpr ⟨fun p hp => ⟨?_, (hfits p hp).2⟩, ?_⟩
        · exact (List.mem_cons.mp (hfits p hp).1).resolve_left (hfront p hp)
        · exact hfits'.prepend (hlast' x) hc
      · have hle : weigh weight fold m.renamed ≤ weigh weight fold m'.renamed := by
          rcases hcases with ⟨-, rfl⟩ | hmore
          · exact Int.le_of_eq (congrArg _ (Marked.renamed_settle m).symm)
          · exact Int.le_of_lt hmore
        rw [weigh_behind, Marked.renamed_prepend]
        simp only [weigh_append]
        omega

/-- So do all rules. -/
theorem RewritesAll.cases (h : RewritesAll Done Cut rules t out)
    (hexact : Exact Done Cut fold P rules) (hsep : Separate weight fold barrier rules)
    (hm : m.Fits barrier rules) (htext : m.text = t) (hP : P t) :
    AllCutNames Done Cut rules m ∧ out = m.renamed ∨
      weigh weight fold m.renamed < weigh weight fold out := by
  induction h generalizing m with
  | nil => exact Or.inl ⟨trivial, by rw [renamed_of_fits_nil hm, htext]⟩
  | @cons rule rules t t' out hfirst _ ih =>
    obtain ⟨hP', m', htext', hm', hcases⟩ := hfirst.cases hexact hsep hm htext hP
    have hrest := ih hexact.tail hsep.tail hm' htext' hP'
    rcases hcases with ⟨hcuts, rfl⟩ | hless
    · rw [Marked.renamed_settle] at hrest
      exact hrest.imp_left fun hall => ⟨⟨hcuts, hall.1⟩, hall.2⟩
    · right
      rcases hrest with ⟨-, rfl⟩ | hmore
      · exact hless
      · exact Int.lt_trans hless hmore

/-- If the rules one after another rename all names at once, each of them cuts out its own names and
nothing else. -/
theorem RewritesAll.allCutNames (h : RewritesAll Done Cut rules t out)
    (hexact : Exact Done Cut fold P rules) (hsep : Separate weight fold barrier rules)
    (hm : m.Fits barrier rules) (htext : m.text = t) (hP : P t) (hout : out = m.renamed) :
    AllCutNames Done Cut rules m := by
  rcases h.cases hexact hsep hm htext hP with hall | hless
  · exact hall.1
  · rw [hout] at hless
    exact absurd hless (Int.lt_irrefl _)

end Hits
end Weights
end RustLake.Rewriting
