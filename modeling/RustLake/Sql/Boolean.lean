import RustLake.Sql.Token

/-! Boolean expressions as SQL reads them, `NOT` before `AND` before `OR`, over any kind of
operand; and three-valued truth. -/
namespace RustLake.Sql

@[match_pattern] def Token.and : Token := .word ['a', 'n', 'd']
@[match_pattern] def Token.or : Token := .word ['o', 'r']
@[match_pattern] def Token.not : Token := .word ['n', 'o', 't']

/-- True, false or unknown. -/
abbrev Truth := Option Bool

namespace Truth

def not (a : Truth) : Truth := a.map (!·)

def and : Truth → Truth → Truth
  | some false, _ => some false
  | _, some false => some false
  | some true, some true => some true
  | _, _ => none

def or : Truth → Truth → Truth
  | some true, _ => some true
  | _, some true => some true
  | some false, some false => some false
  | _, _ => none

theorem and_eq_true {a b : Truth} : and a b = some true ↔ a = some true ∧ b = some true := by
  rcases a with _ | _ | _ <;> rcases b with _ | _ | _ <;> simp [and]

end Truth

/-- The expressions that a reader makes, and its reader of operands: all that binds tighter than
`NOT`. It is given the reader of whole expressions, for those in parentheses, and reads no less
when that one reads more. -/
structure Grammar (E : Type) where
  not : E → E
  and : E → E → E
  or : E → E → E
  operand : (List Token → Option (E × List Token)) → List Token → Option (E × List Token)
  operand_mono : ∀ {f g : List Token → Option (E × List Token)},
    (∀ ts x, f ts = some x → g ts = some x) → ∀ {ts x}, operand f ts = some x → operand g ts = some x

/-- Where a reader is: at the beginning of an expression of a level, or after the left part of
a disjunction or a conjunction. -/
inductive Level (E : Type) where
  | or
  | orRest (a : E)
  | and
  | andRest (a : E)
  | not

variable {E : Type}

/-- The expression of a level at the front of some tokens, and the tokens after it. The number
bounds the depth of the calls. -/
def Grammar.read (g : Grammar E) : ℕ → Level E → List Token → Option (E × List Token)
  | 0, _, _ => none
  | n + 1, .or, ts => (g.read n .and ts).bind fun r => g.read n (.orRest r.1) r.2
  | n + 1, .orRest a, ts => match ts with
    | .or :: ts => (g.read n .and ts).bind fun r => g.read n (.orRest (g.or a r.1)) r.2
    | ts => some (a, ts)
  | n + 1, .and, ts => (g.read n .not ts).bind fun r => g.read n (.andRest r.1) r.2
  | n + 1, .andRest a, ts => match ts with
    | .and :: ts => (g.read n .not ts).bind fun r => g.read n (.andRest (g.and a r.1)) r.2
    | ts => some (a, ts)
  | n + 1, .not, ts => match ts with
    | .not :: ts => (g.read n .not ts).map fun r => (g.not r.1, r.2)
    | ts => g.operand (g.read n .or) ts

/-- An expression of a level stands at the front of some tokens. -/
def Grammar.Reads (g : Grammar E) (level : Level E) (ts : List Token) (a : E)
    (rest : List Token) : Prop := ∃ n, g.read n level ts = some (a, rest)

/-- The tokens as a whole are an expression. -/
def Grammar.ReadsAs (g : Grammar E) (ts : List Token) (a : E) : Prop := g.Reads .or ts a []

variable {g : Grammar E}

theorem Grammar.read_succ {n : ℕ} {level : Level E} {ts : List Token} {x : E × List Token}
    (h : g.read n level ts = some x) : g.read (n + 1) level ts = some x := by
  induction n generalizing level ts x with
  | zero => cases h
  | succ n ih =>
    cases level with
    | or =>
      obtain ⟨r, hr, hrest⟩ := Option.bind_eq_some_iff.mp h
      exact Option.bind_eq_some_iff.mpr ⟨r, ih hr, ih hrest⟩
    | and =>
      obtain ⟨r, hr, hrest⟩ := Option.bind_eq_some_iff.mp h
      exact Option.bind_eq_some_iff.mpr ⟨r, ih hr, ih hrest⟩
    | orRest a =>
      unfold Grammar.read at h ⊢
      split at h
      · obtain ⟨r, hr, hrest⟩ := Option.bind_eq_some_iff.mp h
        exact Option.bind_eq_some_iff.mpr ⟨r, ih hr, ih hrest⟩
      · exact h
    | andRest a =>
      unfold Grammar.read at h ⊢
      split at h
      · obtain ⟨r, hr, hrest⟩ := Option.bind_eq_some_iff.mp h
        exact Option.bind_eq_some_iff.mpr ⟨r, ih hr, ih hrest⟩
      · exact h
    | not =>
      unfold Grammar.read at h ⊢
      split at h
      · obtain ⟨r, hr, hx⟩ := Option.map_eq_some_iff.mp h
        exact Option.map_eq_some_iff.mpr ⟨r, ih hr, hx⟩
      · exact g.operand_mono (fun ts x hx => ih hx) h

theorem Grammar.read_mono {n m : ℕ} (hle : n ≤ m) {level : Level E} {ts : List Token}
    {x : E × List Token} (h : g.read n level ts = some x) : g.read m level ts = some x := by
  induction hle with
  | refl => exact h
  | step _ ih => exact read_succ ih

namespace Grammar.Reads
variable {level : Level E} {ts ts' rest : List Token} {a b c : E}

/-- Nothing reads in two ways. -/
theorem unique {rest' : List Token} (h : g.Reads level ts a rest)
    (h' : g.Reads level ts b rest') : a = b ∧ rest = rest' := by
  obtain ⟨n, hn⟩ := h
  obtain ⟨m, hm⟩ := h'
  have hsame := (read_mono (le_max_left n m) hn).symm.trans (read_mono (le_max_right n m) hm)
  simpa using hsame

theorem or (h : g.Reads .and ts a ts') (hrest : g.Reads (.orRest a) ts' c rest) :
    g.Reads .or ts c rest := by
  obtain ⟨n, hn⟩ := h
  obtain ⟨m, hm⟩ := hrest
  refine ⟨max n m + 1, Option.bind_eq_some_iff.mpr ⟨(a, ts'), ?_, ?_⟩⟩
  · exact read_mono (le_max_left n m) hn
  · exact read_mono (le_max_right n m) hm

theorem and (h : g.Reads .not ts a ts') (hrest : g.Reads (.andRest a) ts' c rest) :
    g.Reads .and ts c rest := by
  obtain ⟨n, hn⟩ := h
  obtain ⟨m, hm⟩ := hrest
  refine ⟨max n m + 1, Option.bind_eq_some_iff.mpr ⟨(a, ts'), ?_, ?_⟩⟩
  · exact read_mono (le_max_left n m) hn
  · exact read_mono (le_max_right n m) hm

theorem orRest (h : g.Reads .and ts b ts') (hrest : g.Reads (.orRest (g.or a b)) ts' c rest) :
    g.Reads (.orRest a) (.or :: ts) c rest := by
  obtain ⟨n, hn⟩ := h
  obtain ⟨m, hm⟩ := hrest
  refine ⟨max n m + 1, Option.bind_eq_some_iff.mpr ⟨(b, ts'), ?_, ?_⟩⟩
  · exact read_mono (le_max_left n m) hn
  · exact read_mono (le_max_right n m) hm

theorem andRest (h : g.Reads .not ts b ts')
    (hrest : g.Reads (.andRest (g.and a b)) ts' c rest) :
    g.Reads (.andRest a) (.and :: ts) c rest := by
  obtain ⟨n, hn⟩ := h
  obtain ⟨m, hm⟩ := hrest
  refine ⟨max n m + 1, Option.bind_eq_some_iff.mpr ⟨(b, ts'), ?_, ?_⟩⟩
  · exact read_mono (le_max_left n m) hn
  · exact read_mono (le_max_right n m) hm

theorem orRest_stop (h : ts.head? ≠ some .or) : g.Reads (.orRest a) ts a ts := by
  refine ⟨1, ?_⟩
  unfold Grammar.read
  split
  · exact absurd rfl h
  · rfl

theorem andRest_stop (h : ts.head? ≠ some .and) : g.Reads (.andRest a) ts a ts := by
  refine ⟨1, ?_⟩
  unfold Grammar.read
  split
  · exact absurd rfl h
  · rfl

theorem not (h : g.Reads .not ts a rest) : g.Reads .not (.not :: ts) (g.not a) rest := by
  obtain ⟨n, hn⟩ := h
  exact ⟨n + 1, Option.map_eq_some_iff.mpr ⟨(a, rest), hn, rfl⟩⟩

theorem operand {n : ℕ} (hnot : ts.head? ≠ some .not)
    (h : g.operand (g.read n .or) ts = some (a, rest)) : g.Reads .not ts a rest := by
  refine ⟨n + 1, ?_⟩
  unfold Grammar.read
  split
  · exact absurd rfl hnot
  · exact h

/-- An expression of the level of `NOT` before the end of an expression. -/
theorem of_not (h : g.Reads .not ts a rest) (hand : rest.head? ≠ some .and)
    (hor : rest.head? ≠ some .or) : g.Reads .or ts a rest :=
  (h.and (andRest_stop hand)).or (orRest_stop hor)

end Grammar.Reads
end RustLake.Sql
