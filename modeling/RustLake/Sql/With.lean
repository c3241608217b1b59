import RustLake.Order.Keyed
import RustLake.Sql.Token

/-! Queries behind a list of definitions: `WITH name AS (query), name AS (query) query`. -/
namespace RustLake.Sql
open Definitions

/-- What stands before the parenthesis that closes, and what stands behind it. -/
def closeParen : ℕ → List Token → Option (List Token × List Token)
  | _, [] => none
  | depth, t :: ts =>
    if t = .sym ')' ∧ depth = 0 then some ([], ts)
    else (closeParen (if t = .sym '(' then depth + 1 else if t = .sym ')' then depth - 1 else depth)
      ts).map fun r => (t :: r.1, r.2)

structure WithQuery where
  definitions : List (List Char × List Token)
  body : List Token
deriving DecidableEq

/-- The tokens do not go on with the list of definitions or begin another. -/
def isBody (ts : List Token) : Bool :=
  decide (ts.head? ≠ some (.sym ',') ∧ ts.head? ≠ some (.word "with".toList))

def readDefinitions : ℕ → List Token → Option WithQuery
  | n + 1, .word name :: .word ['a', 's'] :: .sym '(' :: ts =>
    (closeParen 0 ts).bind fun (query, rest) =>
      if rest.head? = some (.sym ',') then
        (readDefinitions n rest.tail).map fun q => ⟨(name, query) :: q.definitions, q.body⟩
      else if isBody rest then some ⟨[(name, query)], rest⟩
      else none
  | _, _ => none

def readWith : List Token → Option WithQuery
  | .word ['w', 'i', 't', 'h'] :: ts =>
    if ts.head? = some (.word "recursive".toList) then none else readDefinitions ts.length ts
  | _ => none

/-- What queries mean, given what tables hold: a list of definitions is worked off in order. -/
structure QuerySemantics (V : Type) where
  meaning : List Token → (List Char → V) → V
  meaning_with : ∀ ts q env, readWith ts = some q → meaning ts env =
    meaning q.body (define env (q.definitions.map fun d => ⟨d.1, meaning d.2⟩))

def isName (name : List Char) : Bool :=
  (name.head?.any fun c => isWordStart c && !isWhitespace c) && name.all isWordChar &&
    decide (name.map Char.toLower ≠ "recursive".toList)

/-- A text that ends where its parentheses do, whatever follows them. -/
def Enclosed (query : List Char) (ts : List Token) : Prop :=
  Spells query ts ∧ closeParen 0 (ts ++ [.sym ')']) = some (ts, []) ∧ .sym ';' ∉ ts

structure CommonTable where
  name : List Char
  query : List Char
deriving DecidableEq

def CommonTable.tokens (d : CommonTable) : List Token := (Sql.tokens d.query).getD []

def CommonTable.definition (d : CommonTable) : List Char × List Token :=
  (d.name.map Char.toLower, d.tokens)

/-- The definition can be put into a list of them. -/
def CommonTable.Stands (d : CommonTable) : Prop := isName d.name = true ∧ Enclosed d.query d.tokens

def CommonTable.text (d : CommonTable) : List Char := d.name ++ " AS (".toList ++ d.query ++ [')']

/-- A query behind a list of definitions, or alone where there are none. -/
def withText (defs : List CommonTable) (body : List Char) : List Char :=
  if defs = [] then body
  else "WITH ".toList ++ (", ".toList).intercalate (defs.map CommonTable.text) ++ ' ' :: body

section Spec

theorem tokens_symbol {c : Char} (hc : Mode.start.step c = ([.sym c], .start)) (s : List Char) :
    tokens (c :: s) = (tokens s).map (.sym c :: ·) := by
  simp [tokens, Mode.tokens, hc]

theorem read_word {s : List Char} (hs : s.all isWordChar = true) (text : List Char) :
    (Mode.word text).read s = ([], .word (text ++ s.map Char.toLower)) := by
  induction s generalizing text with
  | nil => simp [Mode.read]
  | cons c s ih =>
    rw [List.all_cons, Bool.and_eq_true] at hs
    simp [Mode.read, Mode.step, hs.1, ih hs.2]

theorem spells_word {s : List Char} (hstart : (s.head?.any fun c => isWordStart c && !isWhitespace c))
    (hs : s.all isWordChar = true) : Spells s [.word (s.map Char.toLower)] := by
  cases s with
  | nil => cases hstart
  | cons c s =>
    rw [List.all_cons, Bool.and_eq_true] at hs
    have hfirst : isWordStart c = true ∧ isWhitespace c = false := by simpa using hstart
    have hstep : Mode.start.step c = ([], .word [c.toLower]) := by
      simp [Mode.step, begin, hfirst]
    have hread : Mode.start.read (c :: s) = ([], .word ((c :: s).map Char.toLower)) := by
      rw [Mode.read, hstep]
      simp [read_word hs.2]
    exact spells_of_read hread rfl (by simp)

theorem closeParen_append {depth : ℕ} {ts query rest : List Token}
    (h : closeParen depth ts = some (query, rest)) (more : List Token) :
    closeParen depth (ts ++ more) = some (query, rest ++ more) := by
  induction ts generalizing depth query with
  | nil => cases h
  | cons t ts ih =>
    rw [closeParen] at h
    rw [List.cons_append, closeParen]
    split_ifs at h ⊢ with hclose
    · cases h
      rfl
    all_goals
      obtain ⟨r, hr, heq⟩ := Option.map_eq_some_iff.mp h
      cases heq
      rw [ih hr]
      rfl

theorem Enclosed.close {query : List Char} {ts : List Token} (h : Enclosed query ts)
    (rest : List Token) : closeParen 0 (ts ++ .sym ')' :: rest) = some (ts, rest) := by
  have hclose := closeParen_append h.2.1 rest
  rwa [List.append_assoc, List.singleton_append, List.nil_append] at hclose

/-- The tokens of definitions, given those of each query, and of what follows them. -/
def definitionTokens : List (List Char × List Token) → List Token → List Token
  | [], body => body
  | (name, query) :: defs, body =>
    .word name :: .word ['a', 's'] :: .sym '(' :: query ++ .sym ')' ::
      if defs = [] then body else .sym ',' :: definitionTokens defs body

theorem readDefinitions_tokens {defs : List (List Char × List Token)} {body : List Token} {n : ℕ}
    (hne : defs ≠ []) (hn : defs.length ≤ n)
    (hdefs : ∀ d ∈ defs, ∀ rest, closeParen 0 (d.2 ++ .sym ')' :: rest) = some (d.2, rest))
    (hbody : isBody body = true) :
    readDefinitions n (definitionTokens defs body) = some ⟨defs, body⟩ := by
  induction defs generalizing n with
  | nil => exact absurd rfl hne
  | cons d defs ih =>
    obtain ⟨name, query⟩ := d
    cases n with
    | zero => simp at hn
    | succ n =>
      have hhead : body.head? ≠ some (.sym ',') := (of_decide_eq_true hbody).1
      rw [definitionTokens, List.cons_append, List.cons_append, List.cons_append, readDefinitions,
        hdefs (name, query) List.mem_cons_self]
      by_cases hlast : defs = []
      · simp [hlast, hhead, hbody]
      · have hrest := ih hlast (Nat.le_of_succ_le_succ hn) fun d hd => hdefs d (List.mem_cons_of_mem _ hd)
        simp [hlast, hrest]

theorem length_le_definitionTokens (defs : List (List Char × List Token)) (body : List Token) :
    defs.length ≤ (definitionTokens defs body).length := by
  induction defs with
  | nil => exact Nat.zero_le _
  | cons d defs ih =>
    obtain ⟨name, query⟩ := d
    rw [definitionTokens]
    split_ifs with hlast
    · simp [hlast]
    · simp only [List.length_cons, List.length_append]
      omega

theorem tokens_commonTable {d : CommonTable} (hd : d.Stands) (s : List Char) :
    tokens (d.text ++ s) = (tokens s).map fun ts => .word (d.name.map Char.toLower) ::
      .word ['a', 's'] :: .sym '(' :: d.tokens ++ .sym ')' :: ts := by
  obtain ⟨hname, hquery⟩ := hd
  unfold isName at hname
  rw [Bool.and_eq_true, Bool.and_eq_true] at hname
  have has : Spells ['A', 'S'] [.word ['a', 's']] := spells_word (by decide) (by decide)
  have htext : d.text ++ s = d.name ++ ' ' :: (['A', 'S'] ++ ' ' :: '(' :: (d.query ++ ')' :: s)) := by
    simp [CommonTable.text]
  rw [htext, spells_word hname.1.1 hname.1.2 _ (delimited_space _), tokens_space,
    has _ (delimited_space _), tokens_space, tokens_symbol (by decide), hquery.1 _ (delimited_close _),
    tokens_symbol (by decide)]
  simp [Function.comp_def]

theorem tokens_definitions {defs : List CommonTable} (hne : defs ≠ [])
    (hdefs : ∀ d ∈ defs, d.Stands) {body : List Char} {ts : List Token}
    (hbody : tokens body = some ts) :
    tokens ((", ".toList).intercalate (defs.map CommonTable.text) ++ ' ' :: body) =
      some (definitionTokens (defs.map CommonTable.definition) ts) := by
  induction defs with
  | nil => exact absurd rfl hne
  | cons d defs ih =>
    have hd := hdefs d List.mem_cons_self
    cases defs with
    | nil =>
      have hone : (", ".toList).intercalate ([d].map CommonTable.text) = d.text := by
        simp [List.intercalate]
      rw [hone, tokens_commonTable hd, tokens_space, hbody]
      simp [definitionTokens, CommonTable.definition]
    | cons e defs =>
      have hrest := ih (by simp) fun f hf => hdefs f (List.mem_cons_of_mem _ hf)
      have hcons : (", ".toList).intercalate ((d :: e :: defs).map CommonTable.text) ++ ' ' :: body =
          d.text ++ (',' :: ' ' :: ((", ".toList).intercalate ((e :: defs).map CommonTable.text) ++
            ' ' :: body)) := by
        simp [List.intercalate]
      rw [hcons, tokens_commonTable hd, tokens_symbol (by decide), tokens_space, hrest]
      simp [definitionTokens, CommonTable.definition]

/-- Definitions that stand by themselves are read back from the text of a query behind them. -/
theorem readWith_withText {defs : List CommonTable} (hne : defs ≠ []) (hdefs : ∀ d ∈ defs, d.Stands)
    {body : List Char} {ts : List Token} (hbody : tokens body = some ts) (hhead : isBody ts = true) :
    ∃ us, tokens (withText defs body) = some us ∧
      readWith us = some ⟨defs.map CommonTable.definition, ts⟩ := by
  have hwith : Spells ['W', 'I', 'T', 'H'] [.word ['w', 'i', 't', 'h']] :=
    spells_word (by decide) (by decide)
  refine ⟨.word ['w', 'i', 't', 'h'] :: definitionTokens (defs.map CommonTable.definition) ts, ?_, ?_⟩
  · have htext : withText defs body = ['W', 'I', 'T', 'H'] ++ ' ' ::
        ((", ".toList).intercalate (defs.map CommonTable.text) ++ ' ' :: body) := by
      simp [withText, hne]
    rw [htext, hwith _ (delimited_space _), tokens_space, tokens_definitions hne hdefs hbody]
    rfl
  · have hread : readDefinitions (definitionTokens (defs.map CommonTable.definition) ts).length
        (definitionTokens (defs.map CommonTable.definition) ts) =
          some ⟨defs.map CommonTable.definition, ts⟩ := by
      refine readDefinitions_tokens (by simpa using hne) (length_le_definitionTokens _ _) ?_ hhead
      intro d hd rest
      obtain ⟨e, he, rfl⟩ := List.mem_map.mp hd
      exact (hdefs e he).2.close rest
    have hfirst : (definitionTokens (defs.map CommonTable.definition) ts).head? ≠
        some (.word "recursive".toList) := by
      obtain ⟨d, rest, rfl⟩ := List.exists_cons_of_ne_nil hne
      have hname := (hdefs d List.mem_cons_self).1
      unfold isName at hname
      rw [Bool.and_eq_true, decide_eq_true_eq] at hname
      rw [List.map_cons, CommonTable.definition, definitionTokens]
      simpa using hname.2
    rw [readWith, if_neg hfirst, hread]

theorem length_withText {defs : List CommonTable} (hne : defs ≠ []) (body : List Char) :
    (withText defs body).length = (defs.map fun d => d.text.length + 2).sum + 4 + body.length := by
  have hjoin : ((", ".toList).intercalate (defs.map CommonTable.text)).length + 2 =
      (defs.map fun d => d.text.length + 2).sum := by
    induction defs with
    | nil => exact absurd rfl hne
    | cons d defs ih =>
      cases defs with
      | nil => simp [List.intercalate]
      | cons e defs =>
        have hrest := ih (by simp)
        simp [List.intercalate] at hrest ⊢
        omega
  simp only [withText, if_neg hne, List.length_append, List.length_cons]
  have hwith : "WITH ".toList.length = 5 := rfl
  omega

/-- A list of definitions is longer than one of a part of them. -/
theorem perm_of_withText_eq {α : Type} {part all : List α} {table : α → CommonTable}
    {body body' : List Char} (hnodup : part.Nodup) (hsub : part ⊆ all)
    (hbody : body.length ≤ body'.length)
    (h : withText (part.map table) body = withText (all.map table) body') :
    part.Perm all ∧ body.length = body'.length := by
  let weight (l : List α) : ℕ := (l.map fun a => (table a).text.length + 2).sum
  have hlength : ∀ (l : List α) (text : List Char), (withText (l.map table) text).length =
      if l = [] then text.length else weight l + 4 + text.length := by
    intro l text
    split_ifs with hl
    · simp [hl, withText]
    · rw [length_withText (by simpa using hl), List.map_map]
      rfl
  obtain ⟨sub, hsame, hsublist⟩ := List.subperm_of_subset hnodup hsub
  obtain ⟨rest, hrest⟩ := hsublist.exists_perm_append
  have hperm := hrest.trans (hsame.append_right rest)
  have hsum : weight all = weight part + weight rest := by
    have hmap := (hperm.map fun a => (table a).text.length + 2).sum_nat
    rwa [List.map_append, List.sum_append] at hmap
  have hcons : ∀ a l, weight (a :: l) = (table a).text.length + 2 + weight l := fun a l => rfl
  have htexts := congrArg List.length h
  rw [hlength, hlength] at htexts
  have hnone : rest = [] := by
    cases rest with
    | nil => rfl
    | cons a rest =>
      have hall : all ≠ [] := by
        rintro rfl
        exact absurd hperm.nil_eq (by simp)
      rw [if_neg hall, hsum, hcons] at htexts
      split_ifs at htexts <;> omega
  rw [hnone, List.append_nil] at hperm
  refine ⟨hperm.symm, ?_⟩
  have hnil : part = [] ↔ all = [] := ⟨fun hp => (hp ▸ hperm).eq_nil, fun hp => (hp ▸ hperm).nil_eq.symm⟩
  have hzero : weight rest = 0 := by rw [hnone]; rfl
  simp only [hnil] at htexts
  split_ifs at htexts <;> omega

/-- The query comes to what its body comes to with the composition of the definitions. -/
theorem meaning_withText {V : Type} (S : QuerySemantics V) {defs : List CommonTable}
    (hdefs : ∀ d ∈ defs, d.Stands) {body : List Char} {ts : List Token}
    (hbody : tokens body = some ts) (hhead : defs ≠ [] → isBody ts = true)
    {given values : List Char → V}
    (hvalues : Composition (defs.map fun d => ⟨d.definition.1, S.meaning d.tokens⟩) given values)
    (hordered : InOrder (defs.map fun d => (⟨d.definition.1, S.meaning d.tokens⟩ :
      Definition (List Char) V))) :
    ∃ us, tokens (withText defs body) = some us ∧ S.meaning us given = S.meaning ts values := by
  have hdefine := define_eq hvalues hordered
  by_cases hne : defs = []
  · refine ⟨ts, by rw [withText, if_pos hne, hbody], ?_⟩
    rw [hne] at hdefine
    rw [← hdefine]
    rfl
  · obtain ⟨us, hus, hread⟩ := readWith_withText hne hdefs hbody (hhead hne)
    refine ⟨us, hus, ?_⟩
    rw [S.meaning_with us _ given hread, ← hdefine, List.map_map]
    rfl

end Spec
end RustLake.Sql
