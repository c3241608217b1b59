import RustLake.Transform.Macros

/-! The models that a model depends on, as the compiler lists them and as it puts their names in. -/
namespace RustLake.Transform
open Text (Clear)

def pushName (deps : List (List Char)) (refName : List Char) : List (List Char) :=
  if deps.contains refName then deps else deps ++ [refName]

/-- The loop of `dependencies`: each macro is searched for behind the one before. -/
def collectRefs : ℕ → List (List Char) → List Char → List (List Char)
  | 0, deps, _ => deps
  | turns + 1, deps, sql =>
    match around? "ref('".toList sql with
    | none => deps
    | some (_, rest) => match around? "')".toList rest with
      | none => deps
      | some (refName, after) => collectRefs turns (pushName deps refName) after

def SqlCompiler.dependencies (entries : List TransformEntry) (modelName : List Char) :
    Except (List Char) (List (List Char)) :=
  match model? entries modelName with
  | none => .error (engineError ("Model '".toList ++ modelName ++ "' not found".toList))
  | some model => .ok (collectRefs model.sql.length [] model.sql)

/-- The names that `compile` puts in the places of macros. -/
def compiledRefs (entries : List TransformEntry) (modelName : List Char) : List (List Char) :=
  match model? entries modelName with
  | none => []
  | some model => refNames (stripJinjaWrappers model.sql).length (stripJinjaWrappers model.sql)

/-- A stretch of a model's SQL: letters that stay, letters that go with the wrappers, or a macro. -/
inductive Part where
  | text (s : List Char)
  | gap (s : List Char)
  | ref (refName : List Char) (hname : ¬ "')".toList <:+: refName)

namespace Part

def raw : Part → List Char
  | .text s | .gap s => s
  | .ref refName _ => "ref('".toList ++ (refName ++ "')".toList)

def stripped : Part → List Char
  | .text s => s
  | .gap _ => []
  | .ref refName _ => "ref('".toList ++ (refName ++ "')".toList)

def replaced : Part → List Char
  | .text s => s
  | .gap _ => []
  | .ref refName _ => refName

def refName? : Part → Option (List Char)
  | .ref refName _ => some refName
  | _ => none

end Part

/-- No opening begins but at a macro, neither in the text nor without its wrappers, however many macros
are replaced. -/
structure PartsApart (parts : List Part) : Prop where
  raw : ∀ before after, before ++ after = parts → ∀ p ∈ after.head?, p.refName? = none →
    Clear "ref('".toList p.raw (after.tail.flatMap Part.raw)
  stripped : ∀ before after, before ++ after = parts →
    Clear "ref('".toList (before.flatMap Part.replaced) (after.flatMap Part.stripped)

/-- Wrappers are taken away around macros only, and no macro begins in another or comes about when
others are replaced. -/
def RefsApart (sql : List Char) : Prop :=
  ∃ parts, sql = parts.flatMap Part.raw ∧
    stripJinjaWrappers sql = parts.flatMap Part.stripped ∧ PartsApart parts

section Names
variable {parts : List Part} {turns : ℕ} {deps : List (List Char)} {x y : List Char}

theorem mem_foldl_pushName (refNames : List (List Char)) (name : List Char) :
    name ∈ refNames.foldl pushName deps ↔ name ∈ deps ∨ name ∈ refNames := by
  induction refNames generalizing deps with
  | nil => simp
  | cons refName rest ih =>
    rw [List.foldl_cons, ih, List.mem_cons, ← or_assoc]
    apply or_congr_left
    unfold pushName
    split_ifs with hmem
    · rw [List.contains_iff_mem] at hmem
      constructor
      · exact Or.inl
      · rintro (h | rfl)
        · exact h
        · exact hmem
    · rw [List.mem_append, List.mem_singleton]

theorem collectRefs_clear (h : Clear "ref('".toList x y) :
    collectRefs turns deps (x ++ y) = collectRefs turns deps y := by
  cases turns with
  | zero => rfl
  | succ turns =>
    rw [collectRefs, collectRefs, around?_clear h]
    cases around? "ref('".toList y <;> rfl

/-- The list has each name of the macros once. -/
theorem collectRefs_parts (hraw : ∀ before after, before ++ after = parts → ∀ p ∈ after.head?,
      p.refName? = none → Clear "ref('".toList p.raw (after.tail.flatMap Part.raw))
    (hturns : (parts.flatMap Part.raw).length ≤ turns) :
    collectRefs turns deps (parts.flatMap Part.raw) =
      (parts.filterMap Part.refName?).foldl pushName deps := by
  induction parts generalizing turns deps with
  | nil => cases turns <;> rfl
  | cons p rest ih =>
    have hrest : ∀ before after, before ++ after = rest → ∀ q ∈ after.head?, q.refName? = none →
        Clear "ref('".toList q.raw (after.tail.flatMap Part.raw) :=
      fun before after heq => hraw (p :: before) after (by rw [List.cons_append, heq])
    have hfirst : p.refName? = none → Clear "ref('".toList p.raw (rest.flatMap Part.raw) :=
      hraw [] (p :: rest) rfl p rfl
    rw [List.flatMap_cons, List.length_append] at hturns
    rw [List.flatMap_cons]
    cases p with
    | text s =>
      rw [collectRefs_clear (hfirst rfl), ih hrest (by omega)]
      rfl
    | gap s =>
      rw [collectRefs_clear (hfirst rfl), ih hrest (by omega)]
      rfl
    | ref refName hname =>
      have hlength : (Part.ref refName hname).raw.length = refName.length + 7 := by
        simp [Part.raw]
      rw [hlength] at hturns
      obtain ⟨turns, rfl⟩ : ∃ n, turns = n + 1 := Nat.exists_eq_add_one.mpr (by omega)
      have hleft : (rest.flatMap Part.raw).length ≤ turns := by omega
      rw [Part.raw, collectRefs, List.append_assoc, around?_front (by decide)]
      simp only [List.append_assoc, around?_close hname]
      rw [ih hrest hleft]
      rfl

theorem refNames_none (h : Clear "ref('".toList x []) (turns : ℕ) : refNames turns x = [] := by
  cases turns with
  | zero => rfl
  | succ turns =>
    have hnone : around? "ref('".toList x = none :=
      around?_eq_none_iff.mpr ((Text.clear_nil_iff (by decide)).mp h)
    rw [refNames, hnone]

theorem foldr_refName (parts : List Part) :
    parts.foldr (fun p refNames => p.refName?.toList ++ refNames) [] =
      parts.filterMap Part.refName? := by
  induction parts with
  | nil => rfl
  | cons p rest ih =>
    rw [List.foldr_cons, ih]
    cases p <;> rfl

/-- The names in the order in which they are put in. -/
theorem refNames_parts (hstripped : ∀ before after, before ++ after = parts →
      Clear "ref('".toList (before.flatMap Part.replaced) (after.flatMap Part.stripped))
    (hturns : (parts.flatMap Part.stripped).length ≤ turns) :
    refNames turns (parts.flatMap Part.stripped) = parts.filterMap Part.refName? := by
  have hclear : ∀ before after, before ++ after = parts → Clear "ref('".toList
      (before.flatMap Part.replaced) (after.flatMap Part.stripped ++ []) := by
    intro before after heq
    rw [List.append_nil]
    exact hstripped before after heq
  have hloop : ∃ turns', (parts.flatMap Part.replaced ++ []).length ≤ turns' ∧
      refNames turns (parts.flatMap Part.stripped ++ []) =
        parts.foldr (fun p names => p.refName?.toList ++ names)
          (refNames turns' (parts.flatMap Part.replaced ++ [])) := by
    refine Text.loop_foldr _ ?_ hclear ?_
    · intro p _
      cases p with
      | text s => exact Or.inl ⟨rfl, fun _ => rfl⟩
      | gap s => exact Or.inl ⟨rfl, fun _ => rfl⟩
      | ref refName hname =>
        right
        constructor
        · simp [Part.stripped, Part.replaced]
          omega
        · intro turns x y hx
          simp only [Part.stripped, Part.replaced, List.append_assoc] at hx ⊢
          rw [refNames, around?_at (by decide) hx]
          simp only [around?_close hname, List.append_assoc]
          rfl
    · rwa [List.append_nil]
  obtain ⟨turns', -, heq⟩ := hloop
  have hend := hstripped parts [] (List.append_nil parts)
  rw [List.append_nil, List.append_nil, refNames_none hend, foldr_refName] at heq
  exact heq

end Names

/-- The list of dependencies has the names that are put in, if wrappers and macros stand apart. -/
theorem dependencies_compiled {entries : List TransformEntry} {modelName compiled : List Char}
    (hcompiled : compile entries modelName = .ok compiled)
    (hapart : ∀ model, model? entries modelName = some model → RefsApart model.sql) :
    ∃ deps, SqlCompiler.dependencies entries modelName = .ok deps ∧
      ∀ name, name ∈ deps ↔ name ∈ compiledRefs entries modelName := by
  unfold compile at hcompiled
  unfold SqlCompiler.dependencies compiledRefs
  cases hmodel : model? entries modelName with
  | none =>
    rw [hmodel] at hcompiled
    cases hcompiled
  | some model =>
    obtain ⟨parts, hraw, hstripped, hparts⟩ := hapart model hmodel
    refine ⟨_, rfl, ?_⟩
    intro name
    dsimp only
    rw [hstripped, refNames_parts hparts.stripped (le_refl _), hraw,
      collectRefs_parts hparts.raw (le_refl _), mem_foldl_pushName]
    exact or_iff_right List.not_mem_nil

section Wrappers

/-- A stretch outside of wrappers, or a wrapper with white space around what it holds. -/
inductive Group where
  | bare (p : Part)
  | wrapped (left : List Char) (inner : List Part) (right : List Char)

namespace Group

def parts : Group → List Part
  | .bare p => [p]
  | .wrapped left inner right =>
    .gap ("\x7b\x7b".toList ++ left) :: (inner ++ [.gap (right ++ "\x7d\x7d".toList)])

def raw (g : Group) : List Char := g.parts.flatMap Part.raw

def stripped (g : Group) : List Char := g.parts.flatMap Part.stripped

/-- Nothing but a wrapper's braces and its white space goes, and it is closed behind what it holds. -/
def WellFormed : Group → Prop
  | .bare p => p.raw = p.stripped
  | .wrapped left inner right =>
    inner.flatMap Part.raw = inner.flatMap Part.stripped ∧
    trim (left ++ inner.flatMap Part.stripped ++ right) = inner.flatMap Part.stripped ∧
    ¬ "\x7d\x7d".toList <:+: left ++ inner.flatMap Part.stripped ++ right ++ ['\x7d']

end Group

variable {groups : List Group} {x y : List Char}

theorem raw_wrapped {left right : List Char} {inner : List Part}
    (h : (Group.wrapped left inner right).WellFormed) : (Group.wrapped left inner right).raw =
      "\x7b\x7b".toList ++ (left ++ inner.flatMap Part.stripped ++ right ++ "\x7d\x7d".toList) := by
  simp [Group.raw, Group.parts, Part.raw, h.1]

theorem stripped_wrapped (left : List Char) (inner : List Part) (right : List Char) :
    (Group.wrapped left inner right).stripped = inner.flatMap Part.stripped := by
  simp [Group.stripped, Group.parts, Part.stripped]

/-- One wrapper is taken away. -/
theorem stripWrappers_wrapped {left right : List Char} {inner : List Part}
    (h : (Group.wrapped left inner right).WellFormed) (turns : ℕ)
    (hclear : Clear "\x7b\x7b".toList x ((Group.wrapped left inner right).raw ++ y)) :
    stripWrappers (turns + 1) (x ++ ((Group.wrapped left inner right).raw ++ y)) =
      stripWrappers turns (x ++ ((Group.wrapped left inner right).stripped ++ y)) := by
  rw [raw_wrapped h, List.append_assoc] at hclear ⊢
  obtain ⟨-, htrim, hclose⟩ := h
  have hfound : around? "\x7d\x7d".toList
      (left ++ inner.flatMap Part.stripped ++ right ++ "\x7d\x7d".toList ++ y) =
      some (left ++ inner.flatMap Part.stripped ++ right, y) := around?_append hclose
  rw [stripWrappers, around?_at (by decide) hclear]
  simp only [hfound]
  rw [htrim, stripped_wrapped, List.append_assoc]

theorem stripWrappers_none (h : Clear "\x7b\x7b".toList x []) (turns : ℕ) :
    stripWrappers turns x = x := by
  cases turns with
  | zero => rfl
  | succ turns =>
    have hnone : around? "\x7b\x7b".toList x = none :=
      around?_eq_none_iff.mpr ((Text.clear_nil_iff (by decide)).mp h)
    rw [stripWrappers, hnone]

/-- Wrappers that stand apart are all taken away. -/
theorem stripJinjaWrappers_groups (hgroups : ∀ g ∈ groups, g.WellFormed)
    (hclear : ∀ before after, before ++ after = groups → Clear "\x7b\x7b".toList
      (before.flatMap Group.stripped) (after.flatMap Group.raw)) :
    stripJinjaWrappers (groups.flatMap Group.raw) = groups.flatMap Group.stripped := by
  have hbehind : ∀ before after, before ++ after = groups → Clear "\x7b\x7b".toList
      (before.flatMap Group.stripped) (after.flatMap Group.raw ++ []) := by
    intro before after heq
    rw [List.append_nil]
    exact hclear before after heq
  have hloop : ∃ turns', (groups.flatMap Group.stripped ++ []).length ≤ turns' ∧
      stripWrappers (groups.flatMap Group.raw).length (groups.flatMap Group.raw ++ []) =
        stripWrappers turns' (groups.flatMap Group.stripped ++ []) := by
    refine Text.loop_apart ?_ hbehind ?_
    · intro g hg
      cases g with
      | bare p =>
        left
        have hplain : p.raw = p.stripped := hgroups _ hg
        simp [Group.stripped, Group.raw, Group.parts, hplain]
      | wrapped left inner right =>
        right
        have hwrapper := hgroups _ hg
        constructor
        · rw [raw_wrapped hwrapper, stripped_wrapped]
          simp only [List.length_append]
          have hbraces : 0 < "\x7b\x7b".toList.length := by decide
          omega
        · intro turns x y hx
          exact stripWrappers_wrapped hwrapper turns hx
    · rw [List.append_nil]
  obtain ⟨turns', -, heq⟩ := hloop
  have hend := hclear groups [] (List.append_nil groups)
  rw [List.append_nil, List.append_nil, stripWrappers_none hend] at heq
  exact heq

/-- Wrappers that stand apart, around whole macros or other text. -/
theorem refsApart_groups (hgroups : ∀ g ∈ groups, g.WellFormed)
    (hclear : ∀ before after, before ++ after = groups → Clear "\x7b\x7b".toList
      (before.flatMap Group.stripped) (after.flatMap Group.raw))
    (hparts : PartsApart (groups.flatMap Group.parts)) : RefsApart (groups.flatMap Group.raw) := by
  refine ⟨groups.flatMap Group.parts, ?_, ?_, hparts⟩
  · rw [List.flatMap_assoc]
    rfl
  · rw [stripJinjaWrappers_groups hgroups hclear, List.flatMap_assoc]
    rfl

end Wrappers

/-- A model that wraps a name inside of a macro. -/
def innerEntries : List TransformEntry :=
  [⟨"a".toList, "SELECT 1".toList, []⟩,
    ⟨"daily".toList, "SELECT * FROM ref('\x7b\x7b a \x7d\x7d')".toList, []⟩]

/-- The name is put in without its wrapper, and listed with it. -/
theorem not_dependencies_compiled : ¬ ∀ entries modelName compiled,
    compile entries modelName = .ok compiled →
    ∃ deps, SqlCompiler.dependencies entries modelName = .ok deps ∧
      ∀ name, name ∈ deps ↔ name ∈ compiledRefs entries modelName := by
  intro h
  have hcompiled : compile innerEntries "daily".toList = .ok "SELECT * FROM a".toList := by
    decide +kernel
  have hdeps : SqlCompiler.dependencies innerEntries "daily".toList =
      .ok ["\x7b\x7b a \x7d\x7d".toList] := by
    decide +kernel
  have hrefs : compiledRefs innerEntries "daily".toList = ["a".toList] := by decide +kernel
  obtain ⟨deps, hlisted, hsame⟩ := h innerEntries "daily".toList _ hcompiled
  obtain rfl := Except.ok.inj (hdeps.symm.trans hlisted)
  have hmem := (hsame "a".toList).mpr (hrefs ▸ List.mem_singleton_self _)
  exact absurd (List.mem_singleton.mp hmem) (by decide)

theorem closing_not_in_b : ¬ "')".toList <:+: "b".toList := by decide

def dailyGroups : List Group :=
  [.bare (.text "SELECT ".toList), .wrapped " ".toList [.ref "b".toList closing_not_in_b] " ".toList,
    .bare (.text "source('a', 'c')".toList), .bare (.ref "b".toList closing_not_in_b)]

theorem dependencies_compiled_daily :
    ∃ deps, SqlCompiler.dependencies [⟨"b".toList, "SELECT 1".toList, []⟩, dailyEntry]
        "daily".toList = .ok deps ∧
      ∀ name, name ∈ deps ↔
        name ∈ compiledRefs [⟨"b".toList, "SELECT 1".toList, []⟩, dailyEntry] "daily".toList := by
  have hcompiled : compile [⟨"b".toList, "SELECT 1".toList, []⟩, dailyEntry] "daily".toList =
      .ok "SELECT ba.cb".toList := by
    decide +kernel
  refine dependencies_compiled hcompiled ?_
  intro model hmodel
  have hdaily : model? [⟨"b".toList, "SELECT 1".toList, []⟩, dailyEntry] "daily".toList =
      some dailyEntry := by
    decide +kernel
  obtain rfl := Option.some.inj (hdaily.symm.trans hmodel)
  have hgroups : ∀ g ∈ dailyGroups, g.WellFormed := by
    unfold dailyGroups
    simp only [List.forall_mem_cons]
    refine ⟨rfl, ⟨rfl, ?_, ?_⟩, rfl, rfl, fun g hg => absurd hg List.not_mem_nil⟩
    · decide +kernel
    · decide +kernel
  have hclear : ∀ before after, before ++ after = dailyGroups → Clear "\x7b\x7b".toList
      (before.flatMap Group.stripped) (after.flatMap Group.raw) := by
    rw [Text.forall_split_iff]
    decide +kernel
  have hparts : PartsApart (dailyGroups.flatMap Group.parts) := by
    constructor
    · rw [Text.forall_split_iff]
      decide +kernel
    · rw [Text.forall_split_iff]
      decide +kernel
  have hsql : dailyEntry.sql = dailyGroups.flatMap Group.raw := by decide +kernel
  rw [hsql]
  exact refsApart_groups hgroups hclear hparts

end RustLake.Transform
