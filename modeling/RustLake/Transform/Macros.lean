import RustLake.Text.Macros
import RustLake.Transform.Compiler

/-! The two compilers of SQL transforms, which resolve the two kinds of macros in opposite orders. -/
namespace RustLake.Transform
open Text (Clear)

/-- The loop over `source()` macros, with any mapper. -/
def mapSources (sourceMapper : List Char → List Char → Option (List Char)) (modelName : List Char) :
    ℕ → List Char → Except (List Char) (List Char)
  | 0, sql => .ok sql
  | turns + 1, sql =>
    match around? "source('".toList sql with
    | none => .ok sql
    | some (before, rest) => do
      let (sourceName, tableName, after) ← readSource modelName rest
      let replacement := (sourceMapper sourceName tableName).getD (sourceName ++ '.' :: tableName)
      mapSources sourceMapper modelName turns (before ++ replacement ++ after)

/-- `compile_with_source_map`: sources first. -/
def compileMapped (sourceMapper : List Char → List Char → Option (List Char))
    (entries : List TransformEntry) (modelName : List Char) : Except (List Char) (List Char) :=
  match model? entries modelName with
  | none => .error (engineError ("Model '".toList ++ modelName ++ "' not found".toList))
  | some model => do
    let sql := stripJinjaWrappers model.sql
    let sql ← mapSources sourceMapper modelName sql.length sql
    resolveRefs (fun refName => (model? entries refName).isSome) modelName sql.length sql

/-- `compile`: references first, then sources, each of which gives way to its two names. -/
def compile (entries : List TransformEntry) (modelName : List Char) :
    Except (List Char) (List Char) :=
  match model? entries modelName with
  | none => .error (engineError ("Model '".toList ++ modelName ++ "' not found".toList))
  | some model => do
    let sql := stripJinjaWrappers model.sql
    let sql ← resolveRefs (fun refName => (model? entries refName).isSome) modelName sql.length sql
    mapSources (fun _ _ => none) modelName sql.length sql

def openings : List (List Char) := ["ref('".toList, "source('".toList]

/-- A stretch of SQL: letters that stay, or a macro. -/
inductive Segment where
  | text (s : List Char)
  | ref (refName : List Char) (hname : ¬ "')".toList <:+: refName)
  | source (sourceName between tableName close : List Char)
      (hquotes : '\'' ∉ sourceName ++ between ++ tableName) (hclose : ')' ∉ close)

/-- A segment with the macros of either kind written out, or replaced. -/
def Segment.shown (refs sources : Bool) : Segment → List Char
  | .text s => s
  | .ref refName _ => if refs then refName else "ref('".toList ++ (refName ++ "')".toList)
  | .source sourceName between tableName close _ _ =>
    if sources then sourceName ++ '.' :: tableName
    else "source('".toList ++ (sourceName ++ '\'' :: (between ++ '\'' :: (tableName ++ '\'' ::
      (close ++ [')']))))

def shown (refs sources : Bool) (segments : List Segment) : List Char :=
  segments.flatMap (·.shown refs sources)

/-- The end of a text from the first macro on that cannot be resolved, if there is one: it is not
closed, or the model is not known. -/
inductive Stuck (isModel : List Char → Bool) : List Char → Prop
  | none : Stuck isModel []
  | openRef {rest : List Char} (h : ¬ "')".toList <:+: rest) : Stuck isModel ("ref('".toList ++ rest)
  | unknown {refName : List Char} (hname : ¬ "')".toList <:+: refName)
      (hsource : ¬ "source('".toList <:+: refName ++ ['\'']) (h : isModel refName = false)
      (rest : List Char) :
      Stuck isModel ("ref('".toList ++ (refName ++ "')".toList ++ rest))
  | openSource {rest : List Char} (h : ¬ "''')".toList.Sublist rest) :
      Stuck isModel ("source('".toList ++ rest)

/-- No opening begins among the segments but at a macro, however many are replaced. -/
def SegmentsApart (segments : List Segment) : Prop :=
  ∀ before after, before ++ after = segments → ∀ other,
    Clear "ref('".toList (shown true other before) (shown false other after) ∧
    Clear "source('".toList (shown other true before) (shown other false after)

instance (segments : List Segment) : Decidable (SegmentsApart segments) :=
  decidable_of_iff' _ Text.forall_split_iff

/-- No macro of a text begins in another or comes about when others are replaced, in either order, up
to the first that cannot be resolved. -/
def MacrosApart (isModel : List Char → Bool) (sql : List Char) : Prop :=
  ∃ segments tail, sql = shown false false segments ++ tail ∧ SegmentsApart segments ∧
    Stuck isModel tail

section Search
variable {pat x y : List Char}

/-- Where no occurrence begins in front, the search goes on behind. -/
theorem around?_clear (h : Clear pat x y) :
    around? pat (x ++ y) = (around? pat y).map fun parts => (x ++ parts.1, parts.2) := by
  induction x with
  | nil =>
    rw [List.nil_append]
    cases around? pat y <;> rfl
  | cons c x ih =>
    rw [List.cons_append, around?, if_neg h.1, ih h.2, Option.map_map]
    rfl

theorem around?_front (hpat : pat ≠ []) (y : List Char) : around? pat (pat ++ y) = some ([], y) := by
  obtain ⟨c, cs, rfl⟩ := List.exists_cons_of_ne_nil hpat
  have hfront : c :: cs <+: c :: (cs ++ y) := List.prefix_append (c :: cs) y
  rw [List.cons_append, around?, if_pos hfront, ← List.cons_append, List.drop_left]

theorem around?_at (hpat : pat ≠ []) (h : Clear pat x (pat ++ y)) :
    around? pat (x ++ (pat ++ y)) = some (x, y) := by
  rw [around?_clear h, around?_front hpat, Option.map_some, List.append_nil]

theorem around?_letter {q : Char} (h : q ∉ x) (y : List Char) :
    around? [q] (x ++ q :: y) = some (x, y) := by
  have hclear : Clear [q] x ([q] ++ y) := by
    induction x with
    | nil => trivial
    | cons c x ih =>
      rw [List.mem_cons, not_or] at h
      refine ⟨?_, ih h.2⟩
      intro hfound
      exact h.1 (List.cons_prefix_cons.mp hfound).1
  exact around?_at (List.cons_ne_nil q []) hclear

/-- The end of a macro's name, which does not hold it. -/
theorem around?_close {refName : List Char} (h : ¬ "')".toList <:+: refName) (y : List Char) :
    around? "')".toList (refName ++ ("')".toList ++ y)) = some (refName, y) := by
  rw [← List.append_assoc]
  apply around?_append
  have hchain := Text.not_pair_infix_iff.mp h
  refine Text.not_pair_infix_iff.mpr (List.isChain_append.mpr ⟨hchain, List.isChain_singleton _, ?_⟩)
  rintro u - v hv ⟨-, hparen⟩
  cases hv
  exact absurd hparen (by decide)

end Search

section Steps
variable {isModel : List Char → Bool} {modelName x y : List Char} {turns : ℕ}

/-- The first `ref()` macro of a text is resolved. -/
theorem resolveRefs_at {refName : List Char} (hname : ¬ "')".toList <:+: refName)
    (hclear : Clear "ref('".toList x ("ref('".toList ++ (refName ++ ("')".toList ++ y)))) :
    resolveRefs isModel modelName (turns + 1)
        (x ++ ("ref('".toList ++ (refName ++ ("')".toList ++ y)))) =
      if isModel refName then resolveRefs isModel modelName turns (x ++ (refName ++ y))
      else .error (engineError ("Model '".toList ++ modelName ++
        "' references unknown model '".toList ++ refName ++ ['\''])) := by
  rw [resolveRefs, around?_at (by decide) hclear]
  simp only [around?_close hname, List.append_assoc]

theorem resolveRefs_none (h : Clear "ref('".toList x []) (turns : ℕ) :
    resolveRefs isModel modelName turns x = .ok x := by
  cases turns with
  | zero => rfl
  | succ turns =>
    have hnone : around? "ref('".toList x = none :=
      around?_eq_none_iff.mpr ((Text.clear_nil_iff (by decide)).mp h)
    rw [resolveRefs, hnone]

theorem readSource_at {sourceName between tableName close : List Char}
    (hquotes : '\'' ∉ sourceName ++ between ++ tableName) (hclose : ')' ∉ close) :
    readSource modelName (sourceName ++ '\'' :: (between ++ '\'' :: (tableName ++ '\'' ::
      (close ++ ')' :: y)))) = .ok (sourceName, tableName, y) := by
  simp only [List.mem_append, not_or] at hquotes
  obtain ⟨⟨hsource, hbetween⟩, htable⟩ := hquotes
  unfold readSource
  simp only [around?_letter hsource, around?_letter hbetween, around?_letter htable,
    around?_letter hclose]
  rfl

theorem mapSources_at {sourceName between tableName close : List Char}
    (hquotes : '\'' ∉ sourceName ++ between ++ tableName) (hclose : ')' ∉ close)
    (hclear : Clear "source('".toList x ("source('".toList ++ (sourceName ++ '\'' :: (between ++
      '\'' :: (tableName ++ '\'' :: (close ++ ')' :: y)))))) :
    mapSources (fun _ _ => none) modelName (turns + 1) (x ++ ("source('".toList ++ (sourceName ++
        '\'' :: (between ++ '\'' :: (tableName ++ '\'' :: (close ++ ')' :: y)))))) =
      mapSources (fun _ _ => none) modelName turns (x ++ ((sourceName ++ '.' :: tableName) ++ y)) := by
  rw [mapSources, around?_at (by decide) hclear]
  dsimp only
  rw [readSource_at hquotes hclose]
  simp only [Option.getD_none, List.append_assoc]
  rfl

theorem mapSources_none (h : Clear "source('".toList x []) (turns : ℕ) :
    mapSources (fun _ _ => none) modelName turns x = .ok x := by
  cases turns with
  | zero => rfl
  | succ turns =>
    have hnone : around? "source('".toList x = none :=
      around?_eq_none_iff.mpr ((Text.clear_nil_iff (by decide)).mp h)
    rw [mapSources, hnone]

end Steps

section Runs
variable {isModel : List Char → Bool} {modelName tail : List Char} {segments : List Segment}
  {turns : ℕ}

/-- The name of a reference is known. -/
def Segment.Known (isModel : List Char → Bool) : Segment → Prop
  | .ref refName _ => isModel refName = true
  | _ => True

/-- References to known models that stand apart are all resolved. -/
theorem resolveRefs_shown (hknown : ∀ s ∈ segments, s.Known isModel) (sources : Bool)
    (hclear : ∀ before after, before ++ after = segments → Clear "ref('".toList
      (shown true sources before) (shown false sources after ++ tail))
    (hturns : (shown false sources segments ++ tail).length ≤ turns) :
    ∃ turns', (shown true sources segments ++ tail).length ≤ turns' ∧
      resolveRefs isModel modelName turns (shown false sources segments ++ tail) =
        resolveRefs isModel modelName turns' (shown true sources segments ++ tail) := by
  refine Text.loop_apart ?_ hclear hturns
  intro s hs
  cases s with
  | text s => exact Or.inl rfl
  | source sourceName between tableName close hquotes hclose => exact Or.inl rfl
  | ref refName hname =>
    right
    have hmodel : isModel refName = true := hknown _ hs
    constructor
    · simp [Segment.shown]
      omega
    · intro turns x y hx
      simp only [Segment.shown, Bool.false_eq_true, if_false, if_true, List.append_assoc] at hx ⊢
      rw [resolveRefs_at hname hx, if_pos hmodel]

theorem mapSources_shown (refs : Bool)
    (hclear : ∀ before after, before ++ after = segments → Clear "source('".toList
      (shown refs true before) (shown refs false after ++ tail))
    (hturns : (shown refs false segments ++ tail).length ≤ turns) :
    ∃ turns', (shown refs true segments ++ tail).length ≤ turns' ∧
      mapSources (fun _ _ => none) modelName turns (shown refs false segments ++ tail) =
        mapSources (fun _ _ => none) modelName turns' (shown refs true segments ++ tail) := by
  refine Text.loop_apart ?_ hclear hturns
  intro s hs
  cases s with
  | text s => exact Or.inl rfl
  | ref refName hname => exact Or.inl rfl
  | source sourceName between tableName close hquotes hclose =>
    right
    constructor
    · simp [Segment.shown]
      omega
    · intro turns x y hx
      simp only [Segment.shown, Bool.false_eq_true, if_false, if_true, List.append_assoc,
        List.cons_append, List.nil_append] at hx ⊢
      rw [mapSources_at hquotes hclose hx]
      simp only [List.append_assoc, List.cons_append]

end Runs

section Tails
variable {isModel : List Char → Bool} {modelName x rest sql : List Char} {turns : ℕ}

theorem ref_mem : "ref('".toList ∈ openings := List.mem_cons_self

theorem source_mem : "source('".toList ∈ openings := List.mem_cons_of_mem _ List.mem_cons_self

/-- An opening completes no occurrence of an opening. -/
theorem clear_opening {pat mid y : List Char} (hpat : pat ∈ openings) (hmid : mid ∈ openings)
    (h : Clear pat x y) (z : List Char) : Clear pat x (y ++ (mid ++ z)) := by
  have hends : ∀ pat ∈ openings, ∀ mid ∈ openings, ∀ u ∈ pat.tail.tails, u ≠ [] →
      ¬ u <+: mid ∧ ¬ mid <+: u := by
    decide
  exact Text.clear_before (hends pat hpat mid hmid) h z

theorem clear_ref_source (h : Clear "ref('".toList x []) (rest : List Char) :
    Clear "ref('".toList (x ++ "source('".toList) rest := by
  rw [Text.clear_append]
  exact ⟨clear_opening ref_mem source_mem h rest, Text.clear_of_apart (by decide) rest⟩

theorem clear_source_ref (h : Clear "source('".toList x []) (rest : List Char) :
    Clear "source('".toList (x ++ "ref('".toList) rest := by
  rw [Text.clear_append]
  exact ⟨clear_opening source_mem ref_mem h rest, Text.clear_of_apart (by decide) rest⟩

theorem clear_source_name {refName : List Char} (hx : Clear "source('".toList x [])
    (hname : ¬ "source('".toList <:+: refName ++ ['\'']) (rest : List Char) :
    Clear "source('".toList (x ++ "ref('".toList ++ (refName ++ "')".toList)) rest := by
  have hclosing : refName ++ "')".toList = refName ++ ['\''] ++ [')'] := by simp
  rw [Text.clear_append (x ++ "ref('".toList), hclosing, Text.clear_append (refName ++ ['\''])]
  exact ⟨clear_source_ref hx _, Text.clear_of_letter (by decide) hname rest,
    Text.clear_of_apart (by decide) rest⟩

/-- Resolving references does not close a `source()` macro. -/
theorem resolveRefs_openSource (hx : Clear "ref('".toList x [])
    (hrest : ¬ "''')".toList.Sublist rest)
    (h : resolveRefs isModel modelName turns (x ++ "source('".toList ++ rest) = .ok sql) :
    ∃ rest', ¬ "''')".toList.Sublist rest' ∧ sql = x ++ "source('".toList ++ rest' := by
  induction turns generalizing rest with
  | zero => exact ⟨rest, hrest, (Except.ok.inj h).symm⟩
  | succ turns ih =>
    rw [resolveRefs, around?_clear (clear_ref_source hx rest)] at h
    cases hopen : around? "ref('".toList rest with
    | none =>
      rw [hopen] at h
      exact ⟨rest, hrest, (Except.ok.inj h).symm⟩
    | some found =>
      obtain ⟨before, behind⟩ := found
      simp only [hopen, Option.map_some] at h
      cases hname : around? "')".toList behind with
      | none =>
        rw [hname] at h
        cases h
      | some name =>
        obtain ⟨refName, after⟩ := name
        simp only [hname] at h
        split_ifs at h with hmodel
        have hshorter : (before ++ (refName ++ after)).Sublist rest := by
          rw [around?_eq_some hopen, around?_eq_some hname, List.append_assoc]
          refine (List.Sublist.refl _).append ((List.Sublist.trans ?_
            (List.sublist_append_right _ _)))
          rw [List.append_assoc]
          exact (List.Sublist.refl _).append (List.sublist_append_right _ _)
        refine ih (fun hsub => hrest (hsub.trans hshorter)) ?_
        simpa only [List.append_assoc] using h

theorem letter_notMem_before {q : Char} {s before after : List Char}
    (h : around? [q] s = some (before, after)) : q ∉ before := by
  induction s generalizing before with
  | nil => cases h
  | cons c s ih =>
    rw [around?] at h
    split_ifs at h with hfirst
    · cases h
      exact List.not_mem_nil
    · obtain ⟨⟨before', after'⟩, hrest, heq⟩ := Option.map_eq_some_iff.mp h
      cases heq
      rw [List.mem_cons, not_or]
      refine ⟨?_, ih hrest⟩
      rintro rfl
      exact hfirst (List.prefix_append [q] s)

/-- Neither name of a source has a quote. -/
theorem quote_notMem_readSource {sourceName tableName after : List Char}
    (h : readSource modelName rest = .ok (sourceName, tableName, after)) :
    '\'' ∉ sourceName ++ tableName := by
  unfold readSource at h
  cases hsource : around? ['\''] rest with
  | none => simp [hsource] at h
  | some source =>
    cases hcomma : around? ['\''] source.2 with
    | none => simp [hsource, hcomma] at h
    | some comma =>
      cases htable : around? ['\''] comma.2 with
      | none => simp [hsource, hcomma, htable] at h
      | some table =>
        cases hclose : around? [')'] table.2 with
        | none => simp [hsource, hcomma, htable, hclose] at h
        | some close =>
          simp only [hsource, hcomma, htable, hclose, pure, Except.pure, Except.ok.injEq,
            Prod.mk.injEq] at h
          obtain ⟨rfl, rfl, rfl⟩ := h
          rw [List.mem_append, not_or]
          exact ⟨letter_notMem_before hsource, letter_notMem_before htable⟩

/-- What a source is replaced by brings no `')` about. -/
theorem not_close_replaced {before sourceName tableName after : List Char}
    (between close : List Char) (hquotes : '\'' ∉ sourceName ++ tableName)
    (h : ¬ "')".toList <:+: before ++ ("source('".toList ++ (sourceName ++ '\'' :: (between ++
      '\'' :: (tableName ++ '\'' :: (close ++ ')' :: after)))))) :
    ¬ "')".toList <:+: before ++ (sourceName ++ '.' :: (tableName ++ after)) := by
  have hopen : "source('".toList = "source(".toList ++ ['\''] := by decide
  have hclosing : "')".toList = ['\'', ')'] := by decide
  rw [hclosing] at h ⊢
  have hafter : ¬ ['\'', ')'] <:+: after := by
    intro hin
    apply h
    refine hin.trans (List.IsSuffix.isInfix ⟨before ++ ("source('".toList ++ (sourceName ++ '\'' ::
      (between ++ '\'' :: (tableName ++ '\'' :: (close ++ [')']))))), ?_⟩)
    simp only [List.append_assoc, List.cons_append, List.nil_append]
  obtain ⟨hbefore, hbehind, -⟩ := List.isChain_append.mp (Text.not_pair_infix_iff.mp h)
  rw [hopen, List.append_assoc, List.isChain_append, List.singleton_append,
    List.isChain_cons] at hbehind
  obtain ⟨-, ⟨hfirst, -⟩, -⟩ := hbehind
  refine Text.not_pair_infix_iff.mpr (List.isChain_append.mpr ⟨hbefore, ?_, ?_⟩)
  · have hletters : '\'' ∉ sourceName ++ '.' :: tableName := by
      simpa using hquotes
    rw [← List.cons_append, ← List.append_assoc, Text.chain_append_iff hletters]
    exact Text.not_pair_infix_iff.mp hafter
  · rintro u - v hv ⟨-, rfl⟩
    cases sourceName with
    | nil => exact absurd (Option.some.inj hv) (by decide)
    | cons c sourceName => exact hfirst _ hv ⟨rfl, rfl⟩

/-- Resolving sources does not close a `ref()` macro, and leaves what stands before. -/
theorem mapSources_behind (hx : ∀ rest, Clear "source('".toList x rest)
    (h : mapSources (fun _ _ => none) modelName turns (x ++ rest) = .ok sql) :
    ∃ rest', sql = x ++ rest' ∧ (¬ "')".toList <:+: rest → ¬ "')".toList <:+: rest') := by
  induction turns generalizing rest with
  | zero => exact ⟨rest, (Except.ok.inj h).symm, id⟩
  | succ turns ih =>
    rw [mapSources, around?_clear (hx rest)] at h
    cases hopen : around? "source('".toList rest with
    | none =>
      rw [hopen] at h
      exact ⟨rest, (Except.ok.inj h).symm, id⟩
    | some found =>
      obtain ⟨before, behind⟩ := found
      simp only [hopen, Option.map_some] at h
      cases hread : readSource modelName behind with
      | error e =>
        rw [hread] at h
        cases h
      | ok parts =>
        obtain ⟨sourceName, tableName, after⟩ := parts
        rw [hread] at h
        have hnext : mapSources (fun _ _ => none) modelName turns
            (x ++ (before ++ (sourceName ++ '.' :: (tableName ++ after)))) = .ok sql := by
          simpa [bind, Except.bind] using h
        obtain ⟨rest', hsql, hclosed⟩ := ih hnext
        refine ⟨rest', hsql, fun hnot => hclosed ?_⟩
        obtain ⟨between, close, hbehind⟩ := readSource_ok hread
        apply not_close_replaced between close (quote_notMem_readSource hread)
        rw [around?_eq_some hopen, hbehind] at hnot
        simpa using hnot

/-- What stands behind the segments makes no occurrence of an opening among them. -/
theorem Stuck.clear {tail pat y : List Char} (hstuck : Stuck isModel tail) (hpat : pat ∈ openings)
    (h : Clear pat x y) : Clear pat x (y ++ tail) := by
  cases hstuck with
  | none => rwa [List.append_nil]
  | openRef hrest => exact clear_opening hpat ref_mem h _
  | unknown hname hsource hmodel rest => exact clear_opening hpat ref_mem h _
  | openSource hrest => exact clear_opening hpat source_mem h _

theorem exists_turn {opening : List Char} (hopening : opening ∈ openings)
    (hturns : (x ++ (opening ++ rest)).length ≤ turns) : ∃ n, turns = n + 1 := by
  have hlength : ∀ opening ∈ openings, 0 < opening.length := by decide
  have hpos := hlength opening hopening
  rw [List.length_append, List.length_append] at hturns
  exact Nat.exists_eq_add_one.mpr (by omega)

theorem resolveRefs_openRef (hx : Clear "ref('".toList x []) (hrest : ¬ "')".toList <:+: rest)
    (hturns : (x ++ ("ref('".toList ++ rest)).length ≤ turns) :
    (resolveRefs isModel modelName turns (x ++ ("ref('".toList ++ rest))).toOption = none := by
  obtain ⟨turns, rfl⟩ := exists_turn ref_mem hturns
  rw [resolveRefs, around?_at (by decide) (clear_opening ref_mem ref_mem hx rest)]
  simp only [around?_eq_none_iff.mpr hrest]
  rfl

theorem resolveRefs_unknown {refName : List Char} (hx : Clear "ref('".toList x [])
    (hname : ¬ "')".toList <:+: refName) (hmodel : isModel refName = false)
    (hturns : (x ++ ("ref('".toList ++ (refName ++ "')".toList ++ rest))).length ≤ turns) :
    (resolveRefs isModel modelName turns
      (x ++ ("ref('".toList ++ (refName ++ "')".toList ++ rest)))).toOption = none := by
  obtain ⟨turns, rfl⟩ := exists_turn ref_mem hturns
  rw [List.append_assoc refName,
    resolveRefs_at hname (clear_opening ref_mem ref_mem hx _), hmodel]
  rfl

theorem mapSources_openSource (hx : Clear "source('".toList x [])
    (hrest : ¬ "''')".toList.Sublist rest)
    (hturns : (x ++ ("source('".toList ++ rest)).length ≤ turns) :
    (mapSources (fun _ _ => none) modelName turns
      (x ++ ("source('".toList ++ rest))).toOption = none := by
  obtain ⟨turns, rfl⟩ := exists_turn source_mem hturns
  rw [mapSources, around?_at (by decide) (clear_opening source_mem source_mem hx rest)]
  dsimp only
  cases hread : readSource modelName rest with
  | error e => rfl
  | ok parts =>
    obtain ⟨sourceName, tableName, after⟩ := parts
    obtain ⟨between, close, rfl⟩ := readSource_ok hread
    apply absurd _ hrest
    have hquote : ∀ l : List Char, ['\''].Sublist (l ++ ['\'']) := fun l =>
      List.sublist_append_right l _
    have hparen : [')'].Sublist (close ++ [')'] ++ after) :=
      (List.sublist_append_right close _).trans (List.sublist_append_left _ after)
    exact (hquote sourceName).append ((hquote between).append ((hquote tableName).append hparen))

end Tails

section Orders
variable {isModel : List Char → Bool} {tail sql : List Char} {segments : List Segment}
  (modelName : List Char)

theorem SegmentsApart.refs (h : SegmentsApart segments) (sources : Bool) :
    Clear "ref('".toList (shown true sources segments) [] :=
  (h segments [] (List.append_nil _) sources).1

theorem SegmentsApart.sources (h : SegmentsApart segments) (refs : Bool) :
    Clear "source('".toList (shown refs true segments) [] :=
  (h segments [] (List.append_nil _) refs).2

/-- What both orders come to, if all macros of the segments are resolved. -/
def resolved (segments : List Segment) (tail : List Char) : Option (List Char) :=
  if tail = [] then some (shown true true segments) else none

theorem resolved_opening {opening rest : List Char} (hopening : opening ∈ openings) :
    resolved segments (opening ++ rest) = none := by
  refine if_neg fun h => ?_
  rw [(List.append_eq_nil_iff.mp h).1] at hopening
  exact absurd hopening (by decide)

/-- All references of the segments are resolved, whatever cannot be resolved behind them. -/
theorem resolveRefs_segments (hknown : ∀ s ∈ segments, s.Known isModel)
    (hapart : SegmentsApart segments) (hstuck : Stuck isModel tail) (sources : Bool) :
    ∃ turns, (shown true sources segments ++ tail).length ≤ turns ∧
      resolveRefs isModel modelName (shown false sources segments ++ tail).length
        (shown false sources segments ++ tail) =
      resolveRefs isModel modelName turns (shown true sources segments ++ tail) :=
  resolveRefs_shown hknown sources
    (fun before after h => hstuck.clear ref_mem (hapart before after h sources).1) (le_refl _)

theorem mapSources_segments (hapart : SegmentsApart segments) (hstuck : Stuck isModel tail)
    (refs : Bool) :
    ∃ turns, (shown refs true segments ++ tail).length ≤ turns ∧
      mapSources (fun _ _ => none) modelName (shown refs false segments ++ tail).length
        (shown refs false segments ++ tail) =
      mapSources (fun _ _ => none) modelName turns (shown refs true segments ++ tail) :=
  mapSources_shown refs
    (fun before after h => hstuck.clear source_mem (hapart before after h refs).2) (le_refl _)

theorem toOption_bind {α β : Type} (result : Except (List Char) α)
    (next : α → Except (List Char) β) :
    (result >>= next).toOption = result.toOption.bind fun a => (next a).toOption := by
  cases result <;> rfl

theorem ok_of_toOption {α : Type} {result : Except (List Char) α} {a : α}
    (h : result.toOption = some a) : result = .ok a := by
  cases result with
  | error e => cases h
  | ok b => rw [Option.some.inj h]

/-- References first, then sources. -/
theorem refs_sources (hknown : ∀ s ∈ segments, s.Known isModel) (hapart : SegmentsApart segments)
    (hstuck : Stuck isModel tail) (hsql : sql = shown false false segments ++ tail) :
    (resolveRefs isModel modelName sql.length sql >>= fun sql =>
      mapSources (fun _ _ => none) modelName sql.length sql).toOption = resolved segments tail := by
  obtain ⟨turns, hturns, hrefs⟩ := resolveRefs_segments modelName hknown hapart hstuck false
  rw [hsql, hrefs, toOption_bind]
  cases hstuck with
  | none =>
    have hend : Stuck isModel [] := .none
    obtain ⟨turns', -, hsources⟩ := mapSources_segments modelName hapart hend true
    rw [List.append_nil, List.append_nil, mapSources_none (hapart.sources true)] at hsources
    rw [List.append_nil, resolveRefs_none (hapart.refs false)]
    exact congrArg Except.toOption hsources
  | openRef hrest =>
    rw [resolveRefs_openRef (hapart.refs false) hrest hturns, resolved_opening ref_mem]
    rfl
  | unknown hname hsource hmodel rest =>
    rw [resolveRefs_unknown (hapart.refs false) hname hmodel hturns, resolved_opening ref_mem]
    rfl
  | openSource hrest =>
    rw [resolved_opening source_mem, Option.bind_eq_none_iff]
    intro sql hresult
    rw [← List.append_assoc] at hresult
    obtain ⟨rest, hopen, rfl⟩ := resolveRefs_openSource (hapart.refs false) hrest
      (ok_of_toOption hresult)
    have hend : Stuck isModel ("source('".toList ++ rest) := .openSource hopen
    obtain ⟨turns', hturns', hsources⟩ := mapSources_segments modelName hapart hend true
    rw [List.append_assoc, hsources]
    exact mapSources_openSource (hapart.sources true) hopen hturns'

/-- Sources first, then references. -/
theorem sources_refs (hknown : ∀ s ∈ segments, s.Known isModel) (hapart : SegmentsApart segments)
    (hstuck : Stuck isModel tail) (hsql : sql = shown false false segments ++ tail) :
    (mapSources (fun _ _ => none) modelName sql.length sql >>= fun sql =>
      resolveRefs isModel modelName sql.length sql).toOption = resolved segments tail := by
  obtain ⟨turns, hturns, hsources⟩ := mapSources_segments modelName hapart hstuck false
  rw [hsql, hsources, toOption_bind]
  cases hstuck with
  | none =>
    have hend : Stuck isModel [] := .none
    obtain ⟨turns', -, hrefs⟩ := resolveRefs_segments modelName hknown hapart hend true
    rw [List.append_nil, List.append_nil, resolveRefs_none (hapart.refs true)] at hrefs
    rw [List.append_nil, mapSources_none (hapart.sources false)]
    exact congrArg Except.toOption hrefs
  | openSource hrest =>
    rw [mapSources_openSource (hapart.sources false) hrest hturns, resolved_opening source_mem]
    rfl
  | openRef hrest =>
    rw [resolved_opening ref_mem, Option.bind_eq_none_iff]
    intro sql hresult
    rw [← List.append_assoc] at hresult
    obtain ⟨rest, rfl, hclosed⟩ := mapSources_behind (clear_source_ref (hapart.sources false))
      (ok_of_toOption hresult)
    have hend : Stuck isModel ("ref('".toList ++ rest) := .openRef (hclosed hrest)
    obtain ⟨turns', hturns', hrefs⟩ := resolveRefs_segments modelName hknown hapart hend true
    rw [List.append_assoc, hrefs]
    exact resolveRefs_openRef (hapart.refs true) (hclosed hrest) hturns'
  | @unknown refName hname hsource hmodel rest =>
    rw [resolved_opening ref_mem, Option.bind_eq_none_iff]
    intro sql hresult
    rw [← List.append_assoc, ← List.append_assoc] at hresult
    obtain ⟨rest, rfl, -⟩ := mapSources_behind
      (clear_source_name (hapart.sources false) hsource) (ok_of_toOption hresult)
    have hend : Stuck isModel ("ref('".toList ++ (refName ++ "')".toList ++ rest)) :=
      .unknown hname hsource hmodel rest
    obtain ⟨turns', hturns', hrefs⟩ := resolveRefs_segments modelName hknown hapart hend true
    rw [List.append_assoc, List.append_assoc, hrefs]
    exact resolveRefs_unknown (hapart.refs true) hname hmodel hturns'

/-- Segments are all resolved, or up to the first reference to a model that is not known. -/
theorem known_or_split (isModel : List Char → Bool) (segments : List Segment) :
    (∀ s ∈ segments, s.Known isModel) ∨
    ∃ before refName hname after, segments = before ++ .ref refName hname :: after ∧
      isModel refName = false ∧ ∀ s ∈ before, s.Known isModel := by
  induction segments with
  | nil => exact Or.inl fun s hs => absurd hs List.not_mem_nil
  | cons s rest ih =>
    by_cases hs : s.Known isModel
    · rcases ih with hall | ⟨before, refName, hname, after, rfl, hmodel, hknown⟩
      · exact Or.inl (List.forall_mem_cons.mpr ⟨hs, hall⟩)
      · exact Or.inr ⟨s :: before, refName, hname, after, rfl, hmodel,
          List.forall_mem_cons.mpr ⟨hs, hknown⟩⟩
    · cases s with
      | ref refName hname =>
        exact Or.inr ⟨[], refName, hname, rest, rfl, Bool.eq_false_iff.mpr hs,
          fun s hs => absurd hs List.not_mem_nil⟩
      | text s => exact absurd trivial hs
      | source sourceName between tableName close hquotes hclose => exact absurd trivial hs

theorem shown_append (refs sources : Bool) (before after : List Segment) :
    shown refs sources (before ++ after) = shown refs sources before ++ shown refs sources after :=
  List.flatMap_append

/-- The segments before a reference to a model that is not known are left. -/
theorem exists_known (hapart : SegmentsApart segments) (hstuck : Stuck isModel tail) :
    ∃ segments' tail', shown false false segments ++ tail = shown false false segments' ++ tail' ∧
      (∀ s ∈ segments', s.Known isModel) ∧ SegmentsApart segments' ∧ Stuck isModel tail' := by
  rcases known_or_split isModel segments with
    hknown | ⟨before, refName, hname, after, rfl, hmodel, hknown⟩
  · exact ⟨segments, tail, rfl, hknown, hapart, hstuck⟩
  · refine ⟨before, _, ?_, hknown, ?_, .unknown hname ?_ hmodel (shown false false after ++ tail)⟩
    · rw [shown_append]
      simp [shown, Segment.shown]
    · intro front back heq other
      have hwhole := hapart front (back ++ .ref refName hname :: after)
        (by rw [← List.append_assoc, heq]) other
      rw [shown_append, shown_append] at hwhole
      exact ⟨Text.clear_of_append hwhole.1, Text.clear_of_append hwhole.2⟩
    · have hclear := (hapart (before ++ [.ref refName hname]) after (by simp) false).2
      rw [shown_append, Text.clear_append] at hclear
      have hshown : shown false true [.ref refName hname] =
          "ref('".toList ++ (refName ++ ['\''] ++ [')']) := by
        simp [shown, Segment.shown]
      rw [hshown, Text.clear_append, Text.clear_append] at hclear
      exact Text.not_infix_of_clear (by decide) hclear.2.2.1

end Orders

/-- A model that reads another, inside the macro of a source. -/
def nestedEntries : List TransformEntry :=
  [⟨"b".toList, "SELECT 1".toList, []⟩,
    ⟨"daily".toList, "SELECT * FROM source('a', 'ref('b')')".toList, ["b".toList]⟩]

/-- A model with references and a source side by side. -/
def dailyEntry : TransformEntry :=
  ⟨"daily".toList, "SELECT \x7b\x7b ref('b') \x7d\x7dsource('a', 'c')ref('b')".toList, []⟩

def dailySegments : List Segment :=
  [.text "SELECT ".toList, .ref "b".toList (by decide),
    .source "a".toList ", ".toList "c".toList [] (by decide) (by decide),
    .ref "b".toList (by decide)]

end RustLake.Transform
