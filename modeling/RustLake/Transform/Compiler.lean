import RustLake.Rust.Basic

/-! The compiler of SQL transforms: wrappers in braces are taken away, and macros give way to the names
and paths that they stand for. -/
namespace RustLake.Transform

/-- What stands before and after the first occurrence of a pattern. -/
def around? (pat : List Char) : List Char → Option (List Char × List Char)
  | [] => if pat = [] then some ([], []) else none
  | c :: s =>
    if pat <+: c :: s then some ([], (c :: s).drop pat.length)
    else (around? pat s).map fun parts => (c :: parts.1, parts.2)

structure TransformEntry where
  name : List Char
  sql : List Char
  dependsOn : List (List Char)
deriving DecidableEq

/-- The models of a `SqlCompiler`: of entries with one name the last is kept. -/
def model? (entries : List TransformEntry) (name : List Char) : Option TransformEntry :=
  entries.reverse.find? (·.name = name)

theorem mem_of_model? {entries : List TransformEntry} {name : List Char} {entry : TransformEntry}
    (h : model? entries name = some entry) : entry ∈ entries ∧ entry.name = name :=
  ⟨List.mem_reverse.mp (List.mem_of_find?_eq_some h), by simpa using List.find?_some h⟩

/-- Each turn takes the braces of one wrapper away. -/
def stripWrappers : ℕ → List Char → List Char
  | 0, sql => sql
  | turns + 1, sql =>
    match around? "\x7b\x7b".toList sql with
    | none => sql
    | some (before, rest) => match around? "\x7d\x7d".toList rest with
      | none => sql
      | some (inner, after) => stripWrappers turns (before ++ trim inner ++ after)

def stripJinjaWrappers (sql : List Char) : List Char := stripWrappers sql.length sql

def sourceToFilePath (sourceName tableName : List Char) : Option (List Char) :=
  if sourceName = "raw".toList then some ("'sample-data/".toList ++ tableName ++ ".csv'".toList)
  else none

def engineError (message : List Char) : List Char := "Engine error: ".toList ++ message

/-- One `source('name', 'table')`, given what stands behind its first quote: the name, the table and
what stands behind the closing parenthesis. -/
def readSource (modelName rest : List Char) :
    Except (List Char) (List Char × List Char × List Char) := do
  let some (sourceName, rest) := around? ['\''] rest | .error (engineError
    ("Unterminated source() macro in model '".toList ++ modelName ++ ['\'']))
  let some (_, rest) := around? ['\''] rest | .error (engineError
    "Missing table name in source() macro".toList)
  let some (tableName, rest) := around? ['\''] rest | .error (engineError
    "Unterminated source() macro".toList)
  let some (_, after) := around? [')'] rest | .error (engineError
    "Missing closing paren in source()".toList)
  return (sourceName, tableName, after)

/-- Each turn takes the opening parenthesis of one macro away. -/
def resolveSources (modelName : List Char) : ℕ → List Char → Except (List Char) (List Char)
  | 0, sql => .ok sql
  | turns + 1, sql =>
    match around? "source('".toList sql with
    | none => .ok sql
    | some (before, rest) => do
      let (sourceName, tableName, after) ← readSource modelName rest
      let replacement := (sourceToFilePath sourceName tableName).getD
        (sourceName ++ '.' :: tableName)
      resolveSources modelName turns (before ++ replacement ++ after)

/-- The same of `ref('name')`, with names that the compiler must know. -/
def resolveRefs (isModel : List Char → Bool) (modelName : List Char) :
    ℕ → List Char → Except (List Char) (List Char)
  | 0, sql => .ok sql
  | turns + 1, sql =>
    match around? "ref('".toList sql with
    | none => .ok sql
    | some (before, rest) => match around? "')".toList rest with
      | none => .error (engineError
          ("Unterminated ref() macro in model '".toList ++ modelName ++ ['\'']))
      | some (refName, after) =>
        if isModel refName then resolveRefs isModel modelName turns (before ++ refName ++ after)
        else .error (engineError ("Model '".toList ++ modelName ++
          "' references unknown model '".toList ++ refName ++ ['\'']))

/-- `compile_with_source_map` with the paths of the sample data. -/
def compileWithSourceMap (entries : List TransformEntry) (modelName : List Char) :
    Except (List Char) (List Char) :=
  match model? entries modelName with
  | none => .error (engineError ("Model '".toList ++ modelName ++ "' not found".toList))
  | some model => do
    let sql := stripJinjaWrappers model.sql
    let sql ← resolveSources modelName sql.length sql
    resolveRefs (fun refName => (model? entries refName).isSome) modelName sql.length sql

/-- The names in the `ref('name')` macros of a text, in the order in which they are replaced. -/
def refNames : ℕ → List Char → List (List Char)
  | 0, _ => []
  | turns + 1, sql =>
    match around? "ref('".toList sql with
    | none => []
    | some (before, rest) => match around? "')".toList rest with
      | none => []
      | some (refName, after) => refName :: refNames turns (before ++ refName ++ after)

/-- The `ref()` macros that an entry uses. -/
def usedRefs (entry : TransformEntry) : List (List Char) :=
  let sql := stripJinjaWrappers entry.sql
  match resolveSources entry.name sql.length sql with
  | .ok sql => refNames sql.length sql
  | .error _ => []

def entryOrders : TransformEntry where
  name := "orders".toList
  sql := "SELECT id FROM \x7b\x7b source('raw', 'orders') \x7d\x7d".toList
  dependsOn := ["raw.orders".toList]

example : compileWithSourceMap [entryOrders, ⟨"paid".toList,
      "SELECT * FROM \x7b\x7bref('orders')\x7d\x7d WHERE paid".toList, ["orders".toList]⟩] "paid".toList =
    .ok "SELECT * FROM orders WHERE paid".toList := by
  decide +kernel

section Texts
variable {pat s before after : List Char}

theorem around?_eq_some (h : around? pat s = some (before, after)) : s = before ++ pat ++ after := by
  induction s generalizing before with
  | nil =>
    rw [around?] at h
    split_ifs at h with hpat
    cases h
    rw [hpat]
    rfl
  | cons c s ih =>
    rw [around?] at h
    split_ifs at h with hfirst
    · cases h
      obtain ⟨rest, hrest⟩ := hfirst
      rw [← hrest, List.drop_left, List.nil_append]
    · obtain ⟨⟨before', after'⟩, hrest, heq⟩ := Option.map_eq_some_iff.mp h
      cases heq
      rw [List.cons_append, List.cons_append, ← ih hrest]

theorem around?_eq_none_iff : around? pat s = none ↔ ¬ pat <:+: s := by
  induction s with
  | nil =>
    rw [around?]
    split_ifs with hpat
    · rw [hpat]
      simp
    · simp [hpat]
  | cons c s ih =>
    rw [around?]
    split_ifs with hfirst
    · exact iff_of_false (by simp) fun h => h hfirst.isInfix
    · rw [Option.map_eq_none_iff, ih, List.infix_cons_iff, not_or]
      exact (and_iff_right hfirst).symm

/-- Where no occurrence begins in a text, the one behind it is found. -/
theorem around?_append (h : ¬ pat <:+: before ++ pat.dropLast) :
    around? pat (before ++ pat ++ after) = some (before, after) := by
  have hpat : pat ≠ [] := by
    rintro rfl
    exact h List.nil_infix
  induction before with
  | nil =>
    rw [List.nil_append]
    cases hcons : pat ++ after with
    | nil => exact absurd (List.append_eq_nil_iff.mp hcons).1 hpat
    | cons c rest =>
      rw [around?, ← hcons, if_pos (List.prefix_append pat after), List.drop_left]
  | cons c before ih =>
    have hrest : ¬ pat <:+: before ++ pat.dropLast := fun hwithin =>
      h (hwithin.trans (List.suffix_cons _ _).isInfix)
    rw [List.cons_append, List.cons_append, around?, if_neg, ih hrest]
    · rfl
    · intro hfirst
      apply h
      have hshort : c :: (before ++ pat.dropLast) <+: c :: (before ++ pat ++ after) := by
        rw [List.append_assoc]
        refine (List.prefix_cons_inj c).mpr ((List.prefix_append_right_inj before).mpr ?_)
        exact (List.dropLast_prefix pat).trans (List.prefix_append pat after)
      refine (List.prefix_of_prefix_length_le hfirst hshort ?_).isInfix
      simp only [List.length_cons, List.length_append, List.length_dropLast]
      omega

theorem around?_le {x y : List Char} (h : s = x ++ pat ++ y) :
    ∃ before after, around? pat s = some (before, after) ∧ before.length ≤ x.length := by
  induction x generalizing s with
  | nil =>
    rw [List.nil_append] at h
    cases s with
    | nil => exact ⟨[], [], by rw [around?, if_pos (List.append_eq_nil_iff.mp h.symm).1], le_refl _⟩
    | cons c s =>
      have hfirst : pat <+: c :: s := ⟨y, h.symm⟩
      exact ⟨[], _, by rw [around?, if_pos hfirst], le_refl _⟩
  | cons c x ih =>
    rw [List.cons_append, List.cons_append] at h
    rw [h, around?]
    split_ifs with hfirst
    · exact ⟨[], _, rfl, Nat.zero_le _⟩
    · obtain ⟨before', after', hrest, hlength⟩ := ih rfl
      exact ⟨c :: before', after', by rw [hrest]; rfl, Nat.succ_le_succ hlength⟩

/-- The names in the macros that are replaced are known. -/
theorem isModel_of_refNames {isModel : List Char → Bool} {modelName sql compiled refName : List Char}
    {turns : ℕ} (h : resolveRefs isModel modelName turns sql = .ok compiled)
    (href : refName ∈ refNames turns sql) : isModel refName = true := by
  induction turns generalizing sql with
  | zero => cases href
  | succ turns ih =>
    rw [resolveRefs] at h
    rw [refNames] at href
    cases hopen : around? "ref('".toList sql with
    | none =>
      rw [hopen] at href
      cases href
    | some found =>
      simp only [hopen] at h href
      cases hname : around? "')".toList found.2 with
      | none =>
        rw [hname] at href
        cases href
      | some name =>
        simp only [hname] at h href
        split_ifs at h with hmodel
        rcases List.mem_cons.mp href with rfl | href
        · exact hmodel
        · exact ih h href

/-- With a turn for each letter every `ref` macro is replaced. -/
theorem resolveRefs_ok {isModel : List Char → Bool} {modelName sql compiled : List Char} {turns : ℕ}
    (hturns : sql.length ≤ turns) (h : resolveRefs isModel modelName turns sql = .ok compiled) :
    ¬ "ref('".toList <:+: compiled := by
  induction turns generalizing sql with
  | zero =>
    obtain rfl := List.length_eq_zero_iff.mp (Nat.le_zero.mp hturns)
    rw [resolveRefs, Except.ok.injEq] at h
    rw [← h]
    decide
  | succ turns ih =>
    rw [resolveRefs] at h
    split at h
    · rename_i hnone
      rw [← Except.ok.inj h]
      exact around?_eq_none_iff.mp hnone
    · rename_i before rest hsome
      split at h
      · cases h
      · rename_i refName after hname
        split at h
        · refine ih ?_ h
          rw [around?_eq_some hsome, around?_eq_some hname] at hturns
          have hopen : "ref('".toList.length = 5 := rfl
          simp only [List.length_append, hopen] at hturns ⊢
          omega
        · cases h

theorem readSource_ok {modelName rest sourceName tableName after : List Char}
    (h : readSource modelName rest = .ok (sourceName, tableName, after)) :
    ∃ comma between, rest = sourceName ++ ['\''] ++ (comma ++ ['\''] ++ (tableName ++ ['\''] ++
      (between ++ [')'] ++ after))) := by
  unfold readSource at h
  cases hsource : around? ['\''] rest with
  | none => simp [hsource] at h
  | some source =>
    cases hcomma : around? ['\''] source.2 with
    | none => simp [hsource, hcomma] at h
    | some comma =>
      cases htable : around? ['\''] comma.2 with
      | none => simp [hsource, hcomma, htable] at h
      | some table =>
        cases hclose : around? [')'] table.2 with
        | none => simp [hsource, hcomma, htable, hclose] at h
        | some close =>
          simp only [hsource, hcomma, htable, hclose, pure, Except.pure, Except.ok.injEq,
            Prod.mk.injEq] at h
          obtain ⟨rfl, rfl, rfl⟩ := h
          refine ⟨comma.1, close.1, ?_⟩
          rw [← around?_eq_some hclose, ← around?_eq_some htable, ← around?_eq_some hcomma,
            ← around?_eq_some hsource]

/-- With a turn for each parenthesis every `source` macro is replaced. -/
theorem resolveSources_ok {modelName sql compiled : List Char} {turns : ℕ}
    (hturns : sql.count '(' ≤ turns) (h : resolveSources modelName turns sql = .ok compiled) :
    ¬ "source('".toList <:+: compiled := by
  have hopen : "source('".toList.count '(' = 1 := rfl
  induction turns generalizing sql with
  | zero =>
    rw [resolveSources, Except.ok.injEq] at h
    rw [← h]
    rintro ⟨x, y, heq⟩
    rw [← heq, List.count_append, List.count_append, hopen] at hturns
    omega
  | succ turns ih =>
    rw [resolveSources] at h
    split at h
    · rename_i hnone
      rw [← Except.ok.inj h]
      exact around?_eq_none_iff.mp hnone
    · rename_i before rest hsome
      cases hread : readSource modelName rest with
      | error e =>
        rw [hread] at h
        cases h
      | ok parts =>
        obtain ⟨sourceName, tableName, after⟩ := parts
        rw [hread] at h
        refine ih ?_ h
        obtain ⟨comma, between, hrest⟩ := readSource_ok hread
        rw [around?_eq_some hsome, hrest] at hturns
        have hpath : "'sample-data/".toList.count '(' = 0 := rfl
        have hcsv : ".csv'".toList.count '(' = 0 := rfl
        have hreplacement : ((sourceToFilePath sourceName tableName).getD
            (sourceName ++ '.' :: tableName)).count '(' ≤
              sourceName.count '(' + tableName.count '(' := by
          unfold sourceToFilePath
          split_ifs
          · simp only [Option.getD_some, List.count_append, hpath, hcsv]
            omega
          · simp
        simp only [List.count_append, hopen] at hturns ⊢
        omega

end Texts

/-- A compiled text has no macros of other models left. -/
theorem compileWithSourceMap_ok {entries : List TransformEntry} {modelName compiled : List Char}
    (h : compileWithSourceMap entries modelName = .ok compiled) : ¬ "ref('".toList <:+: compiled := by
  unfold compileWithSourceMap at h
  split at h
  · cases h
  · rename_i model hmodel
    cases hsources : resolveSources modelName (stripJinjaWrappers model.sql).length
        (stripJinjaWrappers model.sql) with
    | error e =>
      simp only [hsources] at h
      cases h
    | ok sql =>
      simp only [hsources] at h
      exact resolveRefs_ok (le_refl _) h

end RustLake.Transform
