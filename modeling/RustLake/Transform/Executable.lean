import RustLake.Order.Walk
import RustLake.Sql.With
import RustLake.Transform.Compiler

/-! The SQL that runs a transform: those it depends on stand before it as a list of definitions. -/
namespace RustLake.Transform
open Dependency Walk Definitions Sql

structure Resolving where
  cteParts : List (List Char)
  resolved : List (List Char)

/-- The loop over what an entry depends on. Names with a dot are files. -/
def resolveEach (resolve : List Char → Resolving → Option (Except (ℕ × List Char) Resolving)) :
    List (List Char) → Resolving → Option (Except (ℕ × List Char) Resolving)
  | [], s => some (.ok s)
  | dep :: rest, s =>
    if '.' ∈ dep then resolveEach resolve rest s
    else match resolve dep s with
      | some (.ok s) => resolveEach resolve rest s
      | stopped => stopped

def failedToCompile (what name e : List Char) : ℕ × List Char :=
  (500, "Failed to compile ".toList ++ what ++ " '".toList ++ name ++ "': ".toList ++ e)

/-- `resolve_deps` with calls of itself to a depth, and none where they do not reach. -/
def resolveDeps (entries : List TransformEntry) :
    ℕ → List Char → Resolving → Option (Except (ℕ × List Char) Resolving)
  | 0, _, _ => none
  | calls + 1, name, s =>
    if name ∈ s.resolved then some (.ok s)
    else match entries.find? (·.name = name) with
      | none => some (.ok s)
      | some entry => match resolveEach (resolveDeps entries calls) entry.dependsOn s with
        | some (.ok s) => some (match compileWithSourceMap entries name with
          | .error e => .error (failedToCompile "dependency".toList name e)
          | .ok compiled => .ok ⟨s.cteParts ++ [name ++ " AS (".toList ++ compiled ++ [')']],
              s.resolved ++ [name]⟩)
        | stopped => stopped

/-- The text of a definition without its name and parentheses. -/
def cutDefinition (targetCte : List Char) : List Char :=
  match around? " AS (".toList targetCte with
  | some (_, after) => after.dropLast
  | none => targetCte

def buildExecutableSql (entries : List TransformEntry) (calls : ℕ) (modelName : List Char) :
    Option (Except (ℕ × List Char) (List Char)) :=
  match resolveDeps entries calls modelName ⟨[], []⟩ with
  | none => none
  | some (.error e) => some (.error e)
  | some (.ok s) =>
    if s.cteParts.length ≤ 1 then some (match compileWithSourceMap entries modelName with
      | .error e => .error (failedToCompile "transform".toList modelName e)
      | .ok sql => .ok sql)
    else match s.cteParts.getLast? with
      | none => some (.error (500, "Transform produced no SQL output".toList))
      | some targetCte => some (.ok ("WITH ".toList ++
          (", ".toList).intercalate s.cteParts.dropLast ++ ' ' :: cutDefinition targetCte))

def buildTransformEntries : List TransformEntry := [
  ⟨"stg_orders".toList,
    ("SELECT order_id, customer_id, total_amount, status, CAST(order_date AS DATE) as order_date " ++
      "FROM \x7b\x7b source('raw', 'orders') \x7d\x7d").toList,
    ["raw.orders".toList]⟩,
  ⟨"stg_customers".toList,
    ("SELECT customer_id, name, email, city, tier FROM \x7b\x7b source('raw', 'customers') " ++
      "\x7d\x7d").toList,
    ["raw.customers".toList]⟩,
  ⟨"fct_revenue".toList,
    ("SELECT o.customer_id, c.name, c.tier, ROUND(SUM(o.total_amount), 2) as total_revenue, " ++
      "COUNT(*) as order_count FROM \x7b\x7b ref('stg_orders') \x7d\x7d o JOIN \x7b\x7b " ++
      "ref('stg_customers') \x7d\x7d c ON o.customer_id = c.customer_id WHERE o.status = " ++
      "'completed' GROUP BY o.customer_id, c.name, c.tier").toList,
    ["stg_orders".toList, "stg_customers".toList]⟩,
  ⟨"dim_product_category".toList,
    ("SELECT category, COUNT(*) as product_count, ROUND(AVG(price), 2) as avg_price, " ++
      "SUM(stock_qty) as total_stock FROM \x7b\x7b source('raw', 'products') \x7d\x7d GROUP BY " ++
      "category").toList,
    ["raw.products".toList]⟩,
  ⟨"rpt_customer_ltv".toList,
    ("SELECT r.name, r.tier, r.total_revenue, r.order_count, ROUND(r.total_revenue / " ++
      "r.order_count, 2) as avg_order_value, CASE WHEN r.total_revenue > 500 THEN 'high' WHEN " ++
      "r.total_revenue > 200 THEN 'medium' ELSE 'low' END as ltv_segment FROM \x7b\x7b " ++
      "ref('fct_revenue') \x7d\x7d r ORDER BY r.total_revenue DESC").toList,
    ["fct_revenue".toList]⟩,
  ⟨"tpch_revenue_by_nation".toList,
    ("SELECT c.city as nation, ROUND(SUM(o.total_amount), 2) as revenue, COUNT(*) as order_count " ++
      "FROM \x7b\x7b ref('stg_orders') \x7d\x7d o JOIN \x7b\x7b ref('stg_customers') \x7d\x7d c " ++
      "ON o.customer_id = c.customer_id WHERE o.status = 'completed' GROUP BY c.city ORDER BY " ++
      "revenue DESC").toList,
    ["stg_orders".toList, "stg_customers".toList]⟩]

/-- What `create_transform` does to the transforms of users. -/
def createTransform (user : List TransformEntry) (req : TransformEntry) :
    Except (ℕ × List Char) (List TransformEntry) :=
  if req.name = [] ∨ req.sql = [] then .error (400, "name and sql are required".toList)
  else .ok (user ++ [req])

/-- The entries that `run_transform` builds from. -/
def runnableEntries (user : List TransformEntry) : List TransformEntry :=
  buildTransformEntries ++ user

section Graph
variable (entries : List TransformEntry)

def isTransform (name : List Char) : Bool := (entries.find? (·.name = name)).isSome

def compiled (name : List Char) : List Char := (compileWithSourceMap entries name).toOption.getD []

def commonTable (name : List Char) : CommonTable := ⟨name, compiled entries name⟩

/-- What is followed from a name: what its first entry depends on, names with a dot apart. -/
def followed? (name : List Char) : Option (List (List Char)) :=
  (entries.find? (·.name = name)).map fun entry => entry.dependsOn.filter ('.' ∉ ·)

def compileResult (name : List Char) : Except (ℕ × List Char) Unit :=
  match compileWithSourceMap entries name with
  | .error e => .error (failedToCompile "dependency".toList name e)
  | .ok _ => .ok ()

/-- The transforms that the SQL of a name is built on. -/
def needs (name : List Char) : List (List Char) := ((model? entries name).map usedRefs).getD []

/-- All that entries of a name depend on. -/
def declared (name : List Char) : List (List Char) :=
  (entries.filter (·.name = name)).flatMap (·.dependsOn)

abbrev followed : List Char → List (List Char) := children (followed? entries)

/-- The lists of dependencies name every `ref()`. -/
def Declared : Prop := ∀ entry ∈ entries, ∀ refName ∈ usedRefs entry, refName ∈ entry.dependsOn

/-- The name and all that it is built on have SQL. -/
def Compilable (target : List Char) : Prop :=
  ∀ name, Upstream (needs entries) target name → ∃ sql, compileWithSourceMap entries name = .ok sql

/-- The text is the SQL of a transform behind definitions of the names: one each, of all that the
transform is built on, and of nothing that the lists of dependencies do not lead to. -/
structure Composed (target text : List Char) (names : List (List Char)) : Prop where
  text : text = withText (names.map (commonTable entries)) (compiled entries target)
  defined : ∀ name, DependsOn (needs entries) target name → name ∈ names
  listed : ∀ name ∈ names, DependsOn (followed entries) target name
  compiles : ∀ name ∈ names, ∃ sql, compileWithSourceMap entries name = .ok sql
  once : (names.map (List.map Char.toLower)).Nodup
  ordered : Ordered (needs entries) names
  stands : ∀ name ∈ names, (commonTable entries name).Stands
  body : names ≠ [] → isBody (commonTable entries target).tokens = true

/-- The text means what the SQL of the transform means on top of all that it is built on. -/
def Means (target text : List Char) (names : List (List Char)) : Prop :=
  ∀ (V : Type) (S : QuerySemantics V) (given values : List Char → V) (ts : List Token),
    -- Of the names defined, SQL reads those in its `ref()` macros.
    (∀ name ∈ names, ∀ env env' : List Char → V,
      (∀ k, k ∈ (needs entries name).map (List.map Char.toLower) ∨
        k ∉ names.map (List.map Char.toLower) → env k = env' k) →
      S.meaning (commonTable entries name).tokens env =
        S.meaning (commonTable entries name).tokens env') →
    (∀ name ∈ names, values (name.map Char.toLower) =
      S.meaning (commonTable entries name).tokens values) →
    (∀ k, k ∉ names.map (List.map Char.toLower) → values k = given k) →
    tokens (compiled entries target) = some ts →
    ∃ us, tokens text = some us ∧ S.meaning us given = S.meaning ts values

/-- Building ends for every name, and where no transform depends on itself it gives the composition of
all that a transform is built on. -/
def Sound : Prop :=
  (∀ target, ∃ calls result, buildExecutableSql entries calls target = some result) ∧
  ((∀ name, ¬ DependsOn (declared entries) name name) → Declared entries →
    ∀ target, Compilable entries target →
      ∃ calls text, buildExecutableSql entries calls target = some (.ok text) ∧
        ∃ names, Composed entries target text names ∧ Means entries target text names)

/-- What is followed from a transform is what it is built on, and can be put into a list of
definitions. -/
structure Fit (target : List Char) : Prop where
  compiles : ∀ name, DependsOn (followed entries) target name → isTransform entries name = true →
    ∃ sql, compileWithSourceMap entries name = .ok sql
  follows : ∀ name, Upstream (followed entries) target name → ∀ refName ∈ needs entries name,
    DependsOn (followed entries) name refName
  distinct : ∀ name name', DependsOn (followed entries) target name →
    DependsOn (followed entries) target name' → isTransform entries name = true →
    isTransform entries name' = true → name.map Char.toLower = name'.map Char.toLower → name = name'
  stands : ∀ name, DependsOn (followed entries) target name → isTransform entries name = true →
    (commonTable entries name).Stands
  body : ∀ name, DependsOn (followed entries) target name → isTransform entries name = true →
    ¬ " AS (".toList <:+: target ++ " AS ".toList ∧ isBody (commonTable entries target).tokens = true

/-- Following goes on without end from no name, and what is followed fits. -/
structure Composable : Prop where
  ends : ∀ name, Acc (fun c b => Next (followed? entries) (compileResult entries) b c) name
  fits : (∀ name, ¬ DependsOn (declared entries) name name) → Declared entries →
    ∀ target, Compilable entries target → Fit entries target

end Graph

section Resolve
variable {entries : List TransformEntry}

def resolvedAt (entries : List TransformEntry) (names : List (List Char)) : Resolving :=
  ⟨names.map fun name => (commonTable entries name).text, names⟩

theorem resolveEach_eq {resolve : List Char → Resolving → Option (Except (ℕ × List Char) Resolving)}
    {visit : List Char → List (List Char) → Option (Except (ℕ × List Char) (List (List Char)))}
    (h : ∀ name done, resolve name (resolvedAt entries done) =
      (visit name done).map (Except.map (resolvedAt entries))) (deps done : List (List Char)) :
    resolveEach resolve deps (resolvedAt entries done) =
      (visitAll visit (deps.filter ('.' ∉ ·)) done).map (Except.map (resolvedAt entries)) := by
  induction deps generalizing done with
  | nil => rfl
  | cons dep rest ih =>
    rw [resolveEach]
    by_cases hdot : '.' ∈ dep
    · rw [if_pos hdot, List.filter_cons_of_neg (by simpa using hdot), ih]
    · rw [if_neg hdot, List.filter_cons_of_pos (by simpa using hdot), visitAll, h]
      cases visit dep done with
      | none => rfl
      | some result =>
        cases result with
        | error e => rfl
        | ok done => exact ih done

/-- Resolving is a walk over what is followed. -/
theorem resolveDeps_eq (calls : ℕ) (name : List Char) (done : List (List Char)) :
    resolveDeps entries calls name (resolvedAt entries done) =
      (walk (followed? entries) (compileResult entries) calls name done).map
        (Except.map (resolvedAt entries)) := by
  induction calls generalizing name done with
  | zero => rfl
  | succ calls ih =>
    rw [resolveDeps, walk]
    change (if name ∈ done then _ else _) = _
    by_cases hdone : name ∈ done
    · rw [if_pos hdone, if_pos hdone]
      rfl
    · rw [if_neg hdone, if_neg hdone]
      cases hentry : entries.find? (·.name = name) with
      | none =>
        have hfollowed : followed? entries name = none := by rw [followed?, hentry]; rfl
        rw [hfollowed]
        rfl
      | some entry =>
        have hfollowed : followed? entries name = some (entry.dependsOn.filter ('.' ∉ ·)) := by
          rw [followed?, hentry]
          rfl
        rw [hfollowed]
        dsimp only
        rw [resolveEach_eq ih]
        cases visitAll (walk (followed? entries) (compileResult entries) calls)
            (entry.dependsOn.filter ('.' ∉ ·)) done with
        | none => rfl
        | some result =>
          cases result with
          | error e => rfl
          | ok done =>
            unfold compileResult
            cases hcompile : compileWithSourceMap entries name with
            | error e => rfl
            | ok sql =>
              simp [Except.map, resolvedAt, commonTable, compiled, hcompile, CommonTable.text,
                Except.toOption]

theorem isTransform_eq (name : List Char) : isTransform entries name = (followed? entries name).isSome := by
  unfold isTransform followed?
  rw [Option.isSome_map]

theorem compileResult_iff {name : List Char} : compileResult entries name = .ok () ↔
    ∃ sql, compileWithSourceMap entries name = .ok sql := by
  unfold compileResult
  cases compileWithSourceMap entries name with
  | error e => simp
  | ok sql => simp

theorem compile_eq {name : List Char} (h : ∃ sql, compileWithSourceMap entries name = .ok sql) :
    compileWithSourceMap entries name = .ok (compiled entries name) := by
  obtain ⟨sql, hsql⟩ := h
  rw [compiled, hsql]
  rfl

theorem isTransform_of_compile {name : List Char}
    (h : ∃ sql, compileWithSourceMap entries name = .ok sql) : isTransform entries name = true := by
  obtain ⟨sql, hsql⟩ := h
  unfold compileWithSourceMap at hsql
  split at hsql
  · cases hsql
  · rename_i model hmodel
    obtain ⟨hmem, hname⟩ := mem_of_model? hmodel
    unfold isTransform
    rw [List.find?_isSome]
    exact ⟨model, hmem, by simpa using hname⟩

/-- The `ref()` macros of a text that compiles name transforms. -/
theorem isTransform_of_needs {name refName : List Char}
    (h : ∃ sql, compileWithSourceMap entries name = .ok sql) (href : refName ∈ needs entries name) :
    isTransform entries refName = true := by
  obtain ⟨sql, hsql⟩ := h
  unfold compileWithSourceMap at hsql
  unfold needs at href
  cases hmodel : model? entries name with
  | none =>
    rw [hmodel] at href
    cases href
  | some model =>
    rw [hmodel] at href
    simp only [hmodel] at hsql
    have hname := (mem_of_model? hmodel).2
    simp only [Option.map_some, Option.getD_some, usedRefs, hname] at href
    cases hsources : resolveSources name (stripJinjaWrappers model.sql).length
        (stripJinjaWrappers model.sql) with
    | error e =>
      rw [hsources] at href
      cases href
    | ok text =>
      rw [hsources] at href
      simp only [hsources] at hsql
      have hknown := isModel_of_refNames hsql href
      unfold model? at hknown
      unfold isTransform
      rw [List.find?_isSome] at hknown ⊢
      obtain ⟨entry, hentry, hrefName⟩ := hknown
      exact ⟨entry, List.mem_reverse.mp hentry, hrefName⟩

end Resolve

section Cuts
variable {name query : List Char}

theorem cutDefinition_text (h : ¬ " AS (".toList <:+: name ++ " AS ".toList) :
    cutDefinition (CommonTable.text ⟨name, query⟩) = query := by
  have hlast : " AS (".toList.dropLast = " AS ".toList := by decide
  rw [← hlast] at h
  have hfirst : around? " AS (".toList (name ++ " AS (".toList ++ (query ++ [')'])) =
      some (name, query ++ [')']) := around?_append h
  unfold cutDefinition CommonTable.text
  rw [List.append_assoc, hfirst]
  exact List.dropLast_concat

/-- The cut begins where the first text like the one in front of the SQL ends. -/
theorem exists_cut (name query : List Char) : ∃ before : List Char,
    before.length ≤ name.length ∧
    (cutDefinition (CommonTable.text ⟨name, query⟩)).length + before.length =
        name.length + query.length ∧
      ∀ x y, name ++ " AS ".toList = x ++ " AS (".toList ++ y → before.length ≤ x.length := by
  have hopen : " AS (".toList.length = 5 := rfl
  have has : " AS ".toList ++ ['('] = " AS (".toList := by decide
  have htext : CommonTable.text ⟨name, query⟩ = name ++ " AS (".toList ++ (query ++ [')']) := by
    simp [CommonTable.text]
  obtain ⟨before, after, hfound, hbefore⟩ := around?_le htext
  refine ⟨before, hbefore, ?_, fun x y heq => ?_⟩
  · have hlength := congrArg List.length (htext.symm.trans (around?_eq_some hfound))
    unfold cutDefinition
    rw [hfound]
    simp only [List.length_append, hopen, List.length_singleton, List.length_dropLast] at hlength ⊢
    omega
  · have hearlier : CommonTable.text ⟨name, query⟩ =
        x ++ " AS (".toList ++ (y ++ '(' :: query ++ [')']) := by
      rw [htext, ← has, ← List.append_assoc name, heq]
      simp
    obtain ⟨before', after', hfound', hbefore'⟩ := around?_le hearlier
    rw [hfound] at hfound'
    cases hfound'
    exact hbefore'

theorem length_le_cutDefinition :
    query.length ≤ (cutDefinition (CommonTable.text ⟨name, query⟩)).length := by
  obtain ⟨before, hbefore, hlength, -⟩ := exists_cut name query
  omega

theorem not_infix_of_cutDefinition
    (h : query.length = (cutDefinition (CommonTable.text ⟨name, query⟩)).length) :
    ¬ " AS (".toList <:+: name ++ " AS ".toList := by
  have hopen : " AS (".toList.length = 5 := rfl
  have has : " AS ".toList.length = 4 := rfl
  obtain ⟨before, -, hlength, hfirst⟩ := exists_cut name query
  rintro ⟨x, y, heq⟩
  have hbefore := hfirst x y heq.symm
  have hlengths := congrArg List.length heq
  simp only [List.length_append, hopen, has] at hlengths
  omega

end Cuts

section Build
variable {entries : List TransformEntry} {calls : ℕ} {target : List Char}

theorem build_some_iff : (∃ result, buildExecutableSql entries calls target = some result) ↔
    ∃ r, walk (followed? entries) (compileResult entries) calls target [] = some r := by
  have hresolve := @resolveDeps_eq entries calls target []
  unfold buildExecutableSql
  change resolveDeps entries calls target ⟨[], []⟩ = _ at hresolve
  rw [hresolve]
  cases walk (followed? entries) (compileResult entries) calls target [] with
  | none => simp
  | some r =>
    refine iff_of_true ?_ ⟨r, rfl⟩
    cases r with
    | error e => exact ⟨_, rfl⟩
    | ok names =>
      simp only [Option.map_some, Except.map]
      split_ifs
      · exact ⟨_, rfl⟩
      · split <;> exact ⟨_, rfl⟩

/-- A walk that goes through gives the last definition behind those before it. -/
theorem build_of_order {before : List (List Char)}
    (hwalk : walk (followed? entries) (compileResult entries) calls target [] = some (.ok (before ++ [target])))
    (hcompile : ∃ sql, compileWithSourceMap entries target = .ok sql) :
    buildExecutableSql entries calls target = some (.ok (withText (before.map (commonTable entries))
      (if before = [] then compiled entries target
        else cutDefinition (commonTable entries target).text))) := by
  have hresolve := @resolveDeps_eq entries calls target []
  change resolveDeps entries calls target ⟨[], []⟩ = _ at hresolve
  unfold buildExecutableSql
  rw [hresolve, hwalk]
  by_cases hbefore : before = []
  · simp [hbefore, resolvedAt, Except.map, compile_eq hcompile, withText]
  · have hlong : ¬ before.length + 1 ≤ 1 := by
      have hpos := List.length_pos_of_ne_nil hbefore
      omega
    simp [hbefore, resolvedAt, Except.map, withText, hlong, Function.comp_def]

theorem order_of_build {text : List Char} (htransform : isTransform entries target = true)
    (h : buildExecutableSql entries calls target = some (.ok text)) :
    ∃ before, Order (followed? entries) (compileResult entries) target (before ++ [target]) ∧
      text = withText (before.map (commonTable entries)) (if before = [] then compiled entries target
        else cutDefinition (commonTable entries target).text) := by
  obtain ⟨r, hwalk⟩ := build_some_iff.mp ⟨_, h⟩
  cases r with
  | error e =>
    have hresolve := @resolveDeps_eq entries calls target []
    change resolveDeps entries calls target ⟨[], []⟩ = _ at hresolve
    unfold buildExecutableSql at h
    rw [hresolve, hwalk] at h
    cases h
  | ok names =>
    have horder := walk_order hwalk
    rw [isTransform_eq] at htransform
    obtain ⟨before, rfl⟩ := horder.last htransform
    refine ⟨before, horder, ?_⟩
    have hcompile := compileResult_iff.mp (horder.emitted target (by simp))
    rw [build_of_order hwalk hcompile] at h
    exact (Except.ok.inj (Option.some.inj h)).symm

end Build

section Composition
variable {entries : List TransformEntry} {target text : List Char} {names : List (List Char)}

/-- A text composed so means the composition. -/
theorem Composed.means (h : Composed entries target text names) : Means entries target text names := by
  intro V S given values ts hreads hdefined hkept hts
  have hnames : ∀ l : List (List Char), Definitions.names ((l.map (commonTable entries)).map fun d =>
      (⟨d.definition.1, S.meaning d.tokens⟩ : Definition (List Char) V)) =
        l.map (List.map Char.toLower) := by
    intro l
    simp [Definitions.names, Function.comp_def, CommonTable.definition, commonTable]
  rw [h.text]
  refine @meaning_withText V S _ ?_ _ _ hts ?_ given values ⟨?_, ?_⟩ ?_
  · intro d hd
    obtain ⟨name, hname, rfl⟩ := List.mem_map.mp hd
    exact h.stands name hname
  · intro hne
    have htokens : (commonTable entries target).tokens = ts := by
      change (tokens (compiled entries target)).getD [] = ts
      rw [hts]
      rfl
    rw [← htokens]
    exact h.body (by simpa using hne)
  · intro d hd
    rw [List.map_map] at hd
    obtain ⟨name, hname, rfl⟩ := List.mem_map.mp hd
    exact hdefined name hname
  · intro k hk
    rw [hnames] at hk
    exact hkept k hk
  · intro before d after heq env env' hsame
    rw [List.map_map] at heq
    obtain ⟨before', rest, hsplit, rfl, hrest⟩ := List.map_eq_append_iff.mp heq
    obtain ⟨name, after', rfl, rfl, rfl⟩ := List.map_eq_cons_iff.mp hrest
    have hname : name ∈ names := by
      rw [hsplit]
      exact List.mem_append_right _ List.mem_cons_self
    refine hreads name hname env env' fun k hk => hsame k ?_
    rw [hnames, ← List.map_map, hnames]
    refine hk.imp_left fun hneeds => ?_
    obtain ⟨refName, href, rfl⟩ := List.mem_map.mp hneeds
    exact List.mem_map_of_mem (h.ordered before' name after' hsplit refName href)

/-- What one of the names is built on is among them. -/
theorem Composed.upstream (h : Composed entries target text names) {name : List Char}
    (hname : name ∈ names) {refName : List Char} (href : Upstream (needs entries) name refName) :
    refName ∈ names := by
  induction href with
  | refl => exact hname
  | tail _ hstep ih =>
    obtain ⟨before, after, hsplit⟩ := List.append_of_mem ih
    rw [hsplit]
    exact List.mem_append_left _ (h.ordered before _ after hsplit _ hstep)

/-- A transform that can be compiled is built as it should be just when what is followed fits. -/
theorem Sound.fit (h : Sound entries)
    (hacyclic : ∀ name, ¬ DependsOn (declared entries) name name) (hdeclared : Declared entries)
    (hcompilable : Compilable entries target) : Fit entries target := by
  obtain ⟨calls, text, hbuild, names, hcomposed, -⟩ := h.2 hacyclic hdeclared target hcompilable
  have hcompile := hcompilable target Relation.ReflTransGen.refl
  obtain ⟨before, horder, htext⟩ := order_of_build (isTransform_of_compile hcompile) hbuild
  have hmem : ∀ name, name ∈ before ↔
      DependsOn (followed entries) target name ∧ isTransform entries name = true := by
    intro name
    rw [isTransform_eq]
    exact horder.mem_before
  have hsub : names ⊆ before := fun name hname => (hmem name).mpr
    ⟨hcomposed.listed name hname, isTransform_of_compile (hcomposed.compiles name hname)⟩
  have hbody : (compiled entries target).length ≤ (if before = [] then compiled entries target
      else cutDefinition (commonTable entries target).text).length := by
    split_ifs
    · exact le_refl _
    · exact length_le_cutDefinition
  obtain ⟨hperm, hlength⟩ := perm_of_withText_eq (hcomposed.once.of_map _) hsub hbody
    (hcomposed.text.symm.trans htext)
  have hnames : ∀ name, DependsOn (followed entries) target name → isTransform entries name = true →
      name ∈ names := fun name hname htransform => hperm.mem_iff.mpr ((hmem name).mpr ⟨hname, htransform⟩)
  refine ⟨fun name hname htransform => hcomposed.compiles name (hnames name hname htransform), ?_, ?_,
    fun name hname htransform => hcomposed.stands name (hnames name hname htransform), ?_⟩
  · intro name hupstream refName href
    -- What is followed can be the target itself, and is built as well as it.
    have hname : Compilable entries name := by
      rcases Relation.reflTransGen_iff_eq_or_transGen.mp hupstream with rfl | hdepends
      · exact hcompilable
      · intro other hother
        have htransform : isTransform entries name = true := by
          unfold needs at href
          cases hmodel : model? entries name with
          | none =>
            rw [hmodel] at href
            cases href
          | some model =>
            obtain ⟨hentry, hentryName⟩ := mem_of_model? hmodel
            unfold isTransform
            rw [List.find?_isSome]
            exact ⟨model, hentry, by simpa using hentryName⟩
        exact hcomposed.compiles other (hcomposed.upstream (hnames name hdepends htransform) hother)
    obtain ⟨calls', text', -, names', hcomposed', -⟩ := h.2 hacyclic hdeclared name hname
    exact hcomposed'.listed refName (hcomposed'.defined refName (Relation.TransGen.single href))
  · intro name name' hname hname' htransform htransform' hsame
    exact List.inj_on_of_nodup_map hcomposed.once (hnames name hname htransform)
      (hnames name' hname' htransform') hsame
  · intro name hname htransform
    have hne : names ≠ [] := List.ne_nil_of_mem (hnames name hname htransform)
    refine ⟨?_, hcomposed.body hne⟩
    have hbefore : before ≠ [] := List.ne_nil_of_mem (hsub (hnames name hname htransform))
    rw [if_neg hbefore] at hlength
    exact not_infix_of_cutDefinition hlength

theorem Fit.build (h : Fit entries target)
    (hends : Acc (fun c b => Next (followed? entries) (compileResult entries) b c) target)
    (hcompilable : Compilable entries target) :
    ∃ calls text, buildExecutableSql entries calls target = some (.ok text) ∧
      ∃ names, Composed entries target text names := by
  have hcompile := hcompilable target Relation.ReflTransGen.refl
  have hfine : Fine (followed? entries) (compileResult entries) target := by
    intro name hname htransform
    rw [← isTransform_eq] at htransform
    rw [compileResult_iff]
    rcases Relation.reflTransGen_iff_eq_or_transGen.mp hname with rfl | hdepends
    · exact hcompile
    · exact h.compiles name hdepends htransform
  obtain ⟨calls, order, hwalk⟩ := exists_order (hfine.acc hends) hfine
  have horder := walk_order hwalk
  have htarget := isTransform_of_compile hcompile
  rw [isTransform_eq] at htarget
  obtain ⟨before, rfl⟩ := horder.last htarget
  have hmem : ∀ name, name ∈ before ↔
      DependsOn (followed entries) target name ∧ isTransform entries name = true := by
    intro name
    rw [isTransform_eq]
    exact horder.mem_before
  have hcompiles : ∀ name ∈ before, ∃ sql, compileWithSourceMap entries name = .ok sql :=
    fun name hname => h.compiles name ((hmem name).mp hname).1 ((hmem name).mp hname).2
  have hupstream : ∀ name, Upstream (needs entries) target name →
      Upstream (followed entries) target name := by
    intro name hname
    induction hname with
    | refl => exact Relation.ReflTransGen.refl
    | tail _ hstep ih => exact ih.trans (h.follows _ ih _ hstep).to_reflTransGen
  refine ⟨calls, _, build_of_order hwalk hcompile, before, ?_, ?_, ?_, hcompiles, ?_, ?_, ?_, ?_⟩
  · by_cases hbefore : before = []
    · rw [if_pos hbefore]
    · obtain ⟨name, hname⟩ := List.exists_mem_of_ne_nil before hbefore
      obtain ⟨hdepends, htransform⟩ := (hmem name).mp hname
      rw [if_neg hbefore]
      congr 1
      exact cutDefinition_text (h.body name hdepends htransform).1
  · intro name hname
    have htransform := isTransform_of_compile (hcompilable name hname.to_reflTransGen)
    refine (hmem name).mpr ⟨?_, htransform⟩
    obtain ⟨last, hlast, hstep⟩ := Relation.TransGen.tail'_iff.mp hname
    exact Relation.TransGen.trans_right (hupstream last hlast) (h.follows last (hupstream last hlast) name
      hstep)
  · exact fun name hname => ((hmem name).mp hname).1
  · have hnodup := horder.nodup
    rw [List.nodup_append] at hnodup
    refine List.Nodup.map_on ?_ hnodup.1
    intro name hname name' hname' hsame
    obtain ⟨hdepends, htransform⟩ := (hmem name).mp hname
    obtain ⟨hdepends', htransform'⟩ := (hmem name').mp hname'
    exact h.distinct name name' hdepends hdepends' htransform htransform' hsame
  · intro before' name after hsplit refName href
    have hname : name ∈ before := by
      rw [hsplit]
      exact List.mem_append_right _ List.mem_cons_self
    have htransform := isTransform_of_needs (hcompiles name hname) href
    rw [isTransform_eq] at htransform
    have hbehind : before ++ [target] = before' ++ name :: (after ++ [target]) := by
      rw [hsplit, List.append_assoc, List.cons_append]
    exact mem_of_dependsOn horder.ordered hbehind
      (h.follows name ((hmem name).mp hname).1.to_reflTransGen refName href) htransform
  · exact fun name hname => h.stands name ((hmem name).mp hname).1 ((hmem name).mp hname).2
  · intro hbefore
    obtain ⟨name, hname⟩ := List.exists_mem_of_ne_nil before hbefore
    obtain ⟨hdepends, htransform⟩ := (hmem name).mp hname
    exact (h.body name hdepends htransform).2

end Composition

/-- Transforms are built as they should be just when following ends and what is followed fits. -/
theorem sound_iff_composable (entries : List TransformEntry) : Sound entries ↔ Composable entries := by
  have hends : (∀ target, ∃ calls result, buildExecutableSql entries calls target = some result) ↔
      ∀ name, Acc (fun c b => Next (followed? entries) (compileResult entries) b c) name := by
    refine forall_congr' fun target => ?_
    rw [← exists_walk_iff]
    exact exists_congr fun calls => build_some_iff
  constructor
  · intro h
    exact ⟨hends.mp h.1, fun hacyclic hdeclared target hcompilable =>
      h.fit hacyclic hdeclared hcompilable⟩
  · intro h
    refine ⟨hends.mpr h.ends, fun hacyclic hdeclared target hcompilable => ?_⟩
    obtain ⟨calls, text, hbuild, names, hcomposed⟩ :=
      (h.fits hacyclic hdeclared target hcompilable).build (h.ends target) hcompilable
    exact ⟨calls, text, hbuild, names, hcomposed, hcomposed.means⟩

def entryLoop : TransformEntry := ⟨"loop".toList, "SELECT 1".toList, ["loop".toList]⟩

/-- A transform that depends on itself is accepted, and building it does not end. -/
theorem not_sound_loop : createTransform [] entryLoop = .ok [entryLoop] ∧
    ¬ Sound (runnableEntries [entryLoop]) := by
  refine ⟨by decide +kernel, fun h => ?_⟩
  have hfollowed : followed (runnableEntries [entryLoop]) "loop".toList = ["loop".toList] := by
    decide +kernel
  obtain ⟨calls, result, hresult⟩ := h.1 "loop".toList
  have hacc := (exists_walk_iff _).mp ⟨calls, build_some_iff.mp ⟨result, hresult⟩⟩
  have hself : Next (followed? (runnableEntries [entryLoop]))
      (compileResult (runnableEntries [entryLoop])) "loop".toList "loop".toList :=
    ⟨[], [], hfollowed, fun d hd => absurd hd List.not_mem_nil⟩
  generalize "loop".toList = name at hacc hself
  induction hacc with
  | intro name _ ih => exact ih name hself hself

end RustLake.Transform
