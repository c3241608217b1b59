import RustLake.Auth.RowFilter
import RustLake.Rust.Unicode

/-! Filters added as text to queries that take them are conditions of the query. -/
namespace RustLake.Auth
open RustLake.Sql RustLake.Text
variable {E Row : Type} {S : Logic E Row} {lower : Lowercase}

theorem isTail_cases {ts : List Token} (h : isTail ts = true) : ts = [] ∨ Stops ts := by
  cases ts with
  | nil => exact Or.inl rfl
  | cons t ts =>
    have hhead : t.isClause = true := by
      have hboth := (Bool.and_eq_true_iff.mp h).1
      simpa using hboth
    exact Or.inr ⟨t, ts, rfl, Or.inr hhead⟩

theorem reads_before_tail {level : Level E} {ts tail : List Token} {f : E}
    (h : S.Reads level ts f []) (htail : isTail tail = true) :
    S.Reads level (ts ++ tail) f tail := by
  rcases isTail_cases htail with rfl | hstops
  · rwa [List.append_nil]
  · exact Logic.reads_append hstops h

/-- A conjunction before the next clause is the whole condition. -/
theorem reads_or_of_and {ts tail : List Token} {f : E} (h : S.Reads .and ts f tail)
    (htail : isTail tail = true) : S.Reads .or ts f tail := by
  refine h.or (.orRest_stop ?_)
  rcases isTail_cases htail with rfl | hstops
  · simp
  · exact hstops.head_ne (by decide) (by decide)

theorem tokens_open (x : List Char) : tokens (" (".toList ++ x) = (tokens x).map (.sym '(' :: ·) := by
  have hread : Mode.start.read " (".toList = ([.sym '('], .start) := by decide
  rw [tokens, Mode.tokens_append, hread]
  rfl

theorem tokens_close_and (x : List Char) :
    tokens (") AND ".toList ++ x) = (tokens x).map (.sym ')' :: .and :: ·) := by
  have hread : Mode.start.read ") AND ".toList = ([.sym ')', .and], .start) := by decide
  rw [tokens, Mode.tokens_append, hread]
  rfl

/-- A filter in parentheses before a condition. -/
theorem tokens_filter_and {filter body : List Char} {ts us : List Token} (hfilter : Spells filter ts)
    (hbody : tokens body = some us) :
    tokens (" (".toList ++ filter ++ ") AND ".toList ++ body) =
      some (.sym '(' :: ts ++ .sym ')' :: .and :: us) := by
  have htext : ") AND ".toList = ')' :: " AND ".toList := by decide
  have hdelimited : Delimited (") AND ".toList ++ body) := by
    rw [htext]
    exact delimited_close _
  rw [List.append_assoc, List.append_assoc, tokens_open, hfilter _ hdelimited, tokens_close_and,
    hbody]
  rfl

theorem not_where_of_short {x : List Char} (h : x.length < 5) : ¬ whereText <:+: x := by
  intro hwithin
  have hlen : whereText.length = 5 := by decide
  have hle := hwithin.length_le
  omega

theorem not_where_filter_and {blank : Char} {filter body : List Char} (hblank : blank.toNat < 128)
    (hfilter : ¬ whereText <:+: lower.text filter)
    (hbody : ¬ whereText <:+: lower.text (blank :: body)) :
    ¬ whereText <:+: lower.text (blank :: (" (".toList ++ filter ++ ") AND ".toList ++ body)) := by
  have hopen : lower.text " (".toList = [' '] ++ ['('] := lower.text_ascii (by simp)
  have hclose : lower.text ") AND ".toList = ')' :: " and".toList ++ [' '] :=
    lower.text_ascii (by simp)
  have hfront : lower.text [blank] = [blank.toLower] := by
    simpa [Lowercase.text] using lower.ascii blank hblank
  have hcons : ∀ x, lower.text (blank :: x) = blank.toLower :: lower.text x := by
    intro x
    rw [← List.singleton_append, lower.text_append, hfront, List.singleton_append]
  rw [hcons] at hbody
  have hrest : ¬ whereText <:+: lower.text body := fun h =>
    hbody (h.trans (List.suffix_cons _ _).isInfix)
  have hand : ¬ whereText <:+: " and".toList ++ ' ' :: lower.text body :=
    not_infix_append_cons (by decide) (not_where_of_short (by decide)) hrest
  have hlast : ¬ whereText <:+: lower.text filter ++ ')' :: (" and".toList ++ ' ' :: lower.text body) :=
    not_infix_append_cons (by decide) hfilter hand
  have hfirst : ¬ whereText <:+: [blank.toLower, ' '] ++ '(' ::
      (lower.text filter ++ ')' :: (" and".toList ++ ' ' :: lower.text body)) :=
    not_infix_append_cons (by decide) (not_where_of_short (by simp)) hlast
  rw [hcons, lower.text_append, lower.text_append, lower.text_append, hopen, hclose]
  simpa using hfirst

theorem keyword_ascii {keyword : List Char} (h : keyword.map Char.toLower = whereText) :
    ∀ c ∈ keyword, c.toNat < 128 := by
  intro c hc
  have hmem : c.toLower ∈ whereText := h ▸ List.mem_map_of_mem hc
  have hascii : ∀ d ∈ whereText, d.toNat < 128 := by simp [whereText]
  exact toNat_lt_of_toLower (hascii _ hmem) rfl

/-- The filter goes between the blank after the keyword and the condition. -/
theorem WhereQuery.injectFilter_text (q : WhereQuery S lower) (filter : List Char) :
    injectFilter lower filter q.text = some (q.head ++ q.keyword ++ q.blank ::
      (" (".toList ++ filter ++ ") AND ".toList ++ q.body)) := by
  have hkeyword := keyword_ascii q.isKeyword
  have hword : lower.text q.keyword = 'w' :: "here".toList := by
    rw [lower.text_ascii hkeyword, q.isKeyword]
    decide
  have hlower : lower.text q.text =
      lower.text q.head ++ 'w' :: "here".toList ++ lower.text (q.blank :: q.body) := by
    rw [WhereQuery.text, lower.text_append, lower.text_append, hword]
  have hpos : rfind whereText (lower.text q.text) = some (byteLength q.head) := by
    have htext : whereText = 'w' :: "here".toList := by decide
    rw [hlower, htext, rfind_last (by decide) _ (htext ▸ q.noWhere), q.sameLength]
  have hsix : byteLength q.head + 6 = byteLength (q.head ++ q.keyword ++ [q.blank]) := by
    have hascii : ∀ c ∈ q.keyword ++ [q.blank], c.toNat < 128 := by
      intro c hc
      rcases List.mem_append.mp hc with hc | hc
      · exact hkeyword c hc
      · rw [List.mem_singleton.mp hc]
        exact q.isBlank
    have hlength : q.keyword.length = 5 := by
      have hmap := congrArg List.length q.isKeyword
      rwa [List.length_map] at hmap
    rw [List.append_assoc, byteLength_append, byteLength_ascii hascii]
    simp [hlength]
  have htext : q.text = q.head ++ q.keyword ++ [q.blank] ++ q.body := by simp [WhereQuery.text]
  unfold injectFilter
  rw [hpos]
  simp only [hsix]
  rw [htext, splitAtByte?_append]
  simp

/-- A filter demands one condition. -/
theorem TablePolicy.Fits.demands_eq {policy : TablePolicy} {username head filter : List Char}
    {ts : List Token} {f g : E} (h : policy.Fits S lower username head filter ts f)
    (hg : policy.Demands S username g) : g = f := by
  obtain ⟨filter', us, hfilter, htokens, hreads⟩ := hg
  obtain rfl : filter = filter' := Option.some.inj (h.filter_eq.symm.trans hfilter)
  obtain rfl : ts = us := Option.some.inj (h.tokens_eq.symm.trans htokens)
  exact (hreads.unique h.reads).1

/-- The query with a filter added to its condition. -/
theorem WhereQuery.exists_inject (q : WhereQuery S lower) (hconj : q.Conjunctive)
    {filter : List Char} {ts : List Token} {f : E} (hspells : Spells filter ts)
    (hreads : S.ReadsAs ts f) (hfilter : ¬ whereText <:+: lower.text filter) :
    ∃ q' : WhereQuery S lower, q'.Conjunctive ∧ injectFilter lower filter q.text = some q'.text ∧
      q'.header = q.header ∧ q'.head = q.head ∧
      ∀ row, S.holds q'.cond row = some true →
        S.holds f row = some true ∧ S.holds q.cond row = some true := by
  obtain ⟨e, he, hholds⟩ := Logic.reads_and_front hreads hconj
  refine ⟨⟨q.header, q.head, q.keyword, q.blank, " (".toList ++ filter ++ ") AND ".toList ++ q.body,
    .sym '(' :: ts ++ .sym ')' :: .and :: q.bodyTokens, e, q.tail, q.isBlank, q.isKeyword,
    q.read_head, tokens_filter_and hspells q.tokens_body, reads_or_of_and he q.isTail, q.isTail,
    q.sameLength, not_where_filter_and q.isBlank hfilter q.noWhere⟩, he, ?_, rfl, rfl, hholds⟩
  exact q.injectFilter_text filter

/-- A query whose condition is a conjunction takes all filters that fit. -/
theorem WhereQuery.exists_foldlM (q : WhereQuery S lower) (hconj : q.Conjunctive)
    {username : List Char} {policies : List TablePolicy}
    (hfit : AllFit S lower policies username q.head) :
    ∃ q' : WhereQuery S lower, q'.Conjunctive ∧
      policies.foldlM (applyPolicy lower username) q.text = some q'.text ∧
      q'.header = q.header ∧ ∀ row, S.holds q'.cond row = some true →
        S.holds q.cond row = some true ∧
          ∀ policy ∈ policies, ∀ f, policy.Demands S username f → S.holds f row = some true := by
  induction policies generalizing q with
  | nil => exact ⟨q, hconj, rfl, rfl, fun row h => ⟨h, by simp⟩⟩
  | cons policy policies ih =>
    obtain ⟨hpolicy, hrest⟩ := List.forall_mem_cons.mp hfit
    rcases hpolicy with hnone | ⟨filter, ts, f, hpolicy⟩
    · have hstep : applyPolicy lower username q.text policy = some q.text := by
        simp [applyPolicy, hnone]
      obtain ⟨q', hconj', hrun, hheader, hholds⟩ := ih q hconj hrest
      refine ⟨q', hconj', ?_, hheader, fun row hrow => ⟨(hholds row hrow).1, ?_⟩⟩
      · rw [List.foldlM_cons, hstep]
        exact hrun
      · intro p hp g hg
        rcases List.mem_cons.mp hp with rfl | hp
        · obtain ⟨filter, _, hfilter, -⟩ := hg
          exact absurd hfilter (by simp [hnone])
        · exact (hholds row hrow).2 p hp g hg
    · obtain ⟨q₁, hconj₁, hinject, hheader₁, hhead₁, hholds₁⟩ :=
        q.exists_inject hconj hpolicy.spells hpolicy.reads hpolicy.noWhere
      have hfound : lower.text policy.tableName <:+: lower.text q.text := by
        rw [WhereQuery.text, List.append_assoc, lower.text_append]
        exact hpolicy.found.trans (List.prefix_append _ _).isInfix
      have hstep : applyPolicy lower username q.text policy = some q₁.text := by
        simp [applyPolicy, hpolicy.filter_eq, hpolicy.named, hfound, hinject]
      obtain ⟨q', hconj', hrun, hheader, hholds⟩ := ih q₁ hconj₁ (hhead₁ ▸ hrest)
      refine ⟨q', hconj', ?_, hheader.trans hheader₁, fun row hrow => ?_⟩
      · rw [List.foldlM_cons, hstep]
        exact hrun
      · obtain ⟨hcond, hlater⟩ := hholds row hrow
        obtain ⟨hf, hq⟩ := hholds₁ row hcond
        refine ⟨hq, fun p hp g hg => ?_⟩
        rcases List.mem_cons.mp hp with rfl | hp
        · rwa [hpolicy.demands_eq hg]
        · exact hlater p hp g hg

theorem WhereQuery.tokens_text (q : WhereQuery S lower) :
    tokens q.text = some (q.header.tokens ++ .whereWord :: q.bodyTokens) := by
  have htext : q.text = q.head ++ q.keyword ++ [q.blank] ++ q.body := by simp [WhereQuery.text]
  rw [htext, tokens, Mode.tokens_append, q.read_head]
  have hbody : Mode.start.tokens q.body = some q.bodyTokens := q.tokens_body
  simp [hbody]

/-- The text of a query reads as that query. -/
theorem WhereQuery.readsSelect (q : WhereQuery S lower) :
    S.ReadsSelect (q.header.tokens ++ .whereWord :: q.bodyTokens)
      ⟨q.header.projection, q.header.table, some q.cond, q.tail⟩ :=
  readsSelect_where q.header q.reads q.isTail

theorem WhereQuery.guarded_foldlM (q : WhereQuery S lower) (hconj : q.Conjunctive)
    {username : List Char} {policies : List TablePolicy}
    (hfit : AllFit S lower policies username q.head) :
    ∃ result, policies.foldlM (applyPolicy lower username) q.text = some result ∧
      Guarded S q.header.table policies username result := by
  obtain ⟨q', -, hrun, hheader, hholds⟩ := q.exists_foldlM hconj hfit
  refine ⟨_, hrun, _, _, q'.tokens_text, q'.readsSelect, by rw [hheader], ?_⟩
  intro row hrow policy hpolicy f hf
  exact (hholds row (hrow _ rfl)).2 policy hpolicy f hf

/-- The first filter goes before the clauses that follow the table. -/
theorem PlainQuery.injectFilter_text (q : PlainQuery lower) (filter : List Char) :
    injectFilter lower filter (q.head ++ q.tail) =
      some (q.head ++ " WHERE ".toList ++ filter ++ q.tail) := by
  unfold injectFilter
  rw [rfind_eq_none q.noWhere]
  simp only [q.boundary]
  rw [splitAtByte?_append]
  rfl

theorem PlainQuery.read_where (q : PlainQuery lower) :
    Mode.start.read (q.head ++ " WHERE ".toList) = (q.header.tokens ++ [.whereWord], .start) := by
  have htext : q.head ++ " WHERE ".toList = q.head ++ [' '] ++ "WHERE ".toList := by simp
  have hword : Mode.start.read "WHERE ".toList = ([.whereWord], .start) := by decide
  rw [htext, Mode.read_append, q.read_head, hword]

theorem PlainQuery.applyPolicy_eq (q : PlainQuery lower) {policy : TablePolicy}
    {username filter : List Char} {ts : List Token} {f : E}
    (h : policy.Fits S lower username q.head filter ts f) :
    applyPolicy lower username (q.head ++ q.tail) policy =
      some (q.head ++ " WHERE ".toList ++ resolve username filter ++ q.tail) := by
  have hfound : lower.text policy.tableName <:+: lower.text (q.head ++ q.tail) := by
    rw [lower.text_append]
    exact h.found.trans (List.prefix_append _ _).isInfix
  unfold applyPolicy
  rw [h.filter_eq]
  simp only [if_neg h.named, if_pos hfound]
  exact q.injectFilter_text _

theorem foldlM_of_none {username text : List Char} {policies : List TablePolicy}
    (h : ∀ policy ∈ policies, policy.rowFilterSql = none) :
    policies.foldlM (applyPolicy lower username) text = some text := by
  induction policies with
  | nil => rfl
  | cons policy policies ih =>
    obtain ⟨hpolicy, hrest⟩ := List.forall_mem_cons.mp h
    have hstep : applyPolicy lower username text policy = some text := by
      simp [applyPolicy, hpolicy]
    rw [List.foldlM_cons, hstep]
    exact ih hrest

theorem not_demands {policy : TablePolicy} (h : policy.rowFilterSql = none)
    {username : List Char} {f : E} : ¬ policy.Demands S username f := by
  rintro ⟨filter, _, hfilter, -⟩
  rw [h] at hfilter
  cases hfilter

/-- The query with the first filter as its condition. -/
def PlainQuery.withFilter (q : PlainQuery lower) {filter : List Char} {ts : List Token} {f : E}
    (htokens : tokens (filter ++ q.tail) = some (ts ++ q.tailTokens))
    (hwhere : ¬ whereText <:+: lower.text (filter ++ q.tail))
    (hlen : byteLength (lower.text q.head) = byteLength q.head) (hreads : S.Reads .and ts f []) :
    WhereQuery S lower where
  header := q.header
  head := q.head ++ [' ']
  keyword := "WHERE".toList
  blank := ' '
  body := filter ++ q.tail
  bodyTokens := ts ++ q.tailTokens
  cond := f
  tail := q.tailTokens
  isBlank := by decide
  isKeyword := by decide
  read_head := by
    have htext : q.head ++ [' '] ++ "WHERE".toList ++ [' '] = q.head ++ " WHERE ".toList := by simp
    rw [htext, q.read_where]
  tokens_body := htokens
  reads := reads_or_of_and (reads_before_tail hreads q.isTail) q.isTail
  isTail := q.isTail
  sameLength := by
    have hblank : lower.text [' '] = [' '] := lower.text_ascii (by simp)
    rw [lower.text_append, hblank, byteLength_append, byteLength_append, hlen]
  noWhere := by
    have hblank : lower.text (' ' :: (filter ++ q.tail)) = [] ++ ' ' :: lower.text (filter ++ q.tail) := by
      have hchar : lower.char ' ' = [' '] := lower.ascii ' ' (by decide)
      rw [Lowercase.text, List.flatMap_cons, hchar]
      rfl
    rw [hblank]
    exact not_infix_append_cons (by decide) (not_where_of_short (by decide)) hwhere

theorem PlainQuery.guarded_foldlM (q : PlainQuery lower) {username : List Char}
    {policies : List TablePolicy} (h : q.Takes (S := S) username policies) :
    ∃ result, policies.foldlM (applyPolicy lower username) (q.head ++ q.tail) = some result ∧
      Guarded S q.header.table policies username result := by
  induction h with
  | done =>
    exact ⟨_, rfl, _, _, q.tokens_eq, readsSelect_plain q.header q.isTail, rfl, by simp⟩
  | @skip policy policies hnone hrest ih =>
    obtain ⟨result, hrun, ts, sel, htokens, hreads, htable, hholds⟩ := ih
    have hstep : applyPolicy lower username (q.head ++ q.tail) policy = some (q.head ++ q.tail) := by
      simp [applyPolicy, hnone]
    refine ⟨result, ?_, ts, sel, htokens, hreads, htable, fun row hrow p hp f hf => ?_⟩
    · rw [List.foldlM_cons, hstep]
      exact hrun
    · rcases List.mem_cons.mp hp with rfl | hp
      · exact absurd hf (not_demands hnone)
      · exact hholds row hrow p hp f hf
  | @add policy policies filter ts f hpolicy htokens hwhere hlen hreads hrest =>
    let q₁ := q.withFilter htokens hwhere hlen hreads
    have hconj : q₁.Conjunctive := reads_before_tail hreads q.isTail
    have hfit : AllFit S lower policies username q₁.head := by
      intro p hp
      refine (hrest p hp).imp_right ?_
      rintro ⟨filter', us, g, hg⟩
      have hfound : lower.text p.tableName <:+: lower.text (q.head ++ [' ']) := by
        rw [lower.text_append]
        exact hg.found.trans (List.prefix_append _ _).isInfix
      exact ⟨filter', us, g, { hg with found := hfound }⟩
    have htext : q.head ++ " WHERE ".toList ++ resolve username filter ++ q.tail = q₁.text := by
      simp [q₁, withFilter, WhereQuery.text]
    obtain ⟨q₂, -, hrun, hheader, hholds⟩ := q₁.exists_foldlM hconj hfit
    refine ⟨q₂.text, ?_, _, _, q₂.tokens_text, q₂.readsSelect, by rw [hheader]; rfl, ?_⟩
    · rw [List.foldlM_cons, q.applyPolicy_eq hpolicy, htext]
      exact hrun
    · intro row hrow p hp g hg
      obtain ⟨hf, hlater⟩ := hholds row (hrow _ rfl)
      rcases List.mem_cons.mp hp with rfl | hp
      · rw [hpolicy.demands_eq hg]
        exact hf
      · exact hlater p hp g hg
  | @addLast policy policies filter ts f hpolicy htokens hlast =>
    have hreads : S.Reads .or (ts.map (withUsername username) ++ q.tailTokens) f q.tailTokens :=
      reads_before_tail hpolicy.reads q.isTail
    refine ⟨q.head ++ " WHERE ".toList ++ resolve username filter ++ q.tail, ?_, _, _, ?_,
      readsSelect_where q.header hreads q.isTail, rfl, ?_⟩
    · rw [List.foldlM_cons, q.applyPolicy_eq hpolicy]
      exact foldlM_of_none hlast
    · rw [List.append_assoc, tokens, Mode.tokens_append, q.read_where]
      have hbody : Mode.start.tokens (resolve username filter ++ q.tail) = _ := htokens
      simp [hbody]
    · intro row hrow p hp g hg
      rcases List.mem_cons.mp hp with rfl | hp
      · rw [hpolicy.demands_eq hg]
        exact hrow f rfl
      · exact absurd hg (not_demands (hlast p hp))

def asciiLowercase : Lowercase := Unicode.asciiOnly.lower

def regionPolicy : TablePolicy where
  tablePattern := "pg.orders".toList
  rowFilterSql := some "region = '\x7busername\x7d'".toList

def alice : Claims := ⟨"alice".toList, ["analyst".toList]⟩

def ordersHeader : Header where
  projection := [.sym '*']
  table := [.word "pg".toList, .sym '.', .word "orders".toList]
  isProjection := by decide
  isTable := by decide

def regionTokens : List Token := [.word "region".toList, .cmp .eq, .str "\x7busername\x7d".toList]

def regionCondition : Condition :=
  .cmp .eq (.column "region".toList) (.lit (.str "alice".toList))

theorem regionPolicy_fits : regionPolicy.Fits conditionLogic asciiLowercase alice.username
    "SELECT * FROM pg.orders ".toList "region = '\x7busername\x7d'".toList regionTokens
    regionCondition where
  filter_eq := rfl
  named := by decide
  found := by decide +kernel
  tokens_eq := by decide +kernel
  spells := by
    have htext : resolve alice.username "region = '\x7busername\x7d'".toList =
        "region = 'alice'".toList := by decide +kernel
    have hread : Mode.start.read "region = 'alice'".toList =
        ([.word "region".toList, .cmp .eq], .strEnd "alice".toList) := by decide +kernel
    rw [htext]
    exact spells_of_read hread rfl (by decide)
  reads := ⟨8, by decide +kernel⟩
  noWhere := by decide +kernel

/-- `SELECT * FROM pg.orders WHERE a = 1` -/
def ordersWhere : WhereQuery conditionLogic asciiLowercase where
  header := ordersHeader
  head := "SELECT * FROM pg.orders ".toList
  keyword := "WHERE".toList
  blank := ' '
  body := "a = 1".toList
  bodyTokens := [.word ['a'], .cmp .eq, .num ['1']]
  cond := .cmp .eq (.column ['a']) (.lit (.int 1))
  tail := []
  isBlank := by decide
  isKeyword := by decide
  read_head := by decide +kernel
  tokens_body := by decide +kernel
  reads := ⟨8, by decide +kernel⟩
  isTail := rfl
  sameLength := by decide +kernel
  noWhere := by decide +kernel

def orTokens : List Token :=
  [.sym '(', .word "region".toList, .cmp .eq, .str "alice".toList, .sym ')', .and, .word ['a'],
    .cmp .eq, .num ['1'], .or, .word ['b'], .cmp .eq, .num ['2']]

def orCondition : Condition :=
  .or (.and regionCondition (.cmp .eq (.column ['a']) (.lit (.int 1))))
    (.cmp .eq (.column ['b']) (.lit (.int 2)))

end RustLake.Auth
