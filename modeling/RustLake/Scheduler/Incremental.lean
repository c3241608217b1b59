import RustLake.Scheduler.Healing
import RustLake.Sql.Statement

/-! Incremental runs of executable tables: the scheduler writes a filter on the watermark behind the
SQL of the table. -/
namespace RustLake.Scheduler
open Sql

/-- A text that reads as a statement. -/
structure SelectSql where
  text : List Char
  statement : Statement
  reads : tokens text = some statement.tokens

/-- A text that names a column. -/
structure WatermarkColumn where
  text : List Char
  token : Token
  name : List Char
  spells : Spells text [token]
  column : token.column? = some name

/-- A table with such SQL, whose last run came up to a value of the column. -/
def incrementalTable {Gate : Type} (table : ExecutableTable Gate) (q : SelectSql) (c : WatermarkColumn)
    (wv : List Char) : ExecutableTable Gate :=
  { table with
    transform := { table.transform with sourceCode := String.ofList q.text }
    incremental := true
    watermarkColumn := some (String.ofList c.text)
    lastWatermark := some (String.ofList wv) }

/-- The SQL of its next run. -/
def incrementalSql {Gate : Type} (table : ExecutableTable Gate) (q : SelectSql) (c : WatermarkColumn)
    (wv : List Char) : List Char := (execCode (incrementalTable table q c wv)).toList

/-- The SQL of an incremental run gives what the full SQL gives on those rows of the sources whose
watermark is greater than the value, whatever the engine and the rows. -/
def EqualsFiltered {Gate : Type} (table : ExecutableTable Gate) (q : SelectSql) (c : WatermarkColumn)
    (wv : List Char) : Prop :=
  ∃ q' : SelectSql, q'.text = incrementalSql table q c wv ∧
    ∀ (e : SqlEngine) (data : List Token → List e.Row), e.run data q'.statement =
      e.run (fun source => (data source).filter fun row => e.greater (row c.name) wv = some true)
        q.statement

/-- The tokens compare a column with a value. -/
def IsFilter (name wv : List Char) (c : List Token) : Prop :=
  ∃ t, t.column? = some name ∧ c = [t, .cmp .gt, .str wv]

/-- The text ends in a comment that goes on to the end of the line. -/
def EndsInComment (code : List Char) : Prop := (Mode.start.read code).2 = .lineComment

/-- What is read behind a statement that ends in a comment. -/
def addedTokens (wc wv : List Char) : Option (List Token) :=
  Mode.lineComment.tokens (" WHERE ".toList ++ wc ++ " > '".toList ++ wv ++ ['\''])

/-- The block filters the rows so by itself. -/
def AlreadyFiltered (name wv : List Char) (b : Block) : Prop := ∃ c, b.cond = some c ∧ IsFilter name wv c

/-- The last block ends with its source, without a semicolon. -/
structure EndsWithSource (s : Statement) : Prop where
  cond : s.last.cond = none
  tail : s.last.tail = []
  ended : s.ended = false

/-- The blocks before the last filter by themselves, and the last one ends with its source, outside of
a comment, and the value holds no quote. Behind a comment nothing may be read, or the filter itself
in another line. -/
structure TakesFilter (q : SelectSql) (c : WatermarkColumn) (wv : List Char) : Prop where
  earlier : ∀ a ∈ q.statement.earlier, AlreadyFiltered c.name wv a.block
  last : ¬ EndsInComment q.text → EndsWithSource q.statement ∧ '\'' ∉ wv
  comment : EndsInComment q.text → ∃ added, addedTokens c.text wv = some added ∧
    ((AlreadyFiltered c.name wv q.statement.last ∧
        ∃ ended, endTokens q.statement.ended ++ added = endTokens ended) ∨
      (EndsWithSource q.statement ∧ ∃ filter ended, IsFilter c.name wv filter ∧
        added = .whereWord :: filter ++ endTokens ended))

section Texts
variable {Gate : Type} {table : ExecutableTable Gate} {q : SelectSql} {c : WatermarkColumn} {wv : List Char}

theorem incrementalSql_eq : incrementalSql table q c wv =
    q.text ++ (" WHERE ".toList ++ c.text ++ " > '".toList ++ wv ++ ['\'']) := by
  simp [incrementalSql, execCode, incrementalTable]

/-- Outside of comments the filter is read behind the statement. -/
theorem tokens_incrementalSql (h : ¬ EndsInComment q.text) :
    tokens (incrementalSql table q c wv) =
      (tokens ('\'' :: wv ++ ['\''])).map fun value =>
        q.statement.tokens ++ (.whereWord :: c.token :: .cmp .gt :: value) := by
  have hspells : Spells q.text q.statement.tokens := by
    have hreads := q.reads
    rw [tokens, Mode.tokens_eq_read] at hreads
    obtain ⟨us, hus, heq⟩ := Option.map_eq_some_iff.mp hreads
    rw [← heq]
    exact spells_of_read rfl hus h
  have hreadWhere : Mode.start.read "WHERE".toList = ([], .word "where".toList) := by decide +kernel
  have hfinishWhere : (Mode.word "where".toList).finish = some [.whereWord] := by decide +kernel
  have hwhere : Spells "WHERE".toList [.whereWord] := spells_of_read hreadWhere hfinishWhere (by simp)
  have hreadGreater : Mode.start.read ['>'] = ([], .greater) := by decide
  have hgreater : Spells ['>'] [.cmp .gt] := spells_of_read hreadGreater rfl (by simp)
  have htext : q.text ++ (" WHERE ".toList ++ c.text ++ " > '".toList ++ wv ++ ['\'']) =
      q.text ++ ' ' :: ("WHERE".toList ++ ' ' :: (c.text ++ ' ' :: (['>'] ++ ' ' ::
        ('\'' :: wv ++ ['\''])))) := by
    simp
  rw [incrementalSql_eq, htext, hspells _ (delimited_space _), tokens_space,
    hwhere _ (delimited_space _), tokens_space, c.spells _ (delimited_space _), tokens_space,
    hgreater _ (delimited_space _), tokens_space]
  simp [Function.comp_def]

/-- In a comment nothing is read up to the end of the line. -/
theorem tokens_incrementalSql_comment (h : EndsInComment q.text) :
    tokens (incrementalSql table q c wv) =
      (addedTokens c.text wv).map (q.statement.tokens ++ ·) := by
  have hreads := q.reads
  unfold EndsInComment at h
  rw [tokens, Mode.tokens_eq_read, h, Mode.finish, Option.map_some, List.append_nil] at hreads
  rw [incrementalSql_eq, tokens, Mode.tokens_append, h, Option.some.inj hreads]
  rfl

end Texts

section Engines

/-- An engine that compares texts in one way and takes other conditions in another, and gives the rows
of each block as they are. -/
@[reducible] def pickEngine (g : List Char → List Char → Bool) (h : List Token → Bool) : SqlEngine where
  Value := List Char
  Result := List (Sql.Reading (List Char → List Char))
  greater x s := some (g x s)
  holds
    | [t, .cmp .gt, .str s], row => match t.column? with
      | some name => some (g (row name) s)
      | none => some (h [t, .cmp .gt, .str s])
    | ts, _ => some (h ts)
  holds_greater t name s row ht := by
    dsimp only
    rw [ht]
  result readings := readings

theorem holds_pickEngine_all (ts : List Token) (row : List Char → List Char) :
    (pickEngine (fun _ _ => true) fun _ => true).holds ts row = some true := by
  unfold pickEngine
  dsimp only
  split
  · split <;> rfl
  · rfl

theorem lets_pickEngine_all (b : Block) (row : List Char → List Char) :
    (pickEngine (fun _ _ => true) fun _ => true).lets b row = true := by
  unfold SqlEngine.lets
  cases b.cond with
  | none => rfl
  | some c => exact decide_eq_true (holds_pickEngine_all c row)

/-- The rows of all sources whose watermark is greater than a value. -/
def filtered (g : List Char → List Char → Bool) (name wv : List Char)
    (data : List Token → List (List Char → List Char)) (source : List Token) :
    List (List Char → List Char) :=
  (data source).filter fun row => g (row name) wv

/-- One row in one source. -/
def rowIn (source : List Token) : List Token → List (List Char → List Char) :=
  fun s => if s = source then [fun k => k] else []

theorem eq_and_of_filter {α : Type} {p past lets : α → Bool} {row : α}
    (h : [row].filter p = ([row].filter past).filter lets) : p row = (lets row && past row) := by
  cases hp : p row <;> cases hlets : lets row <;> cases hpast : past row <;>
    simp [List.filter, hp, hlets, hpast] at h ⊢

variable {name wv : List Char} {b b' : Block} {op op' : List Token}

/-- A block that gives the filtered rows of another in all engines is that block but for its
condition, and its condition is that of the other with the filter. -/
theorem sameParts_of_reading
    (h : ∀ g h data, (pickEngine g h).reading data b' op' =
      (pickEngine g h).reading (filtered g name wv data) b op) :
    b.SameParts b' ∧ op' = op ∧ ∀ g h row, (pickEngine g h).lets b' row =
      ((pickEngine g h).lets b row && g (row name) wv) := by
  have hfirst := h (fun _ _ => true) (fun _ => true) fun _ => []
  refine ⟨⟨(Sql.Reading.mk.inj hfirst).1, ?_, (Sql.Reading.mk.inj hfirst).2.1⟩, (Sql.Reading.mk.inj hfirst).2.2.1,
    fun g h' row => ?_⟩
  · have hrows := (Sql.Reading.mk.inj (h (fun _ _ => true) (fun _ => true) (rowIn b.source))).2.2.2
    by_contra hne
    have hnone : rowIn b.source b'.source = [] := if_neg hne
    have hone : filtered (fun _ _ => true) name wv (rowIn b.source) b.source = [fun k => k] := by
      simp [filtered, rowIn]
    rw [hnone, hone, List.filter_cons_of_pos (lets_pickEngine_all b _)] at hrows
    cases hrows
  · exact eq_and_of_filter (Sql.Reading.mk.inj (h g h' fun _ => [row])).2.2.2

/-- The lists of blocks go together as the readings do. -/
theorem forall₂_of_map_eq {ι α β γ : Type} [Inhabited ι] {f : ι → β → γ} {g : ι → α → γ} {l : List α}
    {l' : List β} (h : ∀ i, l'.map (f i) = l.map (g i)) :
    List.Forall₂ (fun a b => ∀ i, f i b = g i a) l l' := by
  induction l generalizing l' with
  | nil =>
    obtain rfl := List.map_eq_nil_iff.mp (h default)
    exact .nil
  | cons a l ih =>
    cases l' with
    | nil => exact absurd (h default) (by simp)
    | cons b l' =>
      exact .cons (fun i => (List.cons.inj (h i)).1) (ih fun i => (List.cons.inj (h i)).2)

/-- Conditions that let the same rows through as others with the filter. -/
def FiltersMore (name wv : List Char) (b b' : Block) : Prop :=
  ∀ g h row, (pickEngine g h).lets b' row = ((pickEngine g h).lets b row && g (row name) wv)

/-- An engine of these and rows for it. -/
structure Pick where
  compares : List Char → List Char → Bool
  other : List Token → Bool
  data : List Token → List (List Char → List Char)

instance : Inhabited Pick := ⟨⟨fun _ _ => true, fun _ => true, fun _ => []⟩⟩

def Pick.reading (i : Pick) (a : Arm) : Sql.Reading (List Char → List Char) :=
  (pickEngine i.compares i.other).reading i.data a.block a.op

def Pick.filtered (name wv : List Char) (i : Pick) : Pick :=
  { i with data := Scheduler.filtered i.compares name wv i.data }

theorem parts_of_run {s s' : Statement} (h : ∀ g h data, (pickEngine g h).run data s' =
      (pickEngine g h).run (filtered g name wv data) s) :
    List.Forall₂ (fun a a' => a.SameParts a' ∧ FiltersMore name wv a.block a'.block) s.earlier
      s'.earlier ∧ s.last.SameParts s'.last ∧ FiltersMore name wv s.last s'.last := by
  have hboth : ∀ i : Pick, s'.earlier.map i.reading = s.earlier.map (i.filtered name wv).reading ∧
      (pickEngine i.compares i.other).reading i.data s'.last [] =
        (pickEngine i.compares i.other).reading (filtered i.compares name wv i.data) s.last [] := by
    intro i
    obtain ⟨hearlier, hlast⟩ := List.append_inj' (h i.compares i.other i.data) rfl
    exact ⟨hearlier, List.singleton_inj.mp hlast⟩
  refine ⟨?_, ?_⟩
  · have hpairs := forall₂_of_map_eq (f := Pick.reading)
      (g := fun i => (i.filtered name wv).reading) fun i => (hboth i).1
    refine hpairs.imp fun a a' hreading => ?_
    obtain ⟨hparts, hop, hlets⟩ := sameParts_of_reading fun g h data => hreading ⟨g, h, data⟩
    exact ⟨⟨hparts, hop⟩, hlets⟩
  · obtain ⟨hparts, -, hlets⟩ := sameParts_of_reading fun g h data => (hboth ⟨g, h, data⟩).2
    exact ⟨hparts, hlets⟩

theorem holds_of_isFilter {g : List Char → List Char → Bool} {h : List Token → Bool} {n t : List Char}
    {c : List Token} (hc : IsFilter n t c) (row : List Char → List Char) :
    (pickEngine g h).holds c row = some (g (row n) t) := by
  obtain ⟨token, hcolumn, rfl⟩ := hc
  exact (pickEngine g h).holds_greater token n t row hcolumn

theorem holds_of_not_isFilter {g : List Char → List Char → Bool} {h : List Token → Bool}
    {c : List Token} (hc : ∀ n t, ¬ IsFilter n t c) (row : List Char → List Char) :
    (pickEngine g h).holds c row = some (h c) := by
  dsimp only [pickEngine]
  split
  · rename_i token t
    cases hcolumn : token.column? with
    | none => rfl
    | some n => exact absurd ⟨token, hcolumn, rfl⟩ (hc n t)
  · rfl

theorem lets_some {e : SqlEngine} {row : e.Row} {c : List Token} (hcond : b.cond = some c) :
    e.lets b row = decide (e.holds c row = some true) := by
  unfold SqlEngine.lets
  rw [hcond]
  rfl

/-- A block that lets through only rows past the value filters by itself. -/
theorem alreadyFiltered_of_lets (h : ∀ g h row, (pickEngine g h).lets b row = true →
    g (row name) wv = true) : AlreadyFiltered name wv b := by
  cases hcond : b.cond with
  | none =>
    have hall := h (fun _ _ => false) (fun _ => true) (fun k => k)
    unfold SqlEngine.lets at hall
    rw [hcond] at hall
    exact absurd (hall rfl) (by simp)
  | some c =>
    by_cases hfilter : ∃ n t, IsFilter n t c
    · -- Of all comparisons only the one with this column and text is true.
      obtain ⟨n, t, hc⟩ := hfilter
      have hone := h (fun x s => decide (x = n ∧ s = t)) (fun _ => true) fun k => k
      rw [lets_some hcond, holds_of_isFilter hc] at hone
      obtain ⟨rfl, rfl⟩ := of_decide_eq_true (hone (by simp))
      exact ⟨c, hcond, hc⟩
    · have hnot : ∀ n t, ¬ IsFilter n t c := fun n t hc => hfilter ⟨n, t, hc⟩
      have hone := h (fun _ _ => false) (fun _ => true) fun k => k
      rw [lets_some hcond, holds_of_not_isFilter hnot] at hone
      exact absurd (hone (by simp)) (by simp)

/-- A condition that lets through just the rows past the value is the filter. -/
theorem FiltersMore.isFilter (h : FiltersMore name wv b b') {c : List Token}
    (hc : b'.cond = some c) : IsFilter name wv c := by
  have hfiltered : AlreadyFiltered name wv b' := by
    refine alreadyFiltered_of_lets fun g hold row hlets => ?_
    rw [h g hold row, Bool.and_eq_true] at hlets
    exact hlets.2
  obtain ⟨c', hc', hfilter⟩ := hfiltered
  obtain rfl := Option.some.inj (hc.symm.trans hc')
  exact hfilter

theorem FiltersMore.not_longer (h : FiltersMore name wv b b') {c more : List Token}
    (hcond : b.cond = some c) (hmore : more ≠ []) : b'.cond ≠ some (c ++ more) := by
  intro hcond'
  obtain ⟨t, hcolumn, hfilter⟩ := h.isFilter hcond'
  -- A shorter condition is no comparison, and can be false everywhere.
  have hnot : ∀ n s, ¬ IsFilter n s c := by
    rintro n s ⟨t', -, rfl⟩
    have hlength := congrArg List.length hfilter
    have hpos := List.length_pos_of_ne_nil hmore
    simp only [List.length_append, List.length_cons, List.length_nil] at hlength
    omega
  have hone := h (fun _ _ => true) (fun _ => false) fun k => k
  rw [lets_some hcond', lets_some hcond, holds_of_not_isFilter hnot,
    holds_of_isFilter ⟨t, hcolumn, hfilter⟩] at hone
  simp at hone

end Engines

section Main
variable {Gate : Type} {table : ExecutableTable Gate} {q : SelectSql} {c : WatermarkColumn} {wv : List Char}

/-- The statement whose last block takes the filter as its condition. -/
def withFilter (b : Block) (htail : b.tail = []) {filter : List Token}
    (hfilter : filter ≠ [] ∧ Closed endsCond filter) : Block :=
  { b with
    cond := some filter
    cond_closed := fun c hc => by
      obtain rfl := Option.some.inj hc
      exact hfilter
    tail_head := fun t ht => by
      rw [htail] at ht
      cases ht }

theorem column_not_ends {t : Token} {name : List Char} (h : t.column? = some name) :
    endsCond t = false ∧ t ≠ .sym ')' ∧ t ≠ .sym '(' := by
  cases t with
  | ident n => exact ⟨rfl, by simp, by simp⟩
  | word w =>
    refine ⟨?_, by simp, by simp⟩
    by_contra hends
    have hwords : isWord ["where", "union", "intersect", "except"] (.word w) = true ∨
        isWord ["group", "having", "order", "limit"] (.word w) = true := by
      simpa only [endsCond, endsBlock, Bool.not_eq_false, Bool.or_eq_true, decide_eq_true_eq,
        reduceCtorEq, false_or] using hends
    have hreserved : w ∈ reserved := by
      have hsub : ∀ u ∈ (["where", "union", "intersect", "except"] ++
          ["group", "having", "order", "limit"]).map String.toList, u ∈ reserved := by
        decide +kernel
      apply hsub
      rw [List.map_append, List.mem_append]
      exact hwords.imp of_decide_eq_true of_decide_eq_true
    dsimp only [Token.column?] at h
    rw [if_pos hreserved] at h
    cases h
  | _ => cases h

theorem isFilter_closed {name wv : List Char} {filter : List Token} (h : IsFilter name wv filter) :
    filter ≠ [] ∧ Closed endsCond filter := by
  obtain ⟨t, hcolumn, rfl⟩ := h
  obtain ⟨hends, hclose, hopen⟩ := column_not_ends hcolumn
  refine ⟨by simp, ?_⟩
  rw [Closed, depthAfter, if_neg (by simp [hends, hclose]), if_neg hopen, if_neg hclose]
  rfl

/-- What is read behind a statement and the parts of what it reads as together. -/
theorem EqualsFiltered.takesFilter (h : EqualsFiltered table q c wv) : TakesFilter q c wv := by
  obtain ⟨q', htext, hrun⟩ := h
  have hpast : ∀ (g : List Char → List Char → Bool) (row : List Char → List Char),
      decide (some (g (row c.name) wv) = some true) = g (row c.name) wv := by
    intro g row
    cases g (row c.name) wv <;> rfl
  have hruns : ∀ g h data, (pickEngine g h).run data q'.statement = (pickEngine g h).run
      (fun source => (data source).filter fun row => g (row c.name) wv) q.statement := by
    intro g h data
    have hone := hrun (pickEngine g h) data
    simp only [hpast] at hone
    exact hone
  obtain ⟨hearlier, hparts, hmore⟩ := parts_of_run hruns
  have hreads := q'.reads
  rw [htext] at hreads
  have hsame := hearlier.imp fun a a' h => h.1
  have hcases : ∀ {extra : List Token}, q'.statement.tokens = q.statement.tokens ++ extra →
      (∀ a ∈ q.statement.earlier, AlreadyFiltered c.name wv a.block) ∧
      ((AlreadyFiltered c.name wv q.statement.last ∧
          ∃ ended, endTokens q.statement.ended ++ extra = endTokens ended) ∨
        (EndsWithSource q.statement ∧ ∃ filter ended, IsFilter c.name wv filter ∧
          extra = .whereWord :: filter ++ endTokens ended)) := by
    intro extra heq
    obtain ⟨hsameEarlier, hlast⟩ := Statement.append_cases hsame hparts heq
    have hself : ∀ {b : Block}, FiltersMore c.name wv b b → AlreadyFiltered c.name wv b := by
      intro b hb
      refine alreadyFiltered_of_lets fun g h row hlets => ?_
      rw [hb g h row, Bool.and_eq_true] at hlets
      exact hlets.2
    constructor
    · intro a ha
      rw [hsameEarlier] at hearlier
      exact hself (List.forall₂_same.mp hearlier a ha).2
    · rcases hlast with ⟨hblock, hend⟩ | ⟨hcond, htail, filter, hcond', hend⟩ |
        ⟨d, more, hcond, -, hne, hcond', -⟩
      · rw [hblock] at hmore
        exact Or.inl ⟨hself hmore, _, hend⟩
      · right
        cases hended : q.statement.ended with
        | true =>
          rw [hended] at hend
          cases (List.cons.inj hend).1
        | false =>
          rw [hended] at hend
          exact ⟨⟨hcond, htail, hended⟩, filter, _, hmore.isFilter hcond', hend⟩
      · exact absurd hcond' (hmore.not_longer hcond hne)
  by_cases hcomment : EndsInComment q.text
  · rw [tokens_incrementalSql_comment hcomment] at hreads
    obtain ⟨added, hadded, heq⟩ := Option.map_eq_some_iff.mp hreads
    obtain ⟨hall, hlast⟩ := hcases heq.symm
    exact ⟨hall, fun h => absurd hcomment h, fun _ => ⟨added, hadded, hlast⟩⟩
  · rw [tokens_incrementalSql hcomment] at hreads
    obtain ⟨value, hvalue, heq⟩ := Option.map_eq_some_iff.mp hreads
    obtain ⟨hall, hlast⟩ := hcases heq.symm
    refine ⟨hall, fun _ => ?_, fun h => absurd h hcomment⟩
    rcases hlast with ⟨-, ended, hend⟩ | ⟨hends, filter, ended, ⟨t, -, rfl⟩, hfilter⟩
    · exfalso
      have hlength := congrArg List.length hend
      have hle : (endTokens ended).length ≤ 1 := by cases ended <;> decide
      simp only [List.length_append, List.length_cons] at hlength
      omega
    · refine ⟨hends, fun hquote => ?_⟩
      -- The value is read as a string, which holds the value itself only without quotes.
      simp only [List.cons_append, List.nil_append, List.cons.injEq, true_and] at hfilter
      rw [hfilter.2] at hvalue
      exact tokens_quoted_ne hquote hvalue

theorem lets_of_alreadyFiltered {e : SqlEngine} {b : Block} (h : AlreadyFiltered c.name wv b)
    (row : e.Row) : e.lets b row = decide (e.greater (row c.name) wv = some true) := by
  obtain ⟨filter, hcond, t, hcolumn, rfl⟩ := h
  rw [lets_some hcond, e.holds_greater t c.name wv row hcolumn]

/-- A block that filters by itself gives the same on filtered rows. -/
theorem reading_of_alreadyFiltered {e : SqlEngine} {b : Block} (h : AlreadyFiltered c.name wv b)
    (data : List Token → List e.Row) (op : List Token) : e.reading data b op =
      e.reading (fun source => (data source).filter fun row => e.greater (row c.name) wv = some true) b
        op := by
  unfold SqlEngine.reading
  have hlets : e.lets b = fun row => decide (e.greater (row c.name) wv = some true) :=
    funext (lets_of_alreadyFiltered h)
  rw [hlets, List.filter_filter]
  simp only [Bool.and_self]

theorem reading_withFilter {e : SqlEngine} {b : Block} (hcond : b.cond = none) (htail : b.tail = [])
    {filter : List Token} (hfilter : IsFilter c.name wv filter) (data : List Token → List e.Row) :
    e.reading data (withFilter b htail (isFilter_closed hfilter)) [] =
      e.reading (fun source => (data source).filter fun row => e.greater (row c.name) wv = some true) b
        [] := by
  have hall : e.lets b = fun _ => true := by
    unfold SqlEngine.lets
    rw [hcond]
    rfl
  have hlets : e.lets (withFilter b htail (isFilter_closed hfilter)) =
      fun row => decide (e.greater (row c.name) wv = some true) :=
    funext (lets_of_alreadyFiltered ⟨filter, rfl, hfilter⟩)
  unfold SqlEngine.reading
  rw [hall, hlets, List.filter_true]
  rfl

theorem run_eq {e : SqlEngine} {s s' : Statement} {data data' : List Token → List e.Row}
    (hearlier : s'.earlier = s.earlier)
    (hall : ∀ a ∈ s.earlier, e.reading data a.block a.op = e.reading data' a.block a.op)
    (hlast : e.reading data s'.last [] = e.reading data' s.last []) :
    e.run data s' = e.run data' s := by
  unfold SqlEngine.run
  rw [hearlier, hlast, List.map_congr_left hall]

theorem TakesFilter.equalsFiltered (h : TakesFilter q c wv) : EqualsFiltered table q c wv := by
  have hall : ∀ (e : SqlEngine) (data : List Token → List e.Row), ∀ a ∈ q.statement.earlier,
      e.reading data a.block a.op = e.reading (fun source => (data source).filter fun row =>
        e.greater (row c.name) wv = some true) a.block a.op :=
    fun e data a ha => reading_of_alreadyFiltered (h.earlier a ha) data a.op
  -- The filter becomes the condition of the last block.
  have htaken : ∀ {filter : List Token} {ended : Bool}, IsFilter c.name wv filter →
      EndsWithSource q.statement →
      tokens (incrementalSql table q c wv) =
        some (q.statement.tokens ++ (.whereWord :: filter ++ endTokens ended)) →
      EqualsFiltered table q c wv := by
    intro filter ended hfilter hends htokens
    refine ⟨⟨incrementalSql table q c wv, ⟨q.statement.earlier,
      withFilter q.statement.last hends.tail (isFilter_closed hfilter), ended⟩, ?_⟩, rfl, ?_⟩
    · rw [htokens]
      simp [Statement.tokens, Block.tokens, Block.condTokens, withFilter, hends.cond, hends.tail,
        hends.ended, endTokens]
    · intro e data
      exact run_eq rfl (hall e data) (reading_withFilter hends.cond hends.tail hfilter data)
  by_cases hcomment : EndsInComment q.text
  · obtain ⟨added, hadded, hread⟩ := h.comment hcomment
    have htokens := @tokens_incrementalSql_comment _ table q c wv hcomment
    rw [hadded, Option.map_some] at htokens
    rcases hread with ⟨hlast, ended, hend⟩ | ⟨hends, filter, ended, hfilter, rfl⟩
    · refine ⟨⟨incrementalSql table q c wv,
        ⟨q.statement.earlier, q.statement.last, ended⟩, ?_⟩, rfl, ?_⟩
      · rw [htokens, Statement.tokens, Statement.tokens, List.append_assoc, hend]
      · intro e data
        exact run_eq rfl (hall e data) (reading_of_alreadyFiltered hlast data [])
    · exact htaken hfilter hends htokens
  · obtain ⟨hends, hquote⟩ := h.last hcomment
    have htokens := @tokens_incrementalSql _ table q c wv hcomment
    rw [(spells_str_plain hquote).tokens_eq, Option.map_some] at htokens
    exact @htaken _ false ⟨c.token, c.column, rfl⟩ hends (by rw [htokens]; rfl)

/-- An incremental run gives what a full run gives on the filtered rows just when the statement takes
the filter. -/
theorem equalsFiltered_iff (table : ExecutableTable Gate) (q : SelectSql) (c : WatermarkColumn) (wv : List Char) :
    EqualsFiltered table q c wv ↔ TakesFilter q c wv :=
  ⟨EqualsFiltered.takesFilter, TakesFilter.equalsFiltered⟩

end Main

section Orders

def revenue : Block where
  projection := [.word "customer".toList, .sym ',', .word "sum".toList, .sym '(',
    .word "total".toList, .sym ')']
  source := [.word "orders".toList]
  cond := none
  tail := [.word "group".toList, .word "by".toList, .word "customer".toList]
  projection_closed := by decide +kernel
  source_closed := by decide +kernel
  cond_closed c hc := by cases hc
  tail_closed := by decide +kernel
  tail_head t ht := by
    obtain rfl := Option.some.inj ht
    decide +kernel

def revenueSql : SelectSql where
  text := "SELECT customer, SUM(total) FROM orders GROUP BY customer".toList
  statement := ⟨[], revenue, false⟩
  reads := by decide +kernel

def updatedAt : WatermarkColumn where
  text := "updated_at".toList
  token := .word "updated_at".toList
  name := "updated_at".toList
  spells := by
    have hread : Mode.start.read "updated_at".toList = ([], .word "updated_at".toList) := by
      decide +kernel
    exact spells_of_read hread rfl (by simp)
  column := by decide +kernel

/-- A filter behind `GROUP BY` is no condition. -/
theorem not_equalsFiltered_revenue :
    ¬ EqualsFiltered revenueTable revenueSql updatedAt "2024-01-01".toList := by
  intro h
  have houtside : ¬ EndsInComment revenueSql.text := by
    unfold EndsInComment
    decide +kernel
  have htail := (h.takesFilter.last houtside).1.tail
  cases htail

end Orders

end RustLake.Scheduler
