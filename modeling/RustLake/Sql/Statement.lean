import RustLake.Sql.Logic

/-! Statements of one `SELECT` or of several under set operations, as deep as their clauses: what
stands in parentheses and between the words of clauses is left as it is. -/
namespace RustLake.Sql

/-- How many parentheses are open after some tokens; none where one closes too many, or where a token
that ends the part stands outside of all. -/
def depthAfter (ends : Token → Bool) : ℕ → List Token → Option ℕ
  | depth, [] => some depth
  | depth, t :: ts =>
    if depth = 0 ∧ (ends t ∨ t = .sym ')') then none
    else depthAfter ends
      (if t = .sym '(' then depth + 1 else if t = .sym ')' then depth - 1 else depth) ts

/-- The tokens can stand before one that ends the part. -/
def Closed (ends : Token → Bool) (ts : List Token) : Prop := depthAfter ends 0 ts = some 0

instance (ends : Token → Bool) (ts : List Token) : Decidable (Closed ends ts) :=
  inferInstanceAs (Decidable (_ = _))

def isWord (words : List String) : Token → Bool
  | .word w => w ∈ words.map String.toList
  | _ => false

/-- What ends a block: a second `WHERE`, a set operation, or the end of the statement. -/
def endsBlock (t : Token) : Bool :=
  t = .sym ';' || isWord ["where", "union", "intersect", "except"] t

def endsCond (t : Token) : Bool := endsBlock t || isWord ["group", "having", "order", "limit"] t

def endsSource (t : Token) : Bool :=
  endsCond t || isWord ["window", "qualify", "offset", "fetch"] t

structure Block where
  projection : List Token
  source : List Token
  cond : Option (List Token)
  tail : List Token
  projection_closed : projection ≠ [] ∧ Closed (· = .fromWord) projection
  source_closed : source ≠ [] ∧ Closed endsSource source
  cond_closed : ∀ c, cond = some c → c ≠ [] ∧ Closed endsCond c
  tail_closed : Closed endsBlock tail
  tail_head : ∀ t, tail.head? = some t → (if cond.isSome then endsCond t else endsSource t) = true

def Block.condTokens (b : Block) : List Token := (b.cond.map (.whereWord :: ·)).getD []

def Block.tokens (b : Block) : List Token :=
  .selectWord :: b.projection ++ .fromWord :: b.source ++ b.condTokens ++ b.tail

/-- A block and the set operation behind it. -/
structure Arm where
  block : Block
  op : List Token
  op_head : ∀ t, op.head? = some t → isWord ["union", "intersect", "except"] t = true
  op_nonempty : op ≠ []
  op_select : .selectWord ∉ op

def Arm.tokens (a : Arm) : List Token := a.block.tokens ++ a.op

structure Statement where
  earlier : List Arm
  last : Block
  /-- A semicolon follows. -/
  ended : Bool

def endTokens (ended : Bool) : List Token := if ended then [.sym ';'] else []

def Statement.tokens (s : Statement) : List Token :=
  s.earlier.flatMap Arm.tokens ++ s.last.tokens ++ endTokens s.ended

/-- What a statement works on in one of its blocks. -/
structure Reading (Row : Type) where
  projection : List Token
  tail : List Token
  op : List Token
  rows : List Row

/-- The name of a column that a token stands for. -/
def Token.column? : Token → Option (List Char)
  | .word w => if w ∈ reserved then none else some w
  | .ident name => some name
  | _ => none

/-- An engine compares columns with texts. Nothing is said of other conditions, and nothing of what it
makes of the rows that a statement reads. -/
structure SqlEngine where
  Value : Type
  Result : Type
  greater : Value → List Char → Truth
  holds : List Token → (List Char → Value) → Truth
  holds_greater : ∀ t name s row, t.column? = some name →
    holds [t, .cmp .gt, .str s] row = greater (row name) s
  result : List (Reading (List Char → Value)) → Result

namespace SqlEngine
variable (e : SqlEngine)

abbrev Row := List Char → e.Value

/-- The rows of a block's source that its condition lets through. -/
def lets (b : Block) (row : e.Row) : Bool := b.cond.all fun c => e.holds c row = some true

def reading (data : List Token → List e.Row) (b : Block) (op : List Token) : Reading e.Row :=
  ⟨b.projection, b.tail, op, (data b.source).filter (e.lets b)⟩

def run (data : List Token → List e.Row) (s : Statement) : e.Result :=
  e.result (s.earlier.map (fun a => e.reading data a.block a.op) ++ [e.reading data s.last []])

end SqlEngine

section Parts
variable {ends : Token → Bool} {a a' x y : List Token} {t : Token}

theorem depthAfter_append (depth : ℕ) (a x : List Token) :
    depthAfter ends depth (a ++ x) =
      (depthAfter ends depth a).bind fun depth => depthAfter ends depth x := by
  induction a generalizing depth with
  | nil => rfl
  | cons t a ih =>
    rw [List.cons_append, depthAfter, depthAfter]
    split_ifs
    · rfl
    all_goals exact ih _

/-- Nothing that ends a part stands in it outside of parentheses. -/
theorem Closed.not_ends (ha : Closed ends a) (h : Closed ends (a ++ t :: x)) : ends t = false := by
  unfold Closed at ha h
  rw [depthAfter_append, ha, Option.bind_some, depthAfter] at h
  split_ifs at h with hstop
  all_goals
    by_contra hends
    exact hstop ⟨rfl, Or.inl (by simpa using hends)⟩

theorem Closed.head_not_ends (h : Closed ends a) (ht : a.head? = some t) : ends t = false := by
  obtain ⟨a, rfl⟩ := List.head?_eq_some_iff.mp ht
  exact Closed.not_ends (a := []) rfl h

/-- A part that goes on to what ends it holds what a shorter reading of it holds. -/
theorem Closed.split (ha : Closed ends a) (ha' : Closed ends a') (heq : a ++ x = a' ++ y)
    (hy : ∀ t, y.head? = some t → ends t = true) : ∃ more, a' = a ++ more ∧ x = more ++ y := by
  rcases List.append_eq_append_iff.mp heq with ⟨more, hmore, hx⟩ | ⟨more, hmore, hend⟩
  · exact ⟨more, hmore, hx⟩
  · cases more with
    | nil =>
      rw [List.append_nil] at hmore
      exact ⟨[], by rw [hmore, List.append_nil], hend.symm⟩
    | cons t more =>
      have hhead : y.head? = some t := by rw [hend]; rfl
      have hin := ha'.not_ends (t := t) (x := more) (hmore ▸ ha)
      rw [hy t hhead] at hin
      cases hin

/-- Where both parts are followed by what ends them there is one way to read them. -/
theorem Closed.unique (ha : Closed ends a) (ha' : Closed ends a') (heq : a ++ x = a' ++ y)
    (hx : ∀ t, x.head? = some t → ends t = true) (hy : ∀ t, y.head? = some t → ends t = true) :
    a = a' ∧ x = y := by
  obtain ⟨more, rfl, hmore⟩ := ha.split ha' heq hy
  cases more with
  | nil => exact ⟨(List.append_nil a).symm, hmore⟩
  | cons t more =>
    have hin := ha.not_ends ha'
    rw [hx t (by rw [hmore]; rfl)] at hin
    cases hin

end Parts

/-- Two blocks are the same but for their conditions. -/
structure Block.SameParts (b b' : Block) : Prop where
  projection : b'.projection = b.projection
  source : b'.source = b.source
  tail : b'.tail = b.tail

/-- What may follow a block: a set operation, or the end of the statement. -/
def Follows (ts : List Token) : Prop :=
  ∀ t, ts.head? = some t → t = .sym ';' ∨ isWord ["union", "intersect", "except"] t = true

section Blocks
variable {b b' : Block} {x y : List Token} {t : Token}

theorem isWord_mono {words words' : List String} (hsub : words ⊆ words')
    (h : isWord words t = true) : isWord words' t = true := by
  cases t with
  | word w =>
    simp only [isWord, decide_eq_true_eq] at h ⊢
    exact List.map_subset _ hsub h
  | _ => cases h

theorem Follows.endsBlock (h : Follows x) (ht : x.head? = some t) : endsBlock t = true := by
  unfold Sql.endsBlock
  rcases h t ht with rfl | hword
  · rfl
  · rw [isWord_mono (by simp) hword, Bool.or_true]

theorem Follows.ne_where (h : Follows x) (ht : x.head? = some t) : t ≠ .whereWord := by
  rintro rfl
  rcases h _ ht with hsym | hword
  · cases hsym
  · exact absurd hword (by decide)

theorem Block.ext_cond (h : b.SameParts b') (hcond : b'.cond = b.cond) : b' = b := by
  obtain ⟨hprojection, hsource, htail⟩ := h
  cases b
  cases b'
  subst hprojection hsource htail hcond
  rfl

/-- What stands behind the condition of a block ends the condition. -/
theorem Block.ends_cond (b : Block) (hcond : b.cond.isSome) (hx : Follows x) :
    ∀ t, (b.tail ++ x).head? = some t → endsCond t = true := by
  intro t ht
  cases htail : b.tail with
  | nil =>
    rw [htail] at ht
    unfold endsCond
    rw [hx.endsBlock ht, Bool.true_or]
  | cons u rest =>
    rw [htail] at ht
    have hhead := b.tail_head t (by rw [htail]; exact ht)
    rwa [if_pos hcond] at hhead

/-- What a block that goes on can be: the same, with a condition that it did not have, or with a longer
condition. -/
theorem Block.append_cases (h : b.SameParts b') (hfollows : Follows y)
    (heq : b'.tokens ++ y = b.tokens ++ x) :
    (b' = b ∧ x = y) ∨
    (b.cond = none ∧ b.tail = [] ∧ ∃ c, b'.cond = some c ∧ x = .whereWord :: c ++ y) ∨
    (∃ c more, b.cond = some c ∧ b.tail = [] ∧ more ≠ [] ∧ b'.cond = some (c ++ more) ∧
      x = more ++ y) := by
  have hrest : b'.condTokens ++ (b.tail ++ y) = b.condTokens ++ (b.tail ++ x) := by
    unfold Block.tokens at heq
    rw [h.projection, h.source, h.tail] at heq
    simpa using heq
  have htailWhere : b.tail.head? ≠ some .whereWord := by
    intro hhead
    exact absurd (b.tail_closed.head_not_ends hhead) (by decide)
  unfold Block.condTokens at hrest
  cases hcond : b.cond with
  | none =>
    cases hcond' : b'.cond with
    | none =>
      rw [hcond, hcond'] at hrest
      exact Or.inl ⟨Block.ext_cond h (by rw [hcond, hcond']), by simpa using hrest.symm⟩
    | some c' =>
      right
      left
      rw [hcond, hcond'] at hrest
      simp only [Option.map_some, Option.map_none, Option.getD_some, Option.getD_none,
        List.nil_append, List.cons_append] at hrest
      have htail : b.tail = [] := by
        by_contra hne
        obtain ⟨t, rest, htail⟩ := List.exists_cons_of_ne_nil hne
        rw [htail] at hrest htailWhere
        exact htailWhere (congrArg some (List.cons.inj hrest).1.symm)
      rw [htail, List.nil_append, List.nil_append] at hrest
      exact ⟨rfl, htail, c', rfl, hrest.symm⟩
  | some c =>
    cases hcond' : b'.cond with
    | none =>
      exfalso
      rw [hcond, hcond'] at hrest
      simp only [Option.map_some, Option.map_none, Option.getD_some, Option.getD_none,
        List.nil_append, List.cons_append] at hrest
      cases htail : b.tail with
      | nil =>
        rw [htail, List.nil_append, List.nil_append] at hrest
        exact hfollows.ne_where (by rw [hrest]; rfl) rfl
      | cons t rest =>
        rw [htail] at hrest htailWhere
        exact htailWhere (congrArg some (List.cons.inj hrest).1)
    | some c' =>
      rw [hcond, hcond'] at hrest
      simp only [Option.map_some, Option.getD_some, List.cons_append, List.cons.injEq,
        true_and] at hrest
      have hclosed := (b.cond_closed c hcond).2
      have hclosed' := (b'.cond_closed c' hcond').2
      have hstop : ∀ t, b.tail.head? = some t → endsCond t = true := by
        intro t ht
        have hhead := b.tail_head t ht
        rwa [hcond, Option.isSome_some, if_pos rfl] at hhead
      obtain ⟨more, rfl, hx⟩ := hclosed.split hclosed' hrest.symm
        (b.ends_cond (by rw [hcond]; rfl) hfollows)
      by_cases hmore : more = []
      · subst hmore
        rw [List.append_nil] at hcond'
        exact Or.inl ⟨Block.ext_cond h (by rw [hcond, hcond']), by simpa using hx⟩
      · have htail : b.tail = [] := by
          by_contra hne
          obtain ⟨t, rest, htail⟩ := List.exists_cons_of_ne_nil hne
          obtain ⟨u, more', rfl⟩ := List.exists_cons_of_ne_nil hmore
          rw [htail] at hx
          have htu : t = u := (List.cons.inj hx).1
          have hin := hclosed.not_ends hclosed'
          rw [← htu, hstop t (by rw [htail]; rfl)] at hin
          cases hin
        rw [htail, List.nil_append, List.nil_append] at hx
        exact Or.inr (Or.inr ⟨c, more, rfl, htail, hmore, rfl, hx⟩)

end Blocks

theorem Arm.op_follows (a : Arm) (x : List Token) : Follows (a.op ++ x) := by
  intro t ht
  obtain ⟨u, rest, hop⟩ := List.exists_cons_of_ne_nil a.op_nonempty
  rw [hop] at ht
  exact Or.inr (a.op_head t (by rw [hop]; exact ht))

theorem endTokens_head (ended : Bool) : ∀ t, (endTokens ended).head? = some t → t = .sym ';' := by
  intro t ht
  cases ended with
  | false => cases ht
  | true => exact (Option.some.inj ht).symm

theorem follows_endTokens (ended : Bool) : Follows (endTokens ended) :=
  fun t ht => Or.inl (endTokens_head ended t ht)

def Arm.SameParts (a a' : Arm) : Prop := a.block.SameParts a'.block ∧ a'.op = a.op

/-- Behind a block stands the same set operation in both texts, so that the block is the same. -/
theorem Arm.eq_of_append {a a' : Arm} (h : a.SameParts a') {x y : List Token}
    (heq : a'.tokens ++ y = a.tokens ++ x) : a' = a ∧ x = y := by
  obtain ⟨hblock, hop⟩ := h
  have hfirst : ∃ t rest, a.op = t :: rest ∧ isWord ["union", "intersect", "except"] t = true := by
    obtain ⟨t, rest, hcons⟩ := List.exists_cons_of_ne_nil a.op_nonempty
    exact ⟨t, rest, hcons, a.op_head t (by rw [hcons]; rfl)⟩
  obtain ⟨t, rest, hcons, hset⟩ := hfirst
  unfold Arm.tokens at heq
  rw [List.append_assoc, List.append_assoc, hop] at heq
  have hstop : endsCond t = true := by
    unfold endsCond endsBlock
    rw [isWord_mono (by simp) hset, Bool.or_true, Bool.true_or]
  rcases Block.append_cases hblock (a.op_follows y) heq with ⟨hsame, hx⟩ | ⟨-, -, c, -, hx⟩ |
    ⟨c, more, hcond, -, hmore, hcond', hx⟩
  · refine ⟨?_, List.append_cancel_left hx⟩
    cases a
    cases a'
    subst hsame hop
    rfl
  · rw [hcons] at hx
    rw [(List.cons.inj hx).1] at hset
    exact absurd hset (by decide)
  · obtain ⟨u, more', rfl⟩ := List.exists_cons_of_ne_nil hmore
    rw [hcons] at hx
    have hin := (a.block.cond_closed c hcond).2.not_ends (a'.block.cond_closed _ hcond').2
    rw [← (List.cons.inj hx).1, hstop] at hin
    cases hin

/-- A statement that goes on is the same up to its last block. -/
theorem Statement.append_cases {s s' : Statement}
    (hearlier : List.Forall₂ Arm.SameParts s.earlier s'.earlier) (hlast : s.last.SameParts s'.last)
    {extra : List Token} (heq : s'.tokens = s.tokens ++ extra) :
    s'.earlier = s.earlier ∧
    ((s'.last = s.last ∧ endTokens s.ended ++ extra = endTokens s'.ended) ∨
    (s.last.cond = none ∧ s.last.tail = [] ∧ ∃ c, s'.last.cond = some c ∧
      endTokens s.ended ++ extra = .whereWord :: c ++ endTokens s'.ended) ∨
    (∃ c more, s.last.cond = some c ∧ s.last.tail = [] ∧ more ≠ [] ∧
      s'.last.cond = some (c ++ more) ∧ endTokens s.ended ++ extra = more ++ endTokens s'.ended)) := by
  have hearlierEq : ∀ {l l' : List Arm} {x y : List Token}, List.Forall₂ Arm.SameParts l l' →
      l'.flatMap Arm.tokens ++ y = l.flatMap Arm.tokens ++ x → l' = l ∧ x = y := by
    intro l l' x y hsame
    induction hsame with
    | nil => exact fun h => ⟨rfl, by simpa using h.symm⟩
    | cons hhead _ ih =>
      intro h
      rw [List.flatMap_cons, List.flatMap_cons, List.append_assoc, List.append_assoc] at h
      obtain ⟨rfl, hrest⟩ := Arm.eq_of_append hhead h
      obtain ⟨rfl, hx⟩ := ih hrest.symm
      exact ⟨rfl, hx⟩
  unfold Statement.tokens at heq
  rw [List.append_assoc, List.append_assoc, List.append_assoc] at heq
  obtain ⟨hsame, hrest⟩ := hearlierEq hearlier heq
  exact ⟨hsame, Block.append_cases hlast (follows_endTokens s'.ended) hrest.symm⟩

/-- What stands behind the source of a block ends the source. -/
theorem Block.ends_source (b : Block) {x : List Token} (hx : Follows x) :
    ∀ t, (b.condTokens ++ (b.tail ++ x)).head? = some t → endsSource t = true := by
  intro t ht
  unfold Block.condTokens at ht
  cases hcond : b.cond with
  | some c =>
    rw [hcond] at ht
    obtain rfl : Token.whereWord = t := Option.some.inj ht
    rfl
  | none =>
    rw [hcond] at ht
    cases htail : b.tail with
    | nil =>
      rw [htail] at ht
      unfold endsSource endsCond
      rw [hx.endsBlock ht, Bool.true_or, Bool.true_or]
    | cons u rest =>
      rw [htail] at ht
      have hhead := b.tail_head t (by rw [htail]; exact ht)
      rwa [hcond, Option.isSome_none, if_neg (by simp)] at hhead

/-- There is one way to read a block before what may follow it. -/
theorem Block.unique {b b' : Block} {x y : List Token} (hx : Follows x) (hy : Follows y)
    (heq : b.tokens ++ x = b'.tokens ++ y) : b = b' ∧ x = y := by
  have hparts : b.projection ++ .fromWord :: (b.source ++ (b.condTokens ++ (b.tail ++ x))) =
      b'.projection ++ .fromWord :: (b'.source ++ (b'.condTokens ++ (b'.tail ++ y))) := by
    unfold Block.tokens at heq
    simpa using heq
  have hfrom : ∀ {z : List Token} t, (Token.fromWord :: z).head? = some t →
      decide (t = .fromWord) = true := by
    intro z t ht
    obtain rfl : Token.fromWord = t := Option.some.inj ht
    exact decide_eq_true rfl
  obtain ⟨hprojection, hfromEq⟩ :=
    b.projection_closed.2.unique b'.projection_closed.2 hparts hfrom hfrom
  obtain ⟨hsource, hrest⟩ := b.source_closed.2.unique b'.source_closed.2
    (List.cons.inj hfromEq).2 (b.ends_source hx) (b'.ends_source hy)
  have htail : b.cond = b'.cond ∧ b.tail ++ x = b'.tail ++ y := by
    have hwhere : ∀ {c d : Block} {u w : List Token}, Follows w → c.cond = none →
        d.cond.isSome → d.condTokens ++ u ≠ c.condTokens ++ (c.tail ++ w) := by
      intro c d u w hw hnone hsome hsame
      obtain ⟨cond, hcond⟩ := Option.isSome_iff_exists.mp hsome
      unfold Block.condTokens at hsame
      rw [hnone, hcond] at hsame
      have hhead : (c.tail ++ w).head? = some .whereWord := by
        simp only [Option.map_none, Option.getD_none, List.nil_append] at hsame
        rw [← hsame]
        rfl
      cases htail : c.tail with
      | nil =>
        rw [htail] at hhead
        exact hw.ne_where hhead rfl
      | cons t rest =>
        rw [htail] at hhead
        have ht : c.tail.head? = some .whereWord := by rw [htail]; exact hhead
        exact absurd (c.tail_closed.head_not_ends ht) (by decide)
    cases hcond : b.cond with
    | none =>
      cases hcond' : b'.cond with
      | none =>
        unfold Block.condTokens at hrest
        rw [hcond, hcond'] at hrest
        exact ⟨rfl, hrest⟩
      | some c' => exact absurd hrest.symm (hwhere hx hcond (by rw [hcond']; rfl))
    | some c =>
      cases hcond' : b'.cond with
      | none => exact absurd hrest (hwhere hy hcond' (by rw [hcond]; rfl))
      | some c' =>
        have hcut : c ++ (b.tail ++ x) = c' ++ (b'.tail ++ y) := by
          unfold Block.condTokens at hrest
          rw [hcond, hcond'] at hrest
          exact (List.cons.inj hrest).2
        obtain ⟨rfl, hsame⟩ := (b.cond_closed c hcond).2.unique (b'.cond_closed c' hcond').2 hcut
          (b.ends_cond (by rw [hcond]; rfl) hx) (b'.ends_cond (by rw [hcond']; rfl) hy)
        exact ⟨rfl, hsame⟩
  obtain ⟨htailEq, hxy⟩ := b.tail_closed.unique b'.tail_closed htail.2
    (fun t ht => hx.endsBlock ht) (fun t ht => hy.endsBlock ht)
  exact ⟨(Block.ext_cond ⟨hprojection.symm, hsource.symm, htailEq.symm⟩ htail.1.symm).symm, hxy⟩

theorem Arm.op_ne (a : Arm) {x z : List Token} (hx : ∀ t, x.head? = some t → t = .sym ';') :
    x ≠ a.op ++ z := by
  intro heq
  obtain ⟨t, rest, hcons⟩ := List.exists_cons_of_ne_nil a.op_nonempty
  have hset := a.op_head t (by rw [hcons]; rfl)
  rw [hx t (by rw [heq, hcons]; rfl)] at hset
  cases hset

/-- A set operation goes on to the next `SELECT`. -/
theorem Arm.op_eq {a a' : Arm} {x y : List Token}
    (heq : a.op ++ .selectWord :: x = a'.op ++ .selectWord :: y) :
    a.op = a'.op ∧ Token.selectWord :: x = .selectWord :: y := by
  have htake : ∀ (b : Arm) (z : List Token),
      (b.op ++ .selectWord :: z).takeWhile (· ≠ .selectWord) = b.op := by
    intro b z
    rw [List.takeWhile_append_of_pos]
    · simp
    · intro t ht
      rw [decide_eq_true_eq]
      rintro rfl
      exact b.op_select ht
  have hop : a.op = a'.op := by rw [← htake a x, heq, htake]
  rw [hop] at heq
  exact ⟨hop, List.append_cancel_left heq⟩

theorem exists_select (l : List Arm) (b : Block) (x : List Token) :
    ∃ rest, l.flatMap Arm.tokens ++ (b.tokens ++ x) = .selectWord :: rest := by
  cases l with
  | nil => exact ⟨_, rfl⟩
  | cons a l => exact ⟨_, rfl⟩

/-- Tokens read as one statement at most. -/
theorem Statement.tokens_injective {s s' : Statement} (h : s.tokens = s'.tokens) : s = s' := by
  have harms : ∀ {l l' : List Arm} {b b' : Block} {ended ended' : Bool},
      l.flatMap Arm.tokens ++ (b.tokens ++ endTokens ended) =
        l'.flatMap Arm.tokens ++ (b'.tokens ++ endTokens ended') →
      l = l' ∧ b = b' ∧ endTokens ended = endTokens ended' := by
    intro l
    induction l with
    | nil =>
      intro l' b b' ended ended' heq
      cases l' with
      | nil =>
        obtain ⟨hb, hended⟩ := Block.unique (follows_endTokens _) (follows_endTokens _) heq
        exact ⟨rfl, hb, hended⟩
      | cons a' l' =>
        rw [List.flatMap_cons, Arm.tokens, List.append_assoc, List.append_assoc] at heq
        obtain ⟨-, hend⟩ := Block.unique (follows_endTokens _) (a'.op_follows _) heq
        exact absurd hend (a'.op_ne (endTokens_head _))
    | cons a l ih =>
      intro l' b b' ended ended' heq
      cases l' with
      | nil =>
        rw [List.flatMap_cons, Arm.tokens, List.append_assoc, List.append_assoc] at heq
        obtain ⟨-, hend⟩ := Block.unique (a.op_follows _) (follows_endTokens _) heq
        exact absurd hend.symm (a.op_ne (endTokens_head _))
      | cons a' l' =>
        rw [List.flatMap_cons, List.flatMap_cons, Arm.tokens, Arm.tokens] at heq
        simp only [List.append_assoc] at heq
        obtain ⟨hblock, hrest⟩ := Block.unique (a.op_follows _) (a'.op_follows _) heq
        obtain ⟨x, hx⟩ := exists_select l b (endTokens ended)
        obtain ⟨y, hy⟩ := exists_select l' b' (endTokens ended')
        rw [hx, hy] at hrest
        obtain ⟨hop, hsame⟩ := Arm.op_eq hrest
        rw [← hx, ← hy] at hsame
        obtain ⟨rfl, hb, hended⟩ := ih hsame
        refine ⟨?_, hb, hended⟩
        congr 1
        cases a
        cases a'
        subst hblock hop
        rfl
  unfold Statement.tokens at h
  rw [List.append_assoc, List.append_assoc] at h
  obtain ⟨hearlier, hlast, hended⟩ := harms h
  have hsame : s.ended = s'.ended := by
    cases hs : s.ended <;> cases hs' : s'.ended <;> simp [hs, hs', endTokens] at hended ⊢
  cases s
  cases s'
  subst hearlier hlast hsame
  rfl

end RustLake.Sql
