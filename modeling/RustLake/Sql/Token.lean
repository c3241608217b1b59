import RustLake.Rust.Basic

/-! The tokens of SQL text: words, quoted identifiers, strings, numbers, comparison operators
and single symbols, with white space and comments between them. -/
namespace RustLake.Sql

inductive Comparison where
  | eq | notEq | lt | ltEq | gt | gtEq
deriving DecidableEq, Repr

/-- Words are kept in lower case; quoted identifiers and strings without their quotes. -/
inductive Token where
  | word (text : List Char)
  | ident (name : List Char)
  | str (text : List Char)
  | num (digits : List Char)
  | cmp (op : Comparison)
  | sym (c : Char)
deriving DecidableEq, Repr

/-- What the reader of a text is in the middle of. -/
inductive Mode where
  | start
  | word (text : List Char)
  | num (digits : List Char)
  | str (text : List Char)
  | strEnd (text : List Char)
  | ident (name : List Char)
  | identEnd (name : List Char)
  | less | greater | bang
  | dash | lineComment
  | slash | blockComment | blockStar
  | fail
deriving DecidableEq, Repr

def isWordStart (c : Char) : Bool := c.isAlpha || decide (c = '_') || decide (127 < c.toNat)

def isWordChar (c : Char) : Bool := isWordStart c || c.isDigit

/-- The characters that are tokens by themselves. -/
def symbols : List Char := "()[]\x7b\x7d,.;:*+%^&|?@$".toList

/-- A character that begins a token. -/
def begin (c : Char) : List Token × Mode :=
  if isWhitespace c then ([], .start)
  else if isWordStart c then ([], .word [c.toLower])
  else if c.isDigit then ([], .num [c])
  else if c = '\'' then ([], .str [])
  else if c = '"' then ([], .ident [])
  else if c = '=' then ([.cmp .eq], .start)
  else if c = '<' then ([], .less)
  else if c = '>' then ([], .greater)
  else if c = '!' then ([], .bang)
  else if c = '-' then ([], .dash)
  else if c = '/' then ([], .slash)
  else if c ∈ symbols then ([.sym c], .start)
  else ([], .fail)

/-- A token that ends before a character. -/
def endBefore (token : Token) (c : Char) : List Token × Mode :=
  (token :: (begin c).1, (begin c).2)

/-- A quote within a string or a quoted identifier is doubled; the latter is not empty. -/
def Mode.step : Mode → Char → List Token × Mode
  | .start, c => begin c
  | .word text, c =>
    if isWordChar c then ([], .word (text ++ [c.toLower])) else endBefore (.word text) c
  | .num digits, c => if c.isDigit then ([], .num (digits ++ [c])) else endBefore (.num digits) c
  | .str text, c => if c = '\'' then ([], .strEnd text) else ([], .str (text ++ [c]))
  | .strEnd text, c => if c = '\'' then ([], .str (text ++ [c])) else endBefore (.str text) c
  | .ident name, c => if c = '"' then ([], .identEnd name) else ([], .ident (name ++ [c]))
  | .identEnd name, c =>
    if c = '"' then ([], .ident (name ++ [c]))
    else if name = [] then ([], .fail)
    else endBefore (.ident name) c
  | .less, c =>
    if c = '=' then ([.cmp .ltEq], .start)
    else if c = '>' then ([.cmp .notEq], .start)
    else endBefore (.cmp .lt) c
  | .greater, c => if c = '=' then ([.cmp .gtEq], .start) else endBefore (.cmp .gt) c
  | .bang, c => if c = '=' then ([.cmp .notEq], .start) else ([], .fail)
  | .dash, c => if c = '-' then ([], .lineComment) else endBefore (.sym '-') c
  | .lineComment, c => if c = '\n' then ([], .start) else ([], .lineComment)
  | .slash, c => if c = '*' then ([], .blockComment) else endBefore (.sym '/') c
  | .blockComment, c => if c = '*' then ([], .blockStar) else ([], .blockComment)
  | .blockStar, c =>
    if c = '/' then ([], .start) else if c = '*' then ([], .blockStar) else ([], .blockComment)
  | .fail, _ => ([], .fail)

/-- The tokens that end with the text; none where the text breaks off. -/
def Mode.finish : Mode → Option (List Token)
  | .start => some []
  | .word text => some [.word text]
  | .num digits => some [.num digits]
  | .strEnd text => some [.str text]
  | .identEnd name => if name = [] then none else some [.ident name]
  | .less => some [.cmp .lt]
  | .greater => some [.cmp .gt]
  | .dash => some [.sym '-']
  | .slash => some [.sym '/']
  | .lineComment => some []
  | _ => none

/-- The tokens of a text read from the middle of something. -/
def Mode.tokens : Mode → List Char → Option (List Token)
  | mode, [] => mode.finish
  | mode, c :: s => ((mode.step c).2.tokens s).map ((mode.step c).1 ++ ·)

def tokens (s : List Char) : Option (List Token) := Mode.start.tokens s

example : tokens "NOT \"id\" <> -5 -- 'x".toList =
    some [.word "not".toList, .ident "id".toList, .cmp .notEq, .sym '-', .num ['5']] := by
  decide +kernel

/-- The tokens read from a text and what the reader is in the middle of after it. -/
def Mode.read : Mode → List Char → List Token × Mode
  | mode, [] => ([], mode)
  | mode, c :: s =>
    let rest := (mode.step c).2.read s
    ((mode.step c).1 ++ rest.1, rest.2)

theorem Mode.read_append (mode : Mode) (a b : List Char) :
    mode.read (a ++ b) =
      ((mode.read a).1 ++ ((mode.read a).2.read b).1, ((mode.read a).2.read b).2) := by
  induction a generalizing mode with
  | nil => rfl
  | cons c a ih =>
    rw [List.cons_append, Mode.read, ih]
    simp [Mode.read]

theorem Mode.tokens_eq_read (mode : Mode) (s : List Char) :
    mode.tokens s = (mode.read s).2.finish.map ((mode.read s).1 ++ ·) := by
  induction s generalizing mode with
  | nil => simp [Mode.tokens, Mode.read]
  | cons c s ih => simp [Mode.tokens, Mode.read, ih, Function.comp_def]

/-- A text read in two parts. -/
theorem Mode.tokens_append (mode : Mode) (a b : List Char) :
    mode.tokens (a ++ b) = ((mode.read a).2.tokens b).map ((mode.read a).1 ++ ·) := by
  rw [tokens_eq_read, read_append, tokens_eq_read]
  simp [Function.comp_def]

/-- Nothing, or a character that no token goes on with. -/
def Delimited (s : List Char) : Prop := s = [] ∨ ∃ c rest, s = c :: rest ∧ (c = ' ' ∨ c = ')')

theorem delimited_space (s : List Char) : Delimited (' ' :: s) := Or.inr ⟨_, _, rfl, Or.inl rfl⟩

theorem delimited_close (s : List Char) : Delimited (')' :: s) := Or.inr ⟨_, _, rfl, Or.inr rfl⟩

/-- Where a token may end, a delimiter ends it. -/
theorem Mode.step_delimiter {mode : Mode} {ts : List Token} {c : Char}
    (hfinish : mode.finish = some ts) (hcomment : mode ≠ .lineComment) (hc : c = ' ' ∨ c = ')') :
    mode.step c = (ts ++ (begin c).1, (begin c).2) := by
  have hplain : isWordChar c = false ∧ c.isDigit = false ∧
      c ∉ ['\'', '"', '=', '>', '-', '*'] := by
    rcases hc with rfl | rfl <;> decide
  obtain ⟨hword, hdigit, hquote⟩ := hplain
  simp only [List.mem_cons, List.not_mem_nil, or_false, not_or] at hquote
  cases mode <;> simp [Mode.finish] at hfinish hcomment
  case identEnd name =>
    obtain ⟨hname, rfl⟩ := hfinish
    simp [Mode.step, endBefore, hquote, hname]
  all_goals
    subst hfinish
    simp [Mode.step, endBefore, hword, hdigit, hquote]

/-- A text that stands for tokens, whatever delimited text follows. -/
def Spells (x : List Char) (ts : List Token) : Prop :=
  ∀ s, Delimited s → tokens (x ++ s) = (tokens s).map (ts ++ ·)

theorem Spells.tokens_eq {x : List Char} {ts : List Token} (h : Spells x ts) :
    tokens x = some ts := by
  have hnil := h [] (Or.inl rfl)
  rw [List.append_nil] at hnil
  simpa [tokens, Mode.tokens, Mode.finish] using hnil

/-- A text at whose end a token may end. -/
theorem spells_of_read {x : List Char} {ts us : List Token} {mode : Mode}
    (hread : Mode.start.read x = (ts, mode)) (hfinish : mode.finish = some us)
    (hcomment : mode ≠ .lineComment) : Spells x (ts ++ us) := by
  intro s hs
  rw [tokens, Mode.tokens_append, hread]
  rcases hs with rfl | ⟨c, rest, rfl, hc⟩
  · have hstart : Mode.start.finish = some [] := rfl
    simp [Mode.tokens, hfinish, tokens, hstart]
  · have hstep := Mode.step_delimiter hfinish hcomment hc
    have hbegin : Mode.start.step c = begin c := rfl
    simp [Mode.tokens, tokens, hstep, hbegin, Function.comp_def]

theorem tokens_space (s : List Char) : tokens (' ' :: s) = tokens s := by
  have hstep : Mode.start.step ' ' = ([], .start) := by decide
  simp [tokens, Mode.tokens, hstep]

theorem Spells.space {x y : List Char} {ts us : List Token} (hx : Spells x ts)
    (hy : Spells y us) : Spells (x ++ ' ' :: y) (ts ++ us) := by
  intro s hs
  rw [List.append_assoc, List.cons_append, hx _ (delimited_space _), tokens_space, hy s hs]
  simp [Function.comp_def]

theorem Spells.paren {x : List Char} {ts : List Token} (hx : Spells x ts) :
    Spells ('(' :: x ++ [')']) (.sym '(' :: ts ++ [.sym ')']) := by
  intro s hs
  have hopen : ∀ t, tokens ('(' :: t) = (tokens t).map (.sym '(' :: ·) := by
    intro t
    have hstep : Mode.start.step '(' = ([.sym '('], .start) := by decide
    simp [tokens, Mode.tokens, hstep]
  have hclose : ∀ t, tokens (')' :: t) = (tokens t).map (.sym ')' :: ·) := by
    intro t
    have hstep : Mode.start.step ')' = ([.sym ')'], .start) := by decide
    simp [tokens, Mode.tokens, hstep]
  have htext : '(' :: x ++ [')'] ++ s = '(' :: (x ++ ')' :: s) := by simp
  rw [htext, hopen, hx _ (delimited_close s), hclose]
  simp [Function.comp_def]

/-- A text with its quotes doubled. -/
def escaped (q : Char) (s : List Char) : List Char :=
  s.flatMap fun c => if c = q then [q, q] else [c]

theorem read_str (text s : List Char) :
    (Mode.str text).read (escaped '\'' s) = ([], .str (text ++ s)) := by
  induction s generalizing text with
  | nil => simp [escaped, Mode.read]
  | cons c s ih =>
    have hcons : escaped '\'' (c :: s) =
        (if c = '\'' then ['\'', '\''] else [c]) ++ escaped '\'' s := rfl
    rw [hcons, Mode.read_append]
    by_cases hc : c = '\''
    · simp [hc, Mode.read, Mode.step, ih]
    · simp [hc, Mode.read, Mode.step, ih]

theorem spells_str (s : List Char) :
    Spells ('\'' :: escaped '\'' s ++ ['\'']) [.str s] := by
  have hread : Mode.start.read ('\'' :: escaped '\'' s ++ ['\'']) = ([], .strEnd s) := by
    have hopen : Mode.start.step '\'' = ([], .str []) := by decide
    rw [List.cons_append, Mode.read, hopen]
    simp only [Mode.read_append, read_str]
    simp [Mode.read, Mode.step]
  exact spells_of_read hread rfl (by simp)

theorem read_ident {name : List Char} (hname : '"' ∉ name) (acc : List Char) :
    (Mode.ident acc).read name = ([], .ident (acc ++ name)) := by
  induction name generalizing acc with
  | nil => simp [Mode.read]
  | cons c name ih =>
    obtain ⟨hc, hrest⟩ := not_or.mp (mt List.mem_cons.mpr hname)
    simp [Mode.read, Mode.step, Ne.symm hc, ih hrest]

theorem spells_ident {name : List Char} (hne : name ≠ []) (hname : '"' ∉ name) :
    Spells ('"' :: name ++ ['"']) [.ident name] := by
  have hread : Mode.start.read ('"' :: name ++ ['"']) = ([], .identEnd name) := by
    have hopen : Mode.start.step '"' = ([], .ident []) := by decide
    rw [List.cons_append, Mode.read, hopen]
    simp only [Mode.read_append, read_ident hname]
    simp [Mode.read, Mode.step]
  exact spells_of_read hread (by simp [Mode.finish, hne]) (by simp)

theorem read_num {ds : List Char} (hds : ∀ c ∈ ds, c.isDigit = true) (acc : List Char) :
    (Mode.num acc).read ds = ([], .num (acc ++ ds)) := by
  induction ds generalizing acc with
  | nil => simp [Mode.read]
  | cons c ds ih =>
    obtain ⟨hc, hrest⟩ := List.forall_mem_cons.mp hds
    simp [Mode.read, Mode.step, hc, ih hrest]

theorem begin_digit {c : Char} (hc : c.isDigit = true) : begin c = ([], .num [c]) := by
  have hbounds : 48 ≤ c.toNat ∧ c.toNat < 58 := by
    simp only [Char.isDigit, Bool.and_eq_true, decide_eq_true_eq, ge_iff_le,
      UInt32.le_iff_toNat_le] at hc
    exact ⟨hc.1, Nat.lt_succ_of_le hc.2⟩
  have hall : ∀ n < 58, 48 ≤ n → begin (Char.ofNat n) = ([], .num [Char.ofNat n]) := by decide
  rw [← Char.ofNat_toNat c]
  exact hall c.toNat hbounds.2 hbounds.1

theorem spells_num {ds : List Char} (hne : ds ≠ []) (hds : ∀ c ∈ ds, c.isDigit = true) :
    Spells ds [.num ds] := by
  obtain ⟨c, rest, rfl⟩ := List.exists_cons_of_ne_nil hne
  obtain ⟨hc, hrest⟩ := List.forall_mem_cons.mp hds
  have hread : Mode.start.read (c :: rest) = ([], .num (c :: rest)) := by
    have hstep : Mode.start.step c = ([], .num [c]) := begin_digit hc
    rw [Mode.read, hstep]
    simp [read_num hrest]
  exact spells_of_read hread rfl (by simp)

/-- A minus sign before a number. -/
theorem spells_minus {ds : List Char} (hne : ds ≠ []) (hds : ∀ c ∈ ds, c.isDigit = true) :
    Spells ('-' :: ds) [.sym '-', .num ds] := by
  obtain ⟨c, rest, rfl⟩ := List.exists_cons_of_ne_nil hne
  obtain ⟨hc, hrest⟩ := List.forall_mem_cons.mp hds
  have hread : Mode.start.read ('-' :: c :: rest) = ([.sym '-'], .num (c :: rest)) := by
    have hdash : Mode.start.step '-' = ([], .dash) := by decide
    have hne : c ≠ '-' := by rintro rfl; simp at hc
    rw [Mode.read, hdash]
    simp [Mode.read, Mode.step, hne, endBefore, begin_digit hc, read_num hrest]
  exact spells_of_read hread rfl (by simp)

/-- A string that is being read is the next token, and no longer than the text. -/
theorem Mode.str_head (x : List Char) :
    (∀ text ts, (Mode.str text).tokens x = some ts →
      ∃ s rest, ts = .str s :: rest ∧ s.length + 1 ≤ text.length + x.length) ∧
    ∀ text ts, (Mode.strEnd text).tokens x = some ts →
      ∃ s rest, ts = .str s :: rest ∧ s.length ≤ text.length + x.length := by
  induction x with
  | nil =>
    refine ⟨fun text ts h => (by cases h), fun text ts h => ?_⟩
    rw [Mode.tokens, Mode.finish, Option.some.injEq] at h
    exact ⟨text, [], h.symm, le_refl _⟩
  | cons c x ih =>
    obtain ⟨ihstr, ihend⟩ := ih
    refine ⟨fun text ts h => ?_, fun text ts h => ?_⟩
    · rw [Mode.tokens, Mode.step] at h
      split_ifs at h
      · obtain ⟨us, hus, rfl⟩ := Option.map_eq_some_iff.mp h
        obtain ⟨s, rest, rfl, hlength⟩ := ihend text us hus
        exact ⟨s, rest, rfl, by simp only [List.length_cons]; omega⟩
      · obtain ⟨us, hus, rfl⟩ := Option.map_eq_some_iff.mp h
        obtain ⟨s, rest, rfl, hlength⟩ := ihstr (text ++ [c]) us hus
        rw [List.length_append, List.length_singleton] at hlength
        exact ⟨s, rest, rfl, by simp only [List.length_cons]; omega⟩
    · rw [Mode.tokens, Mode.step] at h
      split_ifs at h
      · obtain ⟨us, hus, rfl⟩ := Option.map_eq_some_iff.mp h
        obtain ⟨s, rest, rfl, hlength⟩ := ihstr (text ++ [c]) us hus
        rw [List.length_append, List.length_singleton] at hlength
        exact ⟨s, rest, rfl, by simp only [List.length_cons]; omega⟩
      · obtain ⟨us, hus, rfl⟩ := Option.map_eq_some_iff.mp h
        exact ⟨text, _, rfl, Nat.le_add_right _ _⟩

theorem Mode.read_str_plain {s : List Char} (hs : '\'' ∉ s) (text : List Char) :
    (Mode.str text).read s = ([], .str (text ++ s)) := by
  induction s generalizing text with
  | nil => simp [Mode.read]
  | cons c s ih =>
    obtain ⟨hc, hrest⟩ := not_or.mp (mt List.mem_cons.mpr hs)
    simp [Mode.read, Mode.step, Ne.symm hc, ih hrest]

theorem spells_str_plain {s : List Char} (hs : '\'' ∉ s) : Spells ('\'' :: s ++ ['\'']) [.str s] := by
  have hread : Mode.start.read ('\'' :: s ++ ['\'']) = ([], .strEnd s) := by
    have hopen : Mode.start.step '\'' = ([], .str []) := by decide
    rw [List.cons_append, Mode.read, hopen]
    simp only [Mode.read_append, Mode.read_str_plain hs]
    simp [Mode.read, Mode.step]
  exact spells_of_read hread rfl (by simp)

/-- A text with a quote in it is not the string between quotes around it. -/
theorem tokens_quoted_ne {s : List Char} (hs : '\'' ∈ s) {ts : List Token} :
    tokens ('\'' :: s ++ ['\'']) ≠ some (.str s :: ts) := by
  intro h
  obtain ⟨a, b, rfl, ha⟩ := List.eq_append_cons_of_mem hs
  have htext : '\'' :: (a ++ '\'' :: b) ++ ['\''] = '\'' :: a ++ ['\''] ++ (b ++ ['\'']) := by simp
  have hread : Mode.start.read ('\'' :: a ++ ['\'']) = ([], .strEnd a) := by
    have hopen : Mode.start.step '\'' = ([], .str []) := by decide
    rw [List.cons_append, Mode.read, hopen]
    simp only [Mode.read_append, Mode.read_str_plain ha]
    simp [Mode.read, Mode.step]
  rw [htext, tokens, Mode.tokens_append, hread] at h
  obtain ⟨us, hus, heq⟩ := Option.map_eq_some_iff.mp h
  rw [List.nil_append] at heq
  subst heq
  obtain ⟨c, x, hx⟩ := List.exists_cons_of_ne_nil (List.concat_ne_nil '\'' b)
  have hlength := congrArg List.length hx
  rw [hx, Mode.tokens, Mode.step] at hus
  split_ifs at hus
  · obtain ⟨vs, hvs, hsame⟩ := Option.map_eq_some_iff.mp hus
    obtain ⟨t, rest, rfl, hle⟩ := (Mode.str_head x).1 _ _ hvs
    obtain rfl := Token.str.inj (List.cons.inj hsame).1
    simp only [List.length_append, List.length_cons, List.length_nil] at hle hlength
    omega
  · obtain ⟨vs, -, hsame⟩ := Option.map_eq_some_iff.mp hus
    have heq := congrArg List.length (Token.str.inj (List.cons.inj hsame).1)
    simp at heq

end RustLake.Sql
