import Mathlib.Data.List.Basic

/-! The tokens of Rust programs, as far as identifiers, string literals and single symbols go, with
white space and line comments between them. -/
namespace RustLake.Rust

/-- String literals are kept as what they denote, and comments only where they document. -/
inductive Token where
  | ident (name : List Char)
  | str (value : List Char)
  | sym (c : Char)
  | doc (text : List Char)
deriving DecidableEq, Repr

/-- What the reader of a string literal is in the middle of. -/
inductive Part where
  | plain
  | escape
  | hex
  | hexDigit (high : ℕ)
  | unicode
  | digits (value count : ℕ)
  | continued
deriving DecidableEq, Repr

/-- What the reader of a program is in the middle of. -/
inductive Mode where
  | start
  | ident (name : List Char)
  | slash
  | comment (text : List Char)
  | str (value : List Char) (part : Part)
  | fail
deriving DecidableEq, Repr

/-- A line ending of two characters counts as one. -/
def normalizeCrlf : List Char → List Char
  | [] => []
  | '\r' :: '\n' :: s => '\n' :: normalizeCrlf s
  | c :: s => c :: normalizeCrlf s

def isIdentStart (c : Char) : Bool := c.isAlpha || c == '_'

def isIdentChar (c : Char) : Bool := c.isAlphanum || c == '_'

def isBlank (c : Char) : Bool := c == ' ' || c == '\n' || c == '\t' || c == '\r'

def symbols : List Char := "()[]\x7b\x7d<>=!,.;:&*+-#?|".toList

def begin (c : Char) : List Token × Mode :=
  if isBlank c then ([], .start)
  else if isIdentStart c then ([], .ident [c])
  else if c = '"' then ([], .str [] .plain)
  else if c = '/' then ([], .slash)
  else if c ∈ symbols then ([.sym c], .start)
  else ([], .fail)

def endBefore (token : Token) (c : Char) : List Token × Mode :=
  (token :: (begin c).1, (begin c).2)

/-- A comment documents that begins with an exclamation mark, or with a third slash and no fourth. -/
def isDoc : List Char → Bool
  | '!' :: _ => true
  | '/' :: '/' :: _ => false
  | '/' :: _ => true
  | _ => false

def docTokens (text : List Char) : List Token := if isDoc text then [.doc text] else []

def hexValue (c : Char) : Option ℕ :=
  if c.isDigit then some (c.toNat - '0'.toNat)
  else if 'a' ≤ c ∧ c ≤ 'f' then some (c.toNat - 'a'.toNat + 10)
  else if 'A' ≤ c ∧ c ≤ 'F' then some (c.toNat - 'A'.toNat + 10)
  else none

def simpleEscape (c : Char) : Option Char :=
  if c = 'n' then some '\n'
  else if c = 'r' then some '\r'
  else if c = 't' then some '\t'
  else if c = '0' then some (Char.ofNat 0)
  else if c = '\\' ∨ c = '\'' ∨ c = '"' then some c
  else none

/-- A carriage return by itself does not stand in a string literal. -/
def plainStep (value : List Char) (c : Char) : List Token × Mode :=
  if c = '"' then ([.str value], .start)
  else if c = '\\' then ([], .str value .escape)
  else if c = '\r' then ([], .fail)
  else ([], .str (value ++ [c]) .plain)

def escapeStep (value : List Char) (c : Char) : List Token × Mode :=
  match simpleEscape c with
  | some d => ([], .str (value ++ [d]) .plain)
  | none =>
    if c = 'x' then ([], .str value .hex)
    else if c = 'u' then ([], .str value .unicode)
    else if c = '\n' then ([], .str value .continued)
    else ([], .fail)

/-- Two digits denote a character of ASCII, and up to six in braces any character. -/
def Part.step (value : List Char) : Part → Char → List Token × Mode
  | .plain, c => plainStep value c
  | .escape, c => escapeStep value c
  | .hex, c => match hexValue c with
    | some d => if d < 8 then ([], .str value (.hexDigit d)) else ([], .fail)
    | none => ([], .fail)
  | .hexDigit high, c => match hexValue c with
    | some d => ([], .str (value ++ [Char.ofNat (16 * high + d)]) .plain)
    | none => ([], .fail)
  | .unicode, c => if c = '{' then ([], .str value (.digits 0 0)) else ([], .fail)
  | .digits n count, c =>
    if c = '}' then
      if 0 < count ∧ n.isValidChar then ([], .str (value ++ [Char.ofNat n]) .plain) else ([], .fail)
    else if c = '_' then if 0 < count then ([], .str value (.digits n count)) else ([], .fail)
    else match hexValue c with
      | some d => if count < 6 then ([], .str value (.digits (16 * n + d) (count + 1))) else ([], .fail)
      | none => ([], .fail)
  | .continued, c =>
    if c = ' ' ∨ c = '\n' ∨ c = '\t' then ([], .str value .continued) else plainStep value c

/-- A carriage return by itself does not stand in a comment that documents, and no quote or hash right
behind an identifier. -/
def Mode.step : Mode → Char → List Token × Mode
  | .start, c => begin c
  | .ident name, c =>
    if isIdentChar c then ([], .ident (name ++ [c]))
    else if c = '"' ∨ c = '\'' ∨ c = '#' then ([], .fail)
    else endBefore (.ident name) c
  | .slash, c =>
    if c = '/' then ([], .comment [])
    else if c = '*' then ([], .fail)
    else endBefore (.sym '/') c
  | .comment text, c =>
    if c = '\n' then (docTokens text, .start)
    else if c = '\r' ∧ isDoc text then ([], .fail)
    else ([], .comment (text ++ [c]))
  | .str value part, c => part.step value c
  | .fail, _ => ([], .fail)

/-- The tokens that end with the program; none where it breaks off. -/
def Mode.finish : Mode → Option (List Token)
  | .start => some []
  | .ident name => some [.ident name]
  | .slash => some [.sym '/']
  | .comment text => some (docTokens text)
  | .str _ _ => none
  | .fail => none

def Mode.tokens : Mode → List Char → Option (List Token)
  | mode, [] => mode.finish
  | mode, c :: s => ((mode.step c).2.tokens s).map ((mode.step c).1 ++ ·)

/-- The tokens of a program, if it is lexically valid. -/
def tokens (program : List Char) : Option (List Token) := Mode.start.tokens (normalizeCrlf program)

example : tokens "let s = \"a\\x41\\\n  \\u\x7b3b1\x7d\"; // end".toList =
    some [.ident "let".toList, .ident ['s'], .sym '=', .str "aAα".toList, .sym ';'] := by
  decide +kernel

/-- The tokens read from a text and what the reader is in the middle of after it. -/
def Mode.read : Mode → List Char → List Token × Mode
  | mode, [] => ([], mode)
  | mode, c :: s =>
    let rest := (mode.step c).2.read s
    ((mode.step c).1 ++ rest.1, rest.2)

theorem Mode.read_append (mode : Mode) (a b : List Char) :
    mode.read (a ++ b) =
      ((mode.read a).1 ++ ((mode.read a).2.read b).1, ((mode.read a).2.read b).2) := by
  induction a generalizing mode with
  | nil => rfl
  | cons c a ih =>
    rw [List.cons_append, Mode.read, ih]
    simp [Mode.read]

theorem Mode.tokens_eq_read (mode : Mode) (s : List Char) :
    mode.tokens s = (mode.read s).2.finish.map ((mode.read s).1 ++ ·) := by
  induction s generalizing mode with
  | nil => simp [Mode.tokens, Mode.read]
  | cons c s ih => simp [Mode.tokens, Mode.read, ih, Function.comp_def]

@[simp] theorem Mode.read_fail (s : List Char) : Mode.fail.read s = ([], .fail) := by
  induction s with
  | nil => rfl
  | cons c s ih => rw [Mode.read, Mode.step, ih]; rfl

theorem normalizeCrlf_of_notMem {s : List Char} (h : '\r' ∉ s) : normalizeCrlf s = s := by
  induction s using normalizeCrlf.induct with
  | case1 => rfl
  | case2 s ih => exact absurd List.mem_cons_self h
  | case3 c s hne ih =>
    rw [normalizeCrlf]
    · rw [ih fun hmem => h (List.mem_cons_of_mem _ hmem)]
    · exact hne

/-- A line ending does not reach over a place behind which no line feed stands. -/
theorem normalizeCrlf_append (a : List Char) {b : List Char} (h : b.head? ≠ some '\n') :
    normalizeCrlf (a ++ b) = normalizeCrlf a ++ normalizeCrlf b := by
  induction a using normalizeCrlf.induct with
  | case1 => rfl
  | case2 s ih =>
    rw [List.cons_append, List.cons_append, normalizeCrlf, ih]
    rfl
  | case3 c s hne ih =>
    rw [List.cons_append, normalizeCrlf, normalizeCrlf, ih]
    · rfl
    · exact hne
    · intro t hc heq
      rcases s with _ | ⟨d, s⟩
      · rw [List.nil_append] at heq
        exact h (by rw [heq]; rfl)
      · rw [List.cons_append] at heq
        obtain ⟨rfl, -⟩ := List.cons.inj heq
        exact hne s hc rfl

theorem normalizeCrlf_append_of_notMem {a : List Char} (h : '\r' ∉ a) (b : List Char) :
    normalizeCrlf (a ++ b) = a ++ normalizeCrlf b := by
  induction a with
  | nil => rfl
  | cons c a ih =>
    obtain ⟨hc, ha⟩ := not_or.mp (mt List.mem_cons.mpr h)
    rw [List.cons_append, normalizeCrlf]
    · rw [ih ha]
      rfl
    · intro t hreturn
      exact absurd hreturn.symm hc

theorem normalizeCrlf_of_no_line {s : List Char} (h : '\n' ∉ s) : normalizeCrlf s = s := by
  induction s using normalizeCrlf.induct with
  | case1 => rfl
  | case2 s ih => simp at h
  | case3 c s hne ih =>
    rw [normalizeCrlf]
    · rw [ih fun hmem => h (List.mem_cons_of_mem _ hmem)]
    · exact hne

/-- The end of a line stays. -/
theorem normalizeCrlf_line {line : List Char} (h : '\n' ∉ line) (s : List Char) :
    ∃ kept, '\n' ∉ kept ∧ normalizeCrlf (line ++ '\n' :: s) = kept ++ '\n' :: normalizeCrlf s := by
  have hend : normalizeCrlf ('\n' :: s) = '\n' :: normalizeCrlf s :=
    normalizeCrlf_append_of_notMem (a := ['\n']) (by decide) s
  induction line with
  | nil => exact ⟨[], by simp, hend⟩
  | cons c line ih =>
    obtain ⟨hc, hline⟩ := not_or.mp (mt List.mem_cons.mpr h)
    obtain ⟨kept, hkept, heq⟩ := ih hline
    rcases line with _ | ⟨d, line⟩
    · by_cases hreturn : c = '\r'
      · rw [hreturn]
        exact ⟨[], by simp, rfl⟩
      · refine ⟨[c], by simpa using hc, ?_⟩
        exact normalizeCrlf_append_of_notMem (a := [c]) (by simpa using Ne.symm hreturn) _ |>.trans
          (by rw [hend])
    · refine ⟨c :: kept, fun hmem => ?_, ?_⟩
      · rcases List.mem_cons.mp hmem with hmem | hmem
        · exact hc hmem
        · exact hkept hmem
      · have hd : (d :: line ++ '\n' :: s).head? ≠ some '\n' := by
          intro heq
          exact hline (by simp [Option.some.inj heq])
        have hsplit := normalizeCrlf_append [c] hd
        have hsingle : normalizeCrlf [c] = [c] := normalizeCrlf_of_no_line (by simpa using hc)
        rw [hsingle, heq] at hsplit
        exact hsplit

/-- A line of a comment, in which no carriage return stands. -/
theorem read_comment {line : List Char} (hline : '\n' ∉ line) (hreturn : '\r' ∉ line)
    (text : List Char) : (Mode.comment text).read line = ([], .comment (text ++ line)) := by
  induction line generalizing text with
  | nil => simp [Mode.read]
  | cons c line ih =>
    obtain ⟨hc, hrest⟩ := not_or.mp (mt List.mem_cons.mpr hline)
    obtain ⟨hc', hrest'⟩ := not_or.mp (mt List.mem_cons.mpr hreturn)
    simp [Mode.read, Mode.step, Ne.symm hc, Ne.symm hc', ih hrest hrest']

/-- A line of a comment is read to its end, or nothing behind it is. -/
theorem read_comment_cases {line : List Char} (hline : '\n' ∉ line) (text : List Char) :
    (Mode.comment text).read line = ([], .comment (text ++ line)) ∨
      (Mode.comment text).read line = ([], .fail) := by
  induction line generalizing text with
  | nil => exact Or.inl (by simp [Mode.read])
  | cons c line ih =>
    obtain ⟨hc, hrest⟩ := not_or.mp (mt List.mem_cons.mpr hline)
    by_cases hreturn : c = '\r' ∧ isDoc text
    · exact Or.inr (by simp [Mode.read, Mode.step, hreturn])
    · rcases ih hrest (text ++ [c]) with hread | hread
      · exact Or.inl (by simp [Mode.read, Mode.step, Ne.symm hc, hreturn, hread])
      · exact Or.inr (by simp [Mode.read, Mode.step, Ne.symm hc, hreturn, hread])

end RustLake.Rust
