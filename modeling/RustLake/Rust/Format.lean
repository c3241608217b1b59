import RustLake.Rust.Basic
import RustLake.Rust.Lexer

/-! Format strings, and programs that bind string literals to names and print them. -/
namespace RustLake.Rust

/-- A character that is printed as it is, or a placeholder with what stands between its braces. -/
inductive Piece where
  | text (c : Char)
  | hole (content : List Char)
deriving DecidableEq, Repr

/-- What the reader of a format string is in the middle of. -/
inductive Reading where
  | text
  | opening
  | hole (content : List Char)
  | closing
deriving DecidableEq, Repr

/-- Braces that are doubled stand for themselves, and none stands between two others. -/
def Reading.step : Reading → Char → Option (List Piece × Reading)
  | .text, c =>
    if c = '{' then some ([], .opening)
    else if c = '}' then some ([], .closing)
    else some ([.text c], .text)
  | .opening, c =>
    if c = '{' then some ([.text '{'], .text)
    else if c = '}' then some ([.hole []], .text)
    else some ([], .hole [c])
  | .hole content, c =>
    if c = '}' then some ([.hole content], .text)
    else if c = '{' then none
    else some ([], .hole (content ++ [c]))
  | .closing, c => if c = '}' then some ([.text '}'], .text) else none

def Reading.pieces : Reading → List Char → Option (List Piece)
  | .text, [] => some []
  | _, [] => none
  | reading, c :: s =>
    (reading.step c).bind fun (ps, next) => (next.pieces s).map (ps ++ ·)

/-- Which value a placeholder stands for. -/
inductive Argument where
  | next
  | index (n : ℕ)
  | named (name : List Char)
deriving DecidableEq, Repr

/-- The argument of a placeholder stands before the colon, white space at the end does not count. -/
def argumentOf (content : List Char) : Argument :=
  let text := (trimEnd content).takeWhile (· ≠ ':')
  if text = [] then .next
  else if text.all Char.isDigit then .index (text.foldl (fun n c => 10 * n + (c.toNat - 48)) 0)
  else .named text

def specOf (content : List Char) : List Char := ((trimEnd content).dropWhile (· ≠ ':')).drop 1

/-- What is printed for a text under a format specification, if that applies to texts. -/
structure Formatting where
  shown : List Char → List Char → Option (List Char)
  plain : ∀ value, shown [] value = some value

abbrev Env := List (List Char × List Char)

section Fill
variable (fmt : Formatting) (env : Env) (args : List (List Char))

/-- The value of a placeholder, which arguments it uses, and how many have been taken in their order. -/
def resolve (taken : ℕ) : Argument → Option (List Char × List ℕ × ℕ)
  | .next => args[taken]?.map fun value => (value, [taken], taken + 1)
  | .index n => args[n]?.map fun value => (value, [n], taken)
  | .named name => (env.lookup name).map fun value => (value, [], taken)

/-- The text printed for pieces, and the arguments used. -/
def fill : ℕ → List Piece → Option (List Char × List ℕ)
  | _, [] => some ([], [])
  | taken, .text c :: rest => (fill taken rest).map fun (text, used) => (c :: text, used)
  | taken, .hole content :: rest =>
    (resolve env args taken (argumentOf content)).bind fun (value, uses, taken') =>
      (fmt.shown (specOf content) value).bind fun shown =>
        (fill taken' rest).map fun (text, used) => (shown ++ text, uses ++ used)

/-- What a format string prints, if it compiles: every argument has to be used. -/
def format (s : List Char) : Option (List Char) :=
  (Reading.text.pieces s).bind fun ps => (fill fmt env args 0 ps).bind fun (text, used) =>
    if ∀ i < args.length, i ∈ used then some text else none

end Fill

inductive Stmt where
  | bind (name value : List Char)
  | print (stderr : Bool) (fmt : List Char) (args : List (List Char))
deriving DecidableEq, Repr

/-- The macros that print, and whether it is to the standard error. -/
def printsTo (name : List Char) : Option Bool :=
  if name = "println".toList then some false
  else if name = "eprintln".toList then some true
  else none

/-- The statements of a block up to its end, which is that of the program. -/
def block : List Token → Option (List Stmt)
  | [.sym '}'] => some []
  | .ident word :: .ident name :: .sym '=' :: .str value :: .sym ';' :: rest =>
    if word = "let".toList then (block rest).map (.bind name value :: ·) else none
  | .ident word :: .sym '!' :: .sym '(' :: .str fmt :: .sym ')' :: .sym ';' :: rest =>
    (printsTo word).bind fun stderr => (block rest).map (.print stderr fmt [] :: ·)
  | .ident word :: .sym '!' :: .sym '(' :: .str fmt :: .sym ',' :: .ident arg :: .sym ')' ::
      .sym ';' :: rest =>
    (printsTo word).bind fun stderr => (block rest).map (.print stderr fmt [arg] :: ·)
  | _ => none

/-- The statements of a program that is one main function, behind comments about it. -/
def program : List Token → Option (List Stmt)
  | .doc _ :: rest => program rest
  | .ident word :: .ident name :: .sym '(' :: .sym ')' :: .sym '{' :: rest =>
    if word = "fn".toList ∧ name = "main".toList then block rest else none
  | _ => none

/-- What statements print to the standard output, if they compile. -/
def output (fmt : Formatting) : Env → List Stmt → Option (List Char)
  | _, [] => some []
  | env, .bind name value :: rest => output fmt ((name, value) :: env) rest
  | env, .print stderr s args :: rest =>
    (args.mapM fun arg => env.lookup arg).bind fun values => (format fmt env values s).bind fun line =>
      (output fmt env rest).map fun text => if stderr then text else line ++ '\n' :: text

section Spec
variable {fmt : Formatting} {env : Env}

theorem output_print_nil (stderr : Bool) (s : List Char) (rest : List Stmt) :
    output fmt env (.print stderr s [] :: rest) = (format fmt env [] s).bind fun line =>
      (output fmt env rest).map fun text => if stderr then text else line ++ '\n' :: text := rfl

/-- The characters read of a placeholder that has not ended, with its brace. -/
def Reading.pending : Reading → List Char
  | .hole content => '{' :: content
  | .opening => ['{']
  | _ => []

theorem pieces_of_plain {s : List Char} (h : '{' ∉ s) (h' : '}' ∉ s) :
    Reading.text.pieces s = some (s.map .text) := by
  induction s with
  | nil => rfl
  | cons c s ih =>
    obtain ⟨hc, hs⟩ := not_or.mp (mt List.mem_cons.mpr h)
    obtain ⟨hc', hs'⟩ := not_or.mp (mt List.mem_cons.mpr h')
    simp [Reading.pieces, Reading.step, Ne.symm hc, Ne.symm hc', ih hs hs']

/-- Text without braces does not end a placeholder. -/
theorem pieces_hole_of_plain {s : List Char} (h : '{' ∉ s) (h' : '}' ∉ s) (content : List Char) :
    (Reading.hole content).pieces s = none := by
  induction s generalizing content with
  | nil => rfl
  | cons c s ih =>
    obtain ⟨hc, hs⟩ := not_or.mp (mt List.mem_cons.mpr h)
    obtain ⟨hc', hs'⟩ := not_or.mp (mt List.mem_cons.mpr h')
    simp [Reading.pieces, Reading.step, Ne.symm hc, Ne.symm hc', ih hs hs']

theorem pieces_append_plain (reading : Reading) (s : List Char) {rest : List Char} (hne : rest ≠ [])
    (h : '{' ∉ rest) (h' : '}' ∉ rest) :
    reading.pieces (s ++ rest) = (reading.pieces s).map (· ++ rest.map .text) := by
  induction s generalizing reading with
  | nil =>
    obtain ⟨c, rest, rfl⟩ := List.exists_cons_of_ne_nil hne
    obtain ⟨hc, hrest⟩ := not_or.mp (mt List.mem_cons.mpr h)
    obtain ⟨hc', hrest'⟩ := not_or.mp (mt List.mem_cons.mpr h')
    cases reading with
    | text => simpa [Reading.pieces] using pieces_of_plain h h'
    | opening =>
      simp [Reading.pieces, Reading.step, Ne.symm hc, Ne.symm hc', pieces_hole_of_plain hrest hrest']
    | hole content => exact pieces_hole_of_plain h h' content
    | closing => simp [Reading.pieces, Reading.step, Ne.symm hc']
  | cons c s ih =>
    rw [List.cons_append, Reading.pieces, Reading.pieces]
    cases reading.step c with
    | none => rfl
    | some next =>
      obtain ⟨ps, next⟩ := next
      simp [ih, Function.comp_def]

@[simp] theorem fill_nil (args : List (List Char)) (taken : ℕ) :
    fill fmt env args taken [] = some ([], []) := rfl

@[simp] theorem fill_text (args : List (List Char)) (taken : ℕ) (c : Char) (rest : List Piece) :
    fill fmt env args taken (.text c :: rest) =
      (fill fmt env args taken rest).map fun (text, used) => (c :: text, used) := rfl

theorem fill_append_text (args : List (List Char)) (taken : ℕ) (ps : List Piece) (s : List Char) :
    fill fmt env args taken (ps ++ s.map .text) =
      (fill fmt env args taken ps).map fun (text, used) => (text ++ s, used) := by
  induction ps generalizing taken with
  | nil =>
    induction s with
    | nil => rfl
    | cons c s ih =>
      rw [List.nil_append] at ih ⊢
      rw [List.map_cons, fill_text, ih]
      rfl
  | cons piece ps ih =>
    cases piece with
    | text c =>
      rw [List.cons_append, fill_text, fill_text, ih]
      cases fill fmt env args taken ps <;> rfl
    | hole content =>
      rw [List.cons_append, fill, fill]
      cases resolve env args taken (argumentOf content) with
      | none => rfl
      | some resolved =>
        obtain ⟨value, uses, taken'⟩ := resolved
        dsimp only [Option.bind_some]
        cases fmt.shown (specOf content) value with
        | none => rfl
        | some shown =>
          dsimp only [Option.bind_some]
          rw [ih]
          cases fill fmt env args taken' ps with
          | none => rfl
          | some filled => simp

/-- Text without braces behind a format string is printed behind what that prints. -/
theorem format_append_plain (args : List (List Char)) (s : List Char) {rest : List Char}
    (hne : rest ≠ []) (h : '{' ∉ rest) (h' : '}' ∉ rest) :
    format fmt env args (s ++ rest) = (format fmt env args s).map (· ++ rest) := by
  unfold format
  rw [pieces_append_plain _ _ hne h h']
  cases Reading.text.pieces s with
  | none => rfl
  | some ps =>
    dsimp only [Option.map_some, Option.bind_some]
    rw [fill_append_text]
    cases fill fmt env args 0 ps with
    | none => rfl
    | some filled =>
      dsimp only [Option.map_some, Option.bind_some]
      split_ifs <;> rfl

/-- Text without braces stands for itself. -/
theorem format_of_plain {s : List Char} (h : '{' ∉ s) (h' : '}' ∉ s) :
    format fmt env [] s = some s := by
  have hfill := @fill_append_text fmt env [] 0 [] s
  rw [List.nil_append] at hfill
  unfold format
  rw [pieces_of_plain h h']
  dsimp only [Option.bind_some]
  rw [hfill]
  simp [fill]

/-- What a step keeps of a placeholder that has not ended, and where one that ends has stood. -/
theorem Reading.step_pending {reading next : Reading} {c : Char} {first : List Piece}
    (h : reading.step c = some (first, next)) (s : List Char) :
    next.pending ++ s <:+ reading.pending ++ c :: s ∧
      ∀ content, .hole content ∈ first → '{' :: content <+: reading.pending ++ c :: s := by
  cases reading with
  | text =>
    simp only [Reading.step] at h
    split_ifs at h with hopen hclose
    all_goals
      obtain ⟨rfl, rfl⟩ := Prod.mk.inj (Option.some.inj h)
      refine ⟨?_, by simp⟩
    · rw [hopen]
      exact List.suffix_refl _
    · exact List.suffix_cons _ _
    · exact List.suffix_cons _ _
  | opening =>
    simp only [Reading.step] at h
    split_ifs at h with hopen hclose
    all_goals
      obtain ⟨rfl, rfl⟩ := Prod.mk.inj (Option.some.inj h)
    · exact ⟨⟨['{', c], rfl⟩, by simp⟩
    · refine ⟨⟨['{', c], rfl⟩, fun content hmem => ?_⟩
      rw [Piece.hole.inj (List.mem_singleton.mp hmem)]
      exact ⟨c :: s, rfl⟩
    · exact ⟨List.suffix_refl _, by simp⟩
  | hole acc =>
    simp only [Reading.step] at h
    split_ifs at h with hclose hopen
    all_goals
      obtain ⟨rfl, rfl⟩ := Prod.mk.inj (Option.some.inj h)
    · refine ⟨⟨'{' :: acc ++ [c], by simp [Reading.pending]⟩, fun content hmem => ?_⟩
      rw [Piece.hole.inj (List.mem_singleton.mp hmem)]
      exact ⟨c :: s, rfl⟩
    · exact ⟨⟨[], by simp [Reading.pending]⟩, by simp⟩
  | closing =>
    simp only [Reading.step] at h
    split_ifs at h with hclose
    obtain ⟨rfl, rfl⟩ := Prod.mk.inj (Option.some.inj h)
    exact ⟨List.suffix_cons _ _, by simp⟩

/-- A placeholder stands in the text as it is read. -/
theorem hole_isInfix {reading : Reading} {s : List Char} {ps : List Piece} {content : List Char}
    (h : reading.pieces s = some ps) (hmem : .hole content ∈ ps) :
    '{' :: content <:+: reading.pending ++ s := by
  induction s generalizing reading ps with
  | nil =>
    cases reading with
    | text =>
      obtain rfl := Option.some.inj h
      cases hmem
    | opening => cases h
    | hole acc => cases h
    | closing => cases h
  | cons c s ih =>
    rw [Reading.pieces] at h
    obtain ⟨⟨first, next⟩, hstep, hrest⟩ := Option.bind_eq_some_iff.mp h
    obtain ⟨more, hmore, rfl⟩ := Option.map_eq_some_iff.mp hrest
    obtain ⟨hsuffix, hfirst⟩ := Reading.step_pending hstep s
    rcases List.mem_append.mp hmem with hmem | hmem
    · exact (hfirst content hmem).isInfix
    · exact (ih hmore hmem).trans hsuffix.isInfix

/-- Where there is no placeholder there are no more pieces than characters, and less if there are any
braces. -/
theorem length_pieces {reading : Reading} {s : List Char} {ps : List Piece}
    (h : reading.pieces s = some ps) (hholes : ∀ content, .hole content ∉ ps) :
    ps.length ≤ s.length ∧ (reading = .text → '{' ∈ s ∨ '}' ∈ s → ps.length < s.length) := by
  induction s generalizing reading ps with
  | nil =>
    cases reading with
    | text =>
      obtain rfl := Option.some.inj h
      exact ⟨le_rfl, by simp⟩
    | opening => cases h
    | hole acc => cases h
    | closing => cases h
  | cons c s ih =>
    rw [Reading.pieces] at h
    obtain ⟨⟨first, next⟩, hstep, hrest⟩ := Option.bind_eq_some_iff.mp h
    obtain ⟨more, hmore, rfl⟩ := Option.map_eq_some_iff.mp hrest
    obtain ⟨hle, hlt⟩ := ih hmore fun content hmem =>
      hholes content (List.mem_append_right _ hmem)
    rw [List.length_append, List.length_cons]
    cases reading with
    | text =>
      simp only [Reading.step] at hstep
      split_ifs at hstep with hopen hclose
      all_goals
        obtain ⟨rfl, rfl⟩ := Prod.mk.inj (Option.some.inj hstep)
      · exact ⟨by simp; omega, fun _ _ => by simp; omega⟩
      · exact ⟨by simp; omega, fun _ _ => by simp; omega⟩
      · refine ⟨by simp; omega, fun _ hbrace => ?_⟩
        simp only [List.mem_cons, Ne.symm hopen, Ne.symm hclose, false_or] at hbrace
        have hless := hlt rfl hbrace
        simp
        omega
    | opening =>
      simp only [Reading.step] at hstep
      split_ifs at hstep with hopen hclose
      all_goals
        obtain ⟨rfl, rfl⟩ := Prod.mk.inj (Option.some.inj hstep)
      · exact ⟨by simp; omega, fun heq => by cases heq⟩
      · exact absurd (List.mem_append_left _ List.mem_cons_self) (hholes [])
      · exact ⟨by simp; omega, fun heq => by cases heq⟩
    | hole acc =>
      simp only [Reading.step] at hstep
      split_ifs at hstep with hclose hopen
      all_goals
        obtain ⟨rfl, rfl⟩ := Prod.mk.inj (Option.some.inj hstep)
      · exact absurd (List.mem_append_left _ List.mem_cons_self) (hholes acc)
      · exact ⟨by simp; omega, fun heq => by cases heq⟩
    | closing =>
      simp only [Reading.step] at hstep
      split_ifs at hstep with hclose
      obtain ⟨rfl, rfl⟩ := Prod.mk.inj (Option.some.inj hstep)
      exact ⟨by simp; omega, fun heq => by cases heq⟩

/-- Without arguments every placeholder names a value. -/
theorem named_of_fill {ps : List Piece} {taken : ℕ} {filled : List Char × List ℕ}
    (h : fill fmt env [] taken ps = some filled) {content : List Char} (hmem : .hole content ∈ ps) :
    ∃ name value, argumentOf content = .named name ∧ env.lookup name = some value := by
  induction ps generalizing taken filled with
  | nil => cases hmem
  | cons piece ps ih =>
    cases piece with
    | text c =>
      rw [fill_text] at h
      obtain ⟨rest, hrest, -⟩ := Option.map_eq_some_iff.mp h
      exact ih hrest ((List.mem_cons.mp hmem).resolve_left (by simp))
    | hole first =>
      rw [fill] at h
      obtain ⟨⟨value, uses, taken'⟩, hresolve, hbind⟩ := Option.bind_eq_some_iff.mp h
      obtain ⟨shown, -, hmap⟩ := Option.bind_eq_some_iff.mp hbind
      obtain ⟨rest, hrest, -⟩ := Option.map_eq_some_iff.mp hmap
      rcases List.mem_cons.mp hmem with heq | hmem
      · rw [Piece.hole.inj heq]
        cases hargument : argumentOf first with
        | next =>
          rw [hargument] at hresolve
          cases hresolve
        | index n =>
          rw [hargument] at hresolve
          cases hresolve
        | named name =>
          rw [hargument] at hresolve
          obtain ⟨value', hlookup, -⟩ := Option.map_eq_some_iff.mp hresolve
          exact ⟨name, value', rfl, hlookup⟩
      · exact ih hrest hmem

theorem length_fill {args : List (List Char)} {ps : List Piece} {taken : ℕ} {text : List Char}
    {used : List ℕ} (h : fill fmt env args taken ps = some (text, used))
    (hholes : ∀ content, .hole content ∉ ps) : text.length = ps.length := by
  induction ps generalizing taken text used with
  | nil =>
    obtain ⟨rfl, -⟩ := Prod.mk.inj (Option.some.inj h)
    rfl
  | cons piece ps ih =>
    cases piece with
    | text c =>
      rw [fill_text] at h
      obtain ⟨⟨rest, used'⟩, hrest, heq⟩ := Option.map_eq_some_iff.mp h
      obtain ⟨rfl, -⟩ := Prod.mk.inj heq
      rw [List.length_cons, List.length_cons,
        ih hrest fun content hmem => hholes content (List.mem_cons_of_mem _ hmem)]
    | hole content => exact absurd List.mem_cons_self (hholes content)

/-- The name in a placeholder stands right behind its brace. -/
theorem prefix_of_named {content name : List Char} (h : argumentOf content = .named name) :
    name <+: content := by
  unfold argumentOf at h
  dsimp only at h
  split_ifs at h
  rw [← Argument.named.inj h]
  exact (List.takeWhile_prefix _).trans (List.rdropWhile_prefix _ _)

/-- A text with braces that names no value comes out shorter. -/
theorem length_format_lt {s text : List Char} (h : format fmt env [] s = some text)
    (hbrace : '{' ∈ s ∨ '}' ∈ s)
    (hnames : ∀ name value, env.lookup name = some value → ¬ '{' :: name <:+: s) :
    text.length < s.length := by
  unfold format at h
  obtain ⟨ps, hps, hbind⟩ := Option.bind_eq_some_iff.mp h
  obtain ⟨⟨filled, used⟩, hfill, hused⟩ := Option.bind_eq_some_iff.mp hbind
  dsimp only at hused
  rw [if_pos (by simp)] at hused
  obtain rfl := Option.some.inj hused
  have hholes : ∀ content, .hole content ∉ ps := by
    intro content hmem
    obtain ⟨name, value, hargument, hlookup⟩ := named_of_fill hfill hmem
    refine hnames name value hlookup ?_
    have hname : '{' :: name <+: '{' :: content :=
      List.cons_prefix_cons.mpr ⟨rfl, prefix_of_named hargument⟩
    exact hname.isInfix.trans (hole_isInfix hps hmem)
  rw [length_fill hfill hholes]
  exact (length_pieces hps hholes).2 rfl hbrace

end Spec
end RustLake.Rust
