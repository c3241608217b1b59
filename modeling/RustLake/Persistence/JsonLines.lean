import Mathlib.Data.String.Basic

/-! JSONL files: one JSON text on each line. -/
namespace RustLake.Persistence

def stripCarriageReturn (line : List Char) : List Char :=
  if line.getLast? = some '\r' then line.dropLast else line

/-- The lines of a text, after the characters of a line that has begun. -/
def linesFrom : List Char → List Char → List (List Char)
  | begun, [] => if begun.isEmpty then [] else [begun]
  | begun, c :: rest =>
    if c = '\n' then stripCarriageReturn begun :: linesFrom [] rest
    else linesFrom (begun ++ [c]) rest

def lines (text : String) : List String := (linesFrom [] text.toList).map String.ofList

/-- The entries of the lines that can be read. -/
def loadFromFile {Entry : Type} (fromJson : String → Option Entry) : Option String → List Entry
  | some contents => (lines contents).filterMap fromJson
  | none => []

/-- A JSON text as it is written, with line breaks escaped. -/
structure JsonText where
  chars : List Char
  oneLine : ∀ c ∈ chars, c ≠ '\n' ∧ c ≠ '\r'

/-- A file with a JSON text on each line. -/
def render (texts : List JsonText) : List Char := texts.flatMap fun text => text.chars ++ ['\n']

@[simp] theorem render_nil : render [] = [] := rfl

@[simp] theorem render_cons (text : JsonText) (rest : List JsonText) :
    render (text :: rest) = text.chars ++ '\n' :: render rest := by
  simp [render]

@[simp] theorem render_append (first later : List JsonText) :
    render (first ++ later) = render first ++ render later := List.flatMap_append

theorem linesFrom_append {line rest : List Char} (h : ∀ c ∈ line, c ≠ '\n') (begun : List Char) :
    linesFrom begun (line ++ '\n' :: rest) =
      stripCarriageReturn (begun ++ line) :: linesFrom [] rest := by
  induction line generalizing begun with
  | nil => simp [linesFrom]
  | cons c line ih =>
    obtain ⟨hc, hline⟩ := List.forall_mem_cons.mp h
    rw [List.cons_append, linesFrom, if_neg hc, ih hline, List.append_assoc, List.singleton_append]

theorem JsonText.strip (text : JsonText) : stripCarriageReturn text.chars = text.chars := by
  apply if_neg
  intro hlast
  exact (text.oneLine _ (List.mem_of_getLast? hlast)).2 rfl

/-- The lines of a rendered file are its texts. -/
theorem linesFrom_render (texts : List JsonText) :
    linesFrom [] (render texts) = texts.map (·.chars) := by
  induction texts with
  | nil => rfl
  | cons text rest ih =>
    rw [render_cons, linesFrom_append fun c hc => (text.oneLine c hc).1, List.nil_append, text.strip,
      ih]
    rfl

end RustLake.Persistence
