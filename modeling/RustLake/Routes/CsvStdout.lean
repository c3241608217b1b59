import RustLake.Persistence.JsonLines
import RustLake.Rust.Basic
import RustLake.Text.Csv

/-! What an executable prints, as a batch: every cell where it stands in the text, for texts
without quotes. -/
namespace RustLake.Routes
open RustLake.Persistence

/-- A column, of numbers where all its cells are. -/
inductive StdoutColumn (Number : Type) where
  | float64 (values : List Number)
  | utf8 (values : List (List Char))
deriving DecidableEq

def StdoutColumn.length {Number : Type} : StdoutColumn Number → ℕ
  | .float64 values => values.length
  | .utf8 values => values.length

structure StdoutBatch (Number : Type) where
  fields : List (List Char)
  columns : List (StdoutColumn Number)
deriving DecidableEq

section
variable {Number : Type} (parseF64 : List Char → Option Number)

def stdoutColumn (values : List (List Char)) : StdoutColumn Number :=
  if values ≠ [] ∧ ∀ v ∈ values, (parseF64 v).isSome then .float64 (values.filterMap parseF64)
  else .utf8 values

/-- The cells of a line. -/
def stdoutCells (line : List Char) : List (List Char) := (line.splitOn ',').map trim

/-- The header and the cells below it. Rows that are too short are filled up with empty cells, and
what is over in long ones is dropped. -/
def parseCsvStdoutToBatches (stdout : List Char) : Option (StdoutBatch Number) :=
  match linesFrom [] (trim stdout) with
  | header :: row :: rows =>
    let headers := stdoutCells header
    let values := (row :: rows).map stdoutCells
    some {
      fields := headers
      columns := (List.range headers.length).map fun i =>
        stdoutColumn parseF64 (values.map fun cells => cells.getD i []) }
  | _ => none

/-- The batch of rows of cells, of which the first one is the header. -/
def batchOf : List (List (List Char)) → Option (StdoutBatch Number)
  | header :: row :: rows => some {
      fields := header
      columns := (List.range header.length).map fun i =>
        stdoutColumn parseF64 ((row :: rows).map fun cells => cells.getD i []) }
  | _ => none

end

theorem trim_append_whitespace {c : Char} (hc : isWhitespace c = true) (s : List Char) :
    trim (s ++ [c]) = trim s := by
  rw [trim, trim, trimStart, trimStart, List.dropWhile_append]
  split_ifs with hblank
  · have hnone : s.dropWhile isWhitespace = [] := List.isEmpty_iff.mp hblank
    simp [hnone, hc, trimEnd]
  · rw [trimEnd, List.rdropWhile_concat_pos _ _ _ hc]
    rfl

theorem getLast?_trim (s : List Char) : (trim s).getLast? ≠ some '\n' := by
  intro hlast
  have hne : trim s ≠ [] := by
    intro hnil
    simp [hnil] at hlast
  have hletter := List.rdropWhile_last_not isWhitespace (trimStart s) hne
  have heq : (trim s).getLast hne = '\n' := by
    rw [List.getLast?_eq_getLast_of_ne_nil hne] at hlast
    exact Option.some.inj hlast
  apply hletter
  change isWhitespace ((trim s).getLast hne) = true
  rw [heq]
  decide

theorem mem_of_mem_trim {s : List Char} {c : Char} (h : c ∈ trim s) : c ∈ s :=
  (List.dropWhile_sublist _).subset ((List.rdropWhile_prefix isWhitespace _).subset h)

/-- What comes at the end of a text comes at the end of its last part. -/
theorem splitOn_concat {a c : Char} (hc : c ≠ a) (s : List Char) :
    ∃ before last, s.splitOn a = before ++ [last] ∧
      (s ++ [c]).splitOn a = before ++ [last ++ [c]] := by
  induction s with
  | nil => exact ⟨[], [], rfl, by simp [List.splitOn_cons_eq_if_modifyHead, hc]⟩
  | cons b s ih =>
    obtain ⟨before, last, hsplit, hlonger⟩ := ih
    by_cases hb : b = a
    · refine ⟨[] :: before, last, ?_, ?_⟩
      · simp [List.splitOn_cons_eq_if_modifyHead, hb, hsplit]
      · simp [List.splitOn_cons_eq_if_modifyHead, hb, hlonger]
    · cases before with
      | nil =>
        refine ⟨[], b :: last, ?_, ?_⟩
        · simp [List.splitOn_cons_eq_if_modifyHead, hb, hsplit]
        · simp [List.splitOn_cons_eq_if_modifyHead, hb, hlonger]
      | cons first before =>
        refine ⟨(b :: first) :: before, last, ?_, ?_⟩
        · simp [List.splitOn_cons_eq_if_modifyHead, hb, hsplit]
        · simp [List.splitOn_cons_eq_if_modifyHead, hb, hlonger]

theorem stdoutCells_strip (line : List Char) :
    stdoutCells (stripCarriageReturn line) = stdoutCells line := by
  rw [stripCarriageReturn]
  split_ifs with hlast
  · obtain ⟨before, hline⟩ : ∃ before, line = before ++ ['\r'] :=
      ⟨line.dropLast, (List.dropLast_append_getLast? _ hlast).symm⟩
    obtain ⟨cells, last, hsplit, hlonger⟩ :=
      splitOn_concat (a := ',') (c := '\r') (by decide) before
    rw [hline, List.dropLast_concat, stdoutCells, stdoutCells, hsplit, hlonger]
    simp [trim_append_whitespace (c := '\r') (by decide)]
  · rfl

/-- The lines of a text that does not end with one, up to what is trimmed of their cells. -/
theorem map_linesFrom {s : List Char} (hlast : s.getLast? ≠ some '\n') (begun : List Char)
    (hbegun : '\n' ∉ begun) (hne : begun ++ s ≠ []) :
    (linesFrom begun s).map stdoutCells = ((begun ++ s).splitOn '\n').map stdoutCells := by
  induction s generalizing begun with
  | nil =>
    rw [List.append_nil] at hne ⊢
    rw [linesFrom, List.splitOn_eq_singleton hbegun, if_neg (by simpa using hne)]
  | cons c s ih =>
    by_cases hc : c = '\n'
    · have hs : s ≠ [] := by
        rintro rfl
        exact hlast (by simp [hc])
      have hlater : s.getLast? ≠ some '\n' := by
        rwa [List.getLast?_cons_of_ne_nil hs] at hlast
      rw [linesFrom, if_pos hc, hc, List.splitOn_append_cons_self_of_not_mem hbegun,
        List.map_cons, List.map_cons, stdoutCells_strip, ih hlater [] (by simp) (by simpa using hs),
        List.nil_append]
    · have hlater : s.getLast? ≠ some '\n' := by
        cases s with
        | nil => simp
        | cons b s => rwa [List.getLast?_cons_of_ne_nil (List.cons_ne_nil b s)] at hlast
      have hnext := ih hlater (begun ++ [c]) (by simp [hbegun, Ne.symm hc]) (by simp)
      rw [linesFrom, if_neg hc, hnext, List.append_assoc, List.singleton_append]

/-- The lines of a text, each closed. -/
theorem flatMap_splitOn (s : List Char) :
    (s.splitOn '\n').flatMap (· ++ ['\n']) = s ++ ['\n'] := by
  have hclosed : ∀ lines : List (List Char), lines ≠ [] →
      lines.flatMap (· ++ ['\n']) = ['\n'].intercalate lines ++ ['\n'] := by
    intro lines hne
    induction lines with
    | nil => exact absurd rfl hne
    | cons line lines ih =>
      cases lines with
      | nil => simp
      | cons next lines =>
        rw [List.flatMap_cons, ih (List.cons_ne_nil _ _)]
        simp [List.intercalate]
  rw [hclosed _ (List.splitOn_ne_nil _ _), List.intercalate_splitOn]

theorem read_trim {stdout : List Char} (hquote : '"' ∉ stdout) :
    Csv.read Csv.csv (trim stdout ++ ['\n']) =
      some (((trim stdout).splitOn '\n').map (·.splitOn ',')) := by
  rw [← flatMap_splitOn]
  apply Csv.read_lines
  intro line hline
  constructor
  · intro hmem
    exact (Csv.mem_of_mem_splitOn line hline hmem).2 rfl
  · intro hmem
    exact hquote (mem_of_mem_trim (Csv.mem_of_mem_splitOn line hline hmem).1)

section
variable {Number : Type} {parseF64 : List Char → Option Number}

theorem parseCsvStdoutToBatches_eq (parseF64 : List Char → Option Number) (stdout : List Char) :
    parseCsvStdoutToBatches parseF64 stdout =
      batchOf parseF64 (((trim stdout).splitOn '\n').map stdoutCells) := by
  have hlines : parseCsvStdoutToBatches parseF64 stdout =
      batchOf parseF64 ((linesFrom [] (trim stdout)).map stdoutCells) := by
    rw [parseCsvStdoutToBatches]
    cases linesFrom [] (trim stdout) with
    | nil => rfl
    | cons header rest =>
      cases rest with
      | nil => rfl
      | cons row rows => rfl
  rw [hlines]
  by_cases hempty : trim stdout = []
  · rw [hempty]
    rfl
  · rw [map_linesFrom (getLast?_trim stdout) [] (by simp) (by simpa using hempty), List.nil_append]

theorem map_eq_map_some {values : List (List Char)} {numbers : List Number}
    (h : values.map parseF64 = numbers.map some) :
    (∀ v ∈ values, (parseF64 v).isSome) ∧ values.filterMap parseF64 = numbers := by
  constructor
  · intro v hv
    have hmem : parseF64 v ∈ numbers.map some := h ▸ List.mem_map_of_mem hv
    obtain ⟨number, -, hnumber⟩ := List.mem_map.mp hmem
    simp [← hnumber]
  · calc values.filterMap parseF64 = (values.map parseF64).filterMap id := by simp
      _ = (numbers.map some).filterMap id := by rw [h]
      _ = numbers := by simp

theorem map_filterMap_some {values : List (List Char)} (h : ∀ v ∈ values, (parseF64 v).isSome) :
    values.map parseF64 = (values.filterMap parseF64).map some := by
  induction values with
  | nil => rfl
  | cons v values ih =>
    obtain ⟨hv, hvalues⟩ := List.forall_mem_cons.mp h
    obtain ⟨number, hnumber⟩ := Option.isSome_iff_exists.mp hv
    rw [List.map_cons, ih hvalues, List.filterMap_cons_some hnumber, hnumber, List.map_cons]

theorem stdoutColumn_eq_float64 {values : List (List Char)} (hne : values ≠ [])
    {numbers : List Number} :
    stdoutColumn parseF64 values = .float64 numbers ↔ values.map parseF64 = numbers.map some := by
  rw [stdoutColumn]
  split_ifs with hall
  · constructor
    · intro h
      rw [map_filterMap_some hall.2, StdoutColumn.float64.inj h]
    · intro h
      rw [(map_eq_map_some h).2]
  · constructor
    · intro h
      cases h
    · intro h
      exact absurd ⟨hne, (map_eq_map_some h).1⟩ hall

theorem stdoutColumn_eq_utf8 {values texts : List (List Char)}
    (h : stdoutColumn parseF64 values = .utf8 texts) : texts = values := by
  rw [stdoutColumn] at h
  split_ifs at h
  exact (StdoutColumn.utf8.inj h).symm

theorem batchOf_cons {header : List (List Char)} {rows : List (List (List Char))}
    (hrows : rows ≠ []) :
    batchOf parseF64 (header :: rows) = some {
      fields := header
      columns := (List.range header.length).map fun i =>
        stdoutColumn parseF64 (rows.map fun cells => cells.getD i []) } := by
  obtain ⟨row, rows, rfl⟩ := List.exists_cons_of_ne_nil hrows
  rfl

theorem getD_stdoutCells (line : List Char) (i : ℕ) :
    (stdoutCells line).getD i [] = trim ((line.splitOn ',').getD i []) := by
  rw [stdoutCells, List.getD_eq_getElem?_getD, List.getD_eq_getElem?_getD, List.getElem?_map]
  cases (line.splitOn ',')[i]? with
  | none => rfl
  | some cell => rfl

/-- What is printed without quotes is read as CSV reads it, trimmed: a column for each cell of the
header, of numbers where every row has a cell for it that is one, and else of the texts, which are
empty where a row is too short. -/
theorem csv_stdout_as_read (hempty : parseF64 [] = none) (stdout : List Char)
    (hquote : '"' ∉ stdout) :
    ∃ header rows, Csv.read Csv.csv (trim stdout ++ ['\n']) = some (header :: rows) ∧
      (rows = [] → parseCsvStdoutToBatches parseF64 stdout = none) ∧
      (rows ≠ [] → ∃ batch, parseCsvStdoutToBatches parseF64 stdout = some batch ∧
        batch.fields = header.map trim ∧ batch.columns.length = header.length ∧
        ∀ i column, batch.columns[i]? = some column →
          (∀ numbers, column = .float64 numbers ↔
            rows.map (fun row => row[i]?.bind fun cell => parseF64 (trim cell)) =
              numbers.map some) ∧
          ∀ texts, column = .utf8 texts → texts = rows.map fun row => trim (row.getD i [])) := by
  have hread := read_trim hquote
  have hparse := parseCsvStdoutToBatches_eq parseF64 stdout
  obtain ⟨line, lines, hlines⟩ := List.exists_cons_of_ne_nil (List.splitOn_ne_nil '\n' (trim stdout))
  rw [hlines, List.map_cons] at hread hparse
  refine ⟨line.splitOn ',', lines.map (·.splitOn ','), hread, ?_, ?_⟩
  · intro hrows
    rw [hparse, List.map_eq_nil_iff.mp hrows]
    rfl
  · intro hrows
    have hne : lines ≠ [] := fun h => hrows (by rw [h]; rfl)
    have hcells : lines.map stdoutCells ≠ [] := fun h => hne (List.map_eq_nil_iff.mp h)
    refine ⟨_, hparse.trans (batchOf_cons hcells), rfl, by simp [stdoutCells], ?_⟩
    intro i column hcolumn
    have hvalues : column =
        stdoutColumn parseF64 (lines.map fun l => trim ((l.splitOn ',').getD i [])) := by
      simp only [List.getElem?_map, Option.map_eq_some_iff, List.map_map] at hcolumn
      obtain ⟨j, hj, rfl⟩ := hcolumn
      have hplace : j = i := by
        obtain ⟨hlt, heq⟩ := List.getElem?_eq_some_iff.mp hj
        rw [← heq, List.getElem_range]
      have hcell : (fun cells : List (List Char) => cells.getD j []) ∘ stdoutCells =
          fun l => trim ((l.splitOn ',').getD j []) := funext fun l => getD_stdoutCells l j
      rw [hcell, hplace]
    rw [hvalues, List.map_map, List.map_map]
    constructor
    · intro numbers
      have hnumber : (fun row : List (List Char) => row[i]?.bind fun cell => parseF64 (trim cell)) ∘
          (fun l : List Char => l.splitOn ',') =
            parseF64 ∘ fun l => trim ((l.splitOn ',').getD i []) := by
        funext l
        simp only [Function.comp_apply, List.getD_eq_getElem?_getD]
        cases (l.splitOn ',')[i]? with
        | none => exact hempty.symm
        | some cell => rfl
      rw [stdoutColumn_eq_float64 (fun h => hne (List.map_eq_nil_iff.mp h)), List.map_map, hnumber]
    · intro texts htexts
      exact stdoutColumn_eq_utf8 htexts

end

/-- Numbers of digits, as far as a witness needs them. -/
def digitsNumber (text : List Char) : Option ℕ :=
  if text ≠ [] ∧ text.all Char.isDigit then some (Nat.ofDigitChars 10 text 0) else none

def shortStdout : List Char := "id, n\r\n1, 20\n2\n".toList

/-- A row that is too short makes the column of its missing cell one of texts. -/
theorem csv_stdout_as_read_short :
    parseCsvStdoutToBatches digitsNumber shortStdout =
        some ⟨["id".toList, "n".toList], [.float64 [1, 2], .utf8 ["20".toList, []]]⟩ ∧
      ∃ header rows, Csv.read Csv.csv (trim shortStdout ++ ['\n']) = some (header :: rows) ∧
        rows ≠ [] := by
  have hempty : digitsNumber [] = none := rfl
  obtain ⟨header, rows, hread, hnone, -⟩ := csv_stdout_as_read hempty shortStdout (by decide)
  have hparse : parseCsvStdoutToBatches digitsNumber shortStdout =
      some ⟨["id".toList, "n".toList], [.float64 [1, 2], .utf8 ["20".toList, []]]⟩ := by decide
  refine ⟨hparse, header, rows, hread, ?_⟩
  intro hrows
  rw [hnone hrows] at hparse
  cases hparse

end RustLake.Routes
