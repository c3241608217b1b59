import Mathlib.Data.List.Basic

/-! Texts of records whose fields stand between separators, each plain or in quotes: how they are
written, and how they are read back. -/
namespace RustLake.Csv

/-- The letters that are not text: between fields, after records and around fields. -/
structure Dialect (α : Type) where
  comma : α
  newline : α
  quote : α
  comma_ne_newline : comma ≠ newline
  comma_ne_quote : comma ≠ quote
  newline_ne_quote : newline ≠ quote

/-- The letters of CSV. -/
def csv : Dialect Char where
  comma := ','
  newline := '\n'
  quote := '"'
  comma_ne_newline := by decide
  comma_ne_quote := by decide
  newline_ne_quote := by decide

/-- Where a reader stands: before a field, in a plain one, inside quotes, or after a quote that
closes the field unless another one follows. -/
inductive Place where
  | start
  | plain
  | quoted
  | closing
deriving DecidableEq

/-- What has been read: whole records, whole fields of the next record, and a part of a field. -/
structure Reading (α : Type) where
  records : List (List (List α))
  record : List (List α)
  field : List α
  place : Place

namespace Reading
variable {α : Type}

def endField (r : Reading α) : Reading α :=
  { r with record := r.record ++ [r.field], field := [], place := .start }

def endRecord (r : Reading α) : Reading α where
  records := r.records ++ [r.record ++ [r.field]]
  record := []
  field := []
  place := .start

/-- The records at the end of the text, where the last one need not be closed. -/
def finish (r : Reading α) : Option (List (List (List α))) :=
  match r.place with
  | .quoted => none
  | .start => if r.record = [] then some r.records else some r.endRecord.records
  | _ => some r.endRecord.records

end Reading

/-- A field with the form in which it is written. -/
inductive Field (α : Type) where
  | plain (text : List α)
  | quoted (text : List α)

def Field.text {α : Type} : Field α → List α
  | .plain text => text
  | .quoted text => text

variable {α : Type} [DecidableEq α]

section
variable (d : Dialect α)

/-- One letter. There is nothing to read on where a quote stands next to plain text. -/
def step (r : Reading α) (c : α) : Option (Reading α) :=
  if r.place = .quoted then
    if c = d.quote then some { r with place := .closing }
    else some { r with field := r.field ++ [c] }
  else if c = d.comma then some r.endField
  else if c = d.newline then some r.endRecord
  else if c = d.quote then match r.place with
    | .start => some { r with place := .quoted }
    | .closing => some { r with field := r.field ++ [c], place := .quoted }
    | _ => none
  else if r.place = .closing then none
  else some { r with field := r.field ++ [c], place := .plain }

/-- The records of a text, each a list of fields. -/
def read (text : List α) : Option (List (List (List α))) :=
  (text.foldlM (step d) ⟨[], [], [], .start⟩).bind Reading.finish

/-- Every quote twice. -/
def escape (text : List α) : List α :=
  text.flatMap fun c => if c = d.quote then [d.quote, d.quote] else [c]

def Field.write : Field α → List α
  | .plain text => text
  | .quoted text => d.quote :: (escape d text ++ [d.quote])

/-- Plain text without the letters that have a meaning, or any text in quotes. -/
def Field.Fits : Field α → Prop
  | .plain text => ∀ c ∈ text, c ≠ d.comma ∧ c ≠ d.newline ∧ c ≠ d.quote
  | .quoted _ => True

/-- A record on its line. -/
def writeRecord (record : List (Field α)) : List α :=
  [d.comma].intercalate (record.map (·.write d)) ++ [d.newline]

def write (records : List (List (Field α))) : List α := records.flatMap (writeRecord d)

end

section
variable {d : Dialect α}

@[simp] theorem write_append (records records' : List (List (Field α))) :
    write d (records ++ records') = write d records ++ write d records' := List.flatMap_append

theorem foldlM_plain {text : List α} (h : (Field.plain text).Fits d) (r : Reading α)
    (hplace : r.place = .plain) :
    text.foldlM (step d) r = some { r with field := r.field ++ text } := by
  induction text generalizing r with
  | nil => simp
  | cons c text ih =>
    obtain ⟨⟨hcomma, hnewline, hquote⟩, htext⟩ := List.forall_mem_cons.mp h
    have hstep : step d r c = some { r with field := r.field ++ [c], place := .plain } := by
      simp [step, hplace, hcomma, hnewline, hquote]
    rw [List.foldlM_cons, hstep]
    simp [ih htext, hplace]

theorem foldlM_escape (text : List α) (r : Reading α) (hplace : r.place = .quoted) :
    (escape d text).foldlM (step d) r = some { r with field := r.field ++ text } := by
  induction text generalizing r with
  | nil => simp [escape]
  | cons c text ih =>
    have hescape : escape d (c :: text) =
        (if c = d.quote then [d.quote, d.quote] else [c]) ++ escape d text := by simp [escape]
    have hletter : (if c = d.quote then [d.quote, d.quote] else [c]).foldlM (step d) r =
        some { r with field := r.field ++ [c] } := by
      have hcomma := d.comma_ne_quote.symm
      have hnewline := d.newline_ne_quote.symm
      split_ifs with hc
      · simp [step, hplace, hcomma, hnewline, hc]
      · simp [step, hplace, hc]
    rw [hescape, List.foldlM_append, hletter]
    simp [ih, hplace]

/-- A written field has been read whole when a separator comes. -/
theorem foldlM_write {field : Field α} (h : field.Fits d) (records : List (List (List α)))
    (record : List (List α)) :
    ∃ place, place ≠ .quoted ∧
      (field.write d).foldlM (step d) ⟨records, record, [], .start⟩ =
        some ⟨records, record, field.text, place⟩ := by
  cases field with
  | plain text =>
    cases text with
    | nil => exact ⟨.start, by simp, rfl⟩
    | cons c text =>
      obtain ⟨⟨hcomma, hnewline, hquote⟩, htext⟩ := List.forall_mem_cons.mp h
      have hstep : step d ⟨records, record, [], .start⟩ c = some ⟨records, record, [c], .plain⟩ := by
        simp [step, hcomma, hnewline, hquote]
      have hwrite : (Field.plain (c :: text)).write d = c :: text := rfl
      have hrest := foldlM_plain htext ⟨records, record, [c], .plain⟩ rfl
      refine ⟨.plain, by simp, ?_⟩
      rw [hwrite, List.foldlM_cons, hstep]
      exact hrest
  | quoted text =>
    have hcomma := d.comma_ne_quote.symm
    have hnewline := d.newline_ne_quote.symm
    have hopen : step d ⟨records, record, [], .start⟩ d.quote =
        some ⟨records, record, [], .quoted⟩ := by
      simp [step, hcomma, hnewline]
    have hinside : (escape d text).foldlM (step d) ⟨records, record, [], .quoted⟩ =
        some ⟨records, record, text, .quoted⟩ := foldlM_escape text _ rfl
    have hclose : step d ⟨records, record, text, .quoted⟩ d.quote =
        some ⟨records, record, text, .closing⟩ := by
      simp [step]
    refine ⟨.closing, by simp, ?_⟩
    rw [Field.write, List.foldlM_cons, hopen]
    simp only [Option.bind_eq_bind, Option.bind_some, List.foldlM_append, hinside,
      List.foldlM_cons, hclose, List.foldlM_nil]
    rfl

/-- The fields of a record are read one after the other. -/
theorem foldlM_writeRecord {fields : List (Field α)} (hne : fields ≠ [])
    (h : ∀ field ∈ fields, field.Fits d) (records : List (List (List α)))
    (record : List (List α)) :
    (writeRecord d fields).foldlM (step d) ⟨records, record, [], .start⟩ =
      some ⟨records ++ [record ++ fields.map (·.text)], [], [], .start⟩ := by
  induction fields generalizing record with
  | nil => exact absurd rfl hne
  | cons field fields ih =>
    obtain ⟨hfield, hfields⟩ := List.forall_mem_cons.mp h
    obtain ⟨place, hplace, hread⟩ := foldlM_write hfield records record
    cases fields with
    | nil =>
      have hline : writeRecord d [field] = field.write d ++ [d.newline] := by simp [writeRecord]
      have hends := d.comma_ne_newline.symm
      rw [hline, List.foldlM_append, hread]
      simp [step, hplace, hends, Reading.endRecord]
    | cons next fields =>
      have hline : writeRecord d (field :: next :: fields) =
          field.write d ++ d.comma :: writeRecord d (next :: fields) := by
        simp [writeRecord, List.intercalate]
      have hnext := ih (List.cons_ne_nil _ _) hfields (record ++ [field.text])
      rw [hline, List.foldlM_append, hread]
      simp only [Option.bind_eq_bind, Option.bind_some, List.foldlM_cons, step, hplace, if_false,
        if_true, Reading.endField, hnext]
      simp

theorem foldlM_writeRecords {records : List (List (Field α))}
    (h : ∀ record ∈ records, record ≠ [] ∧ ∀ field ∈ record, field.Fits d)
    (before : List (List (List α))) :
    (write d records).foldlM (step d) ⟨before, [], [], .start⟩ =
      some ⟨before ++ records.map (·.map (·.text)), [], [], .start⟩ := by
  induction records generalizing before with
  | nil => simp [write]
  | cons record records ih =>
    obtain ⟨⟨hne, hrecord⟩, hrecords⟩ := List.forall_mem_cons.mp h
    have hsplit : write d (record :: records) = writeRecord d record ++ write d records := by
      simp [write]
    rw [hsplit, List.foldlM_append, foldlM_writeRecord hne hrecord]
    simp [ih hrecords]

/-- What has been written is read back. -/
theorem read_write {records : List (List (Field α))}
    (h : ∀ record ∈ records, record ≠ [] ∧ ∀ field ∈ record, field.Fits d) :
    read d (write d records) = some (records.map (·.map (·.text))) := by
  rw [read, foldlM_writeRecords h]
  simp [Reading.finish]

theorem mem_of_mem_splitOn {a c : α} {line : List α} :
    ∀ text ∈ line.splitOn a, c ∈ text → c ∈ line ∧ c ≠ a := by
  induction line with
  | nil => simp
  | cons b line ih =>
    rw [List.splitOn_cons_eq_if_modifyHead]
    split_ifs with hb
    · intro text htext hc
      rcases List.mem_cons.mp htext with rfl | hlater
      · simp at hc
      · have hmem := ih text hlater hc
        exact ⟨List.mem_cons_of_mem b hmem.1, hmem.2⟩
    · obtain ⟨first, rest, hsplit⟩ := List.exists_cons_of_ne_nil (List.splitOn_ne_nil a line)
      rw [hsplit] at ih ⊢
      intro text htext hc
      rcases List.mem_cons.mp htext with rfl | hlater
      · rcases List.mem_cons.mp hc with rfl | hfirst
        · exact ⟨List.mem_cons_self, by simpa using hb⟩
        · have hmem := ih first List.mem_cons_self hfirst
          exact ⟨List.mem_cons_of_mem b hmem.1, hmem.2⟩
      · have hmem := ih text (List.mem_cons_of_mem _ hlater) hc
        exact ⟨List.mem_cons_of_mem b hmem.1, hmem.2⟩

/-- A text without quotes has its fields between the separators of its lines. -/
theorem read_lines {lines : List (List α)}
    (h : ∀ line ∈ lines, d.newline ∉ line ∧ d.quote ∉ line) :
    read d (lines.flatMap (· ++ [d.newline])) = some (lines.map (·.splitOn d.comma)) := by
  have hwrite : write d (lines.map fun line => (line.splitOn d.comma).map .plain) =
      lines.flatMap (· ++ [d.newline]) := by
    rw [write, List.flatMap_map]
    congr 1
    funext line
    have hfields : ((line.splitOn d.comma).map Field.plain).map (·.write d) =
        line.splitOn d.comma := by
      rw [List.map_map]
      exact List.map_id _
    rw [writeRecord, hfields, List.intercalate_splitOn]
  rw [← hwrite, read_write]
  · simp [Function.comp_def, Field.text]
  · intro record hrecord
    obtain ⟨line, hline, rfl⟩ := List.mem_map.mp hrecord
    obtain ⟨hnewline, hquote⟩ := h line hline
    constructor
    · simp [List.splitOn_ne_nil]
    · intro field hfield
      obtain ⟨text, htext, rfl⟩ := List.mem_map.mp hfield
      intro c hc
      obtain ⟨hmem, hcomma⟩ := mem_of_mem_splitOn text htext hc
      exact ⟨hcomma, fun heq => hnewline (heq ▸ hmem), fun heq => hquote (heq ▸ hmem)⟩

end

end RustLake.Csv
