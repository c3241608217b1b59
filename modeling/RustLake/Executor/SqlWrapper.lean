import RustLake.Rust.Format
import RustLake.Text.Replace

/-! The Rust program around a SQL text: whether it can be read, what its literal denotes and what it
prints. -/
namespace RustLake.Executor
open Rust Text

/-- `sql.lines().next()`, or the empty text. -/
def firstLine (sql : List Char) : List Char :=
  let line := sql.takeWhile (· ≠ '\n')
  if line.length < sql.length ∧ line.getLast? = some '\r' then line.dropLast else line

/-- The text as it is embedded in a string literal. -/
def escapeSql (sql : List Char) : List Char :=
  replaceAll ['\n'] "\\n".toList (replaceAll ['"'] "\\\"".toList (replaceAll ['\\'] "\\\\".toList sql))

def wrapperTitle : List Char :=
  "//! Auto-generated Glacier binary from SQL transform.\n//! Source SQL: ".toList

/-- From the end of the first line to the literal of the binding. -/
def wrapperHead : List Char :=
  ("\n//!\n//! This binary embeds the SQL query and can be executed standalone.\n" ++
    "//! When run by the RustLake scheduler, it outputs CSV to stdout\n" ++
    "//! which is parsed into Arrow RecordBatches.\n\nfn main() \x7b\n" ++
    "    // The SQL transform this glacier executes:\n    let sql = \"").toList

/-- From there to the format string that has the text in it. -/
def wrapperBody : List Char :=
  ("\";\n\n    // Print the SQL as a header comment for traceability\n" ++
    "    eprintln!(\"[glacier] Executing SQL: \x7b\x7d\", sql);\n\n" ++
    "    // For standalone execution, we echo the SQL and metadata.\n" ++
    "    // The RustLake scheduler executes this SQL via DataFusion\n" ++
    "    // and uses the binary for versioning, caching, and deployment.\n" ++
    "    println!(\"glacier_sql,status\");\n    println!(\"").toList

def wrapperEnd : List Char := ",compiled\");\n\x7d\n".toList

def wrapSqlInRust (sql : List Char) : List Char :=
  wrapperTitle ++ firstLine sql ++ wrapperHead ++ escapeSql sql ++ wrapperBody ++ escapeSql sql ++
    wrapperEnd

/-- The literal that a name is bound to. -/
def boundLiteral (name : List Char) : List Token → Option (List Char)
  | .ident word :: .ident bound :: .sym '=' :: .str value :: rest =>
    if word = "let".toList ∧ bound = name then some value else boundLiteral name rest
  | _ :: rest => boundLiteral name rest
  | [] => none

/-- The program can be read, its literal denotes the text, and it prints the header, the text and the
status. -/
def Embeds (fmt : Formatting) (sql wrapped : List Char) : Prop :=
  ∃ ts, tokens wrapped = some ts ∧ boundLiteral "sql".toList ts = some sql ∧
    (program ts).bind (output fmt []) =
      some ("glacier_sql,status\n".toList ++ sql ++ ",compiled\n".toList)

/-- The text names itself in a placeholder, and as a format string comes out as it is. -/
def PrintsItself (fmt : Formatting) (sql : List Char) : Prop :=
  "\x7bsql".toList <:+: sql ∧ format fmt [("sql".toList, sql)] [] sql = some sql

section Spec
variable {fmt : Formatting} {sql : List Char}

def escapeChar (c : Char) : List Char :=
  if c = '\\' then ['\\', '\\'] else if c = '"' then ['\\', '"'] else if c = '\n' then ['\\', 'n']
  else [c]

theorem escapeSql_eq (sql : List Char) : escapeSql sql = sql.flatMap escapeChar := by
  unfold escapeSql
  rw [replaceAll_singleton, replaceAll_singleton, replaceAll_singleton, List.flatMap_assoc,
    List.flatMap_assoc]
  congr 1
  funext c
  unfold escapeChar
  by_cases hslash : c = '\\'
  · subst hslash
    decide
  · by_cases hquote : c = '"'
    · subst hquote
      decide
    · simp [hslash, hquote]

theorem read_escapeChar {c : Char} (hc : c ≠ '\r') (value : List Char) :
    (Mode.str value .plain).read (escapeChar c) = ([], .str (value ++ [c]) .plain) := by
  unfold escapeChar
  split_ifs with hslash hquote hline
  · rw [hslash]
    rfl
  · rw [hquote]
    rfl
  · rw [hline]
    rfl
  · simp [Mode.read, Mode.step, Part.step, plainStep, hslash, hquote, hc]

/-- The literal denotes what is embedded in it, where there is no carriage return. -/
theorem read_escapeSql (hreturn : '\r' ∉ sql) (value : List Char) :
    (Mode.str value .plain).read (escapeSql sql) = ([], .str (value ++ sql) .plain) := by
  rw [escapeSql_eq]
  induction sql generalizing value with
  | nil => simp [Mode.read]
  | cons c sql ih =>
    obtain ⟨hc, hrest⟩ := not_or.mp (mt List.mem_cons.mpr hreturn)
    rw [List.flatMap_cons, Mode.read_append, read_escapeChar (Ne.symm hc), ih hrest]
    simp

/-- A carriage return ends what can be read. -/
theorem read_escapeSql_return (hreturn : '\r' ∈ sql) (value : List Char) :
    (Mode.str value .plain).read (escapeSql sql) = ([], .fail) := by
  rw [escapeSql_eq]
  induction sql generalizing value with
  | nil => cases hreturn
  | cons c sql ih =>
    rw [List.flatMap_cons, Mode.read_append]
    by_cases hc : c = '\r'
    · have hfail : (Mode.str value .plain).read (escapeChar c) = ([], .fail) := by
        rw [hc]
        rfl
      rw [hfail, Mode.read_fail]
      rfl
    · rw [read_escapeChar hc, ih ((List.mem_cons.mp hreturn).resolve_left (Ne.symm hc))]
      rfl

theorem notMem_escapeSql {d : Char} (hd : d = '\r' ∨ d = '\n') (h : d = '\r' → d ∉ sql) :
    d ∉ escapeSql sql := by
  rw [escapeSql_eq, List.mem_flatMap]
  rintro ⟨c, hc, hmem⟩
  unfold escapeChar at hmem
  rcases hd with rfl | rfl
  · split_ifs at hmem
    · simp at hmem
    · simp at hmem
    · simp at hmem
    · rw [← List.mem_singleton.mp hmem] at hc
      exact h rfl hc
  · split_ifs at hmem with hslash hquote hline
    · simp at hmem
    · simp at hmem
    · simp at hmem
    · exact hline (List.mem_singleton.mp hmem).symm

theorem firstLine_subset (sql : List Char) : firstLine sql ⊆ sql.takeWhile (· ≠ '\n') := by
  unfold firstLine
  dsimp only
  split_ifs
  · exact (List.dropLast_prefix _).subset
  · exact List.Subset.refl _

theorem line_notMem_firstLine (sql : List Char) : '\n' ∉ firstLine sql := by
  intro hmem
  simpa using List.mem_takeWhile_imp (firstLine_subset sql hmem)

theorem return_notMem_firstLine (hreturn : '\r' ∉ sql) : '\r' ∉ firstLine sql := fun hmem =>
  hreturn ((List.takeWhile_prefix _).subset (firstLine_subset sql hmem))

def titleTokens : List Token := [.doc "! Auto-generated Glacier binary from SQL transform.".toList]

def sourceComment : List Char := "! Source SQL: ".toList

def headTokens : List Token :=
  [.doc "!".toList,
    .doc "! This binary embeds the SQL query and can be executed standalone.".toList,
    .doc "! When run by the RustLake scheduler, it outputs CSV to stdout".toList,
    .doc "! which is parsed into Arrow RecordBatches.".toList,
    .ident "fn".toList, .ident "main".toList, .sym '(', .sym ')', .sym '{',
    .ident "let".toList, .ident "sql".toList, .sym '=']

def executingText : List Char := "[glacier] Executing SQL: \x7b\x7d".toList

def bodyTokens : List Token :=
  [.sym ';', .ident "eprintln".toList, .sym '!', .sym '(', .str executingText, .sym ',',
    .ident "sql".toList, .sym ')', .sym ';', .ident "println".toList, .sym '!', .sym '(',
    .str "glacier_sql,status".toList, .sym ')', .sym ';', .ident "println".toList, .sym '!', .sym '(']

def wrapperTokens (sql : List Char) : List Token :=
  titleTokens ++ .doc (sourceComment ++ firstLine sql) :: headTokens ++ .str sql :: bodyTokens ++
    [.str (sql ++ ",compiled".toList), .sym ')', .sym ';', .sym '}']

theorem read_wrapperTitle : Mode.start.read wrapperTitle = (titleTokens, .comment sourceComment) := by
  unfold wrapperTitle titleTokens sourceComment
  repeat rw [String.toList_ofList]
  decide +kernel

/-- The rest of the head, behind the end of a line. -/
theorem read_wrapperHead_tail : Mode.start.read wrapperHead.tail = (headTokens, .str [] .plain) := by
  unfold wrapperHead headTokens
  rw [String.toList_append, String.toList_append, String.toList_append]
  repeat rw [String.toList_ofList]
  decide +kernel

theorem wrapperHead_eq : wrapperHead = '\n' :: wrapperHead.tail := by
  unfold wrapperHead
  rw [String.toList_append, String.toList_append, String.toList_append, String.toList_ofList]
  rfl

theorem wrapperBody_eq : wrapperBody = '"' :: wrapperBody.tail := by
  unfold wrapperBody
  rw [String.toList_append, String.toList_append, String.toList_append, String.toList_append,
    String.toList_append, String.toList_ofList]
  rfl

theorem read_wrapperBody_tail : Mode.start.read wrapperBody.tail = (bodyTokens, .str [] .plain) := by
  unfold wrapperBody bodyTokens executingText
  rw [String.toList_append, String.toList_append, String.toList_append, String.toList_append,
    String.toList_append]
  repeat rw [String.toList_ofList]
  decide +kernel

theorem return_notMem_wrapper :
    '\r' ∉ wrapperTitle ∧ '\r' ∉ wrapperHead ∧ '\r' ∉ wrapperBody ∧ '\r' ∉ wrapperEnd := by
  unfold wrapperTitle wrapperHead wrapperBody wrapperEnd
  simp only [String.toList_append, -String.reduceAppend, -String.reduceToList]
  repeat rw [String.toList_ofList]
  decide +kernel

theorem read_wrapperBody (value : List Char) :
    (Mode.str value .plain).read wrapperBody = (.str value :: bodyTokens, .str [] .plain) := by
  have hstep : (Mode.str value .plain).step '"' = ([.str value], .start) := rfl
  rw [wrapperBody_eq, Mode.read, hstep, read_wrapperBody_tail]
  rfl

theorem read_wrapperEnd (value : List Char) : (Mode.str value .plain).read wrapperEnd =
    ([.str (value ++ ",compiled".toList), .sym ')', .sym ';', .sym '}'], .start) := by
  have hsplit : wrapperEnd = ",compiled".toList ++ '"' :: ");\n\x7d\n".toList := by decide
  have htext : (Mode.str value .plain).read ",compiled".toList =
      ([], .str (value ++ ",compiled".toList) .plain) := by
    simp [Mode.read, Mode.step, Part.step, plainStep]
  have htail : Mode.start.read ");\n\x7d\n".toList = ([.sym ')', .sym ';', .sym '}'], .start) := by
    decide +kernel
  have hstep : ∀ v, (Mode.str v .plain).step '"' = ([.str v], .start) := fun _ => rfl
  rw [hsplit, Mode.read_append, htext]
  dsimp only
  rw [Mode.read, hstep, htail]
  rfl

/-- The tokens of the program around a text without carriage returns. -/
theorem tokens_wrapSqlInRust (hreturn : '\r' ∉ sql) :
    tokens (wrapSqlInRust sql) = some (wrapperTokens sql) := by
  have hnone : '\r' ∉ wrapSqlInRust sql := by
    unfold wrapSqlInRust
    simp only [List.mem_append, not_or]
    have hescaped : '\r' ∉ escapeSql sql := notMem_escapeSql (Or.inl rfl) fun _ => hreturn
    obtain ⟨htitle, hhead, hbody, hend⟩ := return_notMem_wrapper
    exact ⟨⟨⟨⟨⟨⟨htitle, return_notMem_firstLine hreturn⟩, hhead⟩, hescaped⟩, hbody⟩, hescaped⟩, hend⟩
  have hline : (Mode.comment (sourceComment ++ firstLine sql)).read wrapperHead =
      (.doc (sourceComment ++ firstLine sql) :: headTokens, .str [] .plain) := by
    rw [wrapperHead_eq, Mode.read]
    have hstep : (Mode.comment (sourceComment ++ firstLine sql)).step '\n' =
        ([.doc (sourceComment ++ firstLine sql)], .start) := rfl
    rw [hstep]
    dsimp only
    rw [read_wrapperHead_tail]
    rfl
  unfold tokens
  rw [normalizeCrlf_of_notMem hnone, Mode.tokens_eq_read]
  unfold wrapSqlInRust
  simp only [Mode.read_append, read_wrapperTitle,
    read_comment (line_notMem_firstLine sql) (return_notMem_firstLine hreturn), hline,
    read_escapeSql hreturn, read_wrapperBody, read_wrapperEnd, List.nil_append]
  simp [Mode.finish, wrapperTokens]

/-- A program around a text with a carriage return is not lexically valid. -/
theorem tokens_wrapSqlInRust_return (hreturn : '\r' ∈ sql) : tokens (wrapSqlInRust sql) = none := by
  obtain ⟨htitle, hhead, -⟩ := return_notMem_wrapper
  have htail : '\r' ∉ wrapperHead.tail := fun hmem => hhead (List.mem_of_mem_tail hmem)
  have hescaped : '\n' ∉ escapeSql sql := notMem_escapeSql (Or.inr rfl) fun h => by cases h
  have hbody : (wrapperBody ++ (escapeSql sql ++ wrapperEnd)).head? ≠ some '\n' := by
    rw [wrapperBody_eq]
    simp
  obtain ⟨kept, hkept, hlines⟩ := normalizeCrlf_line (line_notMem_firstLine sql)
    (wrapperHead.tail ++ (escapeSql sql ++ (wrapperBody ++ (escapeSql sql ++ wrapperEnd))))
  have hnormal : normalizeCrlf (wrapSqlInRust sql) = wrapperTitle ++ (kept ++ ['\n'] ++
      (wrapperHead.tail ++ (escapeSql sql ++
        normalizeCrlf (wrapperBody ++ (escapeSql sql ++ wrapperEnd))))) := by
    have hparts : ∀ title line tail quoted body last : List Char,
        title ++ line ++ '\n' :: tail ++ quoted ++ body ++ quoted ++ last =
          title ++ (line ++ '\n' :: (tail ++ (quoted ++ (body ++ (quoted ++ last))))) := by simp
    have hassoc : wrapSqlInRust sql = wrapperTitle ++ (firstLine sql ++ '\n' ::
        (wrapperHead.tail ++ (escapeSql sql ++ (wrapperBody ++ (escapeSql sql ++ wrapperEnd))))) :=
      (congrArg (fun head => wrapperTitle ++ firstLine sql ++ head ++ escapeSql sql ++ wrapperBody ++
        escapeSql sql ++ wrapperEnd) wrapperHead_eq).trans (hparts _ _ _ _ _ _)
    rw [hassoc, normalizeCrlf_append_of_notMem htitle, hlines,
      normalizeCrlf_append_of_notMem htail, normalizeCrlf_append _ hbody,
      normalizeCrlf_of_no_line hescaped]
    simp
  have hstart : ((Mode.comment sourceComment).read (kept ++ ['\n'])).2 = .start ∨
      ((Mode.comment sourceComment).read (kept ++ ['\n'])).2 = .fail := by
    rw [Mode.read_append]
    rcases read_comment_cases hkept sourceComment with hread | hread
    · rw [hread]
      exact Or.inl rfl
    · rw [hread]
      exact Or.inr rfl
  have hend : (Mode.start.read (wrapperTitle ++ (kept ++ ['\n'] ++ (wrapperHead.tail ++
      (escapeSql sql ++ normalizeCrlf (wrapperBody ++ (escapeSql sql ++ wrapperEnd))))))).2 =
        .fail := by
    rw [Mode.read_append _ wrapperTitle, read_wrapperTitle]
    dsimp only
    rw [Mode.read_append _ (kept ++ ['\n'])]
    rcases hstart with hstart | hstart
    · rw [hstart, Mode.read_append _ wrapperHead.tail, read_wrapperHead_tail]
      dsimp only
      rw [Mode.read_append, read_escapeSql_return hreturn, Mode.read_fail]
    · rw [hstart, Mode.read_fail]
  unfold tokens
  rw [hnormal, Mode.tokens_eq_read, hend]
  rfl

theorem format_executingText (env : Env) (value : List Char) :
    format fmt env [value] executingText = some ("[glacier] Executing SQL: ".toList ++ value) := by
  have hplain : format fmt env [value] executingText =
      (fmt.shown [] value).map fun shown => "[glacier] Executing SQL: ".toList ++ shown := by
    have hpieces : Reading.text.pieces executingText =
        some ("[glacier] Executing SQL: ".toList.map .text ++ [.hole []]) := by decide +kernel
    have hspec : specOf [] = [] := rfl
    have hargument : argumentOf [] = .next := rfl
    unfold format
    rw [hpieces]
    cases hshown : fmt.shown [] value <;>
      simp [fill, resolve, hspec, hargument, hshown]
  rw [hplain, fmt.plain]
  rfl

/-- What the program prints: the header, and what the text comes to as a format string. -/
theorem output_wrapperTokens (sql : List Char) : (program (wrapperTokens sql)).bind (output fmt []) =
    (format fmt [("sql".toList, sql)] [] sql).map fun line =>
      "glacier_sql,status\n".toList ++ line ++ ",compiled\n".toList := by
  have hprogram : program (wrapperTokens sql) = some [.bind "sql".toList sql,
      .print true executingText ["sql".toList], .print false "glacier_sql,status".toList [],
      .print false (sql ++ ",compiled".toList) []] := rfl
  have hvalues : ["sql".toList].mapM (fun arg => List.lookup arg [("sql".toList, sql)]) =
      some [sql] := rfl
  have hheader : format fmt [("sql".toList, sql)] [] "glacier_sql,status".toList =
      some "glacier_sql,status".toList := format_of_plain (by decide) (by decide)
  have hline : format fmt [("sql".toList, sql)] [] (sql ++ ",compiled".toList) =
      (format fmt [("sql".toList, sql)] [] sql).map (· ++ ",compiled".toList) :=
    format_append_plain [] sql (by decide) (by decide) (by decide)
  rw [hprogram, Option.bind_some, output, output, hvalues, Option.bind_some, format_executingText,
    Option.bind_some, output_print_nil, hheader, Option.bind_some, output_print_nil, hline]
  cases format fmt [("sql".toList, sql)] [] sql with
  | none => rfl
  | some line =>
    have hlines : "glacier_sql,status\n".toList = "glacier_sql,status".toList ++ ['\n'] := by decide
    have hcompiled : ",compiled\n".toList = ",compiled".toList ++ ['\n'] := by decide
    have hend : output fmt [("sql".toList, sql)] [] = some [] := rfl
    rw [hlines, hcompiled, hend]
    simp only [Option.map_some, Option.bind_some, if_true, Bool.false_eq_true, if_false,
      List.append_assoc, List.cons_append, List.nil_append]

theorem embeds_iff_format (hreturn : '\r' ∉ sql) :
    Embeds fmt sql (wrapSqlInRust sql) ↔ format fmt [("sql".toList, sql)] [] sql = some sql := by
  have hliteral : boundLiteral "sql".toList (wrapperTokens sql) = some sql := rfl
  unfold Embeds
  rw [tokens_wrapSqlInRust hreturn]
  constructor
  · rintro ⟨ts, hts, -, houtput⟩
    rw [← Option.some.inj hts, output_wrapperTokens] at houtput
    obtain ⟨line, hline, heq⟩ := Option.map_eq_some_iff.mp houtput
    rw [hline, List.append_cancel_left (List.append_cancel_right heq)]
  · intro hformat
    refine ⟨_, rfl, hliteral, ?_⟩
    rw [output_wrapperTokens, hformat]
    rfl

/-- A text comes out as it is when it has no braces, or when it prints itself. -/
theorem format_self_iff : format fmt [("sql".toList, sql)] [] sql = some sql ↔
    ('{' ∉ sql ∧ '}' ∉ sql) ∨ PrintsItself fmt sql := by
  constructor
  · intro h
    by_cases hbrace : '{' ∈ sql ∨ '}' ∈ sql
    · refine Or.inr ⟨?_, h⟩
      by_contra hnot
      refine absurd (length_format_lt h hbrace fun name value hlookup => ?_) (lt_irrefl _)
      have hname : name = "sql".toList := by
        by_contra hne
        rw [List.lookup_cons, beq_false_of_ne hne] at hlookup
        cases hlookup
      rw [hname]
      exact hnot
    · exact Or.inl (not_or.mp hbrace)
  · rintro (⟨hopen, hclose⟩ | ⟨-, h⟩)
    · exact format_of_plain hopen hclose
    · exact h

end Spec

/-- The program around a text can be read, has the text in its literal and prints it exactly when the
text has no carriage returns, and no braces unless it prints itself. -/
theorem embeds_iff (fmt : Formatting) (sql : List Char) :
    Embeds fmt sql (wrapSqlInRust sql) ↔
      '\r' ∉ sql ∧ (('{' ∉ sql ∧ '}' ∉ sql) ∨ PrintsItself fmt sql) := by
  by_cases hreturn : '\r' ∈ sql
  · refine iff_of_false ?_ fun h => h.1 hreturn
    rintro ⟨ts, hts, -⟩
    rw [tokens_wrapSqlInRust_return hreturn] at hts
    cases hts
  · rw [embeds_iff_format hreturn, format_self_iff]
    exact (and_iff_right hreturn).symm

/-- An empty specification prints a text, and no other one applies. -/
def plainFormatting : Formatting where
  shown spec value := if spec = [] then some value else none
  plain _ := rfl

/-- A text whose lines end in a carriage return and a line feed makes no program that can be read, and one
with a pair of braces none that compiles. -/
theorem not_embeds_text :
    ¬ Embeds plainFormatting "SELECT a\r\nFROM t".toList (wrapSqlInRust "SELECT a\r\nFROM t".toList) ∧
      ¬ Embeds plainFormatting "SELECT '\x7b\x7d'".toList
        (wrapSqlInRust "SELECT '\x7b\x7d'".toList) := by
  constructor
  · rintro ⟨ts, hts, -⟩
    rw [tokens_wrapSqlInRust_return (by decide)] at hts
    cases hts
  · rw [embeds_iff_format (by decide)]
    decide

end RustLake.Executor
