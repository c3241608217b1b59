import RustLake.Rust.Slices
import RustLake.Scheduler.Creation

/-! The lineage of columns as `parse_sql_column_lineage` reads it from the text of a query. None
stands for the panic where a slice does not fit. -/
namespace RustLake.Scheduler

structure ColumnLineageEntry where
  outputColumn : List Char
  sourceTable : Option (List Char)
  sourceColumn : Option (List Char)
  transformExpression : List Char
deriving DecidableEq

/-- `char_indices`, from a position on. -/
def charIndices : ℕ → List Char → List (ℕ × Char)
  | _, [] => []
  | i, ch :: rest => (i, ch) :: charIndices (i + ch.utf8Size) rest

/-- The loop over the characters of the clause, which is cut at the commas outside parentheses.
(The depth is an `i32`, which wraps around in a release build.) -/
def splitSelectColumnsFrom (clause : List Char) :
    List (ℕ × Char) → Int32 → ℕ → List (List Char) → Option (List (List Char))
  | [], _, start, result =>
    (splitAtByte? start clause).map fun parts => result ++ [parts.2]
  | (i, ch) :: rest, depth, start, result =>
    if ch = '(' then splitSelectColumnsFrom clause rest (depth + 1) start result
    else if ch = ')' then splitSelectColumnsFrom clause rest (depth - 1) start result
    else if ch = ',' ∧ depth = 0 then
      (slice? start i clause).bind fun piece =>
        splitSelectColumnsFrom clause rest depth (i + 1) (result ++ [piece])
    else splitSelectColumnsFrom clause rest depth start result

def splitSelectColumns (clause : List Char) : Option (List (List Char)) :=
  splitSelectColumnsFrom clause (charIndices 0 clause) 0 0 []

/-- A source reference such as `table.column`, or that of the argument of a function. Each argument
is shorter than its call, so that the length bounds the depth; none when the depth is used up. -/
def parseSourceReferenceIn (inputTables : List (List Char)) (defaultTable : Option (List Char)) :
    ℕ → List Char → Option (Option (List Char) × Option (List Char))
  | 0, _ => none
  | depth + 1, expr =>
    let trimmed := trim expr
    if '(' ∈ trimmed then
      match find ['('] trimmed with
      | none => some (defaultTable, none)
      | some start =>
        match rfind [')'] trimmed with
        | none => some (defaultTable, none)
        | some stop =>
          (slice? (start + 1) stop trimmed).bind fun inner =>
            if inner = ['*'] then some (defaultTable, some ['*'])
            else parseSourceReferenceIn inputTables defaultTable depth inner
    else
      match find ['.'] trimmed with
      | none => some (defaultTable, some trimmed)
      | some dotPos =>
        (splitAtByte? dotPos trimmed).bind fun table =>
          (splitAtByte? (dotPos + 1) trimmed).map fun col =>
            let tablePart := trim table.1
            let matchedTable := inputTables.find? fun t =>
              eqIgnoreAsciiCase t tablePart || ('.' :: tablePart).isSuffixOf t
            (some (matchedTable.getD tablePart), some (trim col.2))

def parseSourceReference (expr : List Char) (inputTables : List (List Char))
    (defaultTable : Option (List Char)) : Option (Option (List Char) × Option (List Char)) :=
  parseSourceReferenceIn inputTables defaultTable (expr.length + 1) expr

section
variable (unicode : Unicode)

/-- The alias of an expression like `expr AS alias`. -/
def extractAlias (expr : List Char) : Option (List Char × Option (List Char)) :=
  match rfind " AS ".toList (unicode.upper.text expr) with
  | none => some (expr, none)
  | some pos =>
    (splitAtByte? (pos + 4) expr).bind fun behind =>
      (splitAtByte? pos expr).map fun parts =>
        (parts.1, some (trimMatches '`' (trimMatches '"' (trim behind.2))))

/-- What one column of the clause adds. -/
def columnEntries (inputTables : List (List Char)) (column : List Char) :
    Option (List ColumnLineageEntry) :=
  let defaultTable := inputTables.head?
  let colExpr := trim column
  if colExpr = [] then some []
  else if colExpr = ['*'] then some [⟨['*'], defaultTable, some ['*'], ['*']⟩]
  else
    (extractAlias unicode colExpr).bind fun (expr, aliasName) =>
      (parseSourceReference expr inputTables defaultTable).map fun source =>
        [{ outputColumn := aliasName.getD (trim ((expr.splitOn '.').getLast?.getD expr))
           sourceTable := source.1
           sourceColumn := source.2
           transformExpression := trim expr }]

/-- Where the columns begin in the upper-cased query. -/
def selectOffset (sqlUpper : List Char) : Option ℕ :=
  let selectPos := (find "SELECT".toList sqlUpper).getD 0 + 6
  (splitAtByte? selectPos sqlUpper).map fun parts =>
    if "DISTINCT".toList.isPrefixOf (trimStart parts.2) then
      selectPos + (find "DISTINCT".toList parts.2).getD 0 + 8
    else selectPos

/-- Where they end: at the first `FROM`, or with the text. -/
def fromPos (sql : List Char) : ℕ :=
  (find " FROM ".toList (unicode.upper.text sql)).getD (byteLength sql)

def parseSqlColumnLineage (sql : List Char) (inputTables : List (List Char)) :
    Option (List ColumnLineageEntry) :=
  (selectOffset (unicode.upper.text sql)).bind fun offset =>
    if fromPos unicode sql ≤ offset then some []
    else
      (slice? offset (fromPos unicode sql) sql).bind fun selectClause =>
        (splitSelectColumns selectClause).bind fun columns =>
          (columns.mapM (columnEntries unicode inputTables)).map List.flatten

end

/-- The pieces of a text between the commas outside parentheses, behind the piece so far. -/
def selectColumnsFrom : Int32 → List Char → List Char → List (List Char)
  | _, piece, [] => [piece]
  | depth, piece, ch :: rest =>
    if ch = '(' then selectColumnsFrom (depth + 1) (piece ++ [ch]) rest
    else if ch = ')' then selectColumnsFrom (depth - 1) (piece ++ [ch]) rest
    else if ch = ',' ∧ depth = 0 then piece :: selectColumnsFrom depth [] rest
    else selectColumnsFrom depth (piece ++ [ch]) rest

def selectColumns (clause : List Char) : List (List Char) := selectColumnsFrom 0 [] clause

/-- The first opening parenthesis comes before the last closing one, and so on between them, until
one of the two is missing. -/
inductive Nested : List Char → Prop
  | noOpening {t : List Char} : '(' ∉ trim t → Nested t
  | noClosing {t : List Char} : ')' ∉ trim t → Nested t
  | call {t before inner after : List Char} : trim t = before ++ '(' :: (inner ++ ')' :: after) →
      '(' ∉ before → ')' ∉ after → Nested inner → Nested t

section
variable (unicode : Unicode)

/-- The position of the alias in the upper-cased column cuts the column itself, and the parentheses
before it are nested. -/
def ColumnAligned (column : List Char) : Prop :=
  match rfind " AS ".toList (unicode.upper.text column) with
  | none => Nested column
  | some pos => ∃ expr rest, column = expr ++ rest ∧ byteLength expr = pos ∧
      IsBoundary 4 rest ∧ Nested expr

/-- The word `SELECT` is there, or at least six bytes that end with a character; the positions of
the columns in the upper-cased query cut the query itself; and so on in each column. -/
structure ColumnsAligned (sql : List Char) : Prop where
  select : "SELECT".toList <:+: unicode.upper.text sql ∨ IsBoundary 6 (unicode.upper.text sql)
  clause : ∀ offset, selectOffset (unicode.upper.text sql) = some offset →
    offset < fromPos unicode sql → ∃ before clause after, sql = before ++ (clause ++ after) ∧
      byteLength before = offset ∧ byteLength (before ++ clause) = fromPos unicode sql ∧
      ∀ column ∈ selectColumns clause, trim column ≠ [] → trim column ≠ ['*'] →
        ColumnAligned unicode (trim column)

end

/-- The positions of the loop always cut the clause. -/
theorem splitSelectColumnsFrom_eq {clause done piece rest : List Char}
    (h : clause = done ++ (piece ++ rest)) (depth : Int32) (result : List (List Char)) :
    splitSelectColumnsFrom clause (charIndices (byteLength (done ++ piece)) rest) depth
      (byteLength done) result = some (result ++ selectColumnsFrom depth piece rest) := by
  induction rest generalizing done piece depth result with
  | nil =>
    have hsplit : splitAtByte? (byteLength done) clause = some (done, piece) :=
      splitAtByte?_eq_some_iff.mpr ⟨by rw [h, List.append_nil], rfl⟩
    rw [charIndices, splitSelectColumnsFrom, hsplit]
    rfl
  | cons ch rest ih =>
    have hsize : byteLength (done ++ piece) + ch.utf8Size = byteLength (done ++ (piece ++ [ch])) := by
      rw [← List.append_assoc, byteLength_append (done ++ piece), byteLength_cons]
      rfl
    have hnext : clause = done ++ ((piece ++ [ch]) ++ rest) := by
      rw [h, List.append_assoc]
      rfl
    rw [charIndices, splitSelectColumnsFrom, selectColumnsFrom]
    split_ifs with hopen hclose hcomma
    · rw [hsize]
      exact ih hnext _ _
    · rw [hsize]
      exact ih hnext _ _
    · have hpiece : slice? (byteLength done) (byteLength (done ++ piece)) clause = some piece :=
        slice?_eq_some_iff.mpr ⟨done, ch :: rest, h, rfl, rfl⟩
      have hone : byteLength (done ++ piece) + 1 = byteLength (done ++ piece ++ [ch]) := by
        rw [byteLength_append (done ++ piece), hcomma.1]
        rfl
      have hrest := @ih (done ++ piece ++ [ch]) [] (by rw [h]; simp) depth
        (result ++ [piece])
      rw [List.append_nil] at hrest
      rw [hpiece, Option.bind_some, hsize, ← List.append_assoc, hone, hrest, List.append_assoc]
      rfl
    · rw [hsize]
      exact ih hnext _ _

theorem splitSelectColumns_eq (clause : List Char) :
    splitSelectColumns clause = some (selectColumns clause) :=
  @splitSelectColumnsFrom_eq clause [] [] clause rfl 0 []

section
variable {inputTables : List (List Char)} {defaultTable : Option (List Char)} {depth : ℕ}
  {expr before inner after : List Char}

theorem length_trim_le (s : List Char) : (trim s).length ≤ s.length :=
  (List.rdropWhile_prefix _ _).length_le.trans (List.dropWhile_suffix _).length_le

/-- With an opening parenthesis before the last closing one, the argument is read instead. -/
theorem parseSourceReferenceIn_call
    (h : trim expr = before ++ '(' :: (inner ++ ')' :: after)) (hbefore : '(' ∉ before)
    (hafter : ')' ∉ after) :
    parseSourceReferenceIn inputTables defaultTable (depth + 1) expr =
      if inner = ['*'] then some (defaultTable, some ['*'])
      else parseSourceReferenceIn inputTables defaultTable depth inner := by
  have hmem : '(' ∈ trim expr := by
    rw [h]
    exact List.mem_append_right before List.mem_cons_self
  have hstart : find ['('] (trim expr) = some (byteLength before) := by
    rw [h]
    exact find_char hbefore
  have hsplit : trim expr = (before ++ '(' :: inner) ++ ')' :: after := by
    rw [h, List.append_assoc]
    rfl
  have hstop : rfind [')'] (trim expr) = some (byteLength (before ++ '(' :: inner)) := by
    rw [hsplit]
    exact rfind_char hafter
  have hslice : slice? (byteLength before + 1) (byteLength (before ++ '(' :: inner)) (trim expr) =
      some inner := by
    refine slice?_eq_some_iff.mpr ⟨before ++ ['('], ')' :: after, ?_, ?_, ?_⟩
    · rw [h, List.append_assoc]
      rfl
    · rw [byteLength_append]
      rfl
    · rw [List.append_assoc]
      rfl
  rw [parseSourceReferenceIn, if_pos hmem, hstart]
  dsimp only
  rw [hstop]
  dsimp only
  rw [hslice, Option.bind_some]

/-- If the slice between the parentheses fits, the opening one comes first. -/
theorem exists_call (hopen : '(' ∈ trim expr) (hclose : ')' ∈ trim expr)
    (h : (parseSourceReferenceIn inputTables defaultTable (depth + 1) expr).isSome) :
    ∃ before inner after, trim expr = before ++ '(' :: (inner ++ ')' :: after) ∧ '(' ∉ before ∧
      ')' ∉ after := by
  obtain ⟨before, rest, hfirst, hbefore⟩ := List.eq_append_cons_of_mem hopen
  obtain ⟨after, front, hlast, hafter⟩ := List.eq_append_cons_of_mem (List.mem_reverse.mpr hclose)
  have hlast' : trim expr = front.reverse ++ ')' :: after.reverse := by
    rw [← List.reverse_reverse (trim expr), hlast, List.reverse_append, List.reverse_cons,
      List.append_assoc]
    rfl
  have hafter' : ')' ∉ after.reverse := fun hmem => hafter (List.mem_reverse.mp hmem)
  have hstart : find ['('] (trim expr) = some (byteLength before) := by
    rw [hfirst]
    exact find_char hbefore
  have hstop : rfind [')'] (trim expr) = some (byteLength front.reverse) := by
    rw [hlast']
    exact rfind_char hafter'
  rw [parseSourceReferenceIn, if_pos hopen, hstart] at h
  dsimp only at h
  rw [hstop] at h
  dsimp only at h
  obtain ⟨inner, hinner⟩ : ∃ inner, slice? (byteLength before + 1) (byteLength front.reverse)
      (trim expr) = some inner := by
    cases hslice : slice? (byteLength before + 1) (byteLength front.reverse) (trim expr) with
    | none =>
      rw [hslice] at h
      cases h
    | some inner => exact ⟨inner, rfl⟩
  obtain ⟨head, tail, hparts, hhead, hboth⟩ := slice?_eq_some_iff.mp hinner
  have hopened : head = before ++ ['('] := by
    have hsame : head ++ (inner ++ tail) = (before ++ ['(']) ++ rest := by
      rw [← hparts, hfirst, List.append_assoc]
      rfl
    refine (append_inj_byteLength hsame ?_).1
    rw [hhead, byteLength_append]
    rfl
  have hclosed : tail = ')' :: after.reverse := by
    have hsame : (head ++ inner) ++ tail = front.reverse ++ ')' :: after.reverse := by
      rw [← hlast', hparts, List.append_assoc]
    exact (append_inj_byteLength hsame hboth).2
  refine ⟨before, inner, after.reverse, ?_, hbefore, hafter'⟩
  rw [hparts, hopened, hclosed, List.append_assoc]
  rfl

/-- The recursion ends, and all slices fit exactly if the parentheses are nested. -/
theorem parseSourceReferenceIn_isSome_iff (h : expr.length < depth) :
    (parseSourceReferenceIn inputTables defaultTable depth expr).isSome ↔ Nested expr := by
  induction depth generalizing expr with
  | zero => omega
  | succ depth ih =>
    have hshorter : ∀ {before inner after : List Char},
        trim expr = before ++ '(' :: (inner ++ ')' :: after) → inner.length < depth := by
      intro before inner after htrim
      have hle := length_trim_le expr
      rw [htrim] at hle
      simp only [List.length_append, List.length_cons] at hle
      omega
    have hcall : ∀ {before inner after : List Char},
        trim expr = before ++ '(' :: (inner ++ ')' :: after) → '(' ∉ before → ')' ∉ after →
        ((parseSourceReferenceIn inputTables defaultTable (depth + 1) expr).isSome ↔
          Nested inner) := by
      intro before inner after htrim hbefore hafter
      rw [parseSourceReferenceIn_call htrim hbefore hafter]
      split_ifs with hstar
      · rw [hstar]
        exact iff_of_true rfl (.noOpening (by decide))
      · exact ih (hshorter htrim)
    by_cases hopen : '(' ∈ trim expr
    · by_cases hclose : ')' ∈ trim expr
      · constructor
        · intro hsome
          obtain ⟨before, inner, after, htrim, hbefore, hafter⟩ := exists_call hopen hclose hsome
          exact .call htrim hbefore hafter ((hcall htrim hbefore hafter).mp hsome)
        · intro hnested
          cases hnested with
          | noOpening hnot => exact absurd hopen hnot
          | noClosing hnot => exact absurd hclose hnot
          | call htrim hbefore hafter hinner => exact (hcall htrim hbefore hafter).mpr hinner
      · refine iff_of_true ?_ (.noClosing hclose)
        have hstop : rfind [')'] (trim expr) = none :=
          rfind_eq_none fun hwithin => hclose (hwithin.subset (List.mem_singleton.mpr rfl))
        rw [parseSourceReferenceIn, if_pos hopen, hstop]
        cases find ['('] (trim expr) <;> rfl
    · refine iff_of_true ?_ (.noOpening hopen)
      rw [parseSourceReferenceIn, if_neg hopen]
      cases hdot : find ['.'] (trim expr) with
      | none => rfl
      | some dotPos =>
        obtain ⟨before, after, hparts, hlength⟩ := find_eq_some hdot
        have htable : splitAtByte? dotPos (trim expr) = some (before, ['.'] ++ after) :=
          splitAtByte?_eq_some_iff.mpr ⟨hparts, hlength⟩
        have hcol : splitAtByte? (dotPos + 1) (trim expr) = some (before ++ ['.'], after) := by
          refine splitAtByte?_eq_some_iff.mpr ⟨by rw [hparts, List.append_assoc], ?_⟩
          rw [byteLength_append, hlength]
          rfl
        dsimp only
        rw [htable, Option.bind_some, hcol]
        rfl

end

section
variable {unicode : Unicode}

theorem selectOffset_isSome_iff (sqlUpper : List Char) :
    (selectOffset sqlUpper).isSome ↔ "SELECT".toList <:+: sqlUpper ∨ IsBoundary 6 sqlUpper := by
  unfold selectOffset
  rw [Option.isSome_map]
  cases hfind : find "SELECT".toList sqlUpper with
  | none =>
    have hnot : ¬ "SELECT".toList <:+: sqlUpper := find_eq_none_iff.mp hfind
    rw [or_iff_right hnot]
    exact splitAtByte?_isSome_iff
  | some pos =>
    have hfound : "SELECT".toList <:+: sqlUpper := by
      obtain ⟨before, after, hparts, -⟩ := find_eq_some hfind
      exact ⟨before, after, by rw [hparts, List.append_assoc]⟩
    obtain ⟨before, after, -, hsplit⟩ := splitAtByte?_find hfind
    refine iff_of_true ?_ (Or.inl hfound)
    have hcut : splitAtByte? (pos + 6) sqlUpper = some (before ++ "SELECT".toList, after) := hsplit
    exact Option.isSome_iff_exists.mpr ⟨_, hcut⟩

theorem columnEntries_isSome_iff (inputTables : List (List Char)) (column : List Char) :
    (columnEntries unicode inputTables column).isSome ↔
      (trim column ≠ [] → trim column ≠ ['*'] → ColumnAligned unicode (trim column)) := by
  unfold columnEntries
  dsimp only
  split_ifs with hempty hstar
  · exact iff_of_true rfl fun h => absurd hempty h
  · exact iff_of_true rfl fun _ h => absurd hstar h
  · rw [forall_prop_of_true hempty, forall_prop_of_true hstar]
    unfold ColumnAligned extractAlias
    cases rfind " AS ".toList (unicode.upper.text (trim column)) with
    | none =>
      dsimp only [Option.bind_some]
      rw [Option.isSome_map]
      exact parseSourceReferenceIn_isSome_iff (Nat.lt_succ_self _)
    | some pos =>
      dsimp only
      constructor
      · intro h
        cases hbehind : splitAtByte? (pos + 4) (trim column) with
        | none =>
          rw [hbehind] at h
          cases h
        | some behind =>
          cases hsplit : splitAtByte? pos (trim column) with
          | none =>
            rw [hbehind, hsplit] at h
            cases h
          | some parts =>
            rw [hbehind, hsplit] at h
            simp only [Option.bind_some, Option.map_some, Option.isSome_map] at h
            obtain ⟨hparts, hlength⟩ := splitAtByte?_eq_some_iff.mp hsplit
            refine ⟨parts.1, parts.2, hparts, hlength, ?_, ?_⟩
            · have hcut : IsBoundary (pos + 4) (trim column) :=
                splitAtByte?_isSome_iff.mp (Option.isSome_iff_exists.mpr ⟨_, hbehind⟩)
              rw [hparts, ← hlength] at hcut
              exact isBoundary_append_iff.mp hcut
            · exact (parseSourceReferenceIn_isSome_iff (Nat.lt_succ_self _)).mp h
      · rintro ⟨expr, rest, hparts, hlength, hboundary, hnested⟩
        have hsplit : splitAtByte? pos (trim column) = some (expr, rest) :=
          splitAtByte?_eq_some_iff.mpr ⟨hparts, hlength⟩
        have hcut : IsBoundary (pos + 4) (trim column) := by
          rw [hparts, ← hlength]
          exact isBoundary_append_iff.mpr hboundary
        obtain ⟨behind, hbehind⟩ := Option.isSome_iff_exists.mp (splitAtByte?_isSome_iff.mpr hcut)
        rw [hbehind, hsplit]
        simp only [Option.bind_some, Option.map_some, Option.isSome_map]
        exact (parseSourceReferenceIn_isSome_iff (Nat.lt_succ_self _)).mpr hnested

theorem mapM_isSome_iff {α β : Type} {f : α → Option β} {l : List α} :
    (l.mapM f).isSome ↔ ∀ a ∈ l, (f a).isSome := by
  induction l with
  | nil => exact iff_of_true rfl fun a h => absurd h List.not_mem_nil
  | cons a l ih =>
    rw [List.mapM_cons, List.forall_mem_cons, ← ih]
    cases f a with
    | none => exact iff_of_false (fun h => by cases h) (fun h => by cases h.1)
    | some b =>
      cases l.mapM f with
      | none => exact iff_of_false (fun h => by cases h) (fun h => by cases h.2)
      | some bs => exact iff_of_true rfl ⟨rfl, rfl⟩

theorem splitColumns_isSome_iff (inputTables : List (List Char)) (selectClause : List Char) :
    ((splitSelectColumns selectClause).bind fun columns =>
      (columns.mapM (columnEntries unicode inputTables)).map List.flatten).isSome ↔
    ∀ column ∈ selectColumns selectClause, trim column ≠ [] → trim column ≠ ['*'] →
      ColumnAligned unicode (trim column) := by
  rw [splitSelectColumns_eq, Option.bind_some, Option.isSome_map, mapM_isSome_iff]
  exact forall₂_congr fun column _ => columnEntries_isSome_iff inputTables column

theorem parseSqlColumnLineage_isSome_iff (sql : List Char) (inputTables : List (List Char)) :
    (parseSqlColumnLineage unicode sql inputTables).isSome ↔ ColumnsAligned unicode sql := by
  unfold parseSqlColumnLineage
  cases hoffset : selectOffset (unicode.upper.text sql) with
  | none =>
    refine iff_of_false (fun h => by cases h) fun h => ?_
    have hsome := (selectOffset_isSome_iff _).mpr h.select
    rw [hoffset] at hsome
    cases hsome
  | some offset =>
    have hselect := (selectOffset_isSome_iff _).mp (Option.isSome_iff_exists.mpr ⟨offset, hoffset⟩)
    rw [Option.bind_some]
    split_ifs with hempty
    · refine iff_of_true rfl ⟨hselect, fun offset' hoffset' hlt => ?_⟩
      obtain rfl := Option.some.inj (hoffset.symm.trans hoffset')
      omega
    · constructor
      · intro h
        refine ⟨hselect, fun offset' hoffset' _ => ?_⟩
        obtain rfl := Option.some.inj (hoffset.symm.trans hoffset')
        cases hslice : slice? offset (fromPos unicode sql) sql with
        | none =>
          rw [hslice] at h
          cases h
        | some selectClause =>
          rw [hslice, Option.bind_some] at h
          obtain ⟨before, after, hparts, hbefore, hboth⟩ := slice?_eq_some_iff.mp hslice
          exact ⟨before, selectClause, after, hparts, hbefore, hboth,
            (splitColumns_isSome_iff inputTables selectClause).mp h⟩
      · intro h
        obtain ⟨before, selectClause, after, hparts, hbefore, hboth, hcolumns⟩ :=
          h.clause offset hoffset (by omega)
        have hslice : slice? offset (fromPos unicode sql) sql = some selectClause :=
          slice?_eq_some_iff.mpr ⟨before, after, hparts, hbefore, hboth⟩
        rw [hslice, Option.bind_some]
        exact (splitColumns_isSome_iff inputTables selectClause).mpr hcolumns

end
end RustLake.Scheduler
