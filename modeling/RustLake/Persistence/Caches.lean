import RustLake.Persistence.Loss

/-! The tables of the state database that hold what was discovered. What is held of one owner is
replaced row by row, and a reader sees how far that came. -/
namespace RustLake.Persistence

/-- A table whose rows have an owner, and a name that no two rows of the owner share. -/
structure CacheTable (Db Row Owner Name : Type) where
  rows : Db → List Row
  setRows : List Row → Db → Db
  owner : Row → Owner
  name : Row → Name
  rows_setRows : ∀ l db, rows (setRows l db) = l

/-- The errors of the statements of a replacement, and the error of a second row with one key. -/
structure CacheFaults (Row : Type) where
  delete : Option String
  prepare : Option String
  insert : ℕ → Option String
  duplicateKey : Row → String

section Replace
variable {Db Row Owner Name View O : Type} [DecidableEq Owner] [DecidableEq Name] [LinearOrder O]
variable (t : CacheTable Db Row Owner Name) (faults : CacheFaults Row)

def deleteRows (o : Owner) : Statement Db :=
  guarded faults.delete fun db => .ok (t.setRows ((t.rows db).filter fun row => t.owner row ≠ o) db)

def insertRow (n : ℕ) (row : Row) : Statement Db :=
  guarded (faults.insert n) fun db =>
    if ∃ other ∈ t.rows db, t.owner other = t.owner row ∧ t.name other = t.name row then
      .error (faults.duplicateKey row)
    else .ok (t.setRows (t.rows db ++ [row]) db)

/-- The rest of the loop over the rows, after so many of them. -/
def insertRows : ℕ → List Row → Session Db Unit
  | _, [] => pure ()
  | n, row :: rest => do
    execute (insertRow t faults n row)
    insertRows (n + 1) rest

/-- The rows of an owner are deleted, and others inserted. -/
def replaceRows (o : Owner) (rows : List Row) : Session Db Unit := do
  execute (deleteRows t faults o)
  execute (guarded faults.prepare .ok)
  insertRows t faults 0 rows

/-- How a reader sees rows: sorted, and only some of their columns. -/
def viewRows (order : Row → O) (view : Row → View) (rows : List Row) : List View :=
  (rows.insertionSort fun a b => order a ≤ order b).map view

def readRows (order : Row → O) (view : Row → View) (o : Owner) (db : Db) : List View :=
  viewRows order view ((t.rows db).filter fun row => t.owner row = o)

/-- The insertion of a row fails by itself, or because an earlier row has its name. -/
def FailsAt (rows : List Row) (n : ℕ) : Prop :=
  faults.insert n ≠ none ∨ ∃ row, rows[n]? = some row ∧ t.name row ∈ (rows.take n).map t.name

/-- So many rows are inserted, and then an insertion fails. -/
def StopsAfter (rows : List Row) (n : ℕ) : Prop :=
  n < rows.length ∧ FailsAt t faults rows n ∧ ∀ m < n, ¬ FailsAt t faults rows m

/-- No statement of the replacement fails. -/
def Passes (rows : List Row) : Prop :=
  faults.delete = none ∧ faults.prepare = none ∧ ∀ n < rows.length, ¬ FailsAt t faults rows n

/-- A reader sees what was there before, if the replacement fails, and else what was given. -/
def AllOrNothing (result : Except String Unit) (before after given : List View) : Prop :=
  (∀ e, result = .error e → after = before) ∧ (result = .ok () → after = given)

/-- Where the rows are deleted and not all are inserted, those that are inserted before one fails are
seen as the same that were there. -/
def SameRows (order : Row → O) (view : Row → View) (rows : List Row) (before : List View) : Prop :=
  faults.delete = none →
    (faults.prepare ≠ none → before = []) ∧
      (faults.prepare = none → ∀ n, StopsAfter t faults rows n →
        before = viewRows order view (rows.take n))

theorem run_execute_guarded (error : Option String) (stmt : Statement Db) (db : Db) :
    run (execute (guarded error stmt)) db = match error with
      | some e => (.error e, db)
      | none => run (execute stmt) db := by
  cases error <;> rfl

/-- The insertions after some rows: they come to the end, or stop at the first that fails. -/
theorem run_insertRows {o : Owner} {others done rest : List Row} {db : Db}
    (hrows : t.rows db = others ++ done) (hothers : ∀ row ∈ others, t.owner row ≠ o)
    (howner : ∀ row ∈ done ++ rest, t.owner row = o)
    (hdone : ∀ m < done.length, ¬ FailsAt t faults (done ++ rest) m) :
    ((run (insertRows t faults done.length rest) db).1 = .ok () ∧
        (∀ m < (done ++ rest).length, ¬ FailsAt t faults (done ++ rest) m) ∧
        t.rows (run (insertRows t faults done.length rest) db).2 = others ++ (done ++ rest)) ∨
      ∃ n e, StopsAfter t faults (done ++ rest) n ∧
        (run (insertRows t faults done.length rest) db).1 = .error e ∧
        t.rows (run (insertRows t faults done.length rest) db).2 =
          others ++ (done ++ rest).take n := by
  induction rest generalizing done db with
  | nil =>
    rw [List.append_nil] at hdone ⊢
    exact Or.inl ⟨rfl, hdone, hrows⟩
  | cons row rest ih =>
    have hget : (done ++ row :: rest)[done.length]? = some row := by simp
    have htake : (done ++ row :: rest).take done.length = done := by simp
    have hrow : t.owner row = o := howner row (by simp)
    have htaken : (∃ other ∈ t.rows db, t.owner other = t.owner row ∧ t.name other = t.name row) ↔
        t.name row ∈ done.map t.name := by
      rw [hrows, List.mem_map]
      constructor
      · rintro ⟨other, hmem, hsame, hname⟩
        rcases List.mem_append.mp hmem with hmem | hmem
        · exact absurd (hsame.trans hrow) (hothers other hmem)
        · exact ⟨other, hmem, hname⟩
      · rintro ⟨other, hmem, hname⟩
        have hother : t.owner other = o := howner other (List.mem_append_left _ hmem)
        exact ⟨other, List.mem_append_right _ hmem, hother.trans hrow.symm, hname⟩
    have hfails : FailsAt t faults (done ++ row :: rest) done.length ↔
        faults.insert done.length ≠ none ∨ t.name row ∈ done.map t.name := by
      unfold FailsAt
      rw [hget, htake]
      simp
    rw [insertRows, run_bind]
    by_cases hfail : FailsAt t faults (done ++ row :: rest) done.length
    · have herror : ∃ e, insertRow t faults done.length row db = .error e := by
        unfold insertRow guarded
        cases hinsert : faults.insert done.length with
        | some e => exact ⟨e, rfl⟩
        | none =>
          rw [hfails, hinsert, ← htaken] at hfail
          exact ⟨_, if_pos (hfail.resolve_left (by simp))⟩
      obtain ⟨e, he⟩ := herror
      rw [run_execute_of_error he]
      refine Or.inr ⟨done.length, e, ⟨by simp, hfail, hdone⟩, rfl, ?_⟩
      rw [htake]
      exact hrows
    · have hok : insertRow t faults done.length row db =
          .ok (t.setRows (t.rows db ++ [row]) db) := by
        rw [hfails, not_or, not_not, ← htaken] at hfail
        unfold insertRow guarded
        rw [hfail.1]
        exact if_neg hfail.2
      rw [run_execute_of_ok hok]
      dsimp only
      have hsplit : done ++ row :: rest = (done ++ [row]) ++ rest := by simp
      have hlength : (done ++ [row]).length = done.length + 1 := by simp
      have hnext := @ih (done ++ [row]) (t.setRows (t.rows db ++ [row]) db)
        (by rw [t.rows_setRows, hrows, List.append_assoc]) (by rwa [← hsplit])
        (by
          intro m hm
          rw [← hsplit]
          rcases Nat.lt_succ_iff_lt_or_eq.mp (hlength ▸ hm) with hm | rfl
          · exact hdone m hm
          · exact hfail)
      rw [← hsplit, hlength] at hnext
      exact hnext

/-- The insertions of all rows of an owner who has none. -/
theorem run_insertRows_zero {o : Owner} {others rows : List Row} {db : Db}
    (hrows : t.rows db = others) (hothers : ∀ row ∈ others, t.owner row ≠ o)
    (howner : ∀ row ∈ rows, t.owner row = o) :
    ((run (insertRows t faults 0 rows) db).1 = .ok () ∧
        (∀ n < rows.length, ¬ FailsAt t faults rows n) ∧
        t.rows (run (insertRows t faults 0 rows) db).2 = others ++ rows) ∨
      ∃ n e, StopsAfter t faults rows n ∧ (run (insertRows t faults 0 rows) db).1 = .error e ∧
        t.rows (run (insertRows t faults 0 rows) db).2 = others ++ rows.take n :=
  have hnone : t.rows db = others ++ [] := by rw [hrows, List.append_nil]
  run_insertRows t faults hnone hothers howner fun m hm => absurd hm (Nat.not_lt_zero m)

omit [DecidableEq Owner] [DecidableEq Name] in
/-- An insertion stops at one place only. -/
theorem StopsAfter.unique {rows : List Row} {m n : ℕ} (hm : StopsAfter t faults rows m)
    (hn : StopsAfter t faults rows n) : m = n := by
  rcases Nat.lt_trichotomy m n with h | h | h
  · exact absurd hm.2.1 (hn.2.2 m h)
  · exact h
  · exact absurd hn.2.1 (hm.2.2 n h)

variable {t faults} in
/-- A replacement is all or nothing exactly when it leaves the same rows where it fails behind the
deletion, and the rows are seen as they were given where nothing fails. -/
theorem allOrNothing_replaceRows_iff (order : Row → O) (view : Row → View) {o : Owner}
    {rows : List Row} (howner : ∀ row ∈ rows, t.owner row = o) (given : List View) (db : Db) :
    AllOrNothing (run (replaceRows t faults o rows) db).1 (readRows t order view o db)
        (readRows t order view o (run (replaceRows t faults o rows) db).2) given ↔
      SameRows t faults order view rows (readRows t order view o db) ∧
        (Passes t faults rows → viewRows order view rows = given) := by
  have hread : ∀ {db' : Db} {others : List Row} {kept : List Row}, t.rows db' = others ++ kept →
      (∀ row ∈ others, t.owner row ≠ o) → (∀ row ∈ kept, t.owner row = o) →
      readRows t order view o db' = viewRows order view kept := by
    intro db' others kept hdb' hothers hkept
    unfold readRows
    rw [hdb', List.filter_append, List.filter_eq_nil_iff.mpr (by simpa using hothers),
      List.filter_eq_self.mpr (by simpa using hkept), List.nil_append]
  unfold replaceRows
  rw [run_bind]
  unfold deleteRows
  rw [run_execute_guarded]
  cases hdelete : faults.delete with
  | some e =>
    refine iff_of_true ⟨fun _ _ => rfl, fun h => by cases h⟩ ⟨fun h => ?_, fun h => ?_⟩
    · rw [hdelete] at h
      cases h
    · have hpass := h.1
      rw [hdelete] at hpass
      cases hpass
  | none =>
    -- The rows of the owner are gone, whatever happens next.
    set gone := t.setRows ((t.rows db).filter fun row => t.owner row ≠ o) db with hgone
    have hothers : ∀ row ∈ (t.rows db).filter fun row => t.owner row ≠ o, t.owner row ≠ o := by
      intro row hrow
      simpa using (List.mem_filter.mp hrow).2
    have hrows : t.rows gone = (t.rows db).filter fun row => t.owner row ≠ o := by
      rw [hgone, t.rows_setRows]
    have hexecute : run (execute fun db => .ok
        (t.setRows ((t.rows db).filter fun row => t.owner row ≠ o) db)) db = (.ok (), gone) := rfl
    dsimp only
    rw [hexecute]
    dsimp only
    rw [run_bind, run_execute_guarded]
    have hsame : SameRows t faults order view rows (readRows t order view o db) ↔
        (faults.prepare ≠ none → readRows t order view o db = []) ∧
          (faults.prepare = none → ∀ n, StopsAfter t faults rows n →
            readRows t order view o db = viewRows order view (rows.take n)) :=
      ⟨fun h => h hdelete, fun h _ => h⟩
    rw [hsame]
    cases hprepare : faults.prepare with
    | some e =>
      dsimp only
      have hempty : readRows t order view o gone = [] :=
        hread (hrows.trans (List.append_nil _).symm) hothers (by simp)
      rw [hempty]
      constructor
      · intro h
        refine ⟨⟨fun _ => (h.1 e rfl).symm, fun h => by cases h⟩, fun hpass => ?_⟩
        have hnone := hpass.2.1
        rw [hprepare] at hnone
        cases hnone
      · intro h
        exact ⟨fun _ _ => (h.1.1 (by simp)).symm, fun h => by cases h⟩
    | none =>
      dsimp only
      have hpass : Passes t faults rows ↔ ∀ n < rows.length, ¬ FailsAt t faults rows n :=
        ⟨fun h => h.2.2, fun h => ⟨hdelete, hprepare, h⟩⟩
      rw [hpass]
      have hready : run (execute (.ok : Statement Db)) gone = (.ok (), gone) := rfl
      rw [hready]
      dsimp only
      rcases run_insertRows_zero t faults hrows hothers howner with
        ⟨hok, hnone, hafter⟩ | ⟨n, e, hstops, herror, hafter⟩
      · rw [hread hafter hothers howner, hok]
        constructor
        · intro h
          refine ⟨⟨fun h => absurd rfl h, fun _ n hstops => ?_⟩, fun _ => h.2 rfl⟩
          exact absurd hstops.2.1 (hnone n hstops.1)
        · intro h
          exact ⟨fun _ h => by (cases h), fun _ => h.2 hnone⟩
      · rw [hread hafter hothers fun row hrow => howner row (List.mem_of_mem_take hrow), herror]
        constructor
        · intro h
          refine ⟨⟨fun h => absurd rfl h, fun _ m hm => ?_⟩, fun hall => ?_⟩
          · rw [hm.unique t faults hstops]
            exact (h.1 e rfl).symm
          · exact absurd hstops.2.1 (hall n hstops.1)
        · intro h
          exact ⟨fun _ _ => (h.1.2 rfl n hstops).symm, fun h => by cases h⟩

omit [DecidableEq Owner] [DecidableEq Name] in
/-- Rows that all have different names are seen in the order they have exactly if they are sorted. -/
theorem viewRows_eq_map_iff {order : Row → O} {view : Row → View} {rows : List Row}
    (hview : (rows.map view).Nodup) :
    viewRows order view rows = rows.map view ↔ rows.Pairwise fun a b => order a ≤ order b := by
  unfold viewRows
  constructor
  · intro h
    have hperm := List.perm_insertionSort (fun a b => order a ≤ order b) rows
    have heq : rows.insertionSort (fun a b => order a ≤ order b) = rows := by
      refine List.ext_getElem hperm.length_eq fun i hi hi' => ?_
      refine List.inj_on_of_nodup_map hview (hperm.mem_iff.mp (List.getElem_mem hi))
        (List.getElem_mem hi') ?_
      have hget := congrArg (·[i]?) h
      simpa [hi, hi'] using hget
    have htrans : IsTrans Row fun a b => order a ≤ order b := ⟨fun _ _ _ => le_trans⟩
    have htotal : Std.Total fun a b : Row => order a ≤ order b := ⟨fun _ _ => le_total _ _⟩
    rw [← heq]
    exact List.pairwise_insertionSort _ rows
  · intro h
    rw [h.insertionSort_eq]

omit [DecidableEq Owner] [DecidableEq Name] in
variable {t faults} in
/-- Where all insertions pass, the names are different. -/
theorem Passes.nodup {rows : List Row} (h : Passes t faults rows) : (rows.map t.name).Nodup := by
  refine List.pairwise_iff_getElem.mpr fun i j hi hj hij heq => ?_
  rw [List.length_map] at hi hj
  rw [List.getElem_map, List.getElem_map] at heq
  refine h.2.2 j hj (Or.inr ⟨rows[j], List.getElem?_eq_getElem hj, ?_⟩)
  rw [← heq]
  exact List.mem_map_of_mem (List.mem_take_iff_getElem.mpr ⟨i, by omega, rfl⟩)

end Replace

/-- A row of the table `connection_columns`. -/
structure ConnectionColumn where
  connId : String
  tableName : String
  columnName : String
  dataType : String
  isNullable : Bool
  ordinalPosition : Int32
deriving DecidableEq

/-- A row of the table `s3_tables`. -/
structure S3TableRow where
  configName : String
  tableName : String
  format : String
  s3Location : Option String
deriving DecidableEq

/-- The state database with what it holds of columns and of tables on S3. -/
structure StateDb extends Database where
  connectionColumns : List ConnectionColumn
  s3Tables : List S3TableRow

def tableCache : CacheTable Database (String × String) String String where
  rows db := db.connectionTables
  setRows rows db := { db with connectionTables := rows }
  owner row := row.1
  name row := row.2
  rows_setRows _ _ := rfl

def columnCache : CacheTable StateDb ConnectionColumn (String × String) String where
  rows db := db.connectionColumns
  setRows rows db := { db with connectionColumns := rows }
  owner row := (row.connId, row.tableName)
  name row := row.columnName
  rows_setRows _ _ := rfl

def s3Cache : CacheTable StateDb S3TableRow String String where
  rows db := db.s3Tables
  setRows rows db := { db with s3Tables := rows }
  owner row := row.configName
  name row := row.tableName
  rows_setRows _ _ := rfl

def columnRows (connId tableName : String) (columns : List (String × String × Bool)) :
    List ConnectionColumn :=
  columns.mapIdx fun i c => {
    connId := connId
    tableName := tableName
    columnName := c.1
    dataType := c.2.1
    isNullable := c.2.2
    ordinalPosition := Int32.ofNat i }

def s3Rows (configName : String) (tables : List (String × String × String)) : List S3TableRow :=
  tables.map fun t => {
    configName := configName
    tableName := t.1
    format := t.2.1
    s3Location := some t.2.2 }

def cacheColumns (faults : CacheFaults ConnectionColumn) (connId tableName : String)
    (columns : List (String × String × Bool)) : Session StateDb Unit :=
  replaceRows columnCache faults (connId, tableName) (columnRows connId tableName columns)

def cacheS3Tables (faults : CacheFaults S3TableRow) (configName : String)
    (tables : List (String × String × String)) : Session StateDb Unit :=
  replaceRows s3Cache faults configName (s3Rows configName tables)

/-- No statement that reads fails. -/
def readable : Faults where
  error _ := none
  duplicateKey _ _ := ""

def loadColumns (connId tableName : String) (db : StateDb) : List (String × String × Bool) :=
  ((db.connectionColumns.filter fun row => (row.connId, row.tableName) = (connId, tableName)).insertionSort
    fun a b => a.ordinalPosition.toInt ≤ b.ordinalPosition.toInt).map
      fun row => (row.columnName, row.dataType, row.isNullable)

def loadS3Tables (configName : String) (db : StateDb) : List (String × String × String) :=
  ((db.s3Tables.filter fun row => row.configName = configName).insertionSort
    fun a b => a.tableName ≤ b.tableName).map
      fun row => (row.tableName, row.format, row.s3Location.getD "")

/-- The errors of the statements of `cache_tables`, for one connection. -/
def tableFaults (faults : Faults) (n : ℕ) : CacheFaults (String × String) where
  delete := faults.error (.deleteTables n)
  prepare := faults.error (.prepareTables n)
  insert m := faults.error (.insertTable n m)
  duplicateKey row := faults.duplicateKey row.1 row.2

section Loads
variable (db : StateDb)

theorem loadTables_eq (connId : String) (db : Database) :
    loadTables readable (.loadTables 0) connId db =
      readRows tableCache Prod.snd Prod.snd connId db := by
  unfold readRows viewRows
  rw [List.map_insertionSort (fun a b : String × String => a.2 ≤ b.2) (fun a b : String => a ≤ b)
    Prod.snd _ fun _ _ _ _ => Iff.rfl]
  rfl

theorem loadColumns_eq (connId tableName : String) : loadColumns connId tableName db =
    readRows columnCache (fun row => row.ordinalPosition.toInt)
      (fun row => (row.columnName, row.dataType, row.isNullable)) (connId, tableName) db := rfl

theorem loadS3Tables_eq (configName : String) : loadS3Tables configName db =
    readRows s3Cache S3TableRow.tableName
      (fun row => (row.tableName, row.format, row.s3Location.getD "")) configName db := rfl

/-- Tables are seen sorted by their names. -/
theorem viewRows_tables (connId : String) (tables : List String) :
    viewRows Prod.snd Prod.snd (tables.map fun table => (connId, table)) =
      tables.insertionSort (· ≤ ·) := by
  unfold viewRows
  rw [List.map_insertionSort (fun a b : String × String => a.2 ≤ b.2) (fun a b : String => a ≤ b)
    Prod.snd _ fun _ _ _ _ => Iff.rfl, List.map_map]
  simp [Function.comp_def]

theorem viewRows_s3Rows (configName : String) (tables : List (String × String × String)) :
    viewRows S3TableRow.tableName (fun row => (row.tableName, row.format, row.s3Location.getD ""))
      (s3Rows configName tables) = tables.insertionSort fun a b => a.1 ≤ b.1 := by
  unfold viewRows s3Rows
  rw [List.map_insertionSort _ (fun a b : String × String × String => a.1 ≤ b.1) _ _
    fun _ _ _ _ => Iff.rfl, List.map_map]
  simp [Function.comp_def]

theorem columnRows_map_view (connId tableName : String) (columns : List (String × String × Bool)) :
    (columnRows connId tableName columns).map
      (fun row => (row.columnName, row.dataType, row.isNullable)) = columns := by
  refine List.ext_getElem? fun i => ?_
  unfold columnRows
  rw [List.getElem?_map, List.getElem?_mapIdx]
  cases columns[i]? <;> rfl

/-- Columns are seen in the order given as long as their positions can be held. -/
theorem viewRows_columnRows_iff (connId tableName : String)
    {columns : List (String × String × Bool)} (hnames : (columns.map Prod.fst).Nodup) :
    viewRows (fun row : ConnectionColumn => row.ordinalPosition.toInt)
        (fun row => (row.columnName, row.dataType, row.isNullable))
        (columnRows connId tableName columns) = columns ↔ columns.length ≤ 2 ^ 31 := by
  have hview := columnRows_map_view connId tableName columns
  have hnodup := List.Nodup.of_map _ hnames
  have hsorted := @viewRows_eq_map_iff _ _ _ _ (fun row : ConnectionColumn => row.ordinalPosition.toInt) _
    (columnRows connId tableName columns) (by rwa [hview])
  rw [hview] at hsorted
  rw [hsorted, List.pairwise_iff_getElem]
  have hlength : (columnRows connId tableName columns).length = columns.length := List.length_mapIdx
  have hposition : ∀ (i : ℕ) (hi : i < (columnRows connId tableName columns).length),
      (columnRows connId tableName columns)[i].ordinalPosition = Int32.ofNat i := by
    intro i hi
    simp [columnRows]
  constructor
  · intro h
    by_contra hlt
    have hle := h 0 (2 ^ 31) (by omega) (by omega) (by omega)
    rw [hposition, hposition] at hle
    exact absurd hle (by decide)
  · intro h i j hi hj hij
    rw [hposition, hposition, Int32.toInt_ofNat_of_lt (by omega), Int32.toInt_ofNat_of_lt (by omega)]
    omega

end Loads

section Caches

theorem cacheTables_eq_replaceRows (faults : Faults) (n : ℕ) (connId : String)
    (tables : List String) : cacheTables faults n connId tables =
      replaceRows tableCache (tableFaults faults n) connId
        (tables.map fun table => (connId, table)) := by
  have hstatement : ∀ (call : Call) (f : Database → Database),
      statement faults call "" f = guarded (faults.error call) fun db => .ok (f db) := by
    intro call f
    funext db
    unfold statement guarded
    cases faults.error call <;> simp
  have hinsert : ∀ (m : ℕ) (table : String), insertTable faults n m connId table =
      insertRow tableCache (tableFaults faults n) m (connId, table) := by
    intro m table
    funext db
    unfold insertTable insertRow
    rw [hstatement]
    have htaken : (∃ other ∈ db.connectionTables, other.1 = connId ∧ other.2 = table) ↔
        (connId, table) ∈ db.connectionTables := by
      constructor
      · rintro ⟨⟨_, _⟩, hmem, rfl, rfl⟩
        exact hmem
      · exact fun hmem => ⟨_, hmem, rfl, rfl⟩
    unfold guarded passes
    change _ = match faults.error (.insertTable n m) with
      | some e => Except.error e
      | none => if ∃ other ∈ db.connectionTables, other.1 = connId ∧ other.2 = table then
          .error (faults.duplicateKey connId table)
        else .ok (Database.putTable connId table db)
    rw [if_congr htaken rfl rfl]
    cases faults.error (.insertTable n m) <;> simp
  have hinserts : ∀ m : ℕ, insertTables faults n connId m tables =
      insertRows tableCache (tableFaults faults n) m (tables.map fun table => (connId, table)) := by
    intro m
    induction tables generalizing m with
    | nil => rfl
    | cons table rest ih => rw [insertTables, List.map_cons, insertRows, hinsert, ih]
  unfold cacheTables replaceRows
  rw [hstatement, hstatement, hinserts]
  rfl

/-- What a reader sees is all or nothing exactly when a replacement that fails behind the deletion
leaves the same rows, and no list of columns is too long for its positions to be held. -/
theorem caches_allOrNothing_iff (faults : Faults) (n : ℕ) (tablesOf : String) (tables : List String)
    (columnFaults : CacheFaults ConnectionColumn) (connId tableName : String)
    (columns : List (String × String × Bool)) (s3Faults : CacheFaults S3TableRow)
    (configName : String) (s3Tables : List (String × String × String)) (db : StateDb) :
    (AllOrNothing (run (cacheTables faults n tablesOf tables) db.toDatabase).1
        (loadTables readable (.loadTables 0) tablesOf db.toDatabase)
        (loadTables readable (.loadTables 0) tablesOf
          (run (cacheTables faults n tablesOf tables) db.toDatabase).2)
        (tables.insertionSort (· ≤ ·)) ∧
      AllOrNothing (run (cacheColumns columnFaults connId tableName columns) db).1
        (loadColumns connId tableName db)
        (loadColumns connId tableName
          (run (cacheColumns columnFaults connId tableName columns) db).2) columns ∧
      AllOrNothing (run (cacheS3Tables s3Faults configName s3Tables) db).1
        (loadS3Tables configName db)
        (loadS3Tables configName (run (cacheS3Tables s3Faults configName s3Tables) db).2)
        (s3Tables.insertionSort fun a b => a.1 ≤ b.1)) ↔
      SameRows tableCache (tableFaults faults n) Prod.snd Prod.snd
          (tables.map fun table => (tablesOf, table))
          (loadTables readable (.loadTables 0) tablesOf db.toDatabase) ∧
        (SameRows columnCache columnFaults (fun row => row.ordinalPosition.toInt)
            (fun row => (row.columnName, row.dataType, row.isNullable))
            (columnRows connId tableName columns) (loadColumns connId tableName db) ∧
          (Passes columnCache columnFaults (columnRows connId tableName columns) →
            columns.length ≤ 2 ^ 31)) ∧
        SameRows s3Cache s3Faults S3TableRow.tableName
          (fun row => (row.tableName, row.format, row.s3Location.getD ""))
          (s3Rows configName s3Tables) (loadS3Tables configName db) := by
  refine and_congr ?_ (and_congr ?_ ?_)
  · rw [cacheTables_eq_replaceRows, loadTables_eq, loadTables_eq,
      allOrNothing_replaceRows_iff Prod.snd Prod.snd (by simp [tableCache]), viewRows_tables]
    exact and_iff_left fun _ => rfl
  · unfold cacheColumns
    rw [loadColumns_eq, loadColumns_eq, allOrNothing_replaceRows_iff _ _ (by
      intro row hrow
      obtain ⟨i, hi, rfl⟩ := List.exists_of_mem_mapIdx hrow
      rfl)]
    refine and_congr_right fun _ => forall_congr' fun hpass => ?_
    refine viewRows_columnRows_iff connId tableName ?_
    have hnodup := hpass.nodup
    have hnames : (columnRows connId tableName columns).map columnCache.name =
        columns.map Prod.fst := by
      conv_rhs => rw [← columnRows_map_view connId tableName columns]
      rw [List.map_map]
      rfl
    rwa [hnames] at hnodup
  · unfold cacheS3Tables
    rw [loadS3Tables_eq, loadS3Tables_eq, allOrNothing_replaceRows_iff _ _ (by
      intro row hrow
      obtain ⟨table, -, rfl⟩ := List.mem_map.mp hrow
      rfl), viewRows_s3Rows]
    exact and_iff_left fun _ => rfl

/-- A database with two tables of a connection. -/
def shopDb : StateDb where
  connections := ∅
  connectionTables := [("shop", "orders"), ("shop", "users")]
  scheduledJobs := ∅
  userTransforms := ∅
  migrations := []
  connectionColumns := []
  s3Tables := []

/-- A name given twice fails the second insertion. The old tables are gone by then. -/
theorem not_allOrNothing_shop :
    ¬ AllOrNothing (run (cacheTables readable 0 "shop" ["items", "items"]) shopDb.toDatabase).1
      (loadTables readable (.loadTables 0) "shop" shopDb.toDatabase)
      (loadTables readable (.loadTables 0) "shop"
        (run (cacheTables readable 0 "shop" ["items", "items"]) shopDb.toDatabase).2)
      (["items", "items"].insertionSort (· ≤ ·)) := by
  intro h
  have hbefore : loadTables readable (.loadTables 0) "shop" shopDb.toDatabase =
      ["orders", "users"] := by decide
  have hafter : loadTables readable (.loadTables 0) "shop"
      (run (cacheTables readable 0 "shop" ["items", "items"]) shopDb.toDatabase).2 =
        ["items"] := by decide
  have hsame := h.1 "" (by decide)
  rw [hbefore, hafter] at hsame
  exact absurd hsame (by decide)

end Caches
end RustLake.Persistence
