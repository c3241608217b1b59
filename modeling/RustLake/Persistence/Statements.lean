import Mathlib.Control.Lawful
import Mathlib.Logic.Function.Basic

/-! Sessions with a database: statements, executed one after another until one fails. -/
namespace RustLake.Persistence

/-- A statement changes the database or fails with an error and changes nothing. -/
abbrev Statement (Db : Type) := Db → Except String Db

abbrev Session (Db : Type) := ExceptT String (StateM Db)

variable {Db α β : Type}

/-- The result of a session, and the database after it. -/
def run (m : Session Db α) (db : Db) : Except String α × Db := m db

def execute (stmt : Statement Db) : Session Db Unit := fun db =>
  match stmt db with
  | .ok db' => (.ok (), db')
  | .error e => (.error e, db)

/-- A statement that may fail on its own account. -/
def guarded (error : Option String) (stmt : Statement Db) : Statement Db := fun db =>
  match error with
  | some e => .error e
  | none => stmt db

def executeAll : List (Statement Db) → Session Db Unit
  | [] => pure ()
  | stmt :: rest => do
    execute stmt
    executeAll rest

/-- The database after the statements, up to the first that fails. -/
def afterAll : List (Statement Db) → Db → Db
  | [], db => db
  | stmt :: rest, db =>
    match stmt db with
    | .ok db' => afterAll rest db'
    | .error _ => db

/-- No statement fails. -/
def AllPass : List (Statement Db) → Db → Prop
  | [], _ => True
  | stmt :: rest, db => ∃ db', stmt db = .ok db' ∧ AllPass rest db'

@[simp] theorem run_pure (a : α) (db : Db) : run (pure a) db = (.ok a, db) := rfl

theorem run_bind (m : Session Db α) (f : α → Session Db β) (db : Db) :
    run (m >>= f) db = match run m db with
      | (.ok a, db') => run (f a) db'
      | (.error e, db') => (.error e, db') := by
  unfold run
  change ExceptT.bindCont f (m db).1 (m db).2 = _
  rcases m db with ⟨_ | _, db'⟩ <;> rfl

theorem run_execute_of_ok {stmt : Statement Db} {db db' : Db} (h : stmt db = .ok db') :
    run (execute stmt) db = (.ok (), db') := by
  unfold run execute
  rw [h]

theorem run_execute_of_error {stmt : Statement Db} {db : Db} {e : String}
    (h : stmt db = .error e) : run (execute stmt) db = (.error e, db) := by
  unfold run execute
  rw [h]

@[simp] theorem executeAll_nil : (executeAll [] : Session Db Unit) = pure () := rfl

theorem executeAll_cons (stmt : Statement Db) (rest : List (Statement Db)) :
    executeAll (stmt :: rest) = execute stmt >>= fun _ => executeAll rest := rfl

theorem executeAll_append (first later : List (Statement Db)) :
    executeAll (first ++ later) = executeAll first >>= fun _ => executeAll later := by
  induction first with
  | nil => exact (pure_bind _ _).symm
  | cons stmt rest ih =>
    rw [List.cons_append, executeAll_cons, executeAll_cons, ih, bind_assoc]

theorem executeAll_singleton (stmt : Statement Db) : executeAll [stmt] = execute stmt :=
  bind_pure_unit

/-- A list of statements ends well exactly when all of them pass, and what passes stays. -/
theorem run_executeAll (stmts : List (Statement Db)) (db : Db) :
    (run (executeAll stmts) db).2 = afterAll stmts db ∧
      ((run (executeAll stmts) db).1 = .ok () ↔ AllPass stmts db) := by
  induction stmts generalizing db with
  | nil => exact ⟨rfl, iff_of_true rfl trivial⟩
  | cons stmt rest ih =>
    rw [executeAll_cons, run_bind, afterAll, AllPass]
    cases hstmt : stmt db with
    | error e =>
      rw [run_execute_of_error hstmt]
      refine ⟨rfl, iff_of_false (fun h => by cases h) ?_⟩
      rintro ⟨db', heq, -⟩
      cases heq
    | ok db' =>
      rw [run_execute_of_ok hstmt]
      obtain ⟨hafter, hpass⟩ := ih db'
      refine ⟨hafter, hpass.trans ⟨fun h => ⟨db', rfl, h⟩, ?_⟩⟩
      rintro ⟨db'', heq, h⟩
      cases heq
      exact h

/-- Code that executes statements and then returns a value. -/
theorem run_executeAll_pure (stmts : List (Statement Db)) (a : α) (db : Db) :
    (run (executeAll stmts >>= fun _ => pure a) db).2 = afterAll stmts db ∧
      ((∃ n, (run (executeAll stmts >>= fun _ => pure a) db).1 = .ok n) ↔ AllPass stmts db) ∧
      (∀ n, (run (executeAll stmts >>= fun _ => pure a) db).1 = .ok n → n = a) := by
  obtain ⟨hafter, hpass⟩ := run_executeAll stmts db
  rw [run_bind]
  rcases hrun : run (executeAll stmts) db with ⟨_ | _, db'⟩
  · rw [hrun] at hafter hpass
    refine ⟨hafter, ⟨?_, fun h => ?_⟩, ?_⟩
    · rintro ⟨n, hn⟩
      cases hn
    · cases hpass.mpr h
    · intro n hn
      cases hn
  · rw [hrun] at hafter hpass
    refine ⟨hafter, ⟨fun _ => hpass.mp rfl, fun _ => ⟨a, rfl⟩⟩, ?_⟩
    intro n hn
    cases hn
    rfl

/-- What every statement keeps, all of them keep. -/
theorem afterAll_induction {P : Db → Prop} {stmts : List (Statement Db)}
    (h : ∀ stmt ∈ stmts, ∀ db db', stmt db = .ok db' → P db → P db') {db : Db} (hdb : P db) :
    P (afterAll stmts db) := by
  induction stmts generalizing db with
  | nil => exact hdb
  | cons stmt rest ih =>
    unfold afterAll
    have hrest := fun s hs => h s (List.mem_cons_of_mem _ hs)
    cases hstmt : stmt db with
    | error e => exact hdb
    | ok db' => exact ih hrest (h stmt List.mem_cons_self db db' hstmt hdb)

/-- Both fail, or both end in related databases. -/
def Agree (R : Db → Db → Prop) : Except String Db → Except String Db → Prop
  | .ok a, .ok b => R a b
  | .error _, .error _ => True
  | _, _ => False

/-- Statements that agree on related databases do so one after another. -/
theorem afterAll_agree {R : Db → Db → Prop} {stmts : List (Statement Db)}
    (h : ∀ stmt ∈ stmts, ∀ a b, R a b → Agree R (stmt a) (stmt b)) {a b : Db} (hab : R a b) :
    R (afterAll stmts a) (afterAll stmts b) ∧ (AllPass stmts a ↔ AllPass stmts b) := by
  induction stmts generalizing a b with
  | nil => exact ⟨hab, Iff.rfl⟩
  | cons stmt rest ih =>
    have hagree := h stmt List.mem_cons_self a b hab
    have hrest := fun s hs => h s (List.mem_cons_of_mem _ hs)
    unfold afterAll AllPass
    cases ha : stmt a with
    | error e =>
      cases hb : stmt b with
      | error e' => exact ⟨hab, by simp⟩
      | ok b' => simp [ha, hb, Agree] at hagree
    | ok a' =>
      cases hb : stmt b with
      | error e' => simp [ha, hb, Agree] at hagree
      | ok b' =>
        rw [ha, hb] at hagree
        obtain ⟨hafter, hpass⟩ := ih hrest hagree
        exact ⟨hafter, by simpa using hpass⟩

end RustLake.Persistence
