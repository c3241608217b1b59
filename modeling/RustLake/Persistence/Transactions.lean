import RustLake.Persistence.Statements

/-! Sessions on a connection that may have a transaction open. What is done in a transaction is seen
on the connection at once and kept by a COMMIT, and a transaction stays open until it ends. -/
namespace RustLake.Persistence
variable {Db : Type}

/-- What an engine does that differs between engines, and its errors. -/
structure Engine where
  /-- A statement that fails in a transaction leaves it unusable. -/
  aborts : Bool
  /-- A COMMIT that fails ends the transaction. -/
  rollsBack : Bool
  alreadyOpen : String
  notOpen : String
  aborted : String

/-- A transaction that is open: the database as it is in it, unless it is aborted. -/
structure Transaction (Db : Type) where
  working : Db
  aborted : Bool

structure Connection (Db : Type) where
  committed : Db
  opened : Option (Transaction Db)

/-- A connection without an open transaction. -/
def Connection.closed (db : Db) : Connection Db := ⟨db, none⟩

section Statements
variable (engine : Engine)

/-- The database that a statement on the connection works on. -/
def Connection.view (conn : Connection Db) : Except String Db :=
  match conn.opened with
  | none => .ok conn.committed
  | some t => if t.aborted then .error engine.aborted else .ok t.working

/-- After a statement has failed. -/
def Connection.failed (conn : Connection Db) : Connection Db :=
  { conn with opened := conn.opened.map fun t => { t with aborted := t.aborted || engine.aborts } }

/-- After a statement has changed the database. -/
def Connection.changed (conn : Connection Db) (db : Db) : Connection Db :=
  match conn.opened with
  | none => { conn with committed := db }
  | some t => { conn with opened := some { t with working := db } }

def beginTransaction (fault : Option String) : Session (Connection Db) Unit := fun conn =>
  match fault, conn.opened with
  | some e, _ => (.error e, conn.failed engine)
  | none, some _ => (.error engine.alreadyOpen, conn.failed engine)
  | none, none => (.ok (), { conn with opened := some ⟨conn.committed, false⟩ })

def executeIn (stmt : Statement Db) : Session (Connection Db) Unit := fun conn =>
  match conn.view engine with
  | .error e => (.error e, conn)
  | .ok db =>
    match stmt db with
    | .ok db' => (.ok (), conn.changed db')
    | .error e => (.error e, conn.failed engine)

def executeAllIn : List (Statement Db) → Session (Connection Db) Unit
  | [] => pure ()
  | stmt :: rest => do
    executeIn engine stmt
    executeAllIn rest

def endFailed (conn : Connection Db) : Connection Db :=
  if engine.rollsBack then .closed conn.committed else conn.failed engine

def commitTransaction (fault : Option String) : Session (Connection Db) Unit := fun conn =>
  match conn.opened with
  | none => (.error engine.notOpen, conn)
  | some t =>
    match fault with
    | some e => (.error e, endFailed engine conn)
    | none =>
      if t.aborted then (.error engine.aborted, endFailed engine conn)
      else (.ok (), .closed t.working)

end Statements

section Spec
variable {engine : Engine} {db : Db} {stmts : List (Statement Db)}

variable (engine db) in
/-- Statements in an open transaction all pass, or the transaction is left open. -/
theorem run_executeAllIn (stmts : List (Statement Db)) (working : Db) :
    (AllPass stmts working ∧ run (executeAllIn engine stmts) ⟨db, some ⟨working, false⟩⟩ =
        (.ok (), ⟨db, some ⟨afterAll stmts working, false⟩⟩)) ∨
      ¬ AllPass stmts working ∧ ∃ e t,
        run (executeAllIn engine stmts) ⟨db, some ⟨working, false⟩⟩ = (.error e, ⟨db, some t⟩) := by
  induction stmts generalizing working with
  | nil => exact Or.inl ⟨trivial, rfl⟩
  | cons stmt rest ih =>
    rw [executeAllIn, run_bind, AllPass, afterAll]
    cases hstmt : stmt working with
    | error e =>
      have hrun : run (executeIn engine stmt) ⟨db, some ⟨working, false⟩⟩ =
          (.error e, ⟨db, some ⟨working, engine.aborts⟩⟩) := by
        unfold run executeIn
        simp [Connection.view, hstmt, Connection.failed]
      rw [hrun]
      refine Or.inr ⟨?_, e, _, rfl⟩
      rintro ⟨db', heq, -⟩
      cases heq
    | ok working' =>
      have hrun : run (executeIn engine stmt) ⟨db, some ⟨working, false⟩⟩ =
          (.ok (), ⟨db, some ⟨working', false⟩⟩) := by
        unfold run executeIn
        simp [Connection.view, hstmt, Connection.changed]
      rw [hrun]
      rcases ih working' with ⟨hpass, hrest⟩ | ⟨hpass, hrest⟩
      · exact Or.inl ⟨⟨working', rfl, hpass⟩, hrest⟩
      · refine Or.inr ⟨?_, hrest⟩
        rintro ⟨db', heq, hpass'⟩
        cases heq
        exact hpass hpass'

/-- Statements on a connection without a transaction open none. -/
theorem run_executeAllIn_closed (stmts : List (Statement Db)) (db : Db) :
    ∃ db', (run (executeAllIn engine stmts) (.closed db)).2 = .closed db' := by
  induction stmts generalizing db with
  | nil => exact ⟨db, rfl⟩
  | cons stmt rest ih =>
    rw [executeAllIn, run_bind]
    cases hstmt : stmt db with
    | error e =>
      have hrun : run (executeIn engine stmt) (.closed db) = (.error e, .closed db) := by
        unfold run executeIn
        simp [Connection.closed, Connection.view, hstmt, Connection.failed]
      rw [hrun]
      exact ⟨db, rfl⟩
    | ok db' =>
      have hrun : run (executeIn engine stmt) (.closed db) = (.ok (), .closed db') := by
        unfold run executeIn
        simp [Connection.closed, Connection.view, hstmt, Connection.changed]
      rw [hrun]
      exact ih db'

/-- Statements in a transaction of their own. -/
def transaction (engine : Engine) (begins commits : Option String) (stmts : List (Statement Db)) :
    Session (Connection Db) Unit := do
  beginTransaction engine begins
  executeAllIn engine stmts
  commitTransaction engine commits

variable (engine) in
/-- How a transaction that begins on a connection without one can end. -/
theorem run_transaction (begins commits : Option String) (stmts : List (Statement Db)) (db : Db) :
    (∃ e, begins = some e ∧
        run (transaction engine begins commits stmts) (.closed db) = (.error e, .closed db)) ∨
    (begins = none ∧ AllPass stmts db ∧ commits = none ∧
        run (transaction engine begins commits stmts) (.closed db) =
          (.ok (), .closed (afterAll stmts db))) ∨
    (∃ e, begins = none ∧ AllPass stmts db ∧ commits = some e ∧ engine.rollsBack = true ∧
        run (transaction engine begins commits stmts) (.closed db) = (.error e, .closed db)) ∨
    (begins = none ∧ (AllPass stmts db → commits ≠ none ∧ engine.rollsBack = false) ∧
      ∃ e t, run (transaction engine begins commits stmts) (.closed db) = (.error e, ⟨db, some t⟩)) := by
  unfold transaction
  cases begins with
  | some e => exact Or.inl ⟨e, rfl, rfl⟩
  | none =>
    right
    have hbegin : run (beginTransaction engine none) (.closed db) =
        (.ok (), ⟨db, some ⟨db, false⟩⟩) := rfl
    rw [run_bind, hbegin]
    dsimp only
    rw [run_bind]
    rcases run_executeAllIn engine db stmts db with ⟨hpass, hrun⟩ | ⟨hpass, e, t, hrun⟩
    · rw [hrun]
      cases commits with
      | none => exact Or.inl ⟨rfl, hpass, rfl, rfl⟩
      | some e =>
        right
        cases hrolls : engine.rollsBack with
        | true =>
          refine Or.inl ⟨e, rfl, hpass, rfl, rfl, ?_⟩
          unfold run commitTransaction endFailed
          simp [hrolls]
        | false =>
          refine Or.inr ⟨rfl, fun _ => ⟨by simp, rfl⟩, e, ⟨afterAll stmts db, engine.aborts⟩, ?_⟩
          unfold run commitTransaction endFailed
          simp [hrolls, Connection.failed]
    · rw [hrun]
      exact Or.inr (Or.inr ⟨rfl, fun hall => absurd hall hpass, e, t, rfl⟩)

end Spec
end RustLake.Persistence
