import RustLake.Scheduler.Versions

/-! The automatic rollbacks of the scheduler: what they replace, and by what. -/
namespace RustLake.Scheduler

variable {Gate Batch : Type} (services : Services Gate Batch)

/-- The table of a job, as the scheduler reads it. -/
def tableRead (job : ScheduledJob) (w : World (AppState Gate) (Answer Batch))
    (s : AppState Gate) : Option (ExecutableTable Gate) :=
  findTable (w.others 0 s).executableTables job.target

/-- Where a job has come to when it is decided whether the execution of the table is skipped. -/
def decided (table : ExecutableTable Gate) (w : World (AppState Gate) (Answer Batch))
    (s : AppState Gate) : Settled (AppState Gate) (Answer Batch) (Decision Gate) :=
  (detectSkip table).run w.next (w.others 0 s)

/-- The state that the scheduler finds when it takes the lock for a rollback, after the query and
a look at the clock. -/
def atRollback (table : ExecutableTable Gate) (w : World (AppState Gate) (Answer Batch))
    (s : AppState Gate) : AppState Gate :=
  let d := decided table w s
  d.world.others 2 (d.world.others 1 (d.world.others 0 d.state))

/-- The time of a rollback. -/
def rollbackTime (table : ExecutableTable Gate) (w : World (AppState Gate) (Answer Batch))
    (s : AppState Gate) : Instant := (decided table w s).world.answer 1 .now

/-- The job executes the table, and the batches fail the gates of the table. -/
structure GatesFail (job : ScheduledJob) (w : World (AppState Gate) (Answer Batch))
    (s : AppState Gate) (table : ExecutableTable Gate) : Prop where
  read : tableRead job w s = some table
  runs : (decided table w s).value.skipped = false
  sql : table.transform.transformType = "sql"
  fails : ∃ batches, (decided table w s).world.answer 0 (.sql (execCode table)) =
    (.ok batches : Except String (List Batch)) ∧ gateFailed services table batches = true

/-- The job reads a table and then, in a section of its own, the table as it has become gets a
version by itself. -/
def RollsBack (job : ScheduledJob) (w : World (AppState Gate) (Answer Batch)) (s : AppState Gate)
    (table t t' : ExecutableTable Gate) : Prop :=
  tableRead job w s = some table ∧ ∃ p ∈ (runJob services job).writes w s,
    findTable p.1.executableTables job.target = some t ∧
      findTable p.2.executableTables job.target = some t' ∧
        ∃ v, t'.versions = t.versions ++ [v] ∧ v.createdBy = "auto-heal"

section Tables

theorem findTable_updateTable (name : String) (f : ExecutableTable Gate → ExecutableTable Gate)
    (hname : ∀ t, (f t).tableName = t.tableName) (state : AppState Gate) :
    findTable (updateTable name f state).executableTables name =
      (findTable state.executableTables name).map f := by
  unfold findTable updateTable
  dsimp only
  induction state.executableTables with
  | nil => rfl
  | cons t rest ih =>
    by_cases ht : t.tableName = name
    · simp [ht, hname]
    · simp [ht, ih]

theorem tableName_of_findTable {tables : List (ExecutableTable Gate)} {name : String}
    {t : ExecutableTable Gate} (h : findTable tables name = some t) : t.tableName = name := by
  simpa using List.find?_some h

end Tables
section Writes
open Process
variable {services} {job : ScheduledJob} {table : ExecutableTable Gate}
  {w : World (AppState Gate) (Answer Batch)} {s : AppState Gate}

/-- A section that changes the table but not its versions. -/
def KeepsVersions (name : String) (p : AppState Gate × AppState Gate) : Prop :=
  ∃ f : ExecutableTable Gate → ExecutableTable Gate, p.2 = updateTable name f p.1 ∧
    ∀ t, (f t).tableName = t.tableName ∧ (f t).versions = t.versions

theorem writes_detectSkip (table : ExecutableTable Gate)
    (w : World (AppState Gate) (Answer Batch)) (s : AppState Gate) :
    ∀ p ∈ (detectSkip table : Section Gate Batch _).writes w s,
      KeepsVersions table.tableName p := by
  unfold detectSkip
  split
  · exact List.forall_mem_nil _
  · rw [writes_bind]
    dsimp only
    split
    · exact List.forall_mem_nil _
    · intro p hp
      rw [List.mem_singleton.mp hp]
      exact ⟨_, rfl, fun _ => ⟨rfl, rfl⟩⟩

theorem writes_runJob_some (h : tableRead job w s = some table) :
    (runJob services job).writes w s = (detectSkip table).writes w.next (w.others 0 s) ++
      if (decided table w s).value.skipped then []
      else (executeTable services table).writes (decided table w s).world
        (decided table w s).state := by
  unfold runJob
  rw [writes_bind, writes_readTables, List.nil_append, run_readTables]
  dsimp only
  rw [show findTable (w.others 0 s).executableTables job.target = some table from h]
  dsimp only
  rw [writes_bind, writes_bind, writes_pure, List.append_nil]
  change _ ++ Process.writes (if (decided table w s).value.skipped then _ else _) _ _ = _
  split <;> rfl

/-- The rollback to a version, in the run of an execution. -/
def rollbackWrite (services : Services Gate Batch) (table : ExecutableTable Gate)
    (prev : TransformVersion) (w : World (AppState Gate) (Answer Batch)) (s : AppState Gate) :
    AppState Gate × AppState Gate :=
  let before := w.others 2 (w.others 1 (w.others 0 s))
  (before, updateTable table.tableName
    (rolledBack (services.toRfc3339 (w.answer 1 .now)) prev) before)

/-- What follows the answer to the query of a SQL transform. -/
def settleAnswer (services : Services Gate Batch) (table : ExecutableTable Gate) :
    Except String (List Batch) → Section Gate Batch Unit
  | .ok batches => settleSql services table batches
  | .error _ => pure ()

theorem writes_executeTable_sql (hsql : table.transform.transformType = "sql") :
    (executeTable services table).writes w s =
      (settleAnswer services table (w.answer 0 (.sql (execCode table)))).writes w.next
        (w.others 0 s) := by
  have hrust : ¬ table.transform.transformType = "rust" := by
    rw [hsql]
    decide
  unfold executeTable
  rw [if_neg hrust, if_pos hsql]
  rfl

theorem writes_executeTable_of_fails {batches : List Batch} {prev : TransformVersion}
    (hsql : table.transform.transformType = "sql")
    (hanswer : w.answer 0 (.sql (execCode table)) = (.ok batches : Except String (List Batch)))
    (hfails : gateFailed services table batches = true) (hprev : prevVersion table = some prev) :
    (executeTable services table).writes w s = [rollbackWrite services table prev w s] := by
  rw [writes_executeTable_sql hsql, hanswer]
  unfold settleAnswer settleSql
  dsimp only
  rw [if_pos hfails, hprev]
  rfl

/-- An execution writes a rollback when the gates fail, or keeps the versions. -/
theorem writes_executeTable_cases {p : AppState Gate × AppState Gate}
    (hp : p ∈ (executeTable services table).writes w s) :
    (∃ batches prev, table.transform.transformType = "sql" ∧
      w.answer 0 (.sql (execCode table)) = (.ok batches : Except String (List Batch)) ∧
      gateFailed services table batches = true ∧ prevVersion table = some prev ∧
      p = rollbackWrite services table prev w s) ∨ KeepsVersions table.tableName p := by
  by_cases hsql : table.transform.transformType = "sql"
  · rw [writes_executeTable_sql hsql] at hp
    unfold settleAnswer at hp
    split at hp
    · rename_i batches hanswer
      unfold settleSql at hp
      split at hp
      · rename_i hfails
        split at hp
        · rename_i prev hprev
          have hwrite : p = rollbackWrite services table prev w s := List.mem_singleton.mp hp
          exact Or.inl ⟨batches, prev, hsql, hanswer, hfails, hprev, hwrite⟩
        · cases hp
      · right
        rw [List.mem_singleton.mp hp]
        exact ⟨_, rfl, fun _ => ⟨rfl, rfl⟩⟩
    · cases hp
  · unfold executeTable at hp
    split at hp
    · cases hp
    · cases hp

/-- A section that keeps the versions is no rollback. -/
theorem KeepsVersions.not_added {p : AppState Gate × AppState Gate} {t t' : ExecutableTable Gate}
    {name : String} (h : KeepsVersions name p) (ht : findTable p.1.executableTables name = some t)
    (ht' : findTable p.2.executableTables name = some t') (v : TransformVersion) :
    t'.versions ≠ t.versions ++ [v] := by
  obtain ⟨f, hf, hkeeps⟩ := h
  rw [hf, findTable_updateTable name f (fun t => (hkeeps t).1), ht] at ht'
  cases ht'
  rw [(hkeeps t).2]
  intro hadded
  exact List.cons_ne_nil _ _ (List.self_eq_append_right.mp hadded)

/-- A job rolls back exactly when its gates fail and the table as it was read has a version to go
back to, and the table as it has become is still there. -/
theorem rollsBack_iff {t t' : ExecutableTable Gate} :
    RollsBack services job w s table t t' ↔ GatesFail services job w s table ∧
      ∃ prev, prevVersion table = some prev ∧
        findTable (atRollback table w s).executableTables job.target = some t ∧
        t' = rolledBack (services.toRfc3339 (rollbackTime table w s)) prev t := by
  constructor
  · rintro ⟨hread, p, hp, ht, ht', v, hv, -⟩
    have hname := tableName_of_findTable hread
    rw [writes_runJob_some hread] at hp
    rcases List.mem_append.mp hp with hskip | hexecute
    · have hkeeps := writes_detectSkip table _ _ p hskip
      rw [hname] at hkeeps
      exact absurd hv (hkeeps.not_added ht ht' v)
    · split at hexecute
      · cases hexecute
      · rename_i hruns
        rcases writes_executeTable_cases hexecute with
          ⟨batches, prev, hsql, hanswer, hfails, hprev, rfl⟩ | hkeeps
        · refine ⟨⟨hread, Bool.eq_false_iff.mpr hruns, hsql, batches, hanswer, hfails⟩, prev, hprev,
            ht, ?_⟩
          have hrolled : findTable (updateTable table.tableName _ _).executableTables _ = some t' :=
            ht'
          rw [hname, findTable_updateTable _ (rolledBack _ prev) (fun _ => rfl)] at hrolled
          unfold rollbackWrite at ht
          dsimp only at ht
          rw [ht] at hrolled
          exact (Option.some.inj hrolled).symm
        · rw [hname] at hkeeps
          exact absurd hv (hkeeps.not_added ht ht' v)
  · rintro ⟨⟨hread, hruns, hsql, batches, hanswer, hfails⟩, prev, hprev, ht, rfl⟩
    have hname := tableName_of_findTable hread
    refine ⟨hread, rollbackWrite services table prev (decided table w s).world
      (decided table w s).state, ?_, ht, ?_, _, rfl, rfl⟩
    · rw [writes_runJob_some hread, hruns, if_neg Bool.false_ne_true,
        writes_executeTable_of_fails hsql hanswer hfails hprev]
      exact List.mem_append_right _ (List.mem_singleton_self _)
    · unfold rollbackWrite
      dsimp only
      rw [hname, findTable_updateTable _ (rolledBack _ prev) (fun _ => rfl)]
      exact congrArg (Option.map _) ht

end Writes

section Runs

/-- A property of each execution of a due job among some, beside whatever others do. -/
def EachJob (P : ScheduledJob → World (AppState Gate) (Answer Batch) → AppState Gate → Prop) :
    List ScheduledJob → World (AppState Gate) (Answer Batch) → AppState Gate → Prop
  | [], _, _ => True
  | job :: rest, w, s =>
    let isDue := (jobIsDue job).run w s
    let first := (if isDue.value then runJob services job else pure []).run isDue.world isDue.state
    (isDue.value = true → P job isDue.world isDue.state) ∧ EachJob P rest first.world first.state

/-- A property of each execution of a due job in the first ticks. -/
def EachTick (P : ScheduledJob → World (AppState Gate) (Answer Batch) → AppState Gate → Prop) :
    ℕ → World (AppState Gate) (Answer Batch) → AppState Gate → Prop
  | 0, _, _ => True
  | n + 1, w, s =>
    let first := (tick services).run w s
    EachJob services P (w.others 0 s).scheduledJobs w.next (w.others 0 s) ∧
      EachTick P n first.world first.state

variable {P Q : ScheduledJob → World (AppState Gate) (Answer Batch) → AppState Gate → Prop}

theorem eachJob_congr (h : ∀ job w s, P job w s ↔ Q job w s) (jobs : List ScheduledJob)
    (w : World (AppState Gate) (Answer Batch)) (s : AppState Gate) :
    EachJob services P jobs w s ↔ EachJob services Q jobs w s := by
  induction jobs generalizing w s with
  | nil => exact Iff.rfl
  | cons job rest ih => exact and_congr (imp_congr_right fun _ => h _ _ _) (ih _ _)

theorem eachTick_congr (h : ∀ job w s, P job w s ↔ Q job w s) (n : ℕ)
    (w : World (AppState Gate) (Answer Batch)) (s : AppState Gate) :
    EachTick services P n w s ↔ EachTick services Q n w s := by
  induction n generalizing w s with
  | zero => exact Iff.rfl
  | succ n ih => exact and_congr (eachJob_congr services h _ _ _) (ih _ _)

variable (job : ScheduledJob) (w : World (AppState Gate) (Answer Batch)) (s : AppState Gate)

/-- A rollback replaces the code that was executed. -/
def ReplacesFailed : Prop :=
  ∀ table t t', RollsBack services job w s table t t' →
    t.transform.sourceCode = table.transform.sourceCode

/-- When the gates fail and there is a version to go back to, nobody has changed the code since the
table was read. -/
def Untouched : Prop :=
  ∀ table, GatesFail services job w s table → prevVersion table ≠ none →
    ∀ t, findTable (atRollback table w s).executableTables job.target = some t →
      t.transform.sourceCode = table.transform.sourceCode

/-- A rollback installs other code than what was executed. -/
def Heals : Prop :=
  ∀ table t t', RollsBack services job w s table t t' →
    t'.transform.sourceCode ≠ table.transform.sourceCode

/-- When the gates fail, the last version but one that is no rollback has other code than the
table. -/
def Moves : Prop :=
  ∀ table, GatesFail services job w s table →
    findTable (atRollback table w s).executableTables job.target ≠ none →
      ∀ prev, prevVersion table = some prev → prev.sourceCode ≠ table.transform.sourceCode

variable {job w s}

theorem replacesFailed_iff_untouched :
    ReplacesFailed services job w s ↔ Untouched services job w s := by
  constructor
  · intro h table hfails hprev t ht
    obtain ⟨prev, hsome⟩ := Option.ne_none_iff_exists'.mp hprev
    exact h table t _ (rollsBack_iff.mpr ⟨hfails, prev, hsome, ht, rfl⟩)
  · intro h table t t' hrolls
    obtain ⟨hfails, prev, hprev, ht, -⟩ := rollsBack_iff.mp hrolls
    have hsome : prevVersion table ≠ none := by
      rw [hprev]
      exact Option.some_ne_none prev
    exact h table hfails hsome t ht

theorem heals_iff_moves : Heals services job w s ↔ Moves services job w s := by
  constructor
  · intro h table hfails hthere prev hprev
    obtain ⟨t, ht⟩ := Option.ne_none_iff_exists'.mp hthere
    exact h table t _ (rollsBack_iff.mpr ⟨hfails, prev, hprev, ht, rfl⟩)
  · intro h table t t' hrolls
    obtain ⟨hfails, prev, hprev, ht, rfl⟩ := rollsBack_iff.mp hrolls
    have hthere : findTable (atRollback table w s).executableTables job.target ≠ none := by
      rw [ht]
      exact Option.some_ne_none t
    exact h table hfails hthere prev hprev

variable (w s)

/-- In every run of ticks, beside whatever others do, each rollback replaces the code whose
execution has failed exactly when nobody has changed the code between the read of the table and the
rollback. -/
theorem rollbacks_replace_failed_iff (n : ℕ) :
    EachTick services (ReplacesFailed services) n w s ↔
      EachTick services (Untouched services) n w s :=
  eachTick_congr services (fun _ _ _ => replacesFailed_iff_untouched services) n w s

/-- In every run of ticks, beside whatever others do, each rollback installs other code than what
has failed exactly when, at each failure, the last version but one that is no rollback has other
code than the table. -/
theorem rollbacks_heal_iff (n : ℕ) :
    EachTick services (Heals services) n w s ↔ EachTick services (Moves services) n w s :=
  eachTick_congr services (fun _ _ _ => heals_iff_moves services) n w s

end Runs

section History
variable {t : ExecutableTable Gate} {prev : TransformVersion}

end History

section FailingRevenue

/-- The gates fail at every execution. -/
def failingServices : Services String ℕ where
  toRfc3339 _ := "2024-05-01T07:08:09+00:00"
  parseFromRfc3339 text :=
    if text = "2024-05-01T07:08:09+00:00" then some 1714547289000000000 else none
  validateGates gates _ := gates.map fun gate => ⟨gate, none, false, "0 rows, minimum 1"⟩
  numRows rows := rows

def emptyAnswer : (request : Request) → Answer ℕ request
  | .now => (1714547289000000000 : ℤ)
  | .uuid => "c5b1"
  | .sql _ => Except.ok [0]
  | .rust _ => ()

def revenueVersion (version : UInt32) (code description : String) : TransformVersion where
  version := version
  sourceCode := code
  sourceHash := hashSource code
  createdAt := "2024-04-30T00:00:00+00:00"
  createdBy := "user"
  changeDescription := description
  binarySizeBytes := none
  snapshotIds := []

/-- A table whose code has been updated once. -/
def revenueTable : ExecutableTable String where
  tableName := "revenue"
  transform := ⟨"sql", "SELECT net FROM orders", hashSource "SELECT net FROM orders", false⟩
  qualityGates := ["row_count"]
  inputTables := []
  health := "healthy"
  history := []
  versions := [revenueVersion 1 "SELECT gross FROM orders" "Initial transform",
    revenueVersion 2 "SELECT net FROM orders" "Net amounts"]
  lastRefresh := none
  totalExecutions := 0
  incremental := false
  watermarkColumn := none
  lastWatermark := none
  executionsSkipped := 0
  autoRefresh := false
  refreshIntervalSeconds := 0

def revenueJob : ScheduledJob := ⟨"executable_table", "revenue", true, none⟩

def failingState (table : ExecutableTable String) : AppState String where
  scheduledJobs := [revenueJob]
  executableTables := [table]

/-- The table after the first rollback. -/
def revenueRolledBack : ExecutableTable String :=
  rolledBack "2024-05-01T07:08:09+00:00"
    (revenueVersion 1 "SELECT gross FROM orders" "Initial transform") revenueTable

theorem run_tick_failing : (tick failingServices).run (.quiet emptyAnswer)
    (failingState revenueTable) =
      ⟨[⟨revenueTable, [], false⟩], failingState revenueRolledBack, .quiet emptyAnswer⟩ := rfl

/-- The second tick installs the code that has failed in it. -/
theorem revenue_reinstalled :
    ¬ EachTick failingServices (Heals failingServices) 2 (.quiet emptyAnswer)
      (failingState revenueTable) := by
  rintro ⟨-, hsecond, -⟩
  rw [run_tick_failing] at hsecond
  have hheals : Heals failingServices revenueJob (.quiet emptyAnswer)
      (failingState revenueRolledBack) := hsecond.1 rfl
  have hfails : GatesFail failingServices revenueJob (.quiet emptyAnswer)
      (failingState revenueRolledBack) revenueRolledBack := ⟨rfl, rfl, rfl, [0], rfl, rfl⟩
  exact hheals _ _ _ (rollsBack_iff.mpr ⟨hfails, _, rfl, rfl, rfl⟩) rfl

/-- The user updates the code while the query runs. -/
def updatingWorld : World (AppState String) (Answer ℕ) where
  others n s :=
    if n = 3 then
      (updateExecutableTable "2024-05-01T07:08:08+00:00" (fun _ => ⟨"2024-04-30", none⟩) "revenue"
        ⟨"SELECT total FROM orders", none⟩ s).2
    else s
  answer _ := emptyAnswer

/-- The update is replaced because the code before it has failed. -/
theorem revenue_update_replaced :
    ¬ EachTick failingServices (ReplacesFailed failingServices) 1 updatingWorld
      (failingState revenueTable) := by
  rintro ⟨⟨hfirst, -⟩, -⟩
  have hreplaces : ReplacesFailed failingServices revenueJob updatingWorld.next
      (failingState revenueTable) := hfirst rfl
  have hfails : GatesFail failingServices revenueJob updatingWorld.next
      (failingState revenueTable) revenueTable := ⟨rfl, rfl, rfl, [0], rfl, rfl⟩
  have hsame := hreplaces _ _ _ (rollsBack_iff.mpr ⟨hfails, _, rfl, rfl, rfl⟩)
  exact absurd hsame (by decide)

end FailingRevenue
end RustLake.Scheduler
