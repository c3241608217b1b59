import Mathlib.Data.String.Basic
import RustLake.Rust.Basic
import RustLake.Scheduler.Process

/-! The tick of the background scheduler: the jobs of executable tables and the refresh of
materialized views. -/
namespace RustLake.Scheduler

/-- Nanoseconds since the epoch. -/
abbrev Instant := ℤ

structure TransformVersion where
  version : UInt32
  sourceCode : String
  sourceHash : String
  createdAt : String
  createdBy : String
  changeDescription : String
  binarySizeBytes : Option UInt64
  snapshotIds : List Int64
deriving DecidableEq

structure TableTransform where
  transformType : String
  sourceCode : String
  sourceHash : String
  binaryCached : Bool
deriving DecidableEq

structure ExecutionRecord where
  executionId : String
  startedAt : String
  completedAt : Option String
  durationMs : UInt64
  status : String
  rowsProduced : Option UInt64
  bytesWritten : Option UInt64
  binaryCached : Bool
  compileMs : UInt64
  runMs : UInt64
  error : Option String
  executionLocation : String
  version : UInt32
deriving DecidableEq

/-- A table that knows how to refresh itself, with the fields that the scheduler uses. -/
structure ExecutableTable (Gate : Type) where
  tableName : String
  transform : TableTransform
  qualityGates : List Gate
  inputTables : List String
  health : String
  history : List ExecutionRecord
  versions : List TransformVersion
  lastRefresh : Option String
  totalExecutions : UInt64
  incremental : Bool
  watermarkColumn : Option String
  lastWatermark : Option String
  executionsSkipped : UInt64
  autoRefresh : Bool
  refreshIntervalSeconds : UInt64

structure ScheduledJob where
  jobType : String
  target : String
  enabled : Bool
  nextRun : Option Instant
deriving DecidableEq

structure AppState (Gate : Type) where
  scheduledJobs : List ScheduledJob
  executableTables : List (ExecutableTable Gate)

structure GateResult where
  gateType : String
  column : Option String
  passed : Bool
  detail : String

/-- What the tick asks from outside: the clock, random ids, and the execution of code. -/
inductive Request where
  | now
  | uuid
  | sql (code : String)
  | rust (code : String)

def Answer (Batch : Type) : Request → Type
  | .now => Instant
  | .uuid => String
  | .sql _ => Except String (List Batch)
  | .rust _ => Unit

/-- Code outside the scheduler: the texts of times, the check of quality gates, and batches. -/
structure Services (Gate Batch : Type) where
  toRfc3339 : Instant → String
  parseFromRfc3339 : String → Option Instant
  validateGates : List Gate → List Batch → List GateResult
  numRows : Batch → ℕ

variable {Gate Batch : Type}

/-- `find` over the tables, by their names. -/
def findTable (tables : List (ExecutableTable Gate)) (name : String) :
    Option (ExecutableTable Gate) := tables.find? fun t => t.tableName = name

/-- A section under the write lock that changes the first table of a name. -/
def updateTable (name : String) (f : ExecutableTable Gate → ExecutableTable Gate)
    (state : AppState Gate) : AppState Gate :=
  { state with executableTables :=
      state.executableTables.replaceF fun t => if t.tableName = name then some (f t) else none }

def maxVersion (t : ExecutableTable Gate) : UInt32 :=
  ((t.versions.map (·.version)).max?).getD 1

/-- The last version but one that is no rollback. -/
def prevVersion (t : ExecutableTable Gate) : Option TransformVersion :=
  ((t.versions.filter fun v =>
    !"Auto-rollback".toList.isPrefixOf v.changeDescription.toList).reverse)[1]?

/-- Whether an input counts as changed since the last refresh. -/
def inputChanged (upstreamTables : List (ExecutableTable Gate)) (lastRefresh : Option String)
    (inputName : String) : Bool :=
  match findTable upstreamTables inputName with
  | some ut =>
    match lastRefresh, ut.lastRefresh with
    | some myLr, some upstreamLr => decide (myLr < upstreamLr)
    | _, _ => true
  | none => false

/-- The table of a job as it was read, the tables among which its inputs were looked up, and
whether its execution is skipped. -/
structure Decision (Gate : Type) where
  table : ExecutableTable Gate
  upstreamTables : List (ExecutableTable Gate)
  skipped : Bool

def execCode (table : ExecutableTable Gate) : String :=
  match table.incremental, table.watermarkColumn, table.lastWatermark with
  | true, some wc, some wv => table.transform.sourceCode ++ " WHERE " ++ wc ++ " > '" ++ wv ++ "'"
  | _, _, _ => table.transform.sourceCode

def rolledBack (createdAt : String) (prev : TransformVersion) (t : ExecutableTable Gate) :
    ExecutableTable Gate :=
  { t with
    versions := t.versions ++ [{
      version := maxVersion t + 1
      sourceCode := prev.sourceCode
      sourceHash := prev.sourceHash
      createdAt := createdAt
      createdBy := "auto-heal"
      changeDescription := "Auto-rollback to v" ++ toString prev.version ++ " (gate failure)"
      binarySizeBytes := prev.binarySizeBytes
      snapshotIds := [] }]
    transform := { t.transform with
      sourceCode := prev.sourceCode
      sourceHash := prev.sourceHash
      binaryCached := false }
    health := "warning" }

def refreshed (lastRefresh : String) (t : ExecutableTable Gate) : ExecutableTable Gate :=
  { t with
    lastRefresh := some lastRefresh
    health := if t.health = "warning" then "healthy" else t.health }

section Tick
variable (services : Services Gate Batch)

abbrev Section (Gate Batch : Type) : Type → Type := Process (AppState Gate) (Answer Batch)

def now : Section Gate Batch Instant := .ask .now .done

def readTables : Section Gate Batch (List (ExecutableTable Gate)) :=
  .read fun state => .done state.executableTables

@[simp] theorem run_readTables (w : World (AppState Gate) (Answer Batch)) (s : AppState Gate) :
    (readTables : Section Gate Batch _).run w s =
      ⟨(w.others 0 s).executableTables, w.others 0 s, w.next⟩ := rfl

@[simp] theorem asks_readTables (w : World (AppState Gate) (Answer Batch)) (s : AppState Gate) :
    (readTables : Section Gate Batch _).asks w s = [] := rfl

@[simp] theorem writes_readTables (w : World (AppState Gate) (Answer Batch)) (s : AppState Gate) :
    (readTables : Section Gate Batch _).writes w s = [] := rfl

def countSkip (name : String) : Section Gate Batch Unit :=
  .write (updateTable name fun t => { t with executionsSkipped := t.executionsSkipped + 1 })
    (pure ())

/-- Cost-aware skip detection. -/
def detectSkip (table : ExecutableTable Gate) : Section Gate Batch (Decision Gate) :=
  if table.inputTables.isEmpty then pure ⟨table, [], false⟩
  else do
    let upstreamTables ← readTables
    let upstreamChanged := table.inputTables.any (inputChanged upstreamTables table.lastRefresh)
    if upstreamChanged then pure ⟨table, upstreamTables, false⟩
    else do
      countSkip table.tableName
      pure ⟨table, upstreamTables, true⟩

def gateFailed (table : ExecutableTable Gate) (batches : List Batch) : Bool :=
  !table.qualityGates.isEmpty &&
    (services.validateGates table.qualityGates batches).any fun g => !g.passed

/-- What follows the successful execution of a SQL transform. -/
def settleSql (table : ExecutableTable Gate) (batches : List Batch) : Section Gate Batch Unit :=
  if gateFailed services table batches then
    match prevVersion table with
    | some prev => do
      let createdAt ← now
      .write (updateTable table.tableName (rolledBack (services.toRfc3339 createdAt) prev)) (pure ())
    | none => pure ()
  else do
    let at' ← now
    .write (updateTable table.tableName (refreshed (services.toRfc3339 at'))) (pure ())

def executeTable (table : ExecutableTable Gate) : Section Gate Batch Unit :=
  if table.transform.transformType = "rust" then .ask (.rust (execCode table)) fun _ => pure ()
  else if table.transform.transformType = "sql" then
    .ask (.sql (execCode table)) fun (result : Except String (List Batch)) =>
      match result with
      | .ok batches => settleSql services table batches
      | .error _ => pure ()
  else pure ()

/-- The job of an executable table that is due. -/
def runJob (job : ScheduledJob) : Section Gate Batch (List (Decision Gate)) := do
  let tables ← readTables
  match findTable tables job.target with
  | some table => do
    let decision ← detectSkip table
    (if decision.skipped then pure () else executeTable services table)
    pure [decision]
  | none => pure []

def jobIsDue (job : ScheduledJob) : Section Gate Batch Bool :=
  if !job.enabled || job.jobType ≠ "executable_table" then pure false
  else
    match job.nextRun with
    | some next => do
      let at' ← now
      pure !decide (at' < next)
    | none => pure true

/-- The decisions of the jobs, in their order. -/
def runJobs : List ScheduledJob → Section Gate Batch (List (Decision Gate))
  | [] => pure []
  | job :: rest => do
    let isDue ← jobIsDue job
    let first ← (if isDue then runJob services job else pure [])
    let later ← runJobs rest
    pure (first ++ later)

/-- Seconds between two times, as the code casts them. -/
def elapsedSeconds (later earlier : Instant) : UInt64 :=
  UInt64.ofInt ((later - earlier).tdiv 1000000000)

/-- The materialized views that are due, among the tables read. -/
def matviewCandidates : List (ExecutableTable Gate) →
    Section Gate Batch (List (ExecutableTable Gate))
  | [] => pure []
  | t :: rest => do
    let isDue ←
      if t.transform.transformType = "matview" ∨ (t.autoRefresh ∧ 0 < t.refreshIntervalSeconds) then
        match t.lastRefresh.bind services.parseFromRfc3339 with
        | some last => do
          let at' ← now
          pure (decide (t.refreshIntervalSeconds ≤ elapsedSeconds at' last))
        | none => pure true
      else pure false
    let later ← matviewCandidates rest
    pure (if isDue then t :: later else later)

def recorded (lastRefresh executionId startedAt completedAt : String) (rows : ℕ)
    (t : ExecutableTable Gate) : ExecutableTable Gate :=
  { t with
    lastRefresh := some lastRefresh
    history := t.history ++ [{
      executionId := executionId
      startedAt := startedAt
      completedAt := some completedAt
      durationMs := 0
      status := "success"
      rowsProduced := some (UInt64.ofNat rows)
      bytesWritten := none
      binaryCached := false
      compileMs := 0
      runMs := 0
      error := none
      executionLocation := "local"
      version := maxVersion t }]
    totalExecutions := t.totalExecutions + 1 }

def refreshMatview (t : ExecutableTable Gate) : Section Gate Batch Unit :=
  if t.transform.transformType = "sql" ∨ t.transform.transformType = "matview" then
    .ask (.sql t.transform.sourceCode) fun (result : Except String (List Batch)) =>
      match result with
      | .ok batches => do
        let rows := (batches.map services.numRows).sum
        let at' ← now
        let executionId ← .ask .uuid .done
        let startedAt ← now
        let completedAt ← now
        .write (updateTable t.tableName (recorded (services.toRfc3339 at') executionId
          (services.toRfc3339 startedAt) (services.toRfc3339 completedAt) rows)) (pure ())
      | .error _ => pure ()
  else pure ()

def refreshMatviews : List (ExecutableTable Gate) → Section Gate Batch Unit
  | [] => pure ()
  | t :: rest => do
    refreshMatview services t
    refreshMatviews rest

/-- One tick of the scheduler, and the decisions about its jobs. -/
def tick : Section Gate Batch (List (Decision Gate)) := do
  let jobs ← .read fun state => .done state.scheduledJobs
  let decisions ← runJobs services jobs
  let tables ← readTables
  let candidates ← matviewCandidates services tables
  refreshMatviews services candidates
  pure decisions

/-- The first ticks of the scheduler loop. -/
def ticks : ℕ → Section Gate Batch (List (Decision Gate))
  | 0 => pure []
  | n + 1 => do
    let first ← tick services
    let later ← ticks n
    pure (first ++ later)

end Tick
end RustLake.Scheduler
