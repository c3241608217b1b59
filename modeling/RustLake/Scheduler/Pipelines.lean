import RustLake.Order.Dependency
import RustLake.Scheduler.Tick

/-! Runs of executable tables after what they depend on: pipelines of stages, and the replay of all
that is upstream of a table. -/
namespace RustLake.Scheduler
open Dependency

structure SchemaCheck where
  column : String
  dataType : String
  nullable : Bool
  required : Bool

structure DataContract where
  id : String
  producerTable : String
  schemaChecks : List SchemaCheck

structure ContractViolation where
  checkType : String
  column : String
  expected : String
  actual : String

structure PipelineStage where
  tableName : String
  dependsOn : List String
  gateRequired : Bool
  contractRequired : Bool

structure ExecutablePipeline where
  id : String
  name : String
  stages : List PipelineStage
  status : String
  lastRun : Option String
  totalRuns : UInt64

structure PipelineStageResult where
  tableName : String
  status : String
  rows : UInt64
  gateResults : List GateResult
  gatesPassed : Bool
  contractValid : Bool
  error : Option String

structure PipelineRunResult where
  pipelineId : String
  pipelineName : String
  status : String
  stages : List PipelineStageResult

structure CascadeNodeResult where
  tableName : String
  version : UInt32
  rows : UInt64
  gatesPassed : Bool
  gateResults : List GateResult
  contractsValidated : Bool
  status : String
  error : Option String

structure CascadeReplayResult where
  target : String
  totalTables : ℕ
  results : List CascadeNodeResult
  allGatesPassed : Bool
  allContractsValid : Bool

/-- Code outside the runs: the checks of batches, and the fields of a schema by name, with the
`Debug` text of the type. -/
structure Checks (Gate Batch : Type) extends Services Gate Batch where
  fieldWithName : Batch → String → Option (String × Bool)
  toLowercase : String → String

/-- What running the code of a table gives: the answer to a query, or the batches that the output
of a program is parsed to. -/
structure EngineAnswer (Batch : Type) where
  sql : Except String (List Batch)
  rust : Option (List Batch)

/-- The tables by what they depend on. A name without a table depends on nothing. -/
structure DependencyDag where
  names : List String
  inputs : String → List String

variable {Gate Batch : Type}

def buildDependencyDag (tables : List (ExecutableTable Gate)) : DependencyDag where
  names := tables.flatMap fun t => t.tableName :: t.inputTables
  inputs name := (tables.filter fun t => t.tableName = name).flatMap (·.inputTables)

/-- The orders in which the set of nodes and the map of their degrees are gone through. -/
structure SortOrders where
  upstream : HashOrder String
  inDegree : HashOrder String

/-- All nodes upstream are found first. What they depend on is upstream, too. -/
def topologicalSortUpstream (orders : SortOrders) (dag : DependencyDag) (target : String) :
    List String :=
  let nodes := orders.upstream.elements (upstream dag.inputs (dag.names.length + 1) target)
  sort dag.inputs nodes (orders.inDegree.elements nodes)

def executeTransformCode (answer : EngineAnswer Batch) (transformType : String) :
    Option (List Batch) :=
  if transformType = "sql" then answer.sql.toOption
  else if transformType = "rust" then answer.rust
  else none

section Runs
variable (checks : Checks Gate Batch) (contracts : List DataContract)
  (tables : List (ExecutableTable Gate)) (answers : String → EngineAnswer Batch)

/-- What is wrong with the first batch under a contract. -/
def contractViolations (contract : DataContract) : List Batch → List ContractViolation
  | [] => [⟨"no_data", "*", "at least 1 batch", "0 batches"⟩]
  | first :: _ => contract.schemaChecks.flatMap fun check =>
    match checks.fieldWithName first check.column with
    | some (actualType, isNullable) =>
      (if (checks.toLowercase check.dataType).toList <:+: (checks.toLowercase actualType).toList
        then []
        else [⟨"type_mismatch", check.column, check.dataType, actualType⟩]) ++
      if check.nullable = isNullable then []
      else [⟨"nullable_mismatch", check.column, "nullable=" ++ toString check.nullable,
        "nullable=" ++ toString isNullable⟩]
    | none =>
      if check.required then
        [⟨"missing_column", check.column, "column exists", "column not found"⟩]
      else []

def validateContract (contract : DataContract) (batches : List Batch) : Bool :=
  (contractViolations checks contract batches).isEmpty

def findContract (name : String) : Option DataContract :=
  contracts.find? fun c => c.producerTable = name

/-- The batches of a table, when its execution succeeds. -/
def executedBatches (t : ExecutableTable Gate) : Option (List Batch) :=
  executeTransformCode (answers t.tableName) t.transform.transformType

def gateResultsOf (t : ExecutableTable Gate) : List GateResult :=
  match executedBatches answers t with
  | some batches => checks.validateGates t.qualityGates batches
  | none => []

def gatesPassedOf (t : ExecutableTable Gate) : Bool :=
  (gateResultsOf checks answers t).all (·.passed)

def contractValidOf (t : ExecutableTable Gate) : Bool :=
  match findContract contracts t.tableName, executedBatches answers t with
  | some contract, some batches => validateContract checks contract batches
  | _, _ => true

def rowsOf (t : ExecutableTable Gate) : UInt64 :=
  match executedBatches answers t with
  | some batches => UInt64.ofNat (batches.map checks.numRows).sum
  | none => 0

def statusOf (t : ExecutableTable Gate) : String :=
  if (executedBatches answers t).isSome then "success" else "failed"

def errorOf (t : ExecutableTable Gate) : Option String :=
  if (executedBatches answers t).isSome then none else some "Execution failed"

section Pipelines
variable (orders : ℕ → SortOrders) (stages : List PipelineStage)

def stageNames : List String := stages.map (·.tableName)

/-- The stages in dependency order: of each stage in turn what is upstream of it and is a stage. -/
def orderedStages : List String :=
  (stageNames stages).zipIdx.foldl (fun ordered (name, i) =>
    merge (· ∈ stageNames stages) ordered
      (topologicalSortUpstream (orders i) (buildDependencyDag tables) name)) []

def findStage (name : String) : Option PipelineStage := stages.find? fun s => s.tableName = name

def stageResult (t : ExecutableTable Gate) : PipelineStageResult where
  tableName := t.tableName
  status := statusOf answers t
  rows := rowsOf checks answers t
  gateResults := gateResultsOf checks answers t
  gatesPassed := gatesPassedOf checks answers t
  contractValid := contractValidOf checks contracts answers t
  error := errorOf answers t

def shouldStop (t : ExecutableTable Gate) : Bool :=
  match findStage stages t.tableName with
  | some sd => (sd.gateRequired && !gatesPassedOf checks answers t) ||
    (sd.contractRequired && !contractValidOf checks contracts answers t) ||
    (executedBatches answers t).isNone
  | none => (executedBatches answers t).isNone

/-- The stages up to the first one at which the run stops, and the status of the pipeline. -/
def executeStages : List String → List PipelineStageResult × String
  | [] => ([], "success")
  | name :: rest =>
    match findTable tables name with
    | some t =>
      if shouldStop checks contracts answers stages t then
        ([stageResult checks contracts answers t], "failed")
      else
        let later := executeStages rest
        (stageResult checks contracts answers t :: later.1, later.2)
    | none => executeStages rest

def runExecutablePipeline (finishedAt : String) (id : String)
    (pipelines : List ExecutablePipeline) :
    Except (ℕ × String) PipelineRunResult × List ExecutablePipeline :=
  match pipelines.find? fun p => p.id = id with
  | none => (.error (404, "Pipeline not found"), pipelines)
  | some pipeline =>
    let (results, status) := executeStages checks contracts tables answers pipeline.stages
      (orderedStages tables orders pipeline.stages)
    (.ok ⟨pipeline.id, pipeline.name, status, results⟩,
      pipelines.replaceF fun p => if p.id = pipeline.id then
        some { p with totalRuns := p.totalRuns + 1, lastRun := some finishedAt, status := status }
      else none)

end Pipelines

def cascadeNode (t : ExecutableTable Gate) : CascadeNodeResult where
  tableName := t.tableName
  version := maxVersion t
  rows := rowsOf checks answers t
  gatesPassed := gatesPassedOf checks answers t
  gateResults := gateResultsOf checks answers t
  contractsValidated := contractValidOf checks contracts answers t
  status := statusOf answers t
  error := errorOf answers t

def cascadeReplay (orders : SortOrders) (name : String) :
    Except (ℕ × String) CascadeReplayResult :=
  if tables.any fun t => t.tableName = name then
    let executionOrder := topologicalSortUpstream orders (buildDependencyDag tables) name
    let results := (executionOrder.filterMap (findTable tables)).map
      (cascadeNode checks contracts answers)
    .ok ⟨name, results.length, results, results.all (·.gatesPassed),
      results.all (·.contractsValidated)⟩
  else .error (404, "Table '" ++ name ++ "' not found")

end Runs
end RustLake.Scheduler
