import Mathlib.Algebra.Order.Field.Rat
import Mathlib.Data.List.Basic

/-! The distributed query planner: what kind of query a logical plan is, and how its work is
assigned to workers. -/
namespace RustLake.Flight

inductive WorkerStatus where
  | active | draining | unhealthy | deregistering
deriving DecidableEq, Repr

structure WorkerHandle where
  id : String
  endpoint : String
  status : WorkerStatus
deriving DecidableEq, Repr

/-- The logical plans that `analyze_plan` tells apart. Expressions appear as displayed. -/
inductive LogicalPlan where
  | projection (input : LogicalPlan)
  | filter (input : LogicalPlan)
  | sort (input : LogicalPlan)
  | limit (input : LogicalPlan)
  | aggregate (groupExpr aggrExpr : List String) (input : LogicalPlan)
  | join (left right : LogicalPlan)
  | tableScan (tableName : String)
  | subqueryAlias (input : LogicalPlan)
  | emptyRelation
  | other

inductive QueryAnalysis where
  | simpleScan (table : String)
  | aggregateQuery (table : String) (groupCols aggFuncs : List String)
  | joinQuery (leftTable rightTable : String)
  | simple
  | complex
deriving DecidableEq, Repr

/-- The table of a simple scan. -/
def QueryAnalysis.scanned : QueryAnalysis → String
  | .simpleScan table => table
  | _ => "unknown"

def analyzePlan : LogicalPlan → QueryAnalysis
  | .projection input => analyzePlan input
  | .filter input => analyzePlan input
  | .sort input => analyzePlan input
  | .limit input => analyzePlan input
  | .aggregate groupExpr aggrExpr input =>
    .aggregateQuery (analyzePlan input).scanned groupExpr aggrExpr
  | .join left right => .joinQuery (analyzePlan left).scanned (analyzePlan right).scanned
  | .tableScan tableName => .simpleScan tableName
  | .subqueryAlias input => analyzePlan input
  | .emptyRelation => .simple
  | .other => .complex

inductive DistributionStrategy where
  | local
  | singleWorker
  | rangePartition (table partitionColumn : String)
  | scatterGather
  | partialAggregate (workerSql mergeSql : String)
deriving DecidableEq, Repr

structure WorkerAssignment where
  workerEndpoint : String
  sql : String
  partitionRange : Option (Int64 × Int64)
deriving DecidableEq, Repr

structure DistributedPlan where
  originalSql : String
  strategy : DistributionStrategy
  workerAssignments : List WorkerAssignment
  mergeSql : Option String
  estimatedCost : ℚ
deriving DecidableEq, Repr

def localPlan (sql : String) (estimatedCost : ℚ) : DistributedPlan where
  originalSql := sql
  strategy := .local
  workerAssignments := []
  mergeSql := none
  estimatedCost := estimatedCost

def batchSize : ℕ := 100000

/-- The query of one slice of the rows of another. -/
def partitionSql (sql : String) (limit offset : ℕ) : String :=
  "SELECT * FROM (" ++ sql ++ ") AS __partitioned LIMIT " ++ toString limit ++ " OFFSET " ++
    toString offset

/-- The slice of `batchSize` rows that falls to the worker at an index. -/
def partitionAssignment (sql : String) (i : ℕ) (worker : WorkerHandle) : WorkerAssignment where
  workerEndpoint := worker.endpoint
  sql := partitionSql sql batchSize (i * batchSize)
  partitionRange := some (Int64.ofNat (i * batchSize), Int64.ofNat (i * batchSize + batchSize))

def planPartitionedScan (sql table : String) (workers : List WorkerHandle) :
    DistributedPlan where
  originalSql := sql
  strategy := .rangePartition table "__offset"
  workerAssignments := workers.mapIdx (partitionAssignment sql)
  mergeSql := none
  estimatedCost := 100 / workers.length

/-- The aggregate that merges partial results of another. -/
def mergeFunc (func : String) : String :=
  if func.startsWith "COUNT" then func.replace "COUNT" "SUM" else func

def mergeSql (groupCols aggFuncs : List String) : String :=
  let select := "SELECT " ++ ", ".intercalate (groupCols ++ aggFuncs.map mergeFunc) ++
    " FROM __partial_results"
  if groupCols.isEmpty then select else select ++ " GROUP BY " ++ ", ".intercalate groupCols

def planPartialAggregate (sql : String) (groupCols aggFuncs : List String)
    (workers : List WorkerHandle) : DistributedPlan where
  originalSql := sql
  strategy := .partialAggregate sql (mergeSql groupCols aggFuncs)
  workerAssignments := workers.mapIdx (partitionAssignment sql)
  mergeSql := some (mergeSql groupCols aggFuncs)
  estimatedCost := 80 / workers.length

def fullAssignment (sql : String) (worker : WorkerHandle) : WorkerAssignment where
  workerEndpoint := worker.endpoint
  sql := sql
  partitionRange := none

def planScatterGather (sql : String) (workers : List WorkerHandle) : DistributedPlan where
  originalSql := sql
  strategy := .scatterGather
  workerAssignments := workers.map (fullAssignment sql)
  mergeSql := none
  estimatedCost := 50

/-- The plan for a query that goes to the first worker alone. -/
def singleWorkerPlan (sql : String) (workers : List WorkerHandle) : DistributedPlan where
  originalSql := sql
  strategy := .singleWorker
  workerAssignments := (workers.take 1).map (fullAssignment sql)
  mergeSql := none
  estimatedCost := 50

/-- The plan for an analysed query and at least one worker. -/
def planFor (sql : String) (workers : List WorkerHandle) : QueryAnalysis → DistributedPlan
  | .simpleScan table => planPartitionedScan sql table workers
  | .aggregateQuery _ groupCols aggFuncs => planPartialAggregate sql groupCols aggFuncs workers
  | .joinQuery _ _ => planScatterGather sql workers
  | .simple => localPlan sql 1
  | .complex =>
    if 2 ≤ workers.length then planScatterGather sql workers else singleWorkerPlan sql workers

/-- `DistributedPlanner::plan`. A query that does not parse runs locally. -/
def plan (createLogicalPlan : String → Option LogicalPlan) (sql : String)
    (workers : List WorkerHandle) : DistributedPlan :=
  if workers.isEmpty then localPlan sql 0
  else match createLogicalPlan sql with
    | none => localPlan sql 0
    | some logicalPlan => planFor sql workers (analyzePlan logicalPlan)

end RustLake.Flight
