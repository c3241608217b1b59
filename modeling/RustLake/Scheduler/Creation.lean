import RustLake.Rust.Unicode
import RustLake.Scheduler.Versions
import Mathlib.Data.List.Destutter

/-! The requests that add an executable table to the list, beside each other, and the names that
the list then has. -/
namespace RustLake.Scheduler

structure StreamingPipeline where
  id : String
  name : String
  sourceType : String
  database : Option String
  collection : Option String
  topic : Option String
  sinkTable : String
  status : String
  eventsProcessed : UInt64
  createdAt : Instant
deriving DecidableEq

structure MarketplacePackage (Gate : Type) where
  id : String
  name : String
  tableDefinition : ExecutableTable Gate
  installCount : UInt64

/-- The state with what the requests look up in it. -/
structure Lakehouse (Gate : Type) where
  app : AppState Gate
  pipelines : List StreamingPipeline
  packages : List (MarketplacePackage Gate)

/-- What the requests take from the rest of the code: the templates of transforms, the gates, and
the texts of times. -/
structure Templates (Gate : Type) where
  unicode : Unicode
  wrapSqlInRust : String → String
  sqlGates : String → List Gate
  defaultCdcGates : List Gate
  toRfc3339 : Instant → String

structure ConvertRequest where
  sql : String
  name : String
  compile : Bool

structure PromotionRequest (Gate : Type) where
  pipelineId : String
  name : String
  transformSql : Option String
  qualityGates : Option (List Gate)

/-- The requests that add a table. A table that is created as given may come with a schedule. -/
inductive CreationRequest (Gate : Type) where
  | create (table : ExecutableTable Gate) (schedule : Option String)
  | convert (req : ConvertRequest)
  | promote (req : PromotionRequest Gate)
  | install (packageId packageName : Option String)

variable {Gate Batch : Type}

abbrev Creation (Gate Batch : Type) : Type → Type := Process (Lakehouse Gate) (Answer Batch)

abbrev CreationReply : Type := Except (ℕ × String) String

def pushTable (t : ExecutableTable Gate) (s : Lakehouse Gate) : Lakehouse Gate :=
  { s with app := { s.app with executableTables := s.app.executableTables ++ [t] } }

def addScheduledJob (job : ScheduledJob) (s : Lakehouse Gate) : Lakehouse Gate :=
  { s with app := { s.app with scheduledJobs := s.app.scheduledJobs ++ [job] } }

def createExecutableTable (table : ExecutableTable Gate) (schedule : Option String) :
    Creation Gate Batch CreationReply :=
  let push : Creation Gate Batch CreationReply :=
    .write (pushTable table) (pure (.ok table.tableName))
  match schedule with
  | some _ => .write (addScheduledJob ⟨"executable_table", table.tableName, true, none⟩) push
  | none => push

/-- `trim_matches` of all letters that a test takes. -/
def trimMatchesBy (p : Char → Bool) (s : List Char) : List Char :=
  (s.dropWhile p).rdropWhile p

def eqIgnoreAsciiCase (a b : List Char) : Bool := a.map Char.toLower = b.map Char.toLower

/-- The words after `FROM` and `JOIN`, sorted and each once. -/
def inputTablesOf (unicode : Unicode) (sql : String) : List String :=
  let words := splitWhitespace sql.toList
  let follows := (words.zip words.tail).filterMap fun (word, next) =>
    if eqIgnoreAsciiCase word "FROM".toList || eqIgnoreAsciiCase word "JOIN".toList then
      let t := trimMatchesBy (fun c => !unicode.isAlphanumeric c && c ≠ '_' && c ≠ '.') next
      if t = [] then none else some (String.ofList t)
    else none
  (follows.mergeSort (· ≤ ·)).destutter (· ≠ ·)

/-- The table that a query without a name is called after. -/
def nameFromSql (unicode : Unicode) (sql : String) : Option String :=
  let words := splitWhitespace sql.toList
  match words.findIdx? fun w => eqIgnoreAsciiCase w "FROM".toList with
  | some idx => words[idx + 1]?.map fun word => "glacier_" ++
      String.ofList (trimMatchesBy (fun c => !unicode.isAlphanumeric c && c ≠ '_') word)
  | none => none

/-- The executable table that a query is converted to. -/
def convertedTable (templates : Templates Gate) (req : ConvertRequest) (tableName : String) :
    ExecutableTable Gate where
  tableName := tableName
  transform := {
    transformType := if req.compile then "rust" else "sql"
    sourceCode := if req.compile then templates.wrapSqlInRust req.sql else req.sql
    sourceHash := hashSource req.sql
    binaryCached := false }
  qualityGates := templates.sqlGates req.sql
  inputTables := inputTablesOf templates.unicode req.sql
  health := "healthy"
  history := []
  versions := []
  lastRefresh := none
  totalExecutions := 0
  incremental := false
  watermarkColumn := none
  lastWatermark := none
  executionsSkipped := 0
  autoRefresh := false
  refreshIntervalSeconds := 0

def askNow : Creation Gate Batch Instant := .ask .now .done

/-- The name of a converted table, which may be the seconds of the clock. -/
def convertedName (templates : Templates Gate) (req : ConvertRequest) :
    Creation Gate Batch String :=
  if req.name = "" then
    match nameFromSql templates.unicode req.sql with
    | some name => pure name
    | none => .ask .now fun (at' : Instant) => pure ("glacier_" ++ toString (at' / 1000000000))
  else pure req.name

def convertSqlToGlacier (templates : Templates Gate) (req : ConvertRequest) :
    Creation Gate Batch CreationReply :=
  if req.sql = "" then pure (.error (400, "sql is required"))
  else do
    let tableName ← convertedName templates req
    .write (pushTable (convertedTable templates req tableName)) (pure (.ok tableName))

/-- `replace('-', "_").replace(' ', "_")`. -/
def sanitized (name : String) : String :=
  String.ofList (name.toList.map fun c => if c = '-' || c = ' ' then '_' else c)

/-- The transform of a table that a pipeline is promoted to. -/
def promotedSource (pipeline : StreamingPipeline) (tableName : String)
    (transformSql : Option String) : String :=
  let registered := sanitized pipeline.name
  let head := "-- Glacier: " ++ tableName ++ " (from streaming pipeline '" ++ pipeline.name ++
    "')\n-- Source: " ++ pipeline.sourceType ++ " → " ++ pipeline.sinkTable ++
    "\n-- Registered sink table: " ++ registered
  match transformSql with
  | some sql => head ++ "\n-- Transform SQL applied to incoming CDC events\n\n" ++ sql
  | none => head ++ "\n\nSELECT * FROM " ++ registered

def promotedInputs (pipeline : StreamingPipeline) : List String :=
  let source : List String :=
    if pipeline.sourceType = "mongodb-cdc" then
      match pipeline.database, pipeline.collection with
      | some db, some col => ["mongo." ++ db ++ "." ++ col]
      | _, _ => []
    else if pipeline.sourceType = "kafka" then
      match pipeline.topic with
      | some topic => ["kafka." ++ topic]
      | none => []
    else []
  source ++ if pipeline.sinkTable = "" then [] else [pipeline.sinkTable]

/-- The executable table that a pipeline is promoted to, with the execution that its events count
for. -/
def promotedTable (templates : Templates Gate) (pipeline : StreamingPipeline)
    (req : PromotionRequest Gate) (tableName executionId : String)
    (completedAt createdAt refreshedAt : Instant) :
    ExecutableTable Gate where
  tableName := tableName
  transform := {
    transformType := "streaming_cdc"
    sourceCode := promotedSource pipeline tableName req.transformSql
    sourceHash := hashSource (promotedSource pipeline tableName req.transformSql)
    binaryCached := false }
  qualityGates := req.qualityGates.getD templates.defaultCdcGates
  inputTables := promotedInputs pipeline
  health := if pipeline.status = "running" then "healthy" else "warning"
  history := if 0 < pipeline.eventsProcessed then [{
      executionId := executionId
      startedAt := templates.toRfc3339 pipeline.createdAt
      completedAt := some (templates.toRfc3339 completedAt)
      durationMs := 0
      status := "success"
      rowsProduced := some pipeline.eventsProcessed
      bytesWritten := none
      binaryCached := false
      compileMs := 0
      runMs := 0
      error := none
      executionLocation := "streaming"
      version := 1 }]
    else []
  versions := [{
    version := 1
    sourceCode := "streaming_cdc:" ++ req.pipelineId
    sourceHash := hashSource (promotedSource pipeline tableName req.transformSql)
    createdAt := templates.toRfc3339 createdAt
    createdBy := "pipeline-promotion"
    changeDescription := "Created from streaming pipeline '" ++ pipeline.name ++ "'"
    binarySizeBytes := none
    snapshotIds := [] }]
  lastRefresh :=
    if 0 < pipeline.eventsProcessed then some (templates.toRfc3339 refreshedAt) else none
  totalExecutions := if 0 < pipeline.eventsProcessed then 1 else 0
  incremental := true
  watermarkColumn := some "timestamp"
  lastWatermark := none
  executionsSkipped := 0
  autoRefresh := true
  refreshIntervalSeconds := 0

def promotedName (pipeline : StreamingPipeline) (req : PromotionRequest Gate) : String :=
  if req.name = "" then "glacier_" ++ sanitized pipeline.name else req.name

def createGlacierFromPipeline (templates : Templates Gate) (req : PromotionRequest Gate) :
    Creation Gate Batch CreationReply :=
  if req.pipelineId = "" then pure (.error (400, "pipeline_id is required"))
  else do
    let pipeline ← .read fun s => pure (s.pipelines.find? fun p => p.id = req.pipelineId)
    match pipeline with
    | none => pure (.error (404, "Pipeline '" ++ req.pipelineId ++ "' not found"))
    | some pipeline => do
      let tableName := promotedName pipeline req
      let exists' ← .read fun s =>
        pure (s.app.executableTables.any fun t => t.tableName = tableName)
      if exists' then pure (.error (409, "Glacier '" ++ tableName ++ "' already exists"))
      else do
        let executionId ← .ask .uuid .done
        let completedAt ← askNow
        let createdAt ← askNow
        let refreshedAt ← askNow
        .write (pushTable (promotedTable templates pipeline req tableName executionId completedAt
          createdAt refreshedAt)) (pure (.ok tableName))

/-- A packaged table without what it has been through. -/
def cleanInstall (t : ExecutableTable Gate) : ExecutableTable Gate :=
  { t with
    history := []
    totalExecutions := 0
    lastRefresh := none
    health := "healthy"
    versions := t.versions.map fun v => { v with snapshotIds := [] } }

def countInstall (name : String) (s : Lakehouse Gate) : Lakehouse Gate :=
  { s with packages := s.packages.replaceF fun p =>
      if p.name = name then some { p with installCount := p.installCount + 1 } else none }

def findPackage (packages : List (MarketplacePackage Gate)) :
    Option String → Option String → Option (MarketplacePackage Gate)
  | some id, _ => packages.find? fun p => p.id = id
  | none, some name => packages.find? fun p => p.name = name
  | none, none => none

def installFromMarketplace (packageId packageName : Option String) :
    Creation Gate Batch CreationReply := do
  let package ← .read fun s => pure (findPackage s.packages packageId packageName)
  match package with
  | none => pure (.error (404, "Package not found"))
  | some package => do
    let table := cleanInstall package.tableDefinition
    let exists' ← .read fun s =>
      pure (s.app.executableTables.any fun t => t.tableName = table.tableName)
    let installedName := if exists' then table.tableName ++ "_installed" else table.tableName
    .write (pushTable { table with tableName := installedName })
      (.write (countInstall package.name) (pure (.ok installedName)))

def handleCreation (templates : Templates Gate) :
    CreationRequest Gate → Creation Gate Batch CreationReply
  | .create table schedule => createExecutableTable table schedule
  | .convert req => convertSqlToGlacier templates req
  | .promote req => createGlacierFromPipeline templates req
  | .install packageId packageName => installFromMarketplace packageId packageName

end RustLake.Scheduler
