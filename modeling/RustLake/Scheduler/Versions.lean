import RustLake.Scheduler.Tick
import RustLake.Persistence.JsonLines

/-! The versions of an executable table: updates of its code, and rollbacks to an earlier version. -/
namespace RustLake.Scheduler

def hexDigits (n : ℕ) : ℕ → List Char
  | 0 => []
  | digits + 1 => hexDigits (n / 16) digits ++ [(n % 16).digitChar]

/-- The FNV-1a hash of the bytes, with sixteen hexadecimal digits. -/
def hashSource (code : String) : String :=
  let hash := (code.toList.flatMap String.utf8EncodeChar).foldl
    (fun (hash : UInt64) byte => (hash ^^^ byte.toUInt64) * 0x100000001b3) 0xcbf29ce484222325
  String.ofList (hexDigits hash.toNat 16)

structure DiffLine where
  lineNumber : ℕ
  changeType : String
  content : String
deriving DecidableEq

structure Diff where
  lines : List DiffLine
  added : ℕ
  removed : ℕ
  changed : ℕ

/-- The two texts line by line, from the line with the number `n`. -/
def diffLines (n : ℕ) : List String → List String → Diff
  | [], [] => ⟨[], 0, 0, 0⟩
  | old :: olds, new :: news =>
    let rest := diffLines (n + 1) olds news
    if old = new then { rest with lines := ⟨n, "unchanged", old⟩ :: rest.lines }
    else
      { rest with
        lines := ⟨n, "removed", old⟩ :: ⟨n, "added", new⟩ :: rest.lines
        changed := rest.changed + 1 }
  | old :: olds, [] =>
    let rest := diffLines (n + 1) olds []
    { rest with lines := ⟨n, "removed", old⟩ :: rest.lines, removed := rest.removed + 1 }
  | [], new :: news =>
    let rest := diffLines (n + 1) [] news
    { rest with lines := ⟨n, "added", new⟩ :: rest.lines, added := rest.added + 1 }

def diffTransforms (oldSource newSource : String) : Diff :=
  diffLines 1 (Persistence.lines oldSource) (Persistence.lines newSource)

structure UpdateTransformRequest where
  sourceCode : String
  changeDescription : Option String

/-- What the handlers take from fields of a table that the scheduler does not use. -/
structure Unscheduled where
  createdAt : String
  binarySize : Option UInt64

inductive VersionReply where
  | unchanged
  | updated (version : UInt32) (changeDescription fromHash toHash : String) (diff : Diff)
  | rolledBack (rolledBackTo newVersion : UInt32) (restoredHash : String) (diff : Diff)

variable {Gate : Type}

/-- The description of an update that comes without one. -/
def codeUpdate (diff : Diff) : String :=
  "Code update: +" ++ diff.added.repr ++ " -" ++ diff.removed.repr ++ " ~" ++ diff.changed.repr ++
    " lines"

/-- The versions, which begin with the code that the table was created with. -/
def recordedVersions (other : Unscheduled) (t : ExecutableTable Gate) : List TransformVersion :=
  if t.versions.isEmpty then
    [{ version := 1
       sourceCode := t.transform.sourceCode
       sourceHash := t.transform.sourceHash
       createdAt := other.createdAt
       createdBy := "user"
       changeDescription := "Initial transform"
       binarySizeBytes := other.binarySize
       snapshotIds := (List.range t.history.length).map fun i => Int64.ofNat (i + 1) }]
  else t.versions

/-- The version that an update adds. -/
def updateVersion (at' : String) (other : Unscheduled) (req : UpdateTransformRequest)
    (t : ExecutableTable Gate) : TransformVersion where
  version := if t.versions.isEmpty then 2 else maxVersion t + 1
  sourceCode := req.sourceCode
  sourceHash := hashSource req.sourceCode
  createdAt := at'
  createdBy := "user"
  changeDescription := req.changeDescription.getD
    (codeUpdate (diffTransforms t.transform.sourceCode req.sourceCode))
  binarySizeBytes := other.binarySize
  snapshotIds := []

/-- A version becomes the last one and the code of the table. -/
def installed (versions : List TransformVersion) (v : TransformVersion)
    (t : ExecutableTable Gate) : ExecutableTable Gate :=
  { t with
    versions := versions ++ [v]
    transform := { t.transform with
      sourceCode := v.sourceCode
      sourceHash := v.sourceHash
      binaryCached := false } }

def updated (at' : String) (other : Unscheduled) (req : UpdateTransformRequest)
    (t : ExecutableTable Gate) : ExecutableTable Gate :=
  if t.transform.sourceHash = hashSource req.sourceCode then t
  else installed (recordedVersions other t) (updateVersion at' other req t) t

def notFound (name : String) : ℕ × String := (404, "Executable table '" ++ name ++ "' not found")

def updateExecutableTable (at' : String) (other : ExecutableTable Gate → Unscheduled)
    (name : String) (req : UpdateTransformRequest) (state : AppState Gate) :
    Except (ℕ × String) VersionReply × AppState Gate :=
  match findTable state.executableTables name with
  | none => (.error (notFound name), state)
  | some t =>
    let v := updateVersion at' (other t) req t
    let diff := diffTransforms t.transform.sourceCode req.sourceCode
    let reply : VersionReply := if t.transform.sourceHash = v.sourceHash then .unchanged
      else .updated v.version v.changeDescription t.transform.sourceHash v.sourceHash diff
    (.ok reply, updateTable name (fun t => updated at' (other t) req t) state)

/-- The version that a rollback adds: the target again. -/
def rollbackVersion (at' : String) (target : TransformVersion) (t : ExecutableTable Gate) :
    TransformVersion where
  version := maxVersion t + 1
  sourceCode := target.sourceCode
  sourceHash := target.sourceHash
  createdAt := at'
  createdBy := "user"
  changeDescription := "Rollback to version " ++ toString target.version
  binarySizeBytes := target.binarySizeBytes
  snapshotIds := []

def rollbackExecutableTable (at' : String) (name : String) (version : UInt32)
    (state : AppState Gate) : Except (ℕ × String) VersionReply × AppState Gate :=
  match findTable state.executableTables name with
  | none => (.error (notFound name), state)
  | some t =>
    if t.versions.isEmpty then
      (.error (400, "No version history available. Update the table at least once before " ++
        "rolling back."), state)
    else
      match t.versions.find? fun v => v.version = version with
      | none => (.error (404, "Version " ++ toString version ++ " not found"), state)
      | some target =>
        let v := rollbackVersion at' target t
        let diff := diffTransforms t.transform.sourceCode target.sourceCode
        (.ok (.rolledBack version v.version v.sourceHash diff),
          updateTable name (fun t => installed t.versions (rollbackVersion at' target t) t) state)

end RustLake.Scheduler
