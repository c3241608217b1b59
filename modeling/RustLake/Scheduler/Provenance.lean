import RustLake.Scheduler.Names

/-! Executions of an executable table by request: the version and the code that they read, and what
they record at the end. -/
namespace RustLake.Scheduler

variable {Gate : Type}

/-- The version and the code that an execution has read. -/
structure Reading where
  tableName : String
  version : UInt32
  sourceCode : String
deriving DecidableEq

/-- How an execution has ended. The time of a commit is 0 when nothing has been committed. -/
structure Ended where
  executionId : String
  startedAt : String
  completedAt : String
  refreshedAt : String
  durationMs : UInt64
  status : String
  rowsProduced : Option UInt64
  bytesWritten : Option UInt64
  binaryCached : Bool
  compileMs : UInt64
  runMs : UInt64
  error : Option String
  s3SnapshotId : Int64

/-- What `execute_executable_table` reads. -/
def readCurrent (name : String) (state : AppState Gate) : Option Reading :=
  (findTable state.executableTables name).map fun t =>
    ⟨name, maxVersion t, t.transform.sourceCode⟩

/-- What `execute_version` reads. -/
def readVersion (name : String) (version : UInt32) (state : AppState Gate) : Option Reading := do
  let t ← findTable state.executableTables name
  let v ← t.versions.find? fun v => v.version = version
  return ⟨name, v.version, v.sourceCode⟩

def Ended.record (e : Ended) (version : UInt32) : ExecutionRecord where
  executionId := e.executionId
  startedAt := e.startedAt
  completedAt := some e.completedAt
  durationMs := e.durationMs
  status := e.status
  rowsProduced := e.rowsProduced
  bytesWritten := e.bytesWritten
  binaryCached := e.binaryCached
  compileMs := e.compileMs
  runMs := e.runMs
  error := e.error
  executionLocation := "local"
  version := version

/-- Link the snapshot to the version. -/
def linkSnapshot (version : UInt32) (snapshotId : Int64) (versions : List TransformVersion) :
    List TransformVersion :=
  if snapshotId = 0 then versions
  else versions.replaceF fun v =>
    if v.version = version then some { v with snapshotIds := v.snapshotIds ++ [snapshotId] }
    else none

/-- What both kinds of executions record. -/
def counted (e : Ended) (version : UInt32) (t : ExecutableTable Gate) : ExecutableTable Gate :=
  { t with
    history := t.history ++ [e.record version]
    totalExecutions := t.totalExecutions + 1
    versions := linkSnapshot version e.s3SnapshotId t.versions }

/-- The end of `execute_executable_table`. -/
def executed (e : Ended) (version : UInt32) (t : ExecutableTable Gate) : ExecutableTable Gate :=
  { counted e version t with
    lastRefresh := if e.status = "success" then some e.refreshedAt else t.lastRefresh
    health := if e.status = "success" then "healthy" else "critical" }

theorem map_linkSnapshot {β : Type} (f : TransformVersion → β)
    (hf : ∀ v ids, f { v with snapshotIds := ids } = f v) (version : UInt32) (snapshotId : Int64)
    (versions : List TransformVersion) :
    (linkSnapshot version snapshotId versions).map f = versions.map f := by
  unfold linkSnapshot
  split
  · rfl
  · induction versions with
    | nil => rfl
    | cons v rest ih =>
      by_cases hv : v.version = version
      · rw [List.replaceF, if_pos hv]
        exact congrArg (· :: rest.map f) (hf v _)
      · rw [List.replaceF, if_neg hv, List.map_cons, List.map_cons, ih]

end RustLake.Scheduler

/-! Which code each version of an executable table stands for, and what changes of the code and
executions do to it. -/
namespace RustLake.Scheduler

variable {Gate : Type}

/-- The code of each version, by its number. As long as no version is stored, the code of the table
counts as version 1. -/
def versionCodes (t : ExecutableTable Gate) : List (UInt32 × String) :=
  if t.versions = [] then [(1, t.transform.sourceCode)]
  else t.versions.map fun v => (v.version, v.sourceCode)

/-- The numbers of the versions increase, and the last one has the code of the table. -/
structure Provenance (t : ExecutableTable Gate) : Prop where
  increasing : ((versionCodes t).map Prod.fst).Pairwise (· < ·)
  current : ∃ older last, versionCodes t = older ++ [(last, t.transform.sourceCode)]

inductive ExecutionKind where
  | current | version
deriving DecidableEq

/-- The tables, the executions under way with what they have read, the ticks that have read a version
to go back to, and what the executions that are recorded have run. -/
structure Audit (Gate : Type) where
  state : AppState Gate
  reading : List (ExecutionKind × Reading)
  healing : List (String × TransformVersion)
  ran : List Reading

/-- What is done to the tables: an execution reads and, later, is recorded; a tick reads and, later,
rolls back. -/
inductive AuditStep (Gate : Type) where
  | create (t : ExecutableTable Gate)
  | update (at' : String) (other : ExecutableTable Gate → Unscheduled) (name : String)
      (req : UpdateTransformRequest)
  | rollback (at' name : String) (version : UInt32)
  | execute (name : String)
  | executeVersion (name : String) (version : UInt32)
  | record (i : ℕ) (e : Ended)
  | tick (name : String)
  | heal (i : ℕ) (createdAt : String)

/-- The end of an execution of either kind. -/
def recordedBy (e : Ended) (version : UInt32) :
    ExecutionKind → ExecutableTable Gate → ExecutableTable Gate
  | .current => executed e version
  | .version => counted e version

def Audit.step (s : Audit Gate) : AuditStep Gate → Option (Audit Gate)
  | .create t => some { s with state := { s.state with
      executableTables := s.state.executableTables ++ [t] } }
  | .update at' other name req =>
    some { s with state := (updateExecutableTable at' other name req s.state).2 }
  | .rollback at' name version =>
    some { s with state := (rollbackExecutableTable at' name version s.state).2 }
  | .execute name => (readCurrent name s.state).map fun r =>
      { s with reading := s.reading ++ [(.current, r)] }
  | .executeVersion name version => (readVersion name version s.state).map fun r =>
      { s with reading := s.reading ++ [(.version, r)] }
  | .record i e => s.reading[i]?.map fun (kind, r) => { s with
      state := updateTable r.tableName (recordedBy e r.version kind) s.state
      reading := s.reading.eraseIdx i
      ran := s.ran ++ [r] }
  | .tick name => do
    let t ← findTable s.state.executableTables name
    let prev ← prevVersion t
    return { s with healing := s.healing ++ [(name, prev)] }
  | .heal i createdAt => s.healing[i]?.map fun (name, prev) => { s with
      state := updateTable name (rolledBack createdAt prev) s.state
      healing := s.healing.eraseIdx i }

/-- The table that a step may add a version to. -/
def Audit.target (s : Audit Gate) : AuditStep Gate → Option String
  | .update _ _ name _ => some name
  | .rollback _ name _ => some name
  | .heal i _ => s.healing[i]?.map Prod.fst
  | _ => none

/-- When a step may add a version to the table, there is a number for it. -/
def HasRoom (name : String) (s : Audit Gate) (step : AuditStep Gate) : Prop :=
  s.target step = some name → ∀ t, findTable s.state.executableTables name = some t →
    (maxVersion t).toNat + 1 < 2 ^ 32

/-- Whenever the table is looked at in a run and later again, it has kept its versions and their
code, the numbers increase, the last one has the code of the table, and each record of an execution
that ended in the run names the version that has the code which has been run. -/
def KeepsCode (name : String) (t₀ : ExecutableTable Gate) (s : Audit Gate)
    (steps : List (AuditStep Gate)) : Prop :=
  ∀ first later s₁ s₂, first ++ later <+: steps → Run.run Audit.step s first = some s₁ →
    Run.run Audit.step s₁ later = some s₂ →
    ∃ t₁ t₂, findTable s₁.state.executableTables name = some t₁ ∧
      findTable s₂.state.executableTables name = some t₂ ∧
      versionCodes t₁ <+: versionCodes t₂ ∧ Provenance t₂ ∧
      t₂.history.map (·.version) = t₀.history.map (·.version) ++
        (s₂.ran.filter fun r => r.tableName = name).map (·.version) ∧
      ∀ r ∈ s₂.ran, r.tableName = name → (r.version, r.sourceCode) ∈ versionCodes t₂

section Codes
variable {t : ExecutableTable Gate} {v : TransformVersion}

theorem versionCodes_of_nil (h : t.versions = []) :
    versionCodes t = [(1, t.transform.sourceCode)] := if_pos h

theorem versionCodes_of_ne_nil (h : t.versions ≠ []) :
    versionCodes t = t.versions.map fun v => (v.version, v.sourceCode) := if_neg h

theorem versionCodes_congr {t' : ExecutableTable Gate}
    (hcodes : (t'.versions.map fun v => (v.version, v.sourceCode)) =
      t.versions.map fun v => (v.version, v.sourceCode))
    (hsource : t'.transform.sourceCode = t.transform.sourceCode) :
    versionCodes t' = versionCodes t := by
  have hempty : t'.versions = [] ↔ t.versions = [] := by
    rw [← List.map_eq_nil_iff, hcodes, List.map_eq_nil_iff]
  unfold versionCodes
  rw [hcodes, hsource]
  by_cases h : t.versions = []
  · rw [if_pos h, if_pos (hempty.mpr h)]
  · rw [if_neg h, if_neg (mt hempty.mp h)]

theorem le_maxVersion (hv : v ∈ t.versions) : v.version ≤ maxVersion t := by
  unfold maxVersion
  cases hmax : (t.versions.map (·.version)).max? with
  | none =>
    have hnil : t.versions.map (·.version) = [] := List.max?_eq_none_iff.mp hmax
    have hmem : v.version ∈ t.versions.map (·.version) := List.mem_map_of_mem hv
    rw [hnil] at hmem
    cases hmem
  | some m => exact (List.max?_eq_some_iff.mp hmax).2 _ (List.mem_map_of_mem hv)

theorem le_maxVersion_of_codes {entry : UInt32 × String} (h : entry ∈ versionCodes t) :
    entry.1 ≤ maxVersion t := by
  by_cases hnil : t.versions = []
  · rw [versionCodes_of_nil hnil, List.mem_singleton] at h
    have hmax : maxVersion t = 1 := by simp [maxVersion, hnil]
    rw [h, hmax]
    exact UInt32.le_refl 1
  · rw [versionCodes_of_ne_nil hnil, List.mem_map] at h
    obtain ⟨v, hv, rfl⟩ := h
    exact le_maxVersion hv

theorem maxVersion_mem_codes : maxVersion t ∈ (versionCodes t).map Prod.fst := by
  by_cases hnil : t.versions = []
  · have hmax : maxVersion t = 1 := by simp [maxVersion, hnil]
    rw [versionCodes_of_nil hnil, hmax]
    exact List.mem_singleton_self _
  · rw [versionCodes_of_ne_nil hnil, List.map_map]
    unfold maxVersion
    cases hmax : (t.versions.map (·.version)).max? with
    | none => exact absurd (List.map_eq_nil_iff.mp (List.max?_eq_none_iff.mp hmax)) hnil
    | some m => exact (List.max?_eq_some_iff.mp hmax).1

/-- The current code is that of the version with the highest number. -/
theorem Provenance.current_mem (h : Provenance t) :
    (maxVersion t, t.transform.sourceCode) ∈ versionCodes t := by
  obtain ⟨older, last, hcodes⟩ := h.current
  have hlast : (last, t.transform.sourceCode) ∈ versionCodes t := by
    rw [hcodes]
    exact List.mem_append_right _ (List.mem_singleton_self _)
  have hmax := maxVersion_mem_codes (t := t)
  have hincreasing := h.increasing
  rw [hcodes, List.map_append, List.pairwise_append] at hincreasing
  rw [hcodes, List.map_append, List.mem_append] at hmax
  rcases hmax with hold | hnew
  · have hlt := hincreasing.2.2 _ hold last (List.mem_singleton_self _)
    have hle : last ≤ maxVersion t := le_maxVersion_of_codes hlast
    exact absurd hle (UInt32.not_le.mpr hlt)
  · rw [List.mem_singleton.mp hnew]
    exact hlast

theorem Provenance.last (h : Provenance t) :
    (versionCodes t).getLast?.map Prod.snd = some t.transform.sourceCode := by
  obtain ⟨older, last, hcodes⟩ := h.current
  simp [hcodes]

/-- A version that is added behind those that are stored. -/
theorem Provenance.added (h : Provenance t) {t' : ExecutableTable Gate}
    (hcodes : versionCodes t' = versionCodes t ++ [(maxVersion t + 1, t'.transform.sourceCode)])
    (hroom : (maxVersion t).toNat + 1 < 2 ^ 32) : Provenance t' := by
  refine ⟨?_, versionCodes t, _, hcodes⟩
  rw [hcodes, List.map_append, List.pairwise_append]
  refine ⟨h.increasing, List.pairwise_singleton _ _, ?_⟩
  intro n hn m hm
  obtain ⟨entry, hentry, rfl⟩ := List.mem_map.mp hn
  have hle := UInt32.le_iff_toNat_le.mp (le_maxVersion_of_codes hentry)
  rw [List.mem_singleton.mp hm, UInt32.lt_iff_toNat_lt, UInt32.toNat_add]
  have hone : (1 : UInt32).toNat = 1 := rfl
  omega

theorem versionCodes_installed (hnil : t.versions ≠ []) (v : TransformVersion) :
    versionCodes (installed t.versions v t) = versionCodes t ++ [(v.version, v.sourceCode)] := by
  have hsome : (installed t.versions v t).versions ≠ [] := by simp [installed]
  rw [versionCodes_of_ne_nil hsome, versionCodes_of_ne_nil hnil]
  exact List.map_append

theorem versionCodes_rolledBack (hnil : t.versions ≠ []) (createdAt : String)
    (prev : TransformVersion) : versionCodes (rolledBack createdAt prev t) =
      versionCodes t ++ [(maxVersion t + 1, prev.sourceCode)] := by
  have hsome : (rolledBack createdAt prev t).versions ≠ [] := by simp [rolledBack]
  rw [versionCodes_of_ne_nil hsome, versionCodes_of_ne_nil hnil]
  exact List.map_append

theorem versionCodes_recordedBy (e : Ended) (version : UInt32) (kind : ExecutionKind) :
    versionCodes (recordedBy e version kind t) = versionCodes t := by
  have hlink := map_linkSnapshot (fun v => (v.version, v.sourceCode)) (fun _ _ => rfl) version
    e.s3SnapshotId t.versions
  cases kind with
  | current => exact versionCodes_congr hlink rfl
  | version => exact versionCodes_congr hlink rfl

/-- An update either changes nothing, or adds a version with the code of the request. -/
theorem versionCodes_updated (at' : String) (other : Unscheduled) (req : UpdateTransformRequest) :
    updated at' other req t = t ∨ (updated at' other req t).transform.sourceCode = req.sourceCode ∧
      versionCodes (updated at' other req t) =
        versionCodes t ++ [(maxVersion t + 1, req.sourceCode)] := by
  unfold updated
  split
  · exact Or.inl rfl
  · right
    refine ⟨rfl, ?_⟩
    by_cases hnil : t.versions = []
    · have hmax : maxVersion t = 1 := by simp [maxVersion, hnil]
      rw [versionCodes_of_nil hnil, hmax]
      simp [versionCodes, installed, recordedVersions, updateVersion, hnil]
    · have hrecorded : recordedVersions other t = t.versions := by
        simp [recordedVersions, hnil]
      have hnumber : (updateVersion at' other req t).version = maxVersion t + 1 := by
        simp [updateVersion, hnil]
      rw [hrecorded, versionCodes_installed hnil, hnumber]
      rfl

/-- What a step makes of a table whose versions stand for its code. -/
structure Successor (t t' : ExecutableTable Gate) : Prop where
  provenance : Provenance t'
  keeps : versionCodes t <+: versionCodes t'
  nonempty : t.versions ≠ [] → t'.versions ≠ []

theorem Provenance.refl (h : Provenance t) : Successor t t := ⟨h, List.prefix_rfl, id⟩

theorem Provenance.congr (h : Provenance t) {t' : ExecutableTable Gate}
    (hcodes : versionCodes t' = versionCodes t)
    (hsource : t'.transform.sourceCode = t.transform.sourceCode) : Provenance t' := by
  obtain ⟨hincreasing, hcurrent⟩ := h
  rw [← hcodes] at hincreasing hcurrent
  rw [← hsource] at hcurrent
  exact ⟨hincreasing, hcurrent⟩

theorem Provenance.updated (h : Provenance t) (hroom : (maxVersion t).toNat + 1 < 2 ^ 32)
    (at' : String) (other : Unscheduled) (req : UpdateTransformRequest) :
    Successor t (updated at' other req t) := by
  rcases versionCodes_updated (t := t) at' other req with hsame | ⟨hsource, hcodes⟩
  · rw [hsame]
    exact h.refl
  · have hadded := hcodes
    rw [← hsource] at hadded
    refine ⟨h.added hadded hroom, ?_, fun hsome hnil => ?_⟩
    · rw [hcodes]
      exact List.prefix_append _ _
    · have hlength := congrArg List.length hcodes
      rw [versionCodes_of_nil hnil, versionCodes_of_ne_nil hsome, List.length_append,
        List.length_map, List.length_singleton, List.length_singleton] at hlength
      have hpos := List.length_pos_iff.mpr hsome
      omega

theorem Provenance.rolledBack (h : Provenance t) (hroom : (maxVersion t).toNat + 1 < 2 ^ 32)
    (hsome : t.versions ≠ []) (createdAt : String) (prev : TransformVersion) :
    Successor t (rolledBack createdAt prev t) := by
  have hcodes := versionCodes_rolledBack hsome createdAt prev
  refine ⟨h.added hcodes hroom, ?_, fun _ => List.append_ne_nil_of_right_ne_nil _ (by simp)⟩
  rw [hcodes]
  exact List.prefix_append _ _

theorem Provenance.installed (h : Provenance t) (hroom : (maxVersion t).toNat + 1 < 2 ^ 32)
    (hsome : t.versions ≠ []) (at' : String) (target : TransformVersion) :
    Successor t (installed t.versions (rollbackVersion at' target t) t) := by
  have hcodes := versionCodes_installed hsome (rollbackVersion at' target t)
  refine ⟨h.added hcodes hroom, ?_, fun _ => List.append_ne_nil_of_right_ne_nil _ (by simp)⟩
  rw [hcodes]
  exact List.prefix_append _ _

theorem Provenance.recordedBy (h : Provenance t) (e : Ended) (version : UInt32)
    (kind : ExecutionKind) : Successor t (recordedBy e version kind t) := by
  have hcodes := versionCodes_recordedBy (t := t) e version kind
  have hsource : (Scheduler.recordedBy e version kind t).transform.sourceCode =
      t.transform.sourceCode := by cases kind <;> rfl
  refine ⟨h.congr hcodes hsource, hcodes ▸ List.prefix_rfl, fun hsome hnil => hsome ?_⟩
  have hlink := map_linkSnapshot TransformVersion.version (fun _ _ => rfl) version e.s3SnapshotId
    t.versions
  have hversions : (Scheduler.recordedBy e version kind t).versions =
      linkSnapshot version e.s3SnapshotId t.versions := by cases kind <;> rfl
  rw [← hversions, hnil] at hlink
  exact List.map_eq_nil_iff.mp hlink.symm

/-- A table that is created without versions. -/
theorem provenance_of_nil (h : t.versions = []) : Provenance t := by
  have hcodes := versionCodes_of_nil h
  constructor
  · rw [hcodes]
    exact List.pairwise_singleton _ _
  · exact ⟨[], 1, hcodes⟩

end Codes

section Frames
variable {name other : String} {tables : List (ExecutableTable Gate)}

theorem findTable_updateTable_of_ne (hne : other ≠ name)
    (f : ExecutableTable Gate → ExecutableTable Gate) (hname : ∀ t, (f t).tableName = t.tableName)
    (state : AppState Gate) : findTable (updateTable other f state).executableTables name =
      findTable state.executableTables name := by
  unfold findTable updateTable
  dsimp only
  induction state.executableTables with
  | nil => rfl
  | cons t rest ih =>
    by_cases ht : t.tableName = other
    · have hother : t.tableName ≠ name := ht ▸ hne
      simp [ht, hname, hne]
    · simp only [List.replaceF, if_neg ht, List.find?_cons]
      rw [ih]

theorem findTable_append {t : ExecutableTable Gate} (h : findTable tables name = some t)
    (later : List (ExecutableTable Gate)) : findTable (tables ++ later) name = some t := by
  unfold findTable at h ⊢
  rw [List.find?_append, h, Option.some_or]

end Frames

section Steps
variable {name : String} {past : List UInt32} {t t' : ExecutableTable Gate} {s s' : Audit Gate}

/-- The table of a name, with what executions and ticks have read of it and what was recorded. -/
structure Traced (name : String) (past : List UInt32) (t : ExecutableTable Gate)
    (s : Audit Gate) : Prop where
  found : findTable s.state.executableTables name = some t
  provenance : Provenance t
  reading : ∀ p ∈ s.reading, p.2.tableName = name → (p.2.version, p.2.sourceCode) ∈ versionCodes t
  healing : ∀ p ∈ s.healing, p.1 = name → t.versions ≠ []
  ran : ∀ r ∈ s.ran, r.tableName = name → (r.version, r.sourceCode) ∈ versionCodes t
  history : t.history.map (·.version) =
    past ++ (s.ran.filter fun r => r.tableName = name).map (·.version)

/-- The table is changed, but not what it has executed. -/
theorem Traced.replaced (h : Traced name past t s) (hsucc : Successor t t')
    (hhistory : t'.history = t.history) {state : AppState Gate}
    (hfound : findTable state.executableTables name = some t') :
    Traced name past t' { s with state := state } where
  found := hfound
  provenance := hsucc.provenance
  reading p hp hname := hsucc.keeps.subset (h.reading p hp hname)
  healing p hp hname := hsucc.nonempty (h.healing p hp hname)
  ran r hr hname := hsucc.keeps.subset (h.ran r hr hname)
  history := hhistory ▸ h.history

/-- A section that changes the first table of some name. -/
theorem Traced.updateTable (h : Traced name past t s) {other : String}
    {f : ExecutableTable Gate → ExecutableTable Gate} (hname : ∀ t, (f t).tableName = t.tableName)
    (hhistory : ∀ t, (f t).history = t.history) (hsucc : other = name → Successor t (f t)) :
    ∃ t', Traced name past t' { s with state := updateTable other f s.state } ∧
      Successor t t' := by
  by_cases hother : other = name
  · refine ⟨f t, h.replaced (hsucc hother) (hhistory t) ?_, hsucc hother⟩
    rw [hother, findTable_updateTable name f hname, h.found]
    rfl
  · refine ⟨t, h.replaced h.provenance.refl rfl ?_, h.provenance.refl⟩
    rw [findTable_updateTable_of_ne hother f hname]
    exact h.found

/-- An execution of either kind has read a version and its code. -/
theorem Traced.begun (h : Traced name past t s) {kind : ExecutionKind} {r : Reading}
    (hr : r.tableName = name → (r.version, r.sourceCode) ∈ versionCodes t) :
    Traced name past t { s with reading := s.reading ++ [(kind, r)] } where
  found := h.found
  provenance := h.provenance
  reading p hp hname := by
    rcases List.mem_append.mp hp with hold | hnew
    · exact h.reading p hold hname
    · rw [List.mem_singleton.mp hnew] at hname ⊢
      exact hr hname
  healing := h.healing
  ran := h.ran
  history := h.history

theorem readCurrent_code {r : Reading} (h : Traced name past t s) {other : String}
    (hr : readCurrent other s.state = some r) (hname : r.tableName = name) :
    (r.version, r.sourceCode) ∈ versionCodes t := by
  obtain ⟨u, hu, rfl⟩ := Option.map_eq_some_iff.mp hr
  have hother : other = name := hname
  rw [hother, h.found] at hu
  cases hu
  exact h.provenance.current_mem

theorem readVersion_code {r : Reading} (h : Traced name past t s) {other : String}
    {version : UInt32} (hr : readVersion other version s.state = some r)
    (hname : r.tableName = name) : (r.version, r.sourceCode) ∈ versionCodes t := by
  obtain ⟨u, hu, hr⟩ := Option.bind_eq_some_iff.mp hr
  obtain ⟨v, hv, hr⟩ := Option.bind_eq_some_iff.mp hr
  cases hr
  have hother : other = name := hname
  rw [hother, h.found] at hu
  cases hu
  have hmem := List.mem_of_find?_eq_some hv
  rw [versionCodes_of_ne_nil (List.ne_nil_of_mem hmem)]
  exact List.mem_map_of_mem hmem

theorem tableName_recordedBy (e : Ended) (version : UInt32) (kind : ExecutionKind)
    (t : ExecutableTable Gate) : (recordedBy e version kind t).tableName = t.tableName := by
  cases kind <;> rfl

theorem history_recordedBy (e : Ended) (version : UInt32) (kind : ExecutionKind)
    (t : ExecutableTable Gate) :
    (recordedBy e version kind t).history = t.history ++ [e.record version] := by
  cases kind <;> rfl

/-- An execution ends and is recorded with the version that it has read. -/
theorem Traced.recorded (h : Traced name past t s) {i : ℕ} {kind : ExecutionKind} {r : Reading}
    (hr : s.reading[i]? = some (kind, r)) (e : Ended) :
    ∃ t', Traced name past t' { s with
      state := Scheduler.updateTable r.tableName (recordedBy e r.version kind) s.state
      reading := s.reading.eraseIdx i
      ran := s.ran ++ [r] } ∧ Successor t t' := by
  have hread := h.reading _ (List.mem_of_getElem? hr)
  have hnames : ∀ u : ExecutableTable Gate,
      (Scheduler.recordedBy e r.version kind u).tableName = u.tableName :=
    tableName_recordedBy e r.version kind
  by_cases hname : r.tableName = name
  · have hcodes := versionCodes_recordedBy (t := t) e r.version kind
    have hsucc := h.provenance.recordedBy e r.version kind
    refine ⟨recordedBy e r.version kind t, ?_, hsucc⟩
    constructor
    · rw [hname, findTable_updateTable name _ hnames, h.found]
      rfl
    · exact hsucc.provenance
    · intro p hp hp'
      exact hsucc.keeps.subset (h.reading p (List.mem_of_mem_eraseIdx hp) hp')
    · intro p hp hp'
      exact hsucc.nonempty (h.healing p hp hp')
    · intro r' hr' hname'
      rw [hcodes]
      rcases List.mem_append.mp hr' with hold | hnew
      · exact h.ran r' hold hname'
      · rw [List.mem_singleton.mp hnew]
        exact hread hname
    · rw [history_recordedBy, List.map_append, h.history, List.filter_append,
        List.filter_cons_of_pos (by simpa using hname), List.filter_nil, List.map_append,
        List.append_assoc]
      rfl
  · refine ⟨t, ?_, h.provenance.refl⟩
    constructor
    · rw [findTable_updateTable_of_ne hname _ hnames]
      exact h.found
    · exact h.provenance
    · exact fun p hp => h.reading p (List.mem_of_mem_eraseIdx hp)
    · exact h.healing
    · intro r' hr' hname'
      rcases List.mem_append.mp hr' with hold | hnew
      · exact h.ran r' hold hname'
      · rw [List.mem_singleton.mp hnew] at hname'
        exact absurd hname' hname
    · rw [List.filter_append, List.filter_cons_of_neg (by simpa using hname), List.filter_nil,
        List.append_nil]
      exact h.history

/-- A tick that has read a version to go back to has read it in a list of versions. -/
theorem Traced.ticked (h : Traced name past t s) {other : String} {u : ExecutableTable Gate}
    {prev : TransformVersion} (hu : findTable s.state.executableTables other = some u)
    (hprev : prevVersion u = some prev) :
    Traced name past t { s with healing := s.healing ++ [(other, prev)] } where
  found := h.found
  provenance := h.provenance
  reading := h.reading
  healing p hp hname := by
    rcases List.mem_append.mp hp with hold | hnew
    · exact h.healing p hold hname
    · rw [List.mem_singleton.mp hnew] at hname
      have hother : other = name := hname
      rw [hother, h.found] at hu
      cases hu
      intro hnil
      simp [prevVersion, hnil] at hprev
  ran := h.ran
  history := h.history

theorem Traced.healed (h : Traced name past t s) (i : ℕ) :
    Traced name past t { s with healing := s.healing.eraseIdx i } where
  found := h.found
  provenance := h.provenance
  reading := h.reading
  healing p hp := h.healing p (List.mem_of_mem_eraseIdx hp)
  ran := h.ran
  history := h.history

theorem tableName_updated (at' : String) (other : Unscheduled) (req : UpdateTransformRequest)
    (t : ExecutableTable Gate) : (updated at' other req t).tableName = t.tableName := by
  unfold updated
  split <;> rfl

theorem history_updated (at' : String) (other : Unscheduled) (req : UpdateTransformRequest)
    (t : ExecutableTable Gate) : (updated at' other req t).history = t.history := by
  unfold updated
  split <;> rfl

/-- What a step does to the table of a name, whichever table it is about. -/
theorem Traced.step (h : Traced name past t s) {action : AuditStep Gate}
    (hroom : HasRoom name s action) (hstep : s.step action = some s') :
    ∃ t', Traced name past t' s' ∧ Successor t t' := by
  cases action with
  | create u =>
    cases hstep
    exact ⟨t, h.replaced h.provenance.refl rfl (findTable_append h.found [u]), h.provenance.refl⟩
  | update at' unscheduled other req =>
    cases hstep
    unfold updateExecutableTable
    split
    · exact ⟨t, h, h.provenance.refl⟩
    · refine h.updateTable (fun u => tableName_updated at' _ req u)
        (fun u => history_updated at' _ req u) fun hother => ?_
      exact h.provenance.updated (hroom (congrArg some hother) t h.found) at' _ req
  | rollback at' other version =>
    cases hstep
    unfold rollbackExecutableTable
    split
    · exact ⟨t, h, h.provenance.refl⟩
    · rename_i u hu
      split
      · exact ⟨t, h, h.provenance.refl⟩
      · rename_i hsome
        split
        · exact ⟨t, h, h.provenance.refl⟩
        · rename_i target htarget
          refine h.updateTable (fun _ => rfl) (fun _ => rfl) fun hother => ?_
          rw [hother, h.found] at hu
          cases hu
          have hversions : t.versions ≠ [] := mt List.isEmpty_iff.mpr hsome
          exact h.provenance.installed (hroom (congrArg some hother) t h.found) hversions at' target
  | execute other =>
    obtain ⟨r, hr, rfl⟩ := Option.map_eq_some_iff.mp hstep
    exact ⟨t, h.begun (readCurrent_code h hr), h.provenance.refl⟩
  | executeVersion other version =>
    obtain ⟨r, hr, rfl⟩ := Option.map_eq_some_iff.mp hstep
    exact ⟨t, h.begun (readVersion_code h hr), h.provenance.refl⟩
  | record i e =>
    obtain ⟨⟨kind, r⟩, hr, rfl⟩ := Option.map_eq_some_iff.mp hstep
    exact h.recorded hr e
  | tick other =>
    obtain ⟨u, hu, hstep⟩ := Option.bind_eq_some_iff.mp hstep
    obtain ⟨prev, hprev, hstep⟩ := Option.bind_eq_some_iff.mp hstep
    cases hstep
    exact ⟨t, h.ticked hu hprev, h.provenance.refl⟩
  | heal i createdAt =>
    obtain ⟨⟨other, prev⟩, hprev, rfl⟩ := Option.map_eq_some_iff.mp hstep
    refine (h.healed i).updateTable (fun _ => rfl) (fun _ => rfl) fun hother => ?_
    have hversions := h.healing _ (List.mem_of_getElem? hprev) hother
    have htarget : s.target (.heal i createdAt) = some name := by
      simp [Audit.target, hprev, hother]
    exact h.provenance.rolledBack (hroom htarget t h.found) hversions createdAt prev

theorem Traced.run (h : Traced name past t s) {steps : List (AuditStep Gate)}
    (hroom : Run.Along Audit.step (HasRoom name) s steps)
    (hrun : Run.run Audit.step s steps = some s') :
    ∃ t', Traced name past t' s' ∧ versionCodes t <+: versionCodes t' := by
  refine Run.invariant (I := fun s => ∃ t', Traced name past t' s ∧
    versionCodes t <+: versionCodes t') ?_ ⟨t, h, List.prefix_rfl⟩ hroom hrun
  rintro s₁ action s₂ ⟨t₁, htraced, hkeeps⟩ hroom hstep
  obtain ⟨t₂, htraced', hsucc⟩ := htraced.step hroom hstep
  exact ⟨t₂, htraced', hkeeps.trans hsucc.keeps⟩

end Steps
section Runs

/-- How a table comes to the list: without versions, or from a pipeline. -/
inductive Created : ExecutableTable Gate → Prop where
  | empty {t} (h : t.versions = []) : Created t
  | promoted (templates : Templates Gate) (pipeline : StreamingPipeline)
      (req : PromotionRequest Gate) (tableName executionId : String)
      (completedAt createdAt refreshedAt : Instant) :
      Created (promotedTable templates pipeline req tableName executionId completedAt createdAt
        refreshedAt)

theorem exists_promotedSource_eq (pipeline : StreamingPipeline) (tableName : String)
    (transformSql : Option String) :
    ∃ rest, promotedSource pipeline tableName transformSql = "-- Glacier: " ++ rest := by
  cases transformSql with
  | none =>
    unfold promotedSource
    dsimp only
    simp only [String.append_assoc]
    exact ⟨_, rfl⟩
  | some sql =>
    unfold promotedSource
    dsimp only
    simp only [String.append_assoc]
    exact ⟨_, rfl⟩

/-- The first version of a promoted table has the name of the pipeline in place of its code. -/
theorem not_provenance_promotedTable (templates : Templates Gate) (pipeline : StreamingPipeline)
    (req : PromotionRequest Gate) (tableName executionId : String)
    (completedAt createdAt refreshedAt : Instant) :
    ¬ Provenance (promotedTable templates pipeline req tableName executionId completedAt createdAt
      refreshedAt) := by
  intro h
  have hcode : some ("streaming_cdc:" ++ req.pipelineId) =
      some (promotedSource pipeline tableName req.transformSql) := h.last
  replace hcode := Option.some.inj hcode
  obtain ⟨rest, hrest⟩ := exists_promotedSource_eq pipeline tableName req.transformSql
  have hfirst : ("streaming_cdc:" ++ req.pipelineId).toList.head? =
      ("-- Glacier: " ++ rest).toList.head? := by rw [hcode, hrest]
  rw [String.toList_append, String.toList_append] at hfirst
  simp at hfirst

variable {name : String} {t₀ : ExecutableTable Gate} {state : AppState Gate}
  {steps : List (AuditStep Gate)}

theorem traced_start (hfound : findTable state.executableTables name = some t₀)
    (hprovenance : Provenance t₀) :
    Traced name (t₀.history.map (·.version)) t₀ ⟨state, [], [], []⟩ where
  found := hfound
  provenance := hprovenance
  reading := fun _ hp => absurd hp List.not_mem_nil
  healing := fun _ hp => absurd hp List.not_mem_nil
  ran := fun _ hr => absurd hr List.not_mem_nil
  history := (List.append_nil _).symm

/-- In the runs in which there are numbers for the versions, the versions stand for the code that
the table has and has run exactly when it has been created without versions. -/
theorem keepsCode_iff (hcreated : Created t₀)
    (hfound : findTable state.executableTables name = some t₀)
    (hroom : Run.Along Audit.step (HasRoom name) ⟨state, [], [], []⟩ steps) :
    KeepsCode name t₀ ⟨state, [], [], []⟩ steps ↔ t₀.versions = [] := by
  constructor
  · intro h
    cases hcreated with
    | empty hnil => exact hnil
    | promoted templates pipeline req tableName executionId completedAt createdAt refreshedAt =>
      obtain ⟨t₁, t₂, -, hfound₂, -, hprovenance, -⟩ :=
        h [] [] _ _ List.nil_prefix rfl rfl
      obtain rfl := Option.some.inj (hfound.symm.trans hfound₂)
      exact absurd hprovenance (not_provenance_promotedTable _ _ _ _ _ _ _ _)
  · rintro hnil first later s₁ s₂ ⟨rest, rfl⟩ hfirst hlater
    rw [List.append_assoc] at hroom
    have htraced := traced_start hfound (provenance_of_nil hnil)
    obtain ⟨hroomFirst, hroomRest⟩ := Run.along_append hfirst hroom
    have hroomLater := (Run.along_append hlater hroomRest).1
    obtain ⟨t₁, htraced₁, -⟩ := htraced.run hroomFirst hfirst
    obtain ⟨t₂, htraced₂, hkeeps⟩ := htraced₁.run hroomLater hlater
    exact ⟨t₁, t₂, htraced₁.found, htraced₂.found, hkeeps, htraced₂.provenance, htraced₂.history,
      htraced₂.ran⟩

end Runs

section Promoted

/-- A table that is created without versions, updated and executed. -/
theorem keepsCode_iff_revenue :
    KeepsCode "revenue" { revenueTable with versions := [] }
      ⟨⟨[], [{ revenueTable with versions := [] }]⟩, [], [], []⟩
      [.update "2024-05-01T07:08:08+00:00" (fun _ => ⟨"2024-04-30", none⟩) "revenue"
        ⟨"SELECT total FROM orders", none⟩, .execute "revenue"] ↔
      ({ revenueTable with versions := [] } : ExecutableTable String).versions = [] := by
  apply keepsCode_iff (Created.empty rfl) rfl
  constructor
  · intro _ t ht
    cases ht
    decide
  · intro s' _
    refine ⟨fun htarget => ?_, fun _ _ => trivial⟩
    cases htarget

def ordersPipeline : StreamingPipeline where
  id := "7f3a"
  name := "orders-feed"
  sourceType := "kafka"
  database := none
  collection := none
  topic := some "orders"
  sinkTable := "orders"
  status := "running"
  eventsProcessed := 0
  createdAt := 1714547289000000000

/-- The table that a pipeline is promoted to, before any step. -/
theorem not_keepsCode_promoted :
    ¬ ∀ (templates : Templates String) (pipeline : StreamingPipeline) (t : ExecutableTable String),
      t = promotedTable templates pipeline ⟨pipeline.id, "", none, none⟩ "glacier_orders_feed" "c5b1"
        0 0 0 → KeepsCode "glacier_orders_feed" t ⟨⟨[], [t]⟩, [], [], []⟩ [] := by
  intro h
  have hkeeps := h revenueTemplates ordersPipeline _ rfl
  obtain ⟨t₁, t₂, -, hfound, -, hprovenance, -⟩ := hkeeps [] [] _ _ List.nil_prefix rfl rfl
  obtain rfl := Option.some.inj hfound
  exact not_provenance_promotedTable _ _ _ _ _ _ _ _ hprovenance

end Promoted
end RustLake.Scheduler
