import RustLake.Iceberg.Lineage

/-! Resolving snapshot references, and the snapshots that a run of commits has committed. -/
namespace RustLake.Iceberg
open RustLake.Json RustLake.ObjectStore RustLake.Text

inductive SnapshotRef where
  | latest
  | byId (id : Int64)
  | byTimestamp (ts : Int64)
deriving DecidableEq, Repr

/-- `max_by_key(|s| s.timestamp_ms)`: the last of the latest snapshots. -/
def maxByTimestamp (snaps : List SnapshotInfo) : Option SnapshotInfo :=
  snaps.foldl (fun best snap => match best with
    | some b => if b.timestampMs ≤ snap.timestampMs then some snap else some b
    | none => some snap) none

def resolveSnapshot (state : IcebergTableState) : SnapshotRef → Except String SnapshotInfo
  | .latest => match state.currentSnapshotId with
    | none => .error "Table has no snapshots"
    | some id => match state.snapshot? id with
      | some snap => .ok snap
      | none => .error ("Current snapshot " ++ toString id ++ " not found in metadata")
  | .byId id => match state.snapshot? id with
    | some snap => .ok snap
    | none => .error ("Snapshot " ++ toString id ++ " not found")
  | .byTimestamp ts => match maxByTimestamp (state.snapshots.filter (·.timestampMs ≤ ts)) with
    | some snap => .ok snap
    | none => .error ("No snapshot found at or before timestamp " ++ toString ts)

def Commit.addsSnapshot : Commit → Bool
  | .create .. => true
  | .append .. => true
  | _ => false

/-- The snapshot that a commit wrote is the last one of the table it made. -/
def written (e : Commit × IcebergTableState) : Option SnapshotInfo :=
  if e.1.addsSnapshot then e.2.snapshots.getLast? else none

/-- The snapshots of a trace in the order in which they were committed. -/
def committed (trace : List (Commit × IcebergTableState)) : List SnapshotInfo :=
  trace.reverse.filterMap written

section Documents
variable {state : IcebergTableState} {files : List DataFileInfo} {schema : ArrowSchema}
  {operation : String} {nowMs : Int64} {doc : Value}

@[simp] theorem parseSnapshot_timestampMs (state : IcebergTableState)
    (files : List DataFileInfo) (operation : String) (nowMs : Int64) :
    (parseSnapshot (snapshotEntry state files operation nowMs)).timestampMs = nowMs := by
  have hget : (snapshotEntry state files operation nowMs).get "timestamp-ms" =
      some (.ofI64 nowMs) := rfl
  simp [parseSnapshot, i64At, hget]

/-- The snapshots that an expiry keeps. -/
theorem parseSnapshots_expired {expiredIds : List Int64}
    (h : expiredMetadata state expiredIds nowMs = some doc) :
    parseSnapshots doc =
      (parseSnapshots state.metadata).filter fun snap => !expiredIds.contains snap.snapshotId := by
  unfold parseSnapshots
  rw [snapshots_expiredMetadata h, withoutIds, List.filter_map]
  rfl

end Documents

/-- The first snapshot of a created table, and the current one. -/
theorem created_snapshots {tablePrefix : String} {schema : ArrowSchema}
    {files : List DataFileInfo} {tableUuid bucket : String} {nowMs : Int64}
    {state made : IcebergTableState}
    (h : (Commit.create schema files tableUuid bucket nowMs).Makes tablePrefix state made) :
    made.currentSnapshotId = some nowMs ∧ ∃ snap, made.snapshots = [snap] ∧
      snap.snapshotId = nowMs ∧ snap.timestampMs = nowMs ∧ snap.parentSnapshotId = none := by
  obtain ⟨doc, ⟨-, rfl⟩, rfl⟩ := h.produces
  refine ⟨asI64_ofI64 nowMs, _, rfl, ?_, ?_, rfl⟩
  · exact congrArg (fun o => Option.getD o 0) (asI64_ofI64 nowMs)
  · exact congrArg (fun o => Option.getD o 0) (asI64_ofI64 nowMs)

/-- An append adds its snapshot behind the others and makes it the current one. -/
theorem appended_snapshots {tablePrefix : String} {files : List DataFileInfo}
    {schema : ArrowSchema} {operation : String} {nowMs : Int64} {state made : IcebergTableState}
    (h : (Commit.append files schema operation nowMs).Makes tablePrefix state made)
    (hstate : WellFormed state.metadata) (hloaded : ∃ path, state = stateOf state.metadata path) :
    made.currentSnapshotId = some nowMs ∧ ∃ snap, made.snapshots = state.snapshots ++ [snap] ∧
      snap.snapshotId = nowMs ∧ snap.timestampMs = nowMs ∧
      snap.parentSnapshotId = state.currentSnapshotId := by
  obtain ⟨doc, ⟨-, hdoc⟩, rfl⟩ := h.produces
  obtain ⟨path, hpath⟩ := hloaded
  refine ⟨?_, parseSnapshot (snapshotEntry state files operation nowMs), ?_, ?_, ?_, ?_⟩
  · simp [stateOf, get_current_appendedMetadata hdoc]
  · have hsnaps : state.snapshots = parseSnapshots state.metadata := by rw [hpath]; rfl
    rw [hsnaps]
    exact parseSnapshots_appendedMetadata hdoc (hstate _ (by decide))
  · exact parseSnapshot_snapshotId _ _ _ _
  · exact parseSnapshot_timestampMs _ _ _ _
  · exact parseSnapshot_parentSnapshotId _ _ _ _

theorem committed_cons (e : Commit × IcebergTableState)
    (trace : List (Commit × IcebergTableState)) :
    committed (e :: trace) = committed trace ++ (written e).toList := by
  unfold committed
  rw [List.reverse_cons, List.filterMap_append]
  cases h : written e <;> simp [h]

/-- Commits of some kinds, each at a clock reading that stands in a relation to all earlier ones. -/
def Clocked (kinds : Commit → Bool) (after : Int64 → Int64 → Prop)
    (trace : List (Commit × IcebergTableState)) (c : Commit) : Prop :=
  kinds c = true ∧ ∀ e ∈ trace, after e.1.nowMs c.nowMs

/-- The clock readings of a trace, the latest first. -/
def readings (trace : List (Commit × IcebergTableState)) : List Int64 := trace.map (·.1.nowMs)

theorem readings_pairwise {tablePrefix : String} {after : Int64 → Int64 → Prop}
    {trace : List (Commit × IcebergTableState)} {kinds : Commit → Bool}
    (h : Trace tablePrefix (Clocked kinds after) trace) :
    (readings trace).Pairwise fun later earlier => after earlier later := by
  induction h with
  | create => exact List.pairwise_singleton _ _
  | commit htrace hc hallowed hmakes ih =>
    refine List.pairwise_cons.mpr ⟨fun reading hreading => ?_, ih⟩
    obtain ⟨e, he, rfl⟩ := List.mem_map.mp hreading
    exact hallowed.2 e he

section Ticks

def tickSchema : ArrowSchema := [⟨"id", .int64, false⟩]

def tickCreate : Commit :=
  .create tickSchema [⟨"orders/part-0.parquet", 900, 3⟩] "c5b1" "lake" 1000

def tickAppend (nowMs : Int64) : Commit :=
  .append [⟨"orders/part-1.parquet", 700, 2⟩] tickSchema "append" nowMs

def tickCreated : IcebergTableState :=
  stateOf (initialMetadata "s3://lake/orders" tickSchema [⟨"orders/part-0.parquet", 900, 3⟩] "c5b1"
    1000) (tickCreate.target "orders" (stateOf .null ""))

/-- A table is created at millisecond 1000, and appended to at a later reading or the same. -/
theorem exists_ticks {after : Int64 → Int64 → Prop} {nowMs : Int64}
    (h : after 1000 nowMs) :
    ∃ state, Trace "orders" (Clocked Commit.addsSnapshot after)
      [(tickAppend nowMs, state), (tickCreate, tickCreated)] := by
  have hcreate : tickCreate.Makes "orders" (stateOf .null "") tickCreated :=
    Commit.makes_of_produces ⟨by simp, rfl⟩
  obtain ⟨doc, hdoc⟩ : ∃ doc, (tickAppend nowMs).Produces "orders" tickCreated doc :=
    ⟨_, by simp, rfl⟩
  refine ⟨_, .commit (.create rfl ⟨rfl, by simp⟩ hcreate) rfl ⟨rfl, ?_⟩
    (Commit.makes_of_produces hdoc)⟩
  intro e he
  rw [List.mem_singleton.mp he]
  exact h

end Ticks
end RustLake.Iceberg
