import RustLake.Iceberg.Resolve

/-! Whether snapshot ids identify snapshots: they are clock readings in milliseconds. -/
namespace RustLake.Iceberg
open RustLake.Json RustLake.ObjectStore RustLake.Text

section Ids
variable {tablePrefix : String} {after : Int64 → Int64 → Prop}

/-- Creations and appends list what they have committed, under ids that are clock readings. -/
theorem snapshots_of_appends {c : Commit} {state : IcebergTableState}
    {trace : List (Commit × IcebergTableState)}
    (h : Trace tablePrefix (Clocked Commit.addsSnapshot after) ((c, state) :: trace)) :
    state.currentSnapshotId = some c.nowMs ∧ committed ((c, state) :: trace) = state.snapshots ∧
      state.snapshots.map (·.snapshotId) = (((c, state) :: trace).map (·.1.nowMs)).reverse := by
  generalize htrace : (c, state) :: trace = full at h
  induction h generalizing c state trace with
  | @create c' state₀ made hcreate hallowed hmakes =>
    obtain ⟨⟨rfl, rfl⟩, rfl⟩ := by simpa using htrace
    cases c with
    | create schema files tableUuid bucket nowMs =>
      obtain ⟨hcurrent, snap, hsnaps, hid, -, -⟩ := created_snapshots hmakes
      refine ⟨hcurrent, ?_, ?_⟩
      · simp [committed, written, Commit.addsSnapshot, hsnaps]
      · simp [hsnaps, hid, Commit.nowMs]
    | _ => cases hcreate
  | @commit c' last state₀ made trace' htrace' hc hallowed hmakes ih =>
    obtain ⟨⟨rfl, rfl⟩, rfl⟩ := by simpa using htrace
    obtain ⟨-, hold, hids⟩ := ih rfl
    obtain ⟨hwell, hloaded⟩ := htrace'.wellFormed List.mem_cons_self
    cases c with
    | append files schema operation nowMs =>
      obtain ⟨hcurrent, snap, hsnaps, hid, -, -⟩ := appended_snapshots hmakes hwell hloaded
      refine ⟨hcurrent, ?_, ?_⟩
      · rw [committed_cons, hold]
        simp [written, Commit.addsSnapshot, hsnaps]
      · rw [hsnaps, List.map_append, hids]
        simp [hid, Commit.nowMs]
    | create => cases hc
    | _ => cases hallowed.1

/-- Each snapshot has the one committed before it for its parent. -/
theorem parent_ne_self {c : Commit} {state : IcebergTableState}
    {trace : List (Commit × IcebergTableState)}
    (h : Trace tablePrefix (Clocked Commit.addsSnapshot after) ((c, state) :: trace))
    (hstrict : (readings ((c, state) :: trace)).Pairwise fun later earlier => earlier < later)
    {snap : SnapshotInfo} (hsnap : snap ∈ state.snapshots) :
    snap.parentSnapshotId ≠ some snap.snapshotId := by
  generalize htrace : (c, state) :: trace = full at h hstrict
  induction h generalizing c state trace with
  | @create c' state₀ made hcreate hallowed hmakes =>
    obtain ⟨⟨rfl, rfl⟩, rfl⟩ := by simpa using htrace
    cases c with
    | create schema files tableUuid bucket nowMs =>
      obtain ⟨-, first, hsnaps, -, -, hparent⟩ := created_snapshots hmakes
      rw [hsnaps, List.mem_singleton] at hsnap
      rw [hsnap, hparent]
      simp
    | _ => cases hcreate
  | @commit c' last state₀ made trace' htrace' hc hallowed hmakes ih =>
    obtain ⟨⟨rfl, rfl⟩, rfl⟩ := by simpa using htrace
    obtain ⟨hlater, hearlier⟩ := List.pairwise_cons.mp hstrict
    obtain ⟨hwell, hloaded⟩ := htrace'.wellFormed List.mem_cons_self
    cases c with
    | append files schema operation nowMs =>
      obtain ⟨-, new, hsnaps, hid, -, hparent⟩ := appended_snapshots hmakes hwell hloaded
      rw [hsnaps] at hsnap
      rcases List.mem_append.mp hsnap with hold | hnew
      · exact ih hold rfl hearlier
      · rw [List.mem_singleton.mp hnew, hparent, (snapshots_of_appends htrace').1, hid]
        have hlt : last.nowMs < nowMs := hlater _ (by simp)
        intro heq
        rw [Option.some.inj heq] at hlt
        exact Int64.lt_irrefl hlt
    | create => cases hc
    | _ => cases hallowed.1

/-- The ids of a table tell its snapshots apart, no snapshot is its own parent, and each one that
was committed is found by its id. -/
structure IdentifiesSnapshots (trace : List (Commit × IcebergTableState))
    (state : IcebergTableState) : Prop where
  distinct : (state.snapshots.map (·.snapshotId)).Nodup
  parent_ne : ∀ snap ∈ state.snapshots, snap.parentSnapshotId ≠ some snap.snapshotId
  found : ∀ snap ∈ committed trace, resolveSnapshot state (.byId snap.snapshotId) = .ok snap

theorem snapshot?_of_nodup {state : IcebergTableState}
    (h : (state.snapshots.map (·.snapshotId)).Nodup) {snap : SnapshotInfo}
    (hsnap : snap ∈ state.snapshots) : state.snapshot? snap.snapshotId = some snap := by
  unfold IcebergTableState.snapshot?
  cases hfound : state.snapshots.find? (·.snapshotId = snap.snapshotId) with
  | none => simpa using List.find?_eq_none.mp hfound snap hsnap
  | some other =>
    have hid : other.snapshotId = snap.snapshotId := by simpa using List.find?_some hfound
    rw [List.inj_on_of_nodup_map h (List.mem_of_find?_eq_some hfound) hsnap hid]

/-- Under a clock that never goes back, ids identify snapshots exactly when no two commits read
the same millisecond. -/
theorem identifiesSnapshots_iff {c : Commit} {state : IcebergTableState}
    {trace : List (Commit × IcebergTableState)}
    (h : Trace tablePrefix (Clocked Commit.addsSnapshot (· ≤ ·)) ((c, state) :: trace)) :
    IdentifiesSnapshots ((c, state) :: trace) state ↔
      (readings ((c, state) :: trace)).Pairwise fun later earlier => earlier < later := by
  obtain ⟨-, hcommitted, hids⟩ := snapshots_of_appends h
  constructor
  · intro hsound
    have hdistinct := hsound.distinct
    rw [hids, List.nodup_reverse] at hdistinct
    refine (hdistinct.and (readings_pairwise h)).imp fun ⟨hne, hle⟩ => ?_
    exact Int64.lt_of_le_of_ne hle (Ne.symm hne)
  · intro hstrict
    have hdistinct : (state.snapshots.map (·.snapshotId)).Nodup := by
      rw [hids, List.nodup_reverse]
      refine hstrict.imp fun hlt heq => ?_
      rw [heq] at hlt
      exact Int64.lt_irrefl hlt
    refine ⟨hdistinct, fun snap hsnap => parent_ne_self h hstrict hsnap, fun snap hsnap => ?_⟩
    rw [hcommitted] at hsnap
    unfold resolveSnapshot
    simp only [snapshot?_of_nodup hdistinct hsnap]

theorem identifiesSnapshots_iff_ticks :
    ∃ state, Trace "orders" (Clocked Commit.addsSnapshot (· ≤ ·))
        [(tickAppend 2000, state), (tickCreate, tickCreated)] ∧
      (IdentifiesSnapshots [(tickAppend 2000, state), (tickCreate, tickCreated)] state ↔
        (readings [(tickAppend 2000, state), (tickCreate, tickCreated)]).Pairwise
          fun later earlier => earlier < later) := by
  have hclock : (1000 : Int64) ≤ 2000 := by decide
  obtain ⟨state, htrace⟩ := @exists_ticks (· ≤ ·) _ hclock
  exact ⟨state, htrace, identifiesSnapshots_iff htrace⟩

/-- A creation and an append in one millisecond give two snapshots one id. -/
theorem not_identifiesSnapshots_tick :
    ∃ state, Trace "orders" (Clocked Commit.addsSnapshot (· ≤ ·))
        [(tickAppend 1000, state), (tickCreate, tickCreated)] ∧
      ¬ IdentifiesSnapshots [(tickAppend 1000, state), (tickCreate, tickCreated)] state := by
  obtain ⟨state, htrace⟩ := @exists_ticks (· ≤ ·) 1000 (by decide)
  refine ⟨state, htrace, fun h => ?_⟩
  have hids := (snapshots_of_appends htrace).2.2
  have hdistinct := h.distinct
  rw [hids] at hdistinct
  exact absurd hdistinct (by simp [tickAppend, tickCreate, Commit.nowMs])

end Ids
end RustLake.Iceberg
