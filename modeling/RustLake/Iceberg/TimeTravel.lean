import RustLake.Iceberg.Resolve
import RustLake.Order.Timeline

/-! Time travel: under a clock that always advances, what a time resolves to is the snapshot that
was current then. -/
namespace RustLake.Iceberg
open RustLake.Json RustLake.ObjectStore RustLake.Text RustLake.Timeline

section Time
variable {tablePrefix : String}

def SnapshotInfo.time (snap : SnapshotInfo) : ℤ := snap.timestampMs.toInt

/-- The snapshot that was current at a time: the last one committed by then. -/
def currentAt (trace : List (Commit × IcebergTableState)) (ts : Int64) : Option SnapshotInfo :=
  (trace.find? fun e => e.1.addsSnapshot && decide (e.1.nowMs ≤ ts)).bind written

theorem maxByTimestamp_eq (snaps : List SnapshotInfo) :
    maxByTimestamp snaps = latest SnapshotInfo.time snaps := by
  unfold maxByTimestamp latest
  congr 1
  funext best snap
  cases best with
  | none => rfl
  | some b => exact if_congr Int64.le_iff_toInt_le rfl rfl

/-- Resolving by a time looks for the latest snapshot up to it. -/
theorem resolve_byTimestamp (state : IcebergTableState) (ts : Int64) :
    resolveSnapshot state (.byTimestamp ts) =
      match asOf SnapshotInfo.time ts.toInt state.snapshots with
      | some snap => .ok snap
      | none => .error ("No snapshot found at or before timestamp " ++ toString ts) := by
  have hfilter : state.snapshots.filter (·.timestampMs ≤ ts) =
      state.snapshots.filter (fun snap => snap.time ≤ ts.toInt) :=
    List.filter_congr fun _ _ => decide_eq_decide.mpr Int64.le_iff_toInt_le
  have hlatest : asOf SnapshotInfo.time ts.toInt state.snapshots =
      maxByTimestamp (state.snapshots.filter (·.timestampMs ≤ ts)) := by
    rw [maxByTimestamp_eq, hfilter]
    unfold asOf
    rfl
  rw [hlatest]
  rfl

/-- An expiry keeps some of the snapshots of a table, and the other evolutions all of them. -/
theorem kept_snapshots {c : Commit} {state made : IcebergTableState}
    (h : c.Makes tablePrefix state made) (hc : c.addsSnapshot = false)
    (hloaded : ∃ path, state = stateOf state.metadata path) :
    made.snapshots = match c with
      | .expire olderThanMs retainLastN _ => state.snapshots.filter fun snap =>
        !((expiredSnapshots state olderThanMs retainLastN).map (·.snapshotId)).contains
          snap.snapshotId
      | _ => state.snapshots := by
  obtain ⟨doc, hdoc, rfl⟩ := h.produces
  obtain ⟨path, hpath⟩ := hloaded
  have hsnaps : state.snapshots = parseSnapshots state.metadata := by rw [hpath]; rfl
  cases c with
  | create => cases hc
  | append => cases hc
  | evolveSchema =>
    obtain ⟨-, _, _, -, -, hdoc⟩ := hdoc
    dsimp only
    rw [hsnaps]
    exact parseSnapshots_congr (get_evolvedMetadata hdoc (by decide))
  | evolvePartition =>
    dsimp only
    rw [hsnaps]
    exact parseSnapshots_congr (get_repartitionedMetadata hdoc (by decide))
  | expire =>
    dsimp only
    rw [hsnaps]
    exact parseSnapshots_expired hdoc.2

/-- In an ordered list with ids that are times, an expiry drops a first part. -/
theorem expire_drops {state : IcebergTableState} (h : Ordered SnapshotInfo.time state.snapshots)
    (hids : ∀ snap ∈ state.snapshots, snap.snapshotId = snap.timestampMs) (olderThanMs : Int64)
    (retainLastN : ℕ) :
    ∃ kept, state.snapshots = expiredSnapshots state olderThanMs retainLastN ++ kept ∧
      (state.snapshots.filter fun snap =>
        !((expiredSnapshots state olderThanMs retainLastN).map (·.snapshotId)).contains
          snap.snapshotId) = kept := by
  have hsorted : state.snapshots.insertionSort (·.timestampMs ≤ ·.timestampMs) =
      state.snapshots := by
    refine List.Pairwise.insertionSort_eq (h.imp fun hlt => ?_)
    exact Int64.le_iff_toInt_le.mpr (le_of_lt hlt)
  have hfirst : expiredSnapshots state olderThanMs retainLastN <+: state.snapshots := by
    unfold expiredSnapshots
    rw [hsorted]
    have hfilter : ∀ snaps : List SnapshotInfo, snaps.filter (·.timestampMs < olderThanMs) =
        snaps.filter (fun snap => snap.time < olderThanMs.toInt) := fun _ =>
      List.filter_congr fun _ _ => decide_eq_decide.mpr Int64.lt_iff_toInt_lt
    dsimp only
    rw [hfilter]
    exact h.filter_take_prefix _ _
  obtain ⟨kept, hkept⟩ := hfirst
  generalize hexpired : expiredSnapshots state olderThanMs retainLastN = expired at hkept ⊢
  refine ⟨kept, hkept.symm, ?_⟩
  rw [← hkept] at h hids ⊢
  have hdropped : expired.filter (fun snap =>
      !(expired.map (·.snapshotId)).contains snap.snapshotId) = [] := by
    refine List.filter_eq_nil_iff.mpr fun snap hsnap => ?_
    simpa using ⟨snap, hsnap, rfl⟩
  have hrest : kept.filter (fun snap =>
      !(expired.map (·.snapshotId)).contains snap.snapshotId) = kept := by
    refine List.filter_eq_self.mpr fun snap hsnap => ?_
    suffices hnot : ∀ old ∈ expired, old.snapshotId ≠ snap.snapshotId by simpa using hnot
    intro old hold heq
    have hlt := h.lt_of_append hold hsnap
    rw [hids old (List.mem_append_left _ hold), hids snap (List.mem_append_right _ hsnap)] at heq
    simp [SnapshotInfo.time, heq] at hlt
  rw [List.filter_append, hdropped, hrest, List.nil_append]

/-- The committed snapshots are in the order of their times, which are their ids and clock
readings of the run, and the table lists a last part of them. -/
structure KeepsTimeline (trace : List (Commit × IcebergTableState))
    (state : IcebergTableState) : Prop where
  ordered : Ordered SnapshotInfo.time (committed trace)
  ids : ∀ snap ∈ committed trace, snap.snapshotId = snap.timestampMs ∧
    snap.timestampMs ∈ readings trace
  suffix : ∃ dropped, committed trace = dropped ++ state.snapshots
  written : ∀ e ∈ trace, e.1.addsSnapshot = true →
    ∃ snap, written e = some snap ∧ snap.timestampMs = e.1.nowMs

/-- A commit that adds a snapshot at a later reading goes on with the timeline. -/
theorem KeepsTimeline.add {c : Commit} {state made : IcebergTableState} {snap : SnapshotInfo}
    {trace : List (Commit × IcebergTableState)} (h : KeepsTimeline trace state)
    (hc : c.addsSnapshot = true) (hsnaps : made.snapshots = state.snapshots ++ [snap])
    (hid : snap.snapshotId = c.nowMs) (htime : snap.timestampMs = c.nowMs)
    (hlater : ∀ e ∈ trace, e.1.nowMs < c.nowMs) : KeepsTimeline ((c, made) :: trace) made := by
  have hwritten : RustLake.Iceberg.written (c, made) = some snap := by
    simp [RustLake.Iceberg.written, hc, hsnaps]
  have hcommitted : committed ((c, made) :: trace) = committed trace ++ [snap] := by
    rw [committed_cons, hwritten]
    rfl
  refine ⟨?_, ?_, ?_, ?_⟩
  · rw [hcommitted]
    refine ordered_concat h.ordered fun old hold => ?_
    obtain ⟨e, he, hreading⟩ := List.mem_map.mp (h.ids old hold).2
    have hlt := hlater e he
    rw [hreading, ← htime] at hlt
    exact Int64.lt_iff_toInt_lt.mp hlt
  · intro other hother
    rw [hcommitted] at hother
    rcases List.mem_append.mp hother with hold | hnew
    · exact ⟨(h.ids other hold).1, List.mem_cons_of_mem _ (h.ids other hold).2⟩
    · rw [List.mem_singleton.mp hnew, hid, htime]
      exact ⟨rfl, List.mem_cons_self⟩
  · obtain ⟨dropped, hdropped⟩ := h.suffix
    exact ⟨dropped, by rw [hcommitted, hdropped, hsnaps, List.append_assoc]⟩
  · intro e he hadds
    rcases List.mem_cons.mp he with rfl | hold
    · exact ⟨snap, hwritten, htime⟩
    · exact h.written e hold hadds

/-- A commit that adds none leaves the timeline, and may drop a first part of the list. -/
theorem KeepsTimeline.keep {c : Commit} {state made : IcebergTableState}
    {trace : List (Commit × IcebergTableState)} (h : KeepsTimeline trace state)
    (hc : c.addsSnapshot = false) (hsuffix : ∃ dropped, state.snapshots = dropped ++ made.snapshots) :
    KeepsTimeline ((c, made) :: trace) made := by
  have hcommitted : committed ((c, made) :: trace) = committed trace := by
    rw [committed_cons]
    simp [RustLake.Iceberg.written, hc]
  refine ⟨by rw [hcommitted]; exact h.ordered, ?_, ?_, ?_⟩
  · intro snap hsnap
    rw [hcommitted] at hsnap
    exact ⟨(h.ids snap hsnap).1, List.mem_cons_of_mem _ (h.ids snap hsnap).2⟩
  · obtain ⟨first, hfirst⟩ := h.suffix
    obtain ⟨second, hsecond⟩ := hsuffix
    exact ⟨first ++ second, by rw [hcommitted, hfirst, hsecond, List.append_assoc]⟩
  · intro e he hadds
    rcases List.mem_cons.mp he with rfl | hold
    · rw [hc] at hadds
      cases hadds
    · exact h.written e hold hadds

/-- Under a clock that always advances every run keeps its timeline. -/
theorem keepsTimeline {kinds : Commit → Bool} {c : Commit} {state : IcebergTableState}
    {trace : List (Commit × IcebergTableState)}
    (h : Trace tablePrefix (Clocked kinds (· < ·)) ((c, state) :: trace)) :
    KeepsTimeline ((c, state) :: trace) state := by
  generalize htrace : (c, state) :: trace = full at h
  induction h generalizing c state trace with
  | @create c' state₀ made hcreate hallowed hmakes =>
    obtain ⟨⟨rfl, rfl⟩, rfl⟩ := by simpa using htrace
    cases c with
    | create schema files tableUuid bucket nowMs =>
      obtain ⟨-, snap, hsnaps, hid, htime, -⟩ := created_snapshots hmakes
      have hempty : KeepsTimeline [] { state with snapshots := [] } :=
        ⟨List.Pairwise.nil, by simp [committed], ⟨[], rfl⟩, by simp⟩
      exact hempty.add rfl (by rw [hsnaps]; rfl) hid htime (by simp)
    | _ => cases hcreate
  | @commit c' last state₀ made trace' htrace' hc hallowed hmakes ih =>
    obtain ⟨⟨rfl, rfl⟩, rfl⟩ := by simpa using htrace
    have hold := ih rfl
    obtain ⟨hwell, hloaded⟩ := htrace'.wellFormed List.mem_cons_self
    cases hadds : c.addsSnapshot with
    | true =>
      cases c with
      | append files schema operation nowMs =>
        obtain ⟨-, snap, hsnaps, hid, htime, -⟩ := appended_snapshots hmakes hwell hloaded
        exact hold.add rfl hsnaps hid htime hallowed.2
      | create => cases hc
      | _ => cases hadds
    | false =>
      refine hold.keep hadds ?_
      rw [kept_snapshots hmakes hadds hloaded]
      cases c with
      | expire olderThanMs retainLastN nowMs =>
        obtain ⟨first, hfirst⟩ := hold.suffix
        have hordered := hold.ordered
        rw [hfirst] at hordered
        have hids : ∀ snap ∈ state₀.snapshots, snap.snapshotId = snap.timestampMs :=
          fun snap hsnap => (hold.ids snap (by rw [hfirst]; exact List.mem_append_right _ hsnap)).1
        obtain ⟨kept, hkept, hfilter⟩ :=
          expire_drops hordered.append_right hids olderThanMs retainLastN
        dsimp only
        rw [hfilter]
        exact ⟨_, hkept⟩
      | _ => exact ⟨[], rfl⟩

/-- The committed snapshots as of a time are the one that was current then. -/
theorem asOf_committed {trace : List (Commit × IcebergTableState)}
    (hordered : Ordered SnapshotInfo.time (committed trace))
    (hwritten : ∀ e ∈ trace, e.1.addsSnapshot = true →
      ∃ snap, written e = some snap ∧ snap.timestampMs = e.1.nowMs) (ts : Int64) :
    asOf SnapshotInfo.time ts.toInt (committed trace) = currentAt trace ts := by
  rw [hordered.asOf_eq]
  clear hordered
  induction trace with
  | nil => rfl
  | cons e trace ih =>
    have hrest := ih fun e he => hwritten e (List.mem_cons_of_mem _ he)
    unfold currentAt at hrest ⊢
    rw [committed_cons, List.filter_append, List.find?_cons]
    cases hadds : e.1.addsSnapshot with
    | false => simpa [written, hadds] using hrest
    | true =>
      obtain ⟨snap, hsnap, htime⟩ := hwritten e List.mem_cons_self hadds
      by_cases hle : e.1.nowMs ≤ ts
      · have hkeep : snap.time ≤ ts.toInt := by
          unfold SnapshotInfo.time
          rw [htime]
          exact Int64.le_iff_toInt_le.mp hle
        simp [hsnap, hkeep, hle]
      · have hskip : ¬ snap.time ≤ ts.toInt := by
          unfold SnapshotInfo.time
          rw [htime]
          exact fun h => hle (Int64.le_iff_toInt_le.mpr h)
        simpa [hsnap, hskip, hle] using hrest

/-- Time travel is exact: a time resolves to the snapshot that was current then, if the table
still lists it, and to nothing otherwise. -/
theorem resolveSnapshot_byTimestamp_eq {kinds : Commit → Bool} {c : Commit}
    {state : IcebergTableState} {trace : List (Commit × IcebergTableState)}
    (h : Trace tablePrefix (Clocked kinds (· < ·)) ((c, state) :: trace)) (ts : Int64) :
    resolveSnapshot state (.byTimestamp ts) =
      match currentAt ((c, state) :: trace) ts with
      | some snap => if snap ∈ state.snapshots then .ok snap
        else .error ("No snapshot found at or before timestamp " ++ toString ts)
      | none => .error ("No snapshot found at or before timestamp " ++ toString ts) := by
  have hkeeps := keepsTimeline h
  obtain ⟨dropped, hdropped⟩ := hkeeps.suffix
  have hcurrent := asOf_committed hkeeps.ordered hkeeps.written ts
  have hordered := hkeeps.ordered
  rw [hdropped] at hcurrent hordered
  rw [resolve_byTimestamp, ← hcurrent]
  rcases hordered.asOf_drop ts.toInt with ⟨snap, hmem, hall, hkept⟩ | ⟨hnone, hgone⟩
  · rw [hall, hkept]
    simp [hmem]
  · rw [hnone]
    cases hall : asOf SnapshotInfo.time ts.toInt (dropped ++ state.snapshots) with
    | none => rfl
    | some snap => simp [hgone snap hall]

theorem resolveSnapshot_byTimestamp_eq_ticks :
    ∃ state, Trace "orders" (Clocked Commit.addsSnapshot (· < ·))
        [(tickAppend 2000, state), (tickCreate, tickCreated)] ∧
      ∀ ts, resolveSnapshot state (.byTimestamp ts) =
        match currentAt [(tickAppend 2000, state), (tickCreate, tickCreated)] ts with
        | some snap => if snap ∈ state.snapshots then .ok snap
          else .error ("No snapshot found at or before timestamp " ++ toString ts)
        | none => .error ("No snapshot found at or before timestamp " ++ toString ts) := by
  have hclock : (1000 : Int64) < 2000 := by decide
  obtain ⟨state, htrace⟩ := @exists_ticks (· < ·) _ hclock
  exact ⟨state, htrace, resolveSnapshot_byTimestamp_eq htrace⟩

end Time

end RustLake.Iceberg
