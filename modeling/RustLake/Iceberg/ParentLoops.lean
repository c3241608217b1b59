import RustLake.Iceberg.Retention
import RustLake.Order.Dependency

/-! Parent links that come back to a snapshot: the only tables on which the walk for the data files
of a snapshot does not end. -/
namespace RustLake.Iceberg
open RustLake.Json Dependency

/-- The snapshot that a walk along the parents comes to next. -/
def parents (state : IcebergTableState) (id : Int64) : List Int64 :=
  ((state.snapshot? id).bind (·.parentSnapshotId)).toList

/-- What the walk visits, no snapshot of it twice, and what it lists, no data file twice. -/
structure ListsOnce (state : IcebergTableState) (id : Int64) (chain : List SnapshotInfo) : Prop where
  visits : ParentChain state (some id) chain
  lists : Collects state (some id) (chainPaths chain)
  snapshots : (chain.map (·.snapshotId)).Nodup
  files : (chainPaths chain).Nodup

section
variable {state : IcebergTableState} {id : Int64} {snap : SnapshotInfo} {chain : List SnapshotInfo}

theorem mem_parents_iff (h : state.snapshot? id = some snap) (parent : Int64) :
    parent ∈ parents state id ↔ snap.parentSnapshotId = some parent := by
  rw [parents, h, Option.bind_some, Option.mem_toList]

theorem parents_missing (h : state.snapshot? id = none) : parents state id = [] := by
  rw [parents, h]
  rfl

/-- A walk that ends comes to each of its snapshots from the first one. -/
theorem ParentChain.upstream (h : ParentChain state (some id) chain) :
    ∀ snap ∈ chain, Upstream (parents state) id snap.snapshotId := by
  generalize hstart : some id = start at h
  induction h generalizing id with
  | root => cases hstart
  | missing hnone => exact fun snap hsnap => absurd hsnap List.not_mem_nil
  | @step here snap rest hsome hrest ih =>
    cases hstart
    have hid : snap.snapshotId = here := by simpa using List.find?_some hsome
    intro other hother
    rcases List.mem_cons.mp hother with rfl | hother
    · rw [hid]
      exact Relation.ReflTransGen.refl
    · cases hparent : snap.parentSnapshotId with
      | none =>
        rw [hparent] at hrest
        cases hrest
        exact absurd hother List.not_mem_nil
      | some parent =>
        have hstep : parent ∈ parents state here := (mem_parents_iff hsome parent).mpr hparent
        exact Relation.ReflTransGen.head hstep (ih hparent.symm other hother)

/-- A walk that ends has come to the end of the parents. -/
theorem ParentChain.acc (h : ParentChain state (some id) chain) :
    Acc (fun b c => b ∈ parents state c) id := by
  generalize hstart : some id = start at h
  induction h generalizing id with
  | root => cases hstart
  | missing hnone =>
    cases hstart
    refine Acc.intro _ fun parent hparent => ?_
    rw [parents_missing hnone] at hparent
    exact absurd hparent List.not_mem_nil
  | step hsome hrest ih =>
    cases hstart
    refine Acc.intro _ fun parent hparent => ih ?_
    exact ((mem_parents_iff hsome parent).mp hparent).symm

/-- No snapshot comes twice on a walk that ends. -/
theorem ParentChain.nodup (h : ParentChain state (some id) chain) :
    (chain.map (·.snapshotId)).Nodup := by
  generalize hstart : some id = start at h
  induction h generalizing id with
  | root => exact List.nodup_nil
  | missing hnone => exact List.nodup_nil
  | @step here snap rest hsome hrest ih =>
    cases hstart
    have hid : snap.snapshotId = here := by simpa using List.find?_some hsome
    have hwhole : ParentChain state (some here) (snap :: rest) := .step hsome hrest
    cases hparent : snap.parentSnapshotId with
    | none =>
      rw [hparent] at hrest
      cases hrest
      exact List.nodup_singleton _
    | some parent =>
      refine List.nodup_cons.mpr ⟨?_, ih hparent.symm⟩
      intro hagain
      obtain ⟨other, hother, heq⟩ := List.mem_map.mp hagain
      have hsame : other.snapshotId = here := heq.trans hid
      rw [hparent] at hrest
      have hstep : parent ∈ parents state here := (mem_parents_iff hsome parent).mpr hparent
      have hback := hrest.upstream other hother
      rw [hsame] at hback
      exact not_dependsOn_self hwhole.acc (Relation.TransGen.head' hstep hback)

theorem exists_parentChain (h : Acc (fun b c => b ∈ parents state c) id) :
    ∃ chain, ParentChain state (some id) chain := by
  induction h with
  | intro id _ ih =>
    cases hsnap : state.snapshot? id with
    | none => exact ⟨[], .missing hsnap⟩
    | some snap =>
      cases hparent : snap.parentSnapshotId with
      | none =>
        refine ⟨[snap], .step hsnap ?_⟩
        rw [hparent]
        exact .root
      | some parent =>
        obtain ⟨rest, hrest⟩ := ih parent ((mem_parents_iff hsnap parent).mpr hparent)
        refine ⟨snap :: rest, .step hsnap ?_⟩
        rw [hparent]
        exact hrest

/-- The parents of snapshots are all that a walk can come to. -/
theorem mem_of_upstream {b : Int64} (h : Upstream (parents state) id b) :
    b ∈ id :: state.snapshots.filterMap (·.parentSnapshotId) := by
  induction h with
  | refl => exact List.mem_cons_self
  | @tail a b _ hstep _ =>
    cases hsnap : state.snapshot? a with
    | none =>
      rw [parents_missing hsnap] at hstep
      exact absurd hstep List.not_mem_nil
    | some snap =>
      apply List.mem_cons_of_mem
      apply List.mem_filterMap.mpr
      exact ⟨snap, List.mem_of_find?_eq_some hsnap, (mem_parents_iff hsnap b).mp hstep⟩

/-- A table whose parents form no loop is walked to the end. -/
theorem exists_parentChain_iff :
    (∃ chain, ParentChain state (some id) chain) ↔ Acyclic (parents state) id := by
  rw [← acc_iff_acyclic fun b => mem_of_upstream]
  constructor
  · rintro ⟨chain, h⟩
    exact h.acc
  · exact exists_parentChain

end

theorem dataFiles_stateOf (metadata : Value) (path : String) :
    ∀ snap ∈ (stateOf metadata path).snapshots, snap.dataFiles = [] := by
  intro snap hsnap
  obtain ⟨s, -, rfl⟩ := List.mem_map.mp hsnap
  rfl

theorem ParentChain.mem {state : IcebergTableState} {id : Option Int64}
    {chain : List SnapshotInfo} (h : ParentChain state id chain) :
    ∀ snap ∈ chain, snap ∈ state.snapshots := by
  induction h with
  | root => exact fun snap hsnap => absurd hsnap List.not_mem_nil
  | missing => exact fun snap hsnap => absurd hsnap List.not_mem_nil
  | step hsome _ ih => exact List.forall_mem_cons.mpr ⟨List.mem_of_find?_eq_some hsome, ih⟩

/-- The files of a snapshot of a table that has been loaded are listed, each of them once, exactly
when no snapshot that the walk comes to is an ancestor of itself. -/
theorem listsOnce_iff (metadata : Value) (path : String) (id : Int64) :
    (∃ chain, ListsOnce (stateOf metadata path) id chain) ↔
      Acyclic (parents (stateOf metadata path)) id := by
  rw [← exists_parentChain_iff]
  constructor
  · rintro ⟨chain, h⟩
    exact ⟨chain, h.visits⟩
  · rintro ⟨chain, h⟩
    have hnone : chainPaths chain = [] := chainPaths_eq_nil_iff.mpr fun snap hsnap =>
      dataFiles_stateOf metadata path snap (h.mem snap hsnap)
    refine ⟨chain, h, collects_iff.mpr ⟨chain, h, rfl⟩, h.nodup, ?_⟩
    rw [hnone]
    exact List.nodup_nil

/-- A table with one snapshot, which is its own parent. -/
def selfParent : Value :=
  .obj [("current-snapshot-id", .num 1000),
    ("snapshots", .arr [.obj [("snapshot-id", .num 1000), ("parent-snapshot-id", .num 1000)]])]

/-- The walk along the parents of the snapshot never ends. -/
theorem not_listsOnce_selfParent : ¬ ∀ (metadata : Value) (path : String) (id : Int64),
    ∃ chain, ListsOnce (stateOf metadata path) id chain := by
  intro h
  obtain ⟨chain, hchain⟩ := h selfParent "orders/metadata/v2.metadata.json" 1000
  have hstep : (1000 : Int64) ∈
      parents (stateOf selfParent "orders/metadata/v2.metadata.json") 1000 := by decide +kernel
  exact not_dependsOn_self hchain.visits.acc (Relation.TransGen.single hstep)

end RustLake.Iceberg
