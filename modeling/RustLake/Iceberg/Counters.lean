import RustLake.Iceberg.TimeTravel

/-! The counters of Iceberg metadata: sequence numbers of snapshots, and the last sequence number
and partition field id that were given out. Commits compute them anew from what the table lists. -/
namespace RustLake.Iceberg
open RustLake.Json RustLake.ObjectStore RustLake.Text

def sequenceNumbers (doc : Value) : List ℤ :=
  (arrayAt doc "snapshots").map fun entry => intAt entry "sequence-number"

def lastSequenceNumber (doc : Value) : ℤ := intAt doc "last-sequence-number"

def partitionFieldIds (doc : Value) : List ℤ :=
  (parsePartitionSpecs doc).flatMap fun spec => spec.fields.map fun f => f.fieldId.toInt

def lastPartitionId (doc : Value) : ℤ := intAt doc "last-partition-id"

/-- The sequence number of the snapshot that a commit wrote. -/
def issuedBy (e : Commit × IcebergTableState) : Option ℤ :=
  if e.1.addsSnapshot then (sequenceNumbers e.2.metadata).getLast? else none

/-- The sequence numbers given out in a trace, the latest first. -/
def issued (trace : List (Commit × IcebergTableState)) : List ℤ := trace.filterMap issuedBy

/-- Sequence numbers increase with every commit, and each counter is a high-water mark. -/
structure HighWater (trace : List (Commit × IcebergTableState)) (state : IcebergTableState) :
    Prop where
  increasing : (issued trace).Pairwise fun later earlier => earlier < later
  sequence_le : ∀ n ∈ issued trace, n ≤ lastSequenceNumber state.metadata
  lastSequence : (trace.map fun e => lastSequenceNumber e.2.metadata).Pairwise
    fun later earlier => earlier ≤ later
  partition_le : ∀ id ∈ partitionFieldIds state.metadata, id ≤ lastPartitionId state.metadata
  lastPartition : (trace.map fun e => lastPartitionId e.2.metadata).Pairwise
    fun later earlier => earlier ≤ later

def Commit.isExpire : Commit → Bool
  | .expire .. => true
  | _ => false

/-- Nothing has expired before an append, and it adds enough files to reach the last sequence
number; the fields of a new partition spec, or its own id, reach the last partition id. -/
def ReachesCounters : List (Commit × IcebergTableState) → Commit → Prop
  | (last, state) :: trace, .append newDataFiles _ _ _ =>
    (∀ e ∈ (last, state) :: trace, e.1.isExpire = false) ∧
      lastSequenceNumber state.metadata ≤ state.snapshots.length + newDataFiles.length
  | (_, state) :: _, .evolvePartition newFields _ => lastPartitionId state.metadata ≤
      (((newFields.map (·.fieldId)).max?).getD (newSpecId state)).toInt
  | _, _ => True

theorem partitionFieldIds_congr {v w : Value}
    (h : w.get "partition-specs" = v.get "partition-specs") :
    partitionFieldIds w = partitionFieldIds v := by
  unfold partitionFieldIds parsePartitionSpecs
  rw [arrayAt_congr h]

/-- A written partition field reads back as itself. -/
theorem parsePartitionField_specFieldValue (f : PartitionField) :
    parsePartitionField (specFieldValue f) = f := by
  have hsource : (specFieldValue f).get "source-id" = some (.ofI32 f.sourceId) := rfl
  have hfield : (specFieldValue f).get "field-id" = some (.ofI32 f.fieldId) := rfl
  have hname : (specFieldValue f).get "name" = some (.str f.name) := rfl
  have htransform : (specFieldValue f).get "transform" = some (.str f.transform) := rfl
  simp [parsePartitionField, i32At, i64At, strAt, hsource, hfield, hname, htransform, asI64_ofI32,
    Value.asStr]

section Documents
variable {state : IcebergTableState} {doc : Value} {nowMs : Int64}

theorem sequenceNumbers_appended {files : List DataFileInfo} {schema : ArrowSchema}
    {operation : String} (h : appendedMetadata state files schema operation nowMs = some doc)
    (hstate : WellFormed state.metadata) :
    sequenceNumbers doc =
      sequenceNumbers state.metadata ++ [(state.snapshots.length : ℤ) + 1] := by
  unfold sequenceNumbers
  rw [snapshots_appendedMetadata h (hstate "snapshots" (by decide)), List.map_append]
  rfl

theorem partitionFieldIds_repartitioned {newFields : List PartitionField}
    (h : repartitionedMetadata state newFields nowMs = some doc)
    (hstate : WellFormed state.metadata) :
    partitionFieldIds doc =
      partitionFieldIds state.metadata ++ newFields.map fun f => f.fieldId.toInt := by
  have hfields : (newFields.map specFieldValue).map parsePartitionField = newFields := by
    rw [List.map_map]
    exact List.map_id'' parsePartitionField_specFieldValue _
  unfold partitionFieldIds parsePartitionSpecs
  rw [specs_repartitionedMetadata h (hstate "partition-specs" (by decide)), List.map_append,
    List.flatMap_append]
  congr 1
  simp only [List.map_cons, List.map_nil, List.flatMap_cons, List.flatMap_nil, List.append_nil]
  exact congrArg (List.map fun f => f.fieldId.toInt) hfields

end Documents

/-- What a commit must do for the counters to stay high-water marks. -/
theorem HighWater.extend {c last : Commit} {state made : IcebergTableState}
    {trace : List (Commit × IcebergTableState)} (h : HighWater ((last, state) :: trace) state)
    (hissued : ∀ n, issuedBy (c, made) = some n →
      (∀ k ∈ issued ((last, state) :: trace), k < n) ∧ n ≤ lastSequenceNumber made.metadata)
    (hsequence : lastSequenceNumber state.metadata ≤ lastSequenceNumber made.metadata)
    (hpartition : lastPartitionId state.metadata ≤ lastPartitionId made.metadata)
    (hfields : ∀ id ∈ partitionFieldIds made.metadata,
      id ∈ partitionFieldIds state.metadata ∨ id ≤ lastPartitionId made.metadata) :
    HighWater ((c, made) :: (last, state) :: trace) made := by
  refine ⟨?_, ?_, ?_, ?_, ?_⟩
  · unfold issued
    rw [List.filterMap_cons]
    cases hn : issuedBy (c, made) with
    | none => exact h.increasing
    | some n => exact List.pairwise_cons.mpr ⟨(hissued n hn).1, h.increasing⟩
  · intro n hn
    unfold issued at hn
    rw [List.filterMap_cons] at hn
    cases hnew : issuedBy (c, made) with
    | none =>
      rw [hnew] at hn
      exact (h.sequence_le n hn).trans hsequence
    | some k =>
      rw [hnew] at hn
      rcases List.mem_cons.mp hn with rfl | hold
      · exact (hissued n hnew).2
      · exact (h.sequence_le n hold).trans hsequence
  · refine List.pairwise_cons.mpr ⟨fun n hn => ?_, h.lastSequence⟩
    rcases List.mem_cons.mp hn with rfl | hold
    · exact hsequence
    · exact ((List.pairwise_cons.mp h.lastSequence).1 n hold).trans hsequence
  · intro id hid
    rcases hfields id hid with hold | hnew
    · exact (h.partition_le id hold).trans hpartition
    · exact hnew
  · refine List.pairwise_cons.mpr ⟨fun n hn => ?_, h.lastPartition⟩
    rcases List.mem_cons.mp hn with rfl | hold
    · exact hpartition
    · exact ((List.pairwise_cons.mp h.lastPartition).1 n hold).trans hpartition

/-- The fields of a new spec do not exceed the greatest of them. -/
theorem fieldId_le_max {newFields : List PartitionField} {f : PartitionField}
    (hf : f ∈ newFields) (default : Int32) :
    f.fieldId.toInt ≤ (((newFields.map (·.fieldId)).max?).getD default).toInt := by
  cases hmax : (newFields.map (·.fieldId)).max? with
  | none =>
    rw [List.max?_eq_none_iff, List.map_eq_nil_iff] at hmax
    subst hmax
    cases hf
  | some m =>
    have hle := (List.max?_eq_some_iff.mp hmax).2 _ (List.mem_map_of_mem hf)
    exact Int32.le_iff_toInt_le.mp hle

section Run
variable {tablePrefix : String}

/-- While nothing has expired the table lists at least as many snapshots as numbers were given
out. -/
def CountsIssued (trace : List (Commit × IcebergTableState)) (state : IcebergTableState) : Prop :=
  (∀ e ∈ trace, e.1.isExpire = false) → ∀ n ∈ issued trace, n ≤ state.snapshots.length

theorem highWater_create {c : Commit} {state made : IcebergTableState}
    (h : c.Makes tablePrefix state made) (hc : c.isCreate = true) :
    HighWater [(c, made)] made ∧ CountsIssued [(c, made)] made := by
  cases c with
  | create schema files tableUuid bucket nowMs =>
    obtain ⟨doc, ⟨hfiles, rfl⟩, rfl⟩ := h.produces
    have hissued : issued [(.create schema files tableUuid bucket nowMs,
        stateOf (initialMetadata ("s3://" ++ bucket ++ "/" ++ tablePrefix) schema files tableUuid
          nowMs) (tablePrefix ++ "/metadata/v1.metadata.json"))] = [1] := rfl
    have hlast : lastSequenceNumber (initialMetadata ("s3://" ++ bucket ++ "/" ++ tablePrefix)
        schema files tableUuid nowMs) = files.length := rfl
    have hpos : 0 < files.length := List.length_pos_iff.mpr hfiles
    refine ⟨⟨?_, ?_, List.pairwise_singleton _ _, ?_, List.pairwise_singleton _ _⟩, ?_⟩
    · exact hissued ▸ List.pairwise_singleton _ _
    · intro n hn
      rw [show n = 1 from List.mem_singleton.mp (hissued ▸ hn)]
      have hle : (1 : ℤ) ≤ files.length := by omega
      exact hlast ▸ hle
    · exact fun id hid => absurd hid List.not_mem_nil
    · intro _ n hn
      rw [show n = 1 from List.mem_singleton.mp (hissued ▸ hn)]
      exact le_refl _
  | _ => cases hc

theorem issuedBy_append {files : List DataFileInfo} {schema : ArrowSchema} {operation : String}
    {nowMs : Int64} {state : IcebergTableState} {doc : Value} {path : String}
    (h : appendedMetadata state files schema operation nowMs = some doc)
    (hstate : WellFormed state.metadata) :
    issuedBy (.append files schema operation nowMs, stateOf doc path) =
      some ((state.snapshots.length : ℤ) + 1) := by
  unfold issuedBy
  have hnumbers : sequenceNumbers (stateOf doc path).metadata = _ := sequenceNumbers_appended h hstate
  rw [hnumbers]
  simp [Commit.addsSnapshot]

theorem issuedBy_of_keeps {c : Commit} (hc : c.addsSnapshot = false) (made : IcebergTableState) :
    issuedBy (c, made) = none := by
  unfold issuedBy
  simp [hc]

theorem issued_of_keeps {c : Commit} (hc : c.addsSnapshot = false) (made : IcebergTableState)
    (trace : List (Commit × IcebergTableState)) : issued ((c, made) :: trace) = issued trace := by
  unfold issued
  rw [List.filterMap_cons, issuedBy_of_keeps hc]

theorem CountsIssued.keep {c : Commit} {state made : IcebergTableState}
    {trace : List (Commit × IcebergTableState)} (h : CountsIssued trace state)
    (hc : c.addsSnapshot = false)
    (hsnaps : c.isExpire = false → made.snapshots = state.snapshots) :
    CountsIssued ((c, made) :: trace) made := by
  intro hnone n hn
  rw [issued_of_keeps hc] at hn
  rw [hsnaps (hnone _ List.mem_cons_self)]
  exact h (fun e he => hnone e (List.mem_cons_of_mem _ he)) n hn

/-- An append before any expiry numbers its snapshot past all others. -/
theorem highWater_append {files : List DataFileInfo} {schema : ArrowSchema} {operation : String}
    {nowMs : Int64} {last : Commit} {state made : IcebergTableState}
    {trace : List (Commit × IcebergTableState)}
    (h : HighWater ((last, state) :: trace) state) (hcounts : CountsIssued ((last, state) :: trace) state)
    (hwell : WellFormed state.metadata) (hloaded : ∃ path, state = stateOf state.metadata path)
    (hallowed : ReachesCounters ((last, state) :: trace) (.append files schema operation nowMs))
    (hmakes : (Commit.append files schema operation nowMs).Makes tablePrefix state made) :
    HighWater ((.append files schema operation nowMs, made) :: (last, state) :: trace) made ∧
      CountsIssued ((.append files schema operation nowMs, made) :: (last, state) :: trace) made := by
  obtain ⟨doc, ⟨hfiles, hdoc⟩, rfl⟩ := hmakes.produces
  obtain ⟨hexpired, hreaches⟩ := hallowed
  have hnew : issuedBy (.append files schema operation nowMs, stateOf doc
      ((Commit.append files schema operation nowMs).target tablePrefix state)) =
        some ((state.snapshots.length : ℤ) + 1) := issuedBy_append hdoc hwell
  have hsequence : lastSequenceNumber doc = state.snapshots.length + files.length := by
    unfold lastSequenceNumber intAt
    rw [get_sequence_appendedMetadata hdoc]
  have hpos : 0 < files.length := List.length_pos_iff.mpr hfiles
  constructor
  · refine h.extend ?_ ?_ ?_ ?_
    · intro n hn
      obtain rfl := Option.some.inj (hnew.symm.trans hn)
      refine ⟨fun k hk => ?_, ?_⟩
      · have hle := hcounts hexpired k hk
        omega
      · change _ ≤ lastSequenceNumber doc
        omega
    · change _ ≤ lastSequenceNumber doc
      omega
    · exact le_of_eq (intAt_congr (get_appendedMetadata hdoc (by decide))).symm
    · intro id hid
      exact Or.inl ((partitionFieldIds_congr (get_appendedMetadata hdoc (by decide))) ▸ hid)
  · intro hnone n hn
    obtain ⟨-, snap, hsnaps, -⟩ := appended_snapshots hmakes hwell hloaded
    have hlen : (stateOf doc ((Commit.append files schema operation nowMs).target tablePrefix
        state)).snapshots.length = state.snapshots.length + 1 := by
      rw [hsnaps, List.length_append, List.length_singleton]
    unfold issued at hn
    rw [List.filterMap_cons, hnew] at hn
    rcases List.mem_cons.mp hn with rfl | hold
    · omega
    · have hle := hcounts hexpired n hold
      omega

/-- A new partition spec whose greatest field id is not below the last one raises that counter. -/
theorem highWater_evolvePartition {newFields : List PartitionField} {nowMs : Int64} {last : Commit}
    {state made : IcebergTableState} {trace : List (Commit × IcebergTableState)}
    (h : HighWater ((last, state) :: trace) state) (hwell : WellFormed state.metadata)
    (hallowed : ReachesCounters ((last, state) :: trace) (.evolvePartition newFields nowMs))
    (hmakes : (Commit.evolvePartition newFields nowMs).Makes tablePrefix state made) :
    HighWater ((.evolvePartition newFields nowMs, made) :: (last, state) :: trace) made := by
  obtain ⟨doc, hdoc, rfl⟩ := hmakes.produces
  have hlast : lastPartitionId doc =
      (((newFields.map (·.fieldId)).max?).getD (newSpecId state)).toInt := by
    unfold lastPartitionId intAt
    rw [get_lastPartition_repartitionedMetadata hdoc]
    rfl
  refine h.extend ?_ ?_ ?_ ?_
  · intro n hn
    rw [issuedBy_of_keeps rfl] at hn
    cases hn
  · exact le_of_eq (intAt_congr (get_repartitionedMetadata hdoc (by decide))).symm
  · exact hlast ▸ hallowed
  · intro id hid
    have hfields := partitionFieldIds_repartitioned hdoc hwell
    rcases List.mem_append.mp (hfields ▸ hid) with hold | hnew
    · exact Or.inl hold
    · obtain ⟨f, hf, rfl⟩ := List.mem_map.mp hnew
      exact Or.inr (hlast ▸ fieldId_le_max hf (newSpecId state))

/-- A commit that leaves the counters and the specs alone and adds no snapshot. -/
theorem HighWater.keep {c last : Commit} {state made : IcebergTableState}
    {trace : List (Commit × IcebergTableState)} (h : HighWater ((last, state) :: trace) state)
    (hc : c.addsSnapshot = false)
    (hget : ∀ key ∈ ["last-sequence-number", "last-partition-id", "partition-specs"],
      made.metadata.get key = state.metadata.get key) :
    HighWater ((c, made) :: (last, state) :: trace) made := by
  refine h.extend ?_ ?_ ?_ ?_
  · intro n hn
    rw [issuedBy_of_keeps hc] at hn
    cases hn
  · exact le_of_eq (intAt_congr (hget _ (by decide))).symm
  · exact le_of_eq (intAt_congr (hget _ (by decide))).symm
  · exact fun id hid => Or.inl (partitionFieldIds_congr (hget _ (by decide)) ▸ hid)

/-- While every append and every new partition spec reaches the counters they are high-water
marks. -/
theorem highWater_counts {c : Commit} {state : IcebergTableState}
    {trace : List (Commit × IcebergTableState)}
    (h : Trace tablePrefix ReachesCounters ((c, state) :: trace)) :
    HighWater ((c, state) :: trace) state ∧ CountsIssued ((c, state) :: trace) state := by
  generalize htrace : (c, state) :: trace = full at h
  induction h generalizing c state trace with
  | create hcreate hallowed hmakes =>
    obtain ⟨⟨rfl, rfl⟩, rfl⟩ := by simpa using htrace
    exact highWater_create hmakes hcreate
  | @commit c' last state₀ made trace' htrace' hc hallowed hmakes ih =>
    obtain ⟨⟨rfl, rfl⟩, rfl⟩ := by simpa using htrace
    obtain ⟨hold, hcounts⟩ := ih rfl
    obtain ⟨hwell, hloaded⟩ := htrace'.wellFormed List.mem_cons_self
    cases c with
    | create => cases hc
    | append files schema operation nowMs =>
      exact highWater_append hold hcounts hwell hloaded hallowed hmakes
    | evolvePartition newFields nowMs =>
      refine ⟨highWater_evolvePartition hold hwell hallowed hmakes, ?_⟩
      exact hcounts.keep rfl fun _ => kept_snapshots hmakes rfl hloaded
    | evolveSchema changes nowMs =>
      refine ⟨hold.keep rfl ?_, hcounts.keep rfl fun _ => kept_snapshots hmakes rfl hloaded⟩
      obtain ⟨doc, ⟨-, _, _, -, -, hdoc⟩, rfl⟩ := hmakes.produces
      exact fun key hkey => get_evolvedMetadata hdoc (by revert key; decide)
    | expire olderThanMs retainLastN nowMs =>
      refine ⟨hold.keep rfl ?_, hcounts.keep rfl fun hexpire => by cases hexpire⟩
      obtain ⟨doc, ⟨-, hdoc⟩, rfl⟩ := hmakes.produces
      exact fun key hkey => get_expiredMetadata hdoc (by revert key; decide)

/-- In a run whose commits all meet the condition the sequence numbers increase and the counters
are high-water marks. -/
theorem highWater_of_reachesCounters {c : Commit} {state : IcebergTableState}
    {trace : List (Commit × IcebergTableState)}
    (h : Trace tablePrefix ReachesCounters ((c, state) :: trace)) :
    HighWater ((c, state) :: trace) state := (highWater_counts h).1

end Run

section Orders

/-- The metadata after each of three commits on a new table; the second one expires its first
snapshot. -/
def ordersDocs : List Value :=
  let append state nowMs := (appendedMetadata state [⟨"orders/part-1.parquet", 700, 2⟩] tickSchema
    "append" nowMs).getD .null
  let appended := append tickCreated 2000
  let state := stateOf appended "orders/metadata/v2.metadata.json"
  let expired := (expiredMetadata state ((expiredSnapshots state 1500 0).map (·.snapshotId))
    2500).getD .null
  [appended, expired, append (stateOf expired "orders/metadata/v3.metadata.json") 3000]

def ordersState (n : ℕ) : IcebergTableState :=
  stateOf (ordersDocs.getD n .null) ("orders/metadata/v" ++ toString (n + 2) ++ ".metadata.json")

theorem makes_orders_append :
    (tickAppend 2000).Makes "orders" tickCreated (ordersState 0) := by
  have hproduces : (tickAppend 2000).Produces "orders" tickCreated (ordersState 0).metadata :=
    ⟨by simp, by rfl⟩
  exact Commit.makes_of_produces hproduces

/-- An append and a repartition of a new table. -/
theorem highWater_of_reachesCounters_orders :
    ∃ state, Trace "orders" ReachesCounters
        [(.evolvePartition [⟨1, 1000, "id_bucket", "bucket[8]"⟩] 3000, state),
          (tickAppend 2000, ordersState 0), (tickCreate, tickCreated)] ∧
      HighWater [(.evolvePartition [⟨1, 1000, "id_bucket", "bucket[8]"⟩] 3000, state),
        (tickAppend 2000, ordersState 0), (tickCreate, tickCreated)] state := by
  have hcreate : tickCreate.Makes "orders" (stateOf .null "") tickCreated :=
    Commit.makes_of_produces ⟨by simp, rfl⟩
  obtain ⟨doc, hdoc⟩ : ∃ doc,
      (Commit.evolvePartition [⟨1, 1000, "id_bucket", "bucket[8]"⟩] 3000).Produces "orders"
        (ordersState 0) doc := ⟨_, rfl⟩
  have happend : ReachesCounters [(tickCreate, tickCreated)] (tickAppend 2000) := by
    refine ⟨fun e he => ?_, by decide +kernel⟩
    rw [List.mem_singleton.mp he]
    rfl
  have hpartition : ReachesCounters [(tickAppend 2000, ordersState 0), (tickCreate, tickCreated)]
      (.evolvePartition [⟨1, 1000, "id_bucket", "bucket[8]"⟩] 3000) := by
    unfold ReachesCounters
    decide +kernel
  have htrace := Trace.commit (.commit (.create rfl trivial hcreate) rfl happend
    makes_orders_append) rfl hpartition (Commit.makes_of_produces hdoc)
  exact ⟨_, htrace, highWater_of_reachesCounters htrace⟩

/-- After the first of two snapshots has expired the next one takes the number of the second. -/
theorem not_highWater_orders :
    Trace "orders" (fun _ _ => True)
        [(tickAppend 3000, ordersState 2), (.expire 1500 0 2500, ordersState 1),
          (tickAppend 2000, ordersState 0), (tickCreate, tickCreated)] ∧
      ¬ HighWater [(tickAppend 3000, ordersState 2), (.expire 1500 0 2500, ordersState 1),
        (tickAppend 2000, ordersState 0), (tickCreate, tickCreated)] (ordersState 2) := by
  have hcreate : tickCreate.Makes "orders" (stateOf .null "") tickCreated :=
    Commit.makes_of_produces ⟨by simp, rfl⟩
  have hexpire : (Commit.expire 1500 0 2500).Makes "orders" (ordersState 0) (ordersState 1) := by
    have hproduces : (Commit.expire 1500 0 2500).Produces "orders" (ordersState 0)
        (ordersState 1).metadata := ⟨by decide +kernel, by rfl⟩
    exact Commit.makes_of_produces hproduces
  have happend : (tickAppend 3000).Makes "orders" (ordersState 1) (ordersState 2) := by
    have hproduces : (tickAppend 3000).Produces "orders" (ordersState 1)
        (ordersState 2).metadata := ⟨by simp, by rfl⟩
    exact Commit.makes_of_produces hproduces
  refine ⟨.commit (.commit (.commit (.create rfl trivial hcreate) rfl trivial
    makes_orders_append) rfl trivial hexpire) rfl trivial happend, fun h => ?_⟩
  have hnumbers : issued [(tickAppend 3000, ordersState 2), (.expire 1500 0 2500, ordersState 1),
      (tickAppend 2000, ordersState 0), (tickCreate, tickCreated)] = [2, 2, 1] := by decide +kernel
  have hincreasing := h.increasing
  rw [hnumbers] at hincreasing
  exact absurd hincreasing (by decide)

end Orders
end RustLake.Iceberg
