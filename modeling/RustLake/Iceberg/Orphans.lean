import RustLake.Iceberg.History

/-! What orphan cleanup deletes. A loaded state has no data files, so the cleaner takes
every data file below its prefix for an orphan. -/
namespace RustLake.Iceberg
open RustLake.Json RustLake.ObjectStore RustLake.Text

variable {Row : Type}

section Cleanup
variable (size : Object Row → ℕ)

theorem store_deleteOrphans (items : List ObjectMeta) (faults : Faults)
    (s : Store (Object Row)) :
    (run size (deleteOrphans items) faults s).store =
      s.eraseAll (faults.passed (items.map (·.location))) := by
  induction items generalizing faults s with
  | nil => rfl
  | cons item rest ih =>
    rw [deleteOrphans, run_delete, store_run_map, ih, List.map_cons, Faults.passed]
    cases h0 : faults 0 with
    | none => rw [effect_of_none h0, Store.eraseAll_cons]
    | some e => rw [effect_of_some h0]

/-- The keys that a cleanup deletes among the listed ones it takes for orphans. -/
def cleanedKeys (isOrphan : Path → Bool) (s : Store (Object Row)) (dataPrefix : String)
    (faults : Faults) : List Path :=
  match faults 0 with
  | none => faults.next.passed ((s.listing (Path.ofText dataPrefix)).filter isOrphan)
  | some _ => []

theorem run_removeOrphanFiles (state : IcebergTableState) (dataPrefix : String)
    (faults : Faults) (s : Store (Object Row)) :
    (run size (removeOrphanFiles state dataPrefix) faults s).store =
      s.eraseAll (cleanedKeys (isOrphan state) s dataPrefix faults) := by
  unfold removeOrphanFiles cleanedKeys
  cases h0 : faults 0 with
  | some e => simp [run, answer_of_some h0]
  | none =>
    simp only [run, answer_of_none h0, Program.orFail_ok, Program.done_bind]
    rw [store_deleteOrphans, List.filter_map, List.map_map]
    simp [Function.comp_def]

end Cleanup

/-- A path is not both a `.parquet` and a `.json` path. -/
theorem not_json_of_parquet {text : List Char} (hparquet : ".parquet".toList <:+ text) :
    ¬ ".json".toList <:+ text := by
  intro hjson
  have hlen : ".json".toList.length ≤ ".parquet".toList.length := by decide
  exact absurd (List.suffix_of_suffix_length_le hjson hparquet hlen) (by decide)

theorem parquet_of_isDataKey {key : Path} (h : isDataKey key = true) :
    ".parquet".toList <:+ key.toList :=
  of_decide_eq_true ((Bool.and_eq_true _ _).mp h).2

/-- For a loaded state every data key is an orphan: its snapshots carry no data files, and
their manifest lists are `.json` paths. -/
theorem isOrphan_eq_isDataKey {metadata : Value} {path : Path} (h : JsonManifests metadata) :
    isOrphan (stateOf metadata path) = isDataKey := by
  funext key
  unfold isOrphan
  cases hkey : isDataKey key with
  | false => rfl
  | true =>
    have hparquet := parquet_of_isDataKey hkey
    suffices hnot : key ∉ referencedPaths (stateOf metadata path) by simpa using hnot
    intro hmem
    obtain ⟨snap, hsnap, href⟩ := List.mem_flatMap.mp hmem
    have hjson : ".json".toList <:+ key.toList := by
      rcases List.mem_append.mp href with hfile | hmanifest
      · obtain ⟨e, -, rfl⟩ := List.mem_map.mp hsnap
        exact absurd hfile List.not_mem_nil
      · split_ifs at hmanifest
        · exact absurd hmanifest List.not_mem_nil
        · rw [List.mem_singleton.mp hmanifest]
          exact h snap hsnap
    exact not_json_of_parquet hparquet hjson

/-- The key of a data file recorded for a snapshot that the state still lists. -/
def LiveKey (w : History Row) (state : IcebergTableState) (key : Path) : Prop :=
  ∃ snap ∈ state.snapshots, ∃ files, (snap.snapshotId, files) ∈ w.recorded ∧
    ∃ df ∈ files, Path.ofText df.filePath = key

section Runs
variable (size : Object Row → ℕ)

/-- A cleanup keeps every `.parquet` object that a listed snapshot recorded. -/
def KeepsLiveData (w : History Row) (state : IcebergTableState) (dataPrefix : String)
    (faults : Faults) : Prop :=
  ∀ key, LiveKey w state key → ".parquet".toList <:+ key.toList → key ∈ w.store →
    key ∈ (run size (removeOrphanFiles state dataPrefix) faults w.store).store

variable {size} {tablePrefix : String}

/-- In every history a cleanup keeps the live data exactly when none of it is among the
listed data keys whose delete goes through. -/
theorem keepsLiveData_iff {w : History Row} (hw : Reached size tablePrefix w) {path : Path}
    {state : IcebergTableState}
    (hview : tableView size tablePrefix w.store = .ok (some (path, state)))
    (dataPrefix : String) (faults : Faults) :
    KeepsLiveData size w state dataPrefix faults ↔
      ∀ key ∈ cleanedKeys isDataKey w.store dataPrefix faults, ¬ LiveKey w state key := by
  have hstate := (eq_stateOf_of_tableView size hview).1
  have horphan : isOrphan state = isDataKey := by
    rw [hstate]
    exact isOrphan_eq_isDataKey (hw.jsonManifests hview)
  unfold KeepsLiveData
  rw [run_removeOrphanFiles, horphan]
  constructor
  · intro hkeeps key hcleaned hlive
    have hlisted : key ∈ (w.store.listing (Path.ofText dataPrefix)).filter isDataKey := by
      unfold cleanedKeys at hcleaned
      split at hcleaned
      · exact Faults.mem_of_mem_passed hcleaned
      · exact absurd hcleaned List.not_mem_nil
    obtain ⟨hmem, hdata⟩ := List.mem_filter.mp hlisted
    have hpresent : key ∈ w.store := (Store.mem_listing.mp hmem).1
    have hkept := hkeeps key hlive (parquet_of_isDataKey hdata) hpresent
    exact (Store.mem_eraseAll.mp hkept).2 hcleaned
  · intro hclean key hlive _ hpresent
    exact Store.mem_eraseAll.mpr ⟨hpresent, fun hcleaned => hclean key hcleaned hlive⟩

end Runs

section Orders

private def ordersPart : Path := "orders/part-0.parquet"

private def uploaded : History ℕ :=
  { store := (∅ : Store (Object ℕ)).insert ordersPart (.parquet [1, 2, 3] 900), recorded := [] }

private def createOrders : Commit :=
  .create [⟨"id", .int64, false⟩] [⟨ordersPart, 900, 3⟩] "c5b1" "lake" 1000

/-- An upload of one data file and the creation of a table over it. -/
def createdOrders : History ℕ :=
  uploaded.commit (fun _ => 0) "orders" createOrders (stateOf .null "") noFaults

def createdState : IcebergTableState :=
  stateOf (initialMetadata "s3://lake/orders" [⟨"id", .int64, false⟩] [⟨ordersPart, 900, 3⟩]
    "c5b1" 1000) "orders/metadata/v1.metadata.json"

private theorem reached_createdOrders : Reached (fun _ => 0) "orders" createdOrders := by
  have huploaded : Reached (fun _ => 0) "orders" uploaded :=
    .upload .empty ordersPart (.parquet [1, 2, 3] 900) (by simp)
  have hstart : createOrders.StartsFrom (fun _ => 0) "orders" uploaded.store (stateOf .null "") :=
    trivial
  exact .commit huploaded hstart noFaults

private theorem view_createdOrders : tableView (fun _ => 0) "orders" createdOrders.store =
    .ok (some ("orders/metadata/v1.metadata.json", createdState)) := by rfl

private theorem liveKey_createdOrders : LiveKey createdOrders createdState ordersPart :=
  ⟨_, List.mem_cons_self, [⟨ordersPart, 900, 3⟩], by decide +kernel, _, List.mem_cons_self,
    by decide +kernel⟩

theorem keepsLiveData_iff_createdOrders :
    KeepsLiveData (fun _ => 0) createdOrders createdState "orders" noFaults ↔
      ∀ key ∈ cleanedKeys isDataKey createdOrders.store "orders" noFaults,
        ¬ LiveKey createdOrders createdState key :=
  keepsLiveData_iff reached_createdOrders view_createdOrders "orders" noFaults

/-- Cleaning up a table right after its creation deletes its only data file. -/
theorem not_keepsLiveData_createdOrders :
    Reached (fun _ => 0) "orders" createdOrders ∧
    tableView (fun _ => 0) "orders" createdOrders.store =
      .ok (some ("orders/metadata/v1.metadata.json", createdState)) ∧
    ¬ KeepsLiveData (fun _ => 0) createdOrders createdState "orders" noFaults := by
  refine ⟨reached_createdOrders, view_createdOrders, fun hkeeps => ?_⟩
  have hkept := hkeeps ordersPart liveKey_createdOrders (by decide) (by decide +kernel)
  rw [run_removeOrphanFiles] at hkept
  exact absurd hkept (by decide +kernel)

end Orders
end RustLake.Iceberg
