import RustLake.Iceberg.Columns
import RustLake.Iceberg.Interleaving

/-! What a commit adds to the lists of a metadata document and what it takes out, and when the
newest document of a table that several committers share still has it. -/
namespace RustLake.Iceberg
open RustLake.Json RustLake.ObjectStore RustLake.Text

def schemaEntry (id : Int32) (fields : List Value) : Value :=
  .obj [("type", .str "struct"), ("schema-id", .ofI32 id), ("fields", .arr fields)]

/-- The snapshots that a commit adds. -/
def Commit.newSnapshots (tablePrefix : String) (base : IcebergTableState) : Commit → List Value
  | .create schema files tableUuid bucket nowMs => arrayAt (initialMetadata
      ("s3://" ++ bucket ++ "/" ++ tablePrefix) schema files tableUuid nowMs) "snapshots"
  | .append files _ operation nowMs => [snapshotEntry base files operation nowMs]
  | _ => []

/-- The schema versions that a commit adds. -/
def Commit.newSchemas (tablePrefix : String) (base : IcebergTableState) : Commit → List Value
  | .create schema files tableUuid bucket nowMs => arrayAt (initialMetadata
      ("s3://" ++ bucket ++ "/" ++ tablePrefix) schema files tableUuid nowMs) "schemas"
  | .append _ schema _ _ =>
    if schema.length = currentFields base then []
    else [schemaEntry (base.currentSchemaId + 1) (icebergFields schema)]
  | .evolveSchema changes _ => match changes.foldlM applyChange (evolutionStart base) with
    | .ok new => [schemaEntry (base.currentSchemaId + 1) (new.1.map fieldValue)]
    | .error _ => []
  | _ => []

/-- The partition specs that a commit adds. -/
def Commit.newSpecs (tablePrefix : String) (base : IcebergTableState) : Commit → List Value
  | .create schema files tableUuid bucket nowMs => arrayAt (initialMetadata
      ("s3://" ++ bucket ++ "/" ++ tablePrefix) schema files tableUuid nowMs) "partition-specs"
  | .evolvePartition newFields _ => [.obj [("spec-id", .ofI32 (newSpecId base)),
      ("fields", .arr (newFields.map specFieldValue))]]
  | _ => []

/-- The ids of the snapshots that a commit takes out. -/
def Commit.expiredIds (base : IcebergTableState) : Commit → List Int64
  | .expire olderThanMs retainLastN _ =>
    (expiredSnapshots base olderThanMs retainLastN).map (·.snapshotId)
  | _ => []

/-- The number of the version that a commit makes. -/
def Commit.version (base : IcebergTableState) (c : Commit) : Int32 :=
  if c.isCreate then 1 else base.metadataVersion + 1

/-- The later commit was computed from the version that the earlier one made, or one after it. -/
def Sees (later earlier : Commit × IcebergTableState) : Prop :=
  later.1.isCreate = false ∧ earlier.1.version earlier.2 ≤ later.2.metadataVersion

section Model
variable {Row ι : Type} (size : Object Row → ℕ) (tablePrefix : String)

/-- The commit has returned, or a committer is at it. -/
def World.Started (w : World ι Row) (e : Commit × IcebergTableState) : Prop :=
  e ∈ w.finished ∨ ∃ i rest, (w.committers i).activity = .committing e.1 e.2 rest

/-- The document has what the commit added, but for snapshots that were expired since, and it has
nothing that the commit took out, but for snapshots that were added since. -/
structure Reflected (started : Commit × IcebergTableState → Prop)
    (e : Commit × IcebergTableState) (doc : Value) : Prop where
  snapshots : ∀ entry ∈ e.1.newSnapshots tablePrefix e.2, entry ∈ arrayAt doc "snapshots" ∨
    ∃ since, started since ∧ Sees since e ∧
      i64At entry "snapshot-id" ∈ since.1.expiredIds since.2
  expired : ∀ entry ∈ arrayAt doc "snapshots",
    i64At entry "snapshot-id" ∈ e.1.expiredIds e.2 →
      ∃ since, started since ∧ Sees since e ∧ entry ∈ since.1.newSnapshots tablePrefix since.2
  schemas : ∀ entry ∈ e.1.newSchemas tablePrefix e.2, entry ∈ arrayAt doc "schemas"
  specs : ∀ entry ∈ e.1.newSpecs tablePrefix e.2, entry ∈ arrayAt doc "partition-specs"

/-- Every commit that has returned is reflected in the metadata that readers find. -/
def KeepsCommits (w : World ι Row) : Prop :=
  ∃ key doc, (run size (findLatestMetadata tablePrefix) noFaults w.store).result = .ok (some key) ∧
    w.store.lookup key = some (.json doc) ∧
    ∀ e ∈ w.finished, Reflected tablePrefix w.Started e doc

end Model

section Document
variable {tablePrefix : String} {base : IcebergTableState} {c : Commit} {doc : Value}

theorem withoutIds_nil (entries : List Value) : withoutIds [] entries = entries := by
  unfold withoutIds
  exact List.filter_eq_self.mpr fun e _ => rfl

/-- The snapshots after a commit: those before it that it does not expire, and its own. -/
theorem Commit.Produces.snapshots (h : c.Produces tablePrefix base doc) (hc : c.isCreate = false)
    (hbase : WellFormed base.metadata) : arrayAt doc "snapshots" =
      withoutIds (c.expiredIds base) (arrayAt base.metadata "snapshots") ++
        c.newSnapshots tablePrefix base := by
  cases c with
  | create => cases hc
  | append =>
    rw [snapshots_appendedMetadata h.2 (hbase _ (by decide))]
    exact congrArg (· ++ _) (withoutIds_nil _).symm
  | evolveSchema =>
    obtain ⟨-, _, _, -, -, hdoc⟩ := h
    rw [arrayAt_congr (get_evolvedMetadata hdoc (by decide))]
    exact (withoutIds_nil _).symm.trans (List.append_nil _).symm
  | evolvePartition =>
    rw [arrayAt_congr (get_repartitionedMetadata h (by decide))]
    exact (withoutIds_nil _).symm.trans (List.append_nil _).symm
  | expire => exact (snapshots_expiredMetadata h.2).trans (List.append_nil _).symm

/-- The schema versions after a commit. -/
theorem Commit.Produces.schemas (h : c.Produces tablePrefix base doc) (hc : c.isCreate = false)
    (hbase : WellFormed base.metadata) :
    arrayAt doc "schemas" = arrayAt base.metadata "schemas" ++ c.newSchemas tablePrefix base := by
  cases c with
  | create => cases hc
  | append => exact schemas_appendedMetadata h.2 (hbase _ (by decide))
  | evolveSchema changes nowMs =>
    obtain ⟨-, current, new, hcurrent, hnew, hdoc⟩ := h
    have hadded : (Commit.evolveSchema changes nowMs).newSchemas tablePrefix base =
        [schemaEntry (base.currentSchemaId + 1) (new.1.map fieldValue)] := by
      simp only [Commit.newSchemas, evolutionStart, hcurrent, Option.map_some, Option.getD_some,
        hnew]
    rw [hadded]
    exact schemas_evolvedMetadata hdoc (hbase _ (by decide))
  | evolvePartition =>
    rw [arrayAt_congr (get_repartitionedMetadata h (by decide))]
    exact (List.append_nil _).symm
  | expire =>
    rw [arrayAt_congr (get_expiredMetadata h.2 (by decide))]
    exact (List.append_nil _).symm

/-- The partition specs after a commit. -/
theorem Commit.Produces.specs (h : c.Produces tablePrefix base doc) (hc : c.isCreate = false)
    (hbase : WellFormed base.metadata) : arrayAt doc "partition-specs" =
      arrayAt base.metadata "partition-specs" ++ c.newSpecs tablePrefix base := by
  cases c with
  | create => cases hc
  | append =>
    rw [arrayAt_congr (get_appendedMetadata h.2 (by decide))]
    exact (List.append_nil _).symm
  | evolveSchema =>
    obtain ⟨-, _, _, -, -, hdoc⟩ := h
    rw [arrayAt_congr (get_evolvedMetadata hdoc (by decide))]
    exact (List.append_nil _).symm
  | evolvePartition => exact specs_repartitionedMetadata h (hbase _ (by decide))
  | expire =>
    rw [arrayAt_congr (get_expiredMetadata h.2 (by decide))]
    exact (List.append_nil _).symm

/-- What a commit adds is in the document that it puts. -/
theorem Commit.Produces.adds (h : c.Produces tablePrefix base doc)
    (hbase : c.isCreate = false → WellFormed base.metadata) :
    c.newSnapshots tablePrefix base ⊆ arrayAt doc "snapshots" ∧
      c.newSchemas tablePrefix base ⊆ arrayAt doc "schemas" ∧
      c.newSpecs tablePrefix base ⊆ arrayAt doc "partition-specs" := by
  cases hc : c.isCreate with
  | true =>
    cases c with
    | create =>
      obtain ⟨-, rfl⟩ := h
      exact ⟨List.Subset.refl _, List.Subset.refl _, List.Subset.refl _⟩
    | _ => cases hc
  | false =>
    rw [h.snapshots hc (hbase hc), h.schemas hc (hbase hc), h.specs hc (hbase hc)]
    exact ⟨List.subset_append_right _ _, List.subset_append_right _ _,
      List.subset_append_right _ _⟩

/-- What a commit takes out is not in the document that it puts. -/
theorem Commit.Produces.expires (h : c.Produces tablePrefix base doc) {entry : Value}
    (hentry : entry ∈ arrayAt doc "snapshots") :
    i64At entry "snapshot-id" ∉ c.expiredIds base := by
  cases c with
  | expire =>
    rw [snapshots_expiredMetadata h.2] at hentry
    have hkept := (List.mem_filter.mp hentry).2
    simpa [Commit.expiredIds] using hkept
  | _ => exact List.not_mem_nil

end Document

section Run
variable {Row ι : Type} {size : Object Row → ℕ} {tablePrefix : String} {w : World ι Row}
  {trace above later earlier rest : List (Commit × IcebergTableState)} {c last : Commit}
  {made base : IcebergTableState} {e : Commit × IcebergTableState}

/-- What holds of a table of a trace holds of the last one, unless a commit since has ended it. -/
theorem carry_of_step {P : IcebergTableState → Prop} {Q : Prop} (hstart : P e.2)
    (hstep : ∀ above c made last base rest,
      later ++ e :: earlier = above ++ (c, made) :: (last, base) :: rest →
        earlier.length ≤ rest.length → P base → P made ∨ Q) :
    ∀ first tail, later ++ e :: earlier = first :: tail → P first.2 ∨ Q := by
  induction later with
  | nil =>
    intro first tail heq
    rw [← (List.cons.inj heq).1]
    exact Or.inl hstart
  | cons next later ih =>
    intro first tail heq
    obtain ⟨rfl, -⟩ := List.cons.inj heq
    obtain ⟨second, rest, hrest⟩ : ∃ second rest, later ++ e :: earlier = second :: rest := by
      cases later with
      | nil => exact ⟨_, _, rfl⟩
      | cons second later => exact ⟨_, _, rfl⟩
    have hbelow := ih (fun above c made last base rest heq => hstep (next :: above) c made last
      base rest (by rw [List.cons_append, heq, List.cons_append])) second rest hrest
    have hlen : later.length + (earlier.length + 1) = rest.length + 1 := by
      have hcount := congrArg List.length hrest
      rwa [List.length_append, List.length_cons, List.length_cons] at hcount
    rcases hbelow with hP | hQ
    · refine hstep [] next.1 next.2 second.1 second.2 rest ?_ (by omega) hP
      rw [List.cons_append, hrest]
      rfl
    · exact Or.inr hQ

theorem eq_append_below {next : Commit × IcebergTableState} (h : trace = above ++ next :: e :: rest) :
    trace = (above ++ [next]) ++ e :: rest := by
  rw [h, List.append_assoc]
  rfl

/-- Each later table of the trace was made from the one before it by a commit that has put its
metadata file. -/
theorem Consistent.makes (h : Consistent tablePrefix trace w)
    (heq : trace = above ++ (c, made) :: (last, base) :: rest) :
    c.isCreate = false ∧ c.Produces tablePrefix base made.metadata ∧ w.Started (c, base) := by
  have hmade := h.chain.made
  rw [heq] at hmade
  cases hmade.suffix with
  | commit _ hc _ hmakes =>
    obtain ⟨doc, hdoc, rfl⟩ := hmakes.produces
    refine ⟨hc, hdoc, ?_⟩
    have hin : MadeIn tablePrefix trace (c, base) :=
      ⟨above, _, _, heq, hdoc, fun _ => ⟨last, rest, rfl⟩⟩
    rcases h.started (c, base) hc hin with hfin | ⟨i, rest', hactivity, -⟩
    · exact Or.inl hfin
    · exact Or.inr ⟨i, rest', hactivity⟩

theorem Consistent.wellFormed (h : Consistent tablePrefix trace w)
    (heq : trace = above ++ (last, base) :: rest) : WellFormed base.metadata :=
  (h.chain.located_of_eq heq).wellFormed

theorem Consistent.version (h : Consistent tablePrefix trace w)
    (heq : trace = above ++ (last, base) :: rest) :
    base.metadataVersion = Int32.ofNat (rest.length + 1) ∧ rest.length + 1 < 2 ^ 31 := by
  have hbound := h.chain.bound
  rw [heq, List.length_append, List.length_cons] at hbound
  exact ⟨(h.chain.located_of_eq heq).version (by omega), by omega⟩

/-- A commit makes the version at its place in the trace. -/
theorem Consistent.version_of_madeIn (h : Consistent tablePrefix trace w)
    (heq : trace = later ++ (e.1, made) :: earlier)
    (hbase : e.1.isCreate = false → ∃ last rest, earlier = (last, e.2) :: rest) :
    e.1.version e.2 = Int32.ofNat (earlier.length + 1) := by
  have hmade := h.chain.made
  rw [heq] at hmade
  unfold Commit.version
  cases hmade.suffix with
  | create hc =>
    rw [if_pos hc]
    rfl
  | commit _ hc =>
    obtain ⟨last, rest, hearlier⟩ := hbase hc
    rw [hearlier] at heq ⊢
    rw [hc, (h.version (eq_append_below heq)).1, List.length_cons, Int32.ofNat_add (rest.length + 1)]
    rfl

/-- The commits after one have seen its version. -/
theorem Consistent.sees (h : Consistent tablePrefix trace w)
    (heq : trace = later ++ (e.1, made) :: earlier)
    (hbase : e.1.isCreate = false → ∃ last rest, earlier = (last, e.2) :: rest)
    {next : IcebergTableState} (hnext : trace = above ++ (c, next) :: (last, base) :: rest)
    (hlen : earlier.length ≤ rest.length) : Sees (c, base) e := by
  obtain ⟨hversion, hbound⟩ := h.version (eq_append_below hnext)
  refine ⟨(h.makes hnext).1, ?_⟩
  rw [h.version_of_madeIn heq hbase, hversion, Int32.le_iff_toInt_le,
    Int32.toInt_ofNat_of_lt (by omega), Int32.toInt_ofNat_of_lt hbound]
  omega

/-- What holds of the table that a commit made holds of the last one, unless a commit that has
seen it has ended it. -/
theorem Consistent.carry (h : Consistent tablePrefix trace w)
    (heq : trace = later ++ (e.1, made) :: earlier)
    (hbase : e.1.isCreate = false → ∃ last rest, earlier = (last, e.2) :: rest)
    {P : IcebergTableState → Prop} {Q : Prop} (hstart : P made)
    (hstep : ∀ c base next, c.isCreate = false → c.Produces tablePrefix base next.metadata →
      WellFormed base.metadata → w.Started (c, base) → Sees (c, base) e → P base → P next ∨ Q)
    {first : Commit × IcebergTableState} {tail : List (Commit × IcebergTableState)}
    (hhead : trace = first :: tail) : P first.2 ∨ Q := by
  refine carry_of_step (e := (e.1, made)) hstart ?_ first tail (heq.symm.trans hhead)
  intro above c next last base rest hnext hlen hP
  rw [← heq] at hnext
  obtain ⟨hc, hproduces, hstarted⟩ := h.makes hnext
  exact hstep c base next hc hproduces (h.wellFormed (eq_append_below hnext)) hstarted
    (h.sees heq hbase hnext hlen) hP

/-- What a commit of the trace did is still so in the last document. -/
theorem Consistent.reflected (h : Consistent tablePrefix trace w) (he : MadeIn tablePrefix trace e)
    {first : Commit × IcebergTableState} {tail : List (Commit × IcebergTableState)}
    (hhead : trace = first :: tail) : Reflected tablePrefix w.Started e first.2.metadata := by
  obtain ⟨later, made, earlier, heq, hdoc, hbase⟩ := he
  have hwell : e.1.isCreate = false → WellFormed e.2.metadata := by
    intro hc
    obtain ⟨last, rest, rfl⟩ := hbase hc
    exact h.wellFormed (eq_append_below heq)
  obtain ⟨hsnapshots, hschemas, hspecs⟩ := hdoc.adds hwell
  refine ⟨fun entry hentry => ?_, ?_, fun entry hentry => ?_, fun entry hentry => ?_⟩
  · refine h.carry heq hbase (P := fun state => entry ∈ arrayAt state.metadata "snapshots")
      (hsnapshots hentry) ?_ hhead
    intro c base next hc hproduces hwell hstarted hsees hold
    rw [hproduces.snapshots hc hwell]
    by_cases hexpired : i64At entry "snapshot-id" ∈ c.expiredIds base
    · exact Or.inr ⟨_, hstarted, hsees, hexpired⟩
    · have hkept : entry ∈ withoutIds (c.expiredIds base) (arrayAt base.metadata "snapshots") :=
        List.mem_filter.mpr ⟨hold, by simpa using hexpired⟩
      exact Or.inl (List.mem_append_left _ hkept)
  · refine (h.carry heq hbase (Q := False) (P := fun state =>
      ∀ entry ∈ arrayAt state.metadata "snapshots", i64At entry "snapshot-id" ∈ e.1.expiredIds e.2 →
        ∃ since, w.Started since ∧ Sees since e ∧ entry ∈ since.1.newSnapshots tablePrefix since.2)
      (fun entry hentry hid => absurd hid (hdoc.expires hentry)) ?_ hhead).resolve_right id
    intro c base next hc hproduces hwell hstarted hsees hold
    refine Or.inl fun entry hentry hid => ?_
    rw [hproduces.snapshots hc hwell] at hentry
    rcases List.mem_append.mp hentry with hkept | hnew
    · exact hold entry (List.mem_of_mem_filter hkept) hid
    · exact ⟨_, hstarted, hsees, hnew⟩
  · refine (h.carry heq hbase (Q := False) (P := fun state =>
      entry ∈ arrayAt state.metadata "schemas") (hschemas hentry) ?_ hhead).resolve_right id
    intro c base next hc hproduces hwell _ _ hold
    rw [hproduces.schemas hc hwell]
    exact Or.inl (List.mem_append_left _ hold)
  · refine (h.carry heq hbase (Q := False) (P := fun state =>
      entry ∈ arrayAt state.metadata "partition-specs") (hspecs hentry) ?_ hhead).resolve_right id
    intro c base next hc hproduces hwell _ _ hold
    rw [hproduces.specs hc hwell]
    exact Or.inl (List.mem_append_left _ hold)

/-- Where no put of a metadata file that goes through overwrites another one, the commits of any
number of committers that have returned are all in the newest metadata, whatever the order of
their store calls. -/
theorem keepsCommits_of_interleaved [DecidableEq ι]
    (h : Interleaved size tablePrefix Commit.PlainBucket FreePut w) :
    KeepsCommits size tablePrefix w := by
  obtain ⟨trace, hconsistent⟩ := exists_consistent h
  cases trace with
  | nil => exact absurd hconsistent.chain.made (by rintro ⟨⟩)
  | cons first tail =>
    refine ⟨versionKey tablePrefix (tail.length + 1), first.2.metadata, ?_,
      hconsistent.chain.lookup_head, fun e he => ?_⟩
    · rw [run_findLatestMetadata, hconsistent.chain.latest]
    · exact hconsistent.reflected (hconsistent.finished e he) rfl

end Run

section Orders

def ordersSize : Object ℕ → ℕ := fun _ => 0

/-- A new table with one data file. -/
def ordersFirst : IcebergTableState :=
  stateOf (initialMetadata "s3://lake/orders" [⟨"id", .int64, false⟩]
    [⟨"orders/part-0.parquet", 900, 3⟩] "c5b1" 1000) "orders/metadata/v1.metadata.json"

def ordersBefore : Store (Object ℕ) :=
  (run ordersSize ((ordersCreate "lake").program "orders" ordersFirst) noFaults ∅).store

/-- A file of new orders, appended at the given time. -/
def ordersAppend (nowMs : Int64) : Commit :=
  .append [⟨"orders/part-1.parquet", 900, 3⟩] [⟨"id", .int64, false⟩] "append" nowMs

theorem interleaved_ordersBefore
    (allowed : IcebergTableState → Program (Object ℕ) String → Option String →
      Store (Object ℕ) → Prop) :
    Interleaved ordersSize "orders" Commit.PlainBucket allowed
      (⟨ordersBefore, fun _ => ⟨none, .idle⟩, [(ordersCreate "lake", ordersFirst)]⟩ :
        World Bool ℕ) := by
  have hplain : (ordersCreate "lake").PlainBucket := by
    change '/' ∉ "lake".toList
    decide
  have hrun : (run ordersSize ((ordersCreate "lake").program "orders" ordersFirst) noFaults
      ∅).result = .ok "orders/metadata/v1.metadata.json" := by rfl
  exact .created (by simp) rfl hplain (run_eq_of_result _ hrun)

theorem run_openTable_ordersBefore :
    run ordersSize (openTable "orders") noFaults ordersBefore =
      ⟨.ok (some ("orders/metadata/v1.metadata.json", ordersFirst)), ordersBefore, noFaults⟩ := by
  rfl

/-- A committer that has loaded the first version evolves the partition spec alone. -/
theorem keepsCommits_of_interleaved_orders :
    ∃ w : World Bool ℕ, Interleaved ordersSize "orders" Commit.PlainBucket FreePut w ∧
      w.finished = [(.evolvePartition [] 2000, ordersFirst), (ordersCreate "lake", ordersFirst)] ∧
      KeepsCommits ordersSize "orders" w := by
  have hloaded := (interleaved_ordersBefore FreePut).load_alone (i := true) rfl
    run_openTable_ordersBefore
  have hstarted := hloaded.act_alone (Function.update_self ..)
    (.start (c := .evolvePartition [] 2000) rfl)
  rw [Function.update_idem] at hstarted
  have hfree : FreePut ordersFirst
      ((Commit.evolvePartition [] 2000).program "orders" ordersFirst : Program (Object ℕ) String)
      none ordersBefore := by
    intro _ _
    exact ⟨by decide +kernel, by decide +kernel⟩
  obtain ⟨s', hstep⟩ : ∃ s', Program.step ordersSize none ordersBefore
      ((Commit.evolvePartition [] 2000).program "orders" ordersFirst) =
        some (.done "orders/metadata/v2.metadata.json", s') := ⟨_, rfl⟩
  have hput := hstarted.act_alone (Function.update_self ..) (.call hfree hstep)
  rw [Function.update_idem] at hput
  have hpath : "orders/metadata/v2.metadata.json" ≠ "" := by decide
  have hreturned := hput.act_alone (Function.update_self ..) (.returned hpath)
  exact ⟨_, hreturned, rfl, keepsCommits_of_interleaved hreturned⟩

def ordersAppended : Store (Object ℕ) :=
  (run ordersSize ((ordersAppend 2000).program "orders" ordersFirst) noFaults ordersBefore).store

def ordersOverwritten : Store (Object ℕ) :=
  (run ordersSize ((ordersAppend 3000).program "orders" ordersFirst) noFaults ordersAppended).store

/-- Two committers load the same version and append to it. The second one overwrites the version
that the first one has put. -/
theorem interleaved_ordersOverwritten :
    Interleaved ordersSize "orders" Commit.PlainBucket (fun _ _ _ _ => True)
      (⟨ordersOverwritten, fun _ => ⟨some ordersFirst, .idle⟩, [(ordersAppend 3000, ordersFirst),
        (ordersAppend 2000, ordersFirst), (ordersCreate "lake", ordersFirst)]⟩ :
          World Bool ℕ) := by
  have hfirst : (run ordersSize ((ordersAppend 2000).program "orders" ordersFirst) noFaults
      ordersBefore).result = .ok "orders/metadata/v2.metadata.json" := by rfl
  have hsecond : (run ordersSize ((ordersAppend 3000).program "orders" ordersFirst) noFaults
      ordersAppended).result = .ok "orders/metadata/v2.metadata.json" := by rfl
  have hpath : "orders/metadata/v2.metadata.json" ≠ "" := by decide
  have hloaded := ((interleaved_ordersBefore fun _ _ _ _ => True).load_alone (i := true) rfl
    run_openTable_ordersBefore).load_alone (i := false) rfl run_openTable_ordersBefore
  have hput := hloaded.commit_alone (i := true) rfl rfl (fun _ _ => trivial)
    (run_eq_of_result _ hfirst) hpath
  have hover := hput.commit_alone (i := false) rfl rfl (fun _ _ => trivial)
    (run_eq_of_result _ hsecond) hpath
  convert hover using 2
  · rfl
  · funext i
    cases i with
    | true => rfl
    | false => rfl

/-- The snapshot of the first committer is lost. -/
theorem not_keepsCommits_orders :
    ∃ w : World Bool ℕ, Interleaved ordersSize "orders" Commit.PlainBucket
      (fun _ _ _ _ => True) w ∧ ¬ KeepsCommits ordersSize "orders" w := by
  refine ⟨_, interleaved_ordersOverwritten, ?_⟩
  rintro ⟨key, doc, hkey, hdoc, hall⟩
  have hlatest : (run ordersSize (findLatestMetadata "orders") noFaults ordersOverwritten).result =
      .ok (some "orders/metadata/v2.metadata.json") := by decide +kernel
  obtain rfl := Option.some.inj (Except.ok.inj (hlatest.symm.trans hkey))
  have hids : ∀ doc : Value, ordersOverwritten.lookup "orders/metadata/v2.metadata.json" =
      some (.json doc) → ((arrayAt doc "snapshots").map fun entry => i64At entry "snapshot-id") =
        [1000, 3000] := by
    intro doc hdoc
    have hlook : ∃ doc', ordersOverwritten.lookup "orders/metadata/v2.metadata.json" =
        some (.json doc') ∧ ((arrayAt doc' "snapshots").map fun entry =>
          i64At entry "snapshot-id") = [1000, 3000] := ⟨_, rfl, by decide +kernel⟩
    obtain ⟨doc', hdoc', hids⟩ := hlook
    rw [hdoc', Option.some.injEq, Object.json.injEq] at hdoc
    rwa [← hdoc]
  have hreflected := hall (ordersAppend 2000, ordersFirst) (by simp)
  rcases hreflected.snapshots _ List.mem_cons_self with hmem | ⟨since, hstarted, -, hexpired⟩
  · have hid := List.mem_map_of_mem (f := fun entry => i64At entry "snapshot-id") hmem
    rw [hids doc hdoc] at hid
    revert hid
    decide +kernel
  · rcases hstarted with hfin | ⟨i, rest, hactivity⟩
    · simp only [List.mem_cons, List.not_mem_nil, or_false] at hfin
      rcases hfin with rfl | rfl | rfl
      · cases hexpired
      · cases hexpired
      · cases hexpired
    · cases hactivity

end Orders
end RustLake.Iceberg
