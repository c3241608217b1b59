import RustLake.Iceberg.Chain

/-! Commits on one table one after the other, each from the table that readers see: which file the
n-th one writes, that it overwrites none, and what its log lists. -/
namespace RustLake.Iceberg
open RustLake.Json RustLake.ObjectStore RustLake.Text

/-- A commit that succeeded, the path it returned, and the store before and after. -/
structure Step (Row : Type) where
  commit : Commit
  before : Store (Object Row)
  after : Store (Object Row)
  path : String

variable {Row : Type}

section Runs
variable (size : Object Row → ℕ) (tablePrefix : String)

/-- The steps of a run, the latest first, and the store it has come to. The table is created where
there was none, and each later commit starts from the table that readers see. In between others
may change all objects but the metadata files of the table. -/
inductive Sequential : List (Step Row) → Store (Object Row) → Prop
  | start {s : Store (Object Row)} : (∀ key ∈ s, ¬ InTable tablePrefix key) → Sequential [] s
  | create {s s' : Store (Object Row)} {c : Commit} {state : IcebergTableState}
      {faults faults' : Faults} {path : String} : Sequential [] s → c.isCreate = true →
      run size (c.program tablePrefix state) faults s = ⟨.ok path, s', faults'⟩ →
      Sequential [⟨c, s, s', path⟩] s'
  | commit {s s' : Store (Object Row)} {c : Commit} {key : Path} {state : IcebergTableState}
      {faults faults' : Faults} {path : String} {step : Step Row} {steps : List (Step Row)} :
      Sequential (step :: steps) s → c.isCreate = false →
      tableView size tablePrefix s = .ok (some (key, state)) →
      run size (c.program tablePrefix state) faults s = ⟨.ok path, s', faults'⟩ → path ≠ "" →
      Sequential (⟨c, s, s', path⟩ :: step :: steps) s'
  | other {s s' : Store (Object Row)} {steps : List (Step Row)} : Sequential steps s →
      (∀ key, InTable tablePrefix key → s'.lookup key = s.lookup key) → Sequential steps s'

/-- The n-th commit writes the n-th version, in a new file, to the end of the chain. -/
structure ChainsOn (n : ℕ) (step : Step Row) : Prop where
  path : step.path = tablePrefix ++ "/metadata/v" ++ toString n ++ ".metadata.json"
  fresh : Path.ofText step.path ∉ step.before
  keeps : ∀ key ∈ step.before, NamedV key → step.after.lookup key = step.before.lookup key
  latest : (run size (findLatestMetadata tablePrefix) noFaults step.after).result =
    .ok (some (Path.ofText step.path))
  log : ∃ doc, step.after.lookup (Path.ofText step.path) = some (.json doc) ∧
    logFiles doc = (List.range (n - 1)).map fun k =>
      strAt doc "location" "" ++ "/metadata/v" ++ toString (k + 1) ++ ".metadata.json"

end Runs

section Chain
variable {size : Object Row → ℕ} {tablePrefix : String} {s s' : Store (Object Row)}
  {trace : List (Commit × IcebergTableState)} {c : Commit} {made : IcebergTableState}

/-- A commit that put the next version, and left the other metadata files as they were. -/
theorem chainsOn_of_put (hafter : VersionChain tablePrefix ((c, made) :: trace) s')
    (hfresh : versionKey tablePrefix (trace.length + 1) ∉ s)
    (hsame : SameMetadata (s.insert (versionKey tablePrefix (trace.length + 1))
      (.json made.metadata)) s') :
    ChainsOn size tablePrefix (trace.length + 1)
      ⟨c, s, s', versionFile tablePrefix (trace.length + 1)⟩ := by
  refine ⟨versionFile_eq _ _, hfresh, fun key hkey hnamed => ?_, ?_,
    made.metadata, hafter.lookup_head, ?_⟩
  · have hne : key ≠ versionKey tablePrefix (trace.length + 1) := fun heq => hfresh (heq ▸ hkey)
    exact (hsame key hnamed).trans (AList.lookup_insert_ne hne)
  · rw [run_findLatestMetadata, hafter.latest]
    rfl
  · have hlocated := hafter.located
    have hlocation : made.location = strAt made.metadata "location" "" := by
      rw [hlocated.loaded]
      rfl
    rw [hlocated.log, ← hlocation]
    refine List.map_congr_left fun k _ => ?_
    exact versionFile_eq made.location (k + 1)

/-- The first commit of a run starts a chain. -/
theorem chainsOn_create {state : IcebergTableState} {faults faults' : Faults} {path : String}
    (hnone : ∀ key ∈ s, ¬ InTable tablePrefix key) (hc : c.isCreate = true)
    (hplain : c.PlainBucket)
    (hrun : run size (c.program tablePrefix state) faults s = ⟨.ok path, s', faults'⟩) :
    (∃ made, VersionChain tablePrefix [(c, made)] s') ∧
      ChainsOn size tablePrefix 1 ⟨c, s, s', path⟩ := by
  cases c with
  | create schema files tableUuid bucket nowMs =>
    obtain ⟨hfiles, rfl, rfl⟩ := writeIcebergMetadata_ok hrun
    have htarget : tablePrefix ++ "/metadata/v1.metadata.json" = versionFile tablePrefix 1 :=
      target_of_isCreate hc tablePrefix state
    rw [htarget]
    have hdoc : (Commit.create schema files tableUuid bucket nowMs).Produces tablePrefix state
        (initialMetadata ("s3://" ++ bucket ++ "/" ++ tablePrefix) schema files tableUuid nowMs) :=
      ⟨hfiles, rfl⟩
    have hput := SameMetadata.insert (s := s.insert (versionKey tablePrefix 1) (.json
      (initialMetadata ("s3://" ++ bucket ++ "/" ++ tablePrefix) schema files tableUuid nowMs)))
      (not_namedV_manifest tablePrefix nowMs)
      (.json (manifestList ("s3://" ++ bucket ++ "/" ++ tablePrefix) files nowMs))
    have hafter := versionChain_create hc hplain (Commit.makes_of_produces hdoc) hnone
      fun key htable => hput key htable.1
    refine ⟨⟨_, hafter⟩, chainsOn_of_put hafter (fun hmem => ?_) hput⟩
    exact hnone _ hmem (inTable_versionKey _ _)
  | _ => cases hc

/-- Each later commit goes on with it. -/
theorem chainsOn_commit {last : Commit} {state : IcebergTableState} {faults faults' : Faults}
    {path : String} (hchain : VersionChain tablePrefix ((last, state) :: trace) s)
    (hn : trace.length + 2 < 2 ^ 31) (hc : c.isCreate = false)
    (hrun : run size (c.program tablePrefix state) faults s = ⟨.ok path, s', faults'⟩)
    (hpath : path ≠ "") :
    (∃ made, VersionChain tablePrefix ((c, made) :: (last, state) :: trace) s') ∧
      ChainsOn size tablePrefix (trace.length + 2) ⟨c, s, s', path⟩ := by
  obtain ⟨doc, hdoc, htarget, -, hsame⟩ := c.run_ok hrun hpath
  have hlocated := hchain.located
  rw [hlocated.target hn hc] at htarget
  subst htarget
  have hput := hsame fun snap hsnap => hlocated.not_namedV hsnap
  have hplain : c.PlainBucket := by
    cases c with
    | create => cases hc
    | _ => trivial
  have hafter := hchain.extend (.commit hchain.made hc hplain (Commit.makes_of_produces hdoc)) hn
    fun key htable => hput key htable.1
  exact ⟨⟨_, hafter⟩, chainsOn_of_put hafter (hchain.fresh hn) hput⟩

/-- What a run has made of the store: nothing yet, or a chain with one version for each step. -/
def ChainHeld (tablePrefix : String) : List (Step Row) → Store (Object Row) → Prop
  | [], s => ∀ key ∈ s, ¬ InTable tablePrefix key
  | _ :: steps, s => ∃ last state trace, trace.length = steps.length ∧
      VersionChain tablePrefix ((last, state) :: trace) s

theorem ChainHeld.congr {steps : List (Step Row)} (h : ChainHeld tablePrefix steps s)
    (hsame : ∀ key, InTable tablePrefix key → s'.lookup key = s.lookup key) :
    ChainHeld tablePrefix steps s' := by
  cases steps with
  | nil =>
    intro key hkey htable
    rw [← AList.lookup_isSome, hsame key htable, AList.lookup_isSome] at hkey
    exact h key hkey htable
  | cons step steps =>
    obtain ⟨last, state, trace, hlen, hchain⟩ := h
    exact ⟨last, state, trace, hlen, hchain.congr hsame⟩

theorem getElem?_reverse_cons {step other : Step Row} {steps : List (Step Row)} {n : ℕ}
    (h : (step :: steps).reverse[n]? = some other) :
    steps.reverse[n]? = some other ∨ n = steps.length ∧ other = step := by
  rw [List.reverse_cons] at h
  by_cases hlt : n < steps.reverse.length
  · rw [List.getElem?_append_left hlt] at h
    exact Or.inl h
  · rw [List.getElem?_append_right (by omega), List.getElem?_singleton] at h
    rw [List.length_reverse] at h hlt
    split at h
    · exact Or.inr ⟨by omega, (Option.some.inj h).symm⟩
    · cases h

/-- Along a run the store holds a chain with one version for each step, and each step has gone
on with it. -/
theorem chainHeld_of_sequential {steps : List (Step Row)} (h : Sequential size tablePrefix steps s)
    (hplain : ∀ step ∈ steps, step.commit.PlainBucket) (hlen : steps.length < 2 ^ 31) :
    ChainHeld tablePrefix steps s ∧ ∀ n step, steps.reverse[n]? = some step →
      ChainsOn size tablePrefix (n + 1) step := by
  induction h with
  | start hnone => exact ⟨hnone, fun n step hstep => by simp at hstep⟩
  | create hrest hc hrun ih =>
    obtain ⟨⟨made, hchain⟩, hstep⟩ := chainsOn_create (ih (by simp) (by simp)).1 hc
      (hplain _ List.mem_cons_self) hrun
    refine ⟨⟨_, made, [], rfl, hchain⟩, fun n other hother => ?_⟩
    rcases getElem?_reverse_cons hother with hold | ⟨rfl, rfl⟩
    · cases hold
    · exact hstep
  | @commit s s' c key state faults faults' path step steps hrest hc hview hrun hpath ih =>
    rw [List.length_cons] at hlen
    obtain ⟨⟨last, seen, trace, htrace, hchain⟩, hsteps⟩ :=
      ih (fun other hother => hplain other (List.mem_cons_of_mem _ hother)) (by omega)
    obtain ⟨-, rfl⟩ := hchain.eq_of_tableView hview
    rw [List.length_cons] at hlen
    obtain ⟨⟨made, hmade⟩, hstep⟩ := chainsOn_commit hchain (by omega) hc hrun hpath
    refine ⟨⟨c, made, _, by simp [htrace], hmade⟩, fun n other hother => ?_⟩
    rcases getElem?_reverse_cons hother with hold | ⟨rfl, rfl⟩
    · exact hsteps n other hold
    · rw [List.length_cons, ← htrace]
      exact hstep
  | other hrest hsame ih =>
    obtain ⟨hholds, hsteps⟩ := ih hplain hlen
    exact ⟨hholds.congr hsame, hsteps⟩

/-- In every run on a table in a bucket with a plain name, the n-th commit writes the n-th version
in a new file, as long as there are numbers for them. -/
theorem chainsOn_of_sequential {steps : List (Step Row)} (h : Sequential size tablePrefix steps s)
    (hplain : ∀ step ∈ steps, step.commit.PlainBucket) (hlen : steps.length < 2 ^ 31) {n : ℕ}
    {step : Step Row} (hstep : steps.reverse[n]? = some step) :
    ChainsOn size tablePrefix (n + 1) step := (chainHeld_of_sequential h hplain hlen).2 n step hstep

end Chain

section Orders

def ordersCreate (bucket : String) : Commit :=
  .create [⟨"id", .int64, false⟩] [⟨"orders/part-0.parquet", 900, 3⟩] "c5b1" bucket 1000

/-- An existing table can always be given an empty partition spec. -/
theorem exists_repartitioned {n : ℕ} {state : IcebergTableState}
    (h : Located "orders" n state) :
    ∃ doc, (Commit.evolvePartition [] 2000).Produces "orders" state doc := by
  obtain ⟨items, hitems⟩ := h.wellFormed "partition-specs" (by decide)
  cases hdoc : state.metadata with
  | obj fields =>
    change ∃ doc, repartitionedMetadata state [] 2000 = some doc
    unfold repartitionedMetadata
    rw [hdoc]
    exact ⟨_, rfl⟩
  | _ =>
    rw [hdoc] at hitems
    cases hitems

/-- Readers of this prefix find what the chain holds. -/
theorem tableView_orders {last : Commit} {state : IcebergTableState}
    {trace : List (Commit × IcebergTableState)} {s : Store (Object ℕ)}
    (h : VersionChain "orders" ((last, state) :: trace) s) :
    tableView (fun _ => 0) "orders" s =
      .ok (some (versionKey "orders" (trace.length + 1), state)) := by
  have htext : Path.ofText (versionKey "orders" (trace.length + 1)) =
      versionKey "orders" (trace.length + 1) := by
    have hprefix : Path.ofText (metadataPrefix "orders") = metadataPrefix "orders" := by decide
    rw [versionKey_eq, ofText_child (segments_metadataPrefix_ne_nil "orders")
      (slash_notMem_versionName _) (versionName_ne_nil _), hprefix, encodeSegment_versionName,
      String.ofList_toList]
  have hview : tableView (fun _ => 0) "orders" s = .ok (some (versionKey "orders" (trace.length + 1),
      stateOf state.metadata (versionKey "orders" (trace.length + 1)))) := by
    rw [tableView_eq, h.latest]
    dsimp only
    rw [htext, Store.found_eq_ok.mpr h.lookup_head]
    rfl
  rw [hview, (h.eq_of_tableView hview).2]

/-- A run can go on, also past the last number. -/
theorem exists_next {steps : List (Step ℕ)} {s : Store (Object ℕ)} {last : Commit}
    {state : IcebergTableState} {trace : List (Commit × IcebergTableState)} {step : Step ℕ}
    (h : Sequential (fun _ => 0) "orders" (step :: steps) s)
    (hchain : VersionChain "orders" ((last, state) :: trace) s) :
    ∃ s', Sequential (fun _ => 0) "orders"
      (⟨.evolvePartition [] 2000, s, s',
        versionPath state.location (state.metadataVersion + 1)⟩ :: step :: steps) s' := by
  obtain ⟨doc, hdoc⟩ := exists_repartitioned hchain.located
  obtain ⟨s', faults', hrun⟩ := @Commit.Produces.run_eq _ _ _ _ _ (fun _ => 0) hdoc s
  exact ⟨s', .commit h rfl (tableView_orders hchain) hrun
    (target_ne_empty (.evolvePartition [] 2000) "orders" state)⟩

theorem exists_create (bucket : String) :
    ∃ s, Sequential (fun _ => 0) "orders"
      [⟨ordersCreate bucket, (∅ : Store (Object ℕ)), s, versionFile "orders" 1⟩] s := by
  have hdoc : (ordersCreate bucket).Produces "orders" (stateOf .null "") _ := ⟨by simp, rfl⟩
  obtain ⟨s, faults', hrun⟩ :=
    @Commit.Produces.run_eq _ _ _ _ _ (fun _ => 0) hdoc (∅ : Store (Object ℕ))
  rw [target_of_isCreate rfl] at hrun
  exact ⟨s, .create (.start (by simp)) rfl hrun⟩

/-- There are runs of every length that the numbers allow. -/
theorem exists_sequential (n : ℕ) (hn : n + 1 < 2 ^ 31) :
    ∃ steps s, Sequential (fun _ => 0) "orders" steps s ∧ steps.length = n + 1 ∧
      ∀ step ∈ steps, (step : Step ℕ).commit.PlainBucket := by
  induction n with
  | zero =>
    obtain ⟨s, hrun⟩ := exists_create "lake"
    refine ⟨_, s, hrun, rfl, fun step hstep => ?_⟩
    rw [List.mem_singleton.mp hstep]
    change '/' ∉ "lake".toList
    decide
  | succ n ih =>
    obtain ⟨steps, s, hrun, hlen, hplain⟩ := ih (by omega)
    cases steps with
    | nil => cases hlen
    | cons step steps =>
      obtain ⟨⟨last, state, trace, -, hchain⟩, -⟩ := chainHeld_of_sequential hrun hplain (by omega)
      obtain ⟨s', hnext⟩ := exists_next hrun hchain
      refine ⟨_, s', hnext, by rw [List.length_cons, hlen], fun other hother => ?_⟩
      rcases List.mem_cons.mp hother with rfl | hold
      · trivial
      · exact hplain other hold

theorem chainsOn_of_sequential_orders :
    ∃ steps s step, Sequential (fun _ => 0) "orders" steps s ∧ steps.reverse[9]? = some step ∧
      ChainsOn (fun _ : Object ℕ => 0) "orders" 10 step := by
  obtain ⟨steps, s, hrun, hlen, hplain⟩ := exists_sequential 9 (by decide)
  obtain ⟨step, hsome⟩ : ∃ step, steps.reverse[9]? = some step :=
    ⟨_, List.getElem?_eq_getElem (by simp [hlen])⟩
  exact ⟨steps, s, step, hrun, hsome, chainsOn_of_sequential hrun hplain (by rw [hlen]; decide) hsome⟩

/-- A new table in a bucket whose name has a slash. -/
def slashCreated : IcebergTableState :=
  stateOf (initialMetadata "s3://a/b/orders" [⟨"id", .int64, false⟩]
    [⟨"orders/part-0.parquet", 900, 3⟩] "c5b1" 1000) "orders/metadata/v1.metadata.json"

def slashStore : Store (Object ℕ) :=
  (run (fun _ => 0) ((ordersCreate "a/b").program "orders" slashCreated) noFaults ∅).store

/-- With as many commits as there are numbers the next one gets a negative number; and in a bucket
whose name has a slash the second commit leaves the table. -/
theorem not_chainsOn_orders :
    (∃ steps s step, Sequential (fun _ => 0) "orders" (step :: steps) s ∧
      (∀ other ∈ step :: steps, (other : Step ℕ).commit.PlainBucket) ∧ steps.length + 1 = 2 ^ 31 ∧
      ¬ ChainsOn (fun _ => 0) "orders" (2 ^ 31) step) ∧
    ∃ s step first, Sequential (fun _ => 0) "orders" [step, first] s ∧
      first.commit = ordersCreate "a/b" ∧ ¬ ChainsOn (fun _ : Object ℕ => 0) "orders" 2 step := by
  constructor
  · obtain ⟨steps, s, hrun, hlen, hplain⟩ := exists_sequential (2 ^ 31 - 2) (by decide)
    cases steps with
    | nil => cases hlen
    | cons step steps =>
      obtain ⟨⟨last, state, trace, htrace, hchain⟩, -⟩ :=
        chainHeld_of_sequential hrun hplain (by rw [hlen]; decide)
      obtain ⟨s', hnext⟩ := exists_next hrun hchain
      rw [List.length_cons] at hlen
      refine ⟨_, s', _, hnext, fun other hother => ?_, ?_, fun h => ?_⟩
      · rcases List.mem_cons.mp hother with rfl | hold
        · trivial
        · exact hplain other hold
      · rw [List.length_cons]
        omega
      · have hpath := h.path
        have hversion : state.metadataVersion + 1 = -2147483648 := by
          rw [hchain.located.version hchain.bound, htrace, hlen]
          decide
        rw [versionPath_eq, hchain.located.strip, hversion] at hpath
        have hother : versionText "orders" (-2147483648) ≠
            "orders" ++ "/metadata/v" ++ toString (2 ^ 31) ++ ".metadata.json" := by decide +kernel
        exact hother hpath
  · have hstart : Sequential (fun _ => 0) "orders" [] (∅ : Store (Object ℕ)) := .start (by simp)
    have hcreate : run (fun _ => 0) ((ordersCreate "a/b").program "orders" slashCreated) noFaults ∅ =
        ⟨.ok "orders/metadata/v1.metadata.json", slashStore, noFaults⟩ := by rfl
    have hview : tableView (fun _ => 0) "orders" slashStore =
        .ok (some ("orders/metadata/v1.metadata.json", slashCreated)) := by rfl
    obtain ⟨doc, hdoc⟩ : ∃ doc, (Commit.evolvePartition [] 2000).Produces "orders" slashCreated
      doc := ⟨_, rfl⟩
    obtain ⟨s', faults', hrun⟩ := @Commit.Produces.run_eq _ _ _ _ _ (fun _ => 0) hdoc slashStore
    refine ⟨s', _, _, .commit (.create hstart rfl hcreate) rfl hview hrun (target_ne_empty _ _ _),
      rfl, fun h => ?_⟩
    have hother : (Commit.evolvePartition [] 2000).target "orders" slashCreated ≠
        "orders" ++ "/metadata/v" ++ toString 2 ++ ".metadata.json" := by decide +kernel
    exact hother h.path

end Orders
end RustLake.Iceberg
