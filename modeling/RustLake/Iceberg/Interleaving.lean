import RustLake.Iceberg.Sequence
import RustLake.ObjectStore.Interleaving

/-! Committers that share a table: each loads it, computes a commit from what it has loaded, and
puts the new version, while the others do the same. Their store calls interleave in any order. -/
namespace RustLake.Iceberg
open RustLake.Json RustLake.ObjectStore RustLake.Text

inductive Activity (Row : Type) where
  | idle
  | loading (rest : Program (Object Row) (Option (Path × IcebergTableState)))
  | committing (c : Commit) (base : IcebergTableState) (rest : Program (Object Row) String)

/-- A committer with the table it has loaded last. -/
structure Committer (Row : Type) where
  loaded : Option IcebergTableState
  activity : Activity Row

/-- The store, the committers, and the commits that have returned a path, each with the table it
was computed from. -/
structure World (ι Row : Type) where
  store : Store (Object Row)
  committers : ι → Committer Row
  finished : List (Commit × IcebergTableState)

variable {Row ι : Type}

section Model
variable (size : Object Row → ℕ) (tablePrefix : String) (creates : Commit → Prop)
  (allowed : IcebergTableState → Program (Object Row) String → Option String →
    Store (Object Row) → Prop)

/-- One committer acts: the store and the committer before and after, and what has returned. A
store call may fail, and a call of a commit is allowed by the table it was computed from, the rest
of the program, the fault and the store. -/
inductive Acts : Store (Object Row) → Committer Row → Store (Object Row) → Committer Row →
    List (Commit × IcebergTableState) → Prop
  | load {s : Store (Object Row)} {loaded : Option IcebergTableState} :
      Acts s ⟨loaded, .idle⟩ s ⟨loaded, .loading (openTable tablePrefix)⟩ []
  | read {s s' : Store (Object Row)} {loaded : Option IcebergTableState} {fault : Option String}
      {rest rest' : Program (Object Row) (Option (Path × IcebergTableState))} :
      rest.step size fault s = some (rest', s') →
      Acts s ⟨loaded, .loading rest⟩ s' ⟨loaded, .loading rest'⟩ []
  | opened {s : Store (Object Row)} {loaded : Option IcebergTableState} {key : Path}
      {state : IcebergTableState} :
      Acts s ⟨loaded, .loading (.done (some (key, state)))⟩ s ⟨some state, .idle⟩ []
  | missing {s : Store (Object Row)} {loaded : Option IcebergTableState} :
      Acts s ⟨loaded, .loading (.done none)⟩ s ⟨loaded, .idle⟩ []
  | unread {s : Store (Object Row)} {loaded : Option IcebergTableState} {e : Failure} :
      Acts s ⟨loaded, .loading (.fail e)⟩ s ⟨loaded, .idle⟩ []
  | start {s : Store (Object Row)} {c : Commit} {base : IcebergTableState} :
      c.isCreate = false →
      Acts s ⟨some base, .idle⟩ s ⟨some base, .committing c base (c.program tablePrefix base)⟩ []
  | call {s s' : Store (Object Row)} {loaded : Option IcebergTableState} {c : Commit}
      {base : IcebergTableState} {fault : Option String}
      {rest rest' : Program (Object Row) String} :
      allowed base rest fault s → rest.step size fault s = some (rest', s') →
      Acts s ⟨loaded, .committing c base rest⟩ s' ⟨loaded, .committing c base rest'⟩ []
  | returned {s : Store (Object Row)} {loaded : Option IcebergTableState} {c : Commit}
      {base : IcebergTableState} {path : String} : path ≠ "" →
      Acts s ⟨loaded, .committing c base (.done path)⟩ s ⟨loaded, .idle⟩ [(c, base)]
  | nothing {s : Store (Object Row)} {loaded : Option IcebergTableState} {c : Commit}
      {base : IcebergTableState} :
      Acts s ⟨loaded, .committing c base (.done "")⟩ s ⟨loaded, .idle⟩ []
  | failed {s : Store (Object Row)} {loaded : Option IcebergTableState} {c : Commit}
      {base : IcebergTableState} {e : Failure} :
      Acts s ⟨loaded, .committing c base (.fail e)⟩ s ⟨loaded, .idle⟩ []

/-- The worlds after a table was created where there was none, and committers acted in any
order. -/
inductive Interleaved [DecidableEq ι] : World ι Row → Prop
  | created {s s' : Store (Object Row)} {c : Commit} {state : IcebergTableState}
      {faults faults' : Faults} {path : String} : (∀ key ∈ s, ¬ InTable tablePrefix key) →
      c.isCreate = true → creates c →
      run size (c.program tablePrefix state) faults s = ⟨.ok path, s', faults'⟩ →
      Interleaved ⟨s', fun _ => ⟨none, .idle⟩, [(c, state)]⟩
  | act {w : World ι Row} {s' : Store (Object Row)} {committer' : Committer Row}
      {done : List (Commit × IcebergTableState)} (i : ι) : Interleaved w →
      Acts size tablePrefix allowed w.store (w.committers i) s' committer' done →
      Interleaved ⟨s', Function.update w.committers i committer', done ++ w.finished⟩

section Alone
variable {size tablePrefix creates allowed} [DecidableEq ι] {s s' : Store (Object Row)}
  {committers : ι → Committer Row} {finished : List (Commit × IcebergTableState)} {i : ι}

theorem Interleaved.act_alone {committer committer' : Committer Row}
    {done : List (Commit × IcebergTableState)}
    (h : Interleaved size tablePrefix creates allowed ⟨s, committers, finished⟩)
    (hi : committers i = committer)
    (hacts : Acts size tablePrefix allowed s committer s' committer' done) :
    Interleaved size tablePrefix creates allowed
      ⟨s', Function.update committers i committer', done ++ finished⟩ := by
  subst hi
  exact .act i h hacts

theorem Interleaved.steps_alone {α : Type} {p q : Program (Object Row) α}
    (activity : Program (Object Row) α → Committer Row)
    (hacts : ∀ p p' s s', Program.step size none s p = some (p', s') →
      Acts size tablePrefix allowed s (activity p) s' (activity p') [])
    (hsteps : p.Steps size s q s')
    (h : Interleaved size tablePrefix creates allowed
      ⟨s, Function.update committers i (activity p), finished⟩) :
    Interleaved size tablePrefix creates allowed
      ⟨s', Function.update committers i (activity q), finished⟩ := by
  induction hsteps with
  | refl => exact h
  | step hstep _ ih =>
    have hnext := h.act_alone (Function.update_self ..) (hacts _ _ _ _ hstep)
    rw [Function.update_idem] at hnext
    exact ih hnext

/-- A committer that loads the table while the others wait. -/
theorem Interleaved.load_alone {key : Path} {state : IcebergTableState}
    {loaded : Option IcebergTableState} {faults : Faults}
    (h : Interleaved size tablePrefix creates allowed ⟨s, committers, finished⟩)
    (hi : committers i = ⟨loaded, .idle⟩)
    (hrun : run size (openTable tablePrefix) noFaults s = ⟨.ok (some (key, state)), s', faults⟩) :
    Interleaved size tablePrefix creates allowed
      ⟨s', Function.update committers i ⟨some state, .idle⟩, finished⟩ := by
  have hloaded := (h.act_alone hi .load).steps_alone (fun p => ⟨loaded, .loading p⟩)
    (fun _ _ _ _ => .read) (Program.steps_of_run size hrun)
  have hopened := hloaded.act_alone (Function.update_self ..) .opened
  rwa [Function.update_idem] at hopened

/-- A committer that commits while the others wait. -/
theorem Interleaved.commit_alone {c : Commit} {base : IcebergTableState} {path : String}
    {faults : Faults} (h : Interleaved size tablePrefix creates allowed ⟨s, committers, finished⟩)
    (hi : committers i = ⟨some base, .idle⟩) (hc : c.isCreate = false)
    (hallowed : ∀ rest s, allowed base rest none s)
    (hrun : run size (c.program tablePrefix base) noFaults s = ⟨.ok path, s', faults⟩)
    (hpath : path ≠ "") :
    Interleaved size tablePrefix creates allowed
      ⟨s', Function.update committers i ⟨some base, .idle⟩, (c, base) :: finished⟩ := by
  have hcommitted := (h.act_alone hi (.start hc)).steps_alone
    (fun p => ⟨some base, .committing c base p⟩)
    (fun p _ _ _ => .call (hallowed p _)) (Program.steps_of_run size hrun)
  have hreturned := hcommitted.act_alone (Function.update_self ..) (.returned hpath)
  rwa [Function.update_idem] at hreturned

end Alone
end Model

/-- A put of a metadata file that goes through overwrites none, and there is a number for it. -/
def FreePut (base : IcebergTableState) (rest : Program (Object Row) String)
    (fault : Option String) (s : Store (Object Row)) : Prop :=
  match rest with
  | .put key _ _ => fault = none → NamedV key →
      key ∉ s ∧ base.metadataVersion.toInt + 1 < 2 ^ 31
  | _ => True

section Loading
variable {size : Object Row → ℕ} {tablePrefix : String}
  {trace : List (Commit × IcebergTableState)}

/-- The rest of opening a table once its newest metadata file has been found. -/
def fetchTable (path : Path) : Program (Object Row) (Option (Path × IcebergTableState)) := do
  let state ← loadTableState path
  return some (path, state)

/-- How far a load of one of the tables of a trace may have come. -/
inductive LoadingFrom (tablePrefix : String) (trace : List (Commit × IcebergTableState)) :
    Program (Object Row) (Option (Path × IcebergTableState)) → Prop
  | opening : LoadingFrom tablePrefix trace (openTable tablePrefix)
  | fetching {later earlier : List (Commit × IcebergTableState)} {e : Commit × IcebergTableState} :
      trace = later ++ e :: earlier →
      LoadingFrom tablePrefix trace (fetchTable (versionKey tablePrefix (earlier.length + 1)))
  | reading {doc : Value} {k : Except String (Object Row) →
        Program (Object Row) (Option (Path × IcebergTableState))} {key : Path}
      {e : Commit × IcebergTableState} : e ∈ trace →
      k (.ok (.json doc)) = .done (some (key, e.2)) → (∀ error, ∃ f, k (.error error) = .fail f) →
      LoadingFrom tablePrefix trace (.bytes (.json doc) k)
  | opened {key : Path} {e : Commit × IcebergTableState} : e ∈ trace →
      LoadingFrom tablePrefix trace (.done (some (key, e.2)))
  | missing : LoadingFrom tablePrefix trace (.done none)
  | failed (e : Failure) : LoadingFrom tablePrefix trace (.fail e)

theorem LoadingFrom.cons {rest : Program (Object Row) (Option (Path × IcebergTableState))}
    (h : LoadingFrom tablePrefix trace rest) (e : Commit × IcebergTableState) :
    LoadingFrom tablePrefix (e :: trace) rest := by
  cases h with
  | opening => exact .opening
  | @fetching later earlier e' heq =>
    have hlonger : e :: trace = (e :: later) ++ e' :: earlier := by rw [heq, List.cons_append]
    exact .fetching hlonger
  | reading hmem hdone herror => exact .reading (List.mem_cons_of_mem _ hmem) hdone herror
  | opened hmem => exact .opened (List.mem_cons_of_mem _ hmem)
  | missing => exact .missing
  | failed e => exact .failed e

/-- A version read under its key is the table that its commit made. -/
theorem VersionChain.stateOf_versionKey {s : Store (Object Row)}
    (h : VersionChain tablePrefix trace s) {later earlier : List (Commit × IcebergTableState)}
    {e : Commit × IcebergTableState} (heq : trace = later ++ e :: earlier) :
    stateOf e.2.metadata (versionKey tablePrefix (earlier.length + 1)) = e.2 := by
  have hlocated := h.located_of_eq heq
  rw [hlocated.loaded]
  unfold stateOf
  rw [fileName_versionKey, fileName_versionFile]

theorem LoadingFrom.step {rest rest' : Program (Object Row) (Option (Path × IcebergTableState))}
    {s s' : Store (Object Row)} {fault : Option String}
    (h : LoadingFrom tablePrefix trace rest) (hchain : VersionChain tablePrefix trace s)
    (hstep : rest.step size fault s = some (rest', s')) :
    s' = s ∧ LoadingFrom tablePrefix trace rest' := by
  cases h with
  | opening =>
    cases hstep
    refine ⟨rfl, ?_⟩
    cases fault with
    | some e => exact .failed _
    | none =>
      cases trace with
      | nil => exact absurd hchain.made (by rintro ⟨⟩)
      | cons e earlier =>
        have hfound : latestOf (((s.listing (metadataPrefix tablePrefix)).map fun key =>
            (⟨key, ((s.lookup key).map size).getD 0⟩ : ObjectMeta)).map ObjectMeta.location) =
              some (versionKey tablePrefix (earlier.length + 1)) := by
          rw [List.map_map]
          exact (congrArg latestOf (List.map_id _)).trans hchain.latest
        dsimp only [answer, Program.orFail, pure, bind, Program.bind]
        rw [hfound]
        have hhead : e :: earlier = [] ++ e :: earlier := rfl
        exact .fetching hhead
  | @fetching later earlier e heq =>
    cases hstep
    refine ⟨rfl, ?_⟩
    cases fault with
    | some error => exact .failed _
    | none =>
      have hbound := hchain.bound
      rw [heq, List.length_append, List.length_cons] at hbound
      cases hfound : s.found (Path.ofText (versionKey tablePrefix (earlier.length + 1))) with
      | error error => exact .failed _
      | ok object =>
        have hlook := Store.found_eq_ok.mp hfound
        rw [hchain.lookup_ofText (by omega) hlook, hchain.docs later e earlier heq,
          Option.some.injEq] at hlook
        subst hlook
        refine @LoadingFrom.reading _ _ _ _ _ (versionKey tablePrefix (earlier.length + 1)) e
          ?_ ?_ ?_
        · rw [heq]
          exact List.mem_append_right _ List.mem_cons_self
        · change Program.done (some (_, stateOf e.2.metadata _)) = _
          rw [hchain.stateOf_versionKey heq]
        · exact fun error => ⟨_, rfl⟩
  | @reading doc k key e hmem hdone herror =>
    cases hstep
    refine ⟨rfl, ?_⟩
    cases fault with
    | some error =>
      obtain ⟨f, hf⟩ := herror error
      change LoadingFrom tablePrefix trace (k (.error error))
      rw [hf]
      exact .failed f
    | none =>
      change LoadingFrom tablePrefix trace (k (.ok _))
      rw [hdone]
      exact .opened hmem
  | opened hmem => cases hstep
  | missing => cases hstep
  | failed e => cases hstep

end Loading

section Committing
variable {tablePrefix : String} {n : ℕ} {base : IcebergTableState} {c : Commit}

/-- The one metadata file that a commit may put: its document under its target. -/
def PutsVersion (tablePrefix : String) (c : Commit) (base : IcebergTableState) (key : Path)
    (object : Object Row) : Prop :=
  ∃ doc, object = .json doc ∧ c.Produces tablePrefix base doc ∧
    key = Path.ofText (c.target tablePrefix base)

/-- What is left of a commit; whether its metadata file has been put. -/
abbrev CommitsOnce (tablePrefix : String) (c : Commit) (base : IcebergTableState) :
    Bool → Program (Object Row) String → Prop :=
  Program.PutsOnce NamedV (PutsVersion tablePrefix c base) (· ≠ "")

theorem putsOnce_putVersion {doc : Value} (hc : c.isCreate = false)
    (hdoc : c.Produces tablePrefix base doc) :
    CommitsOnce tablePrefix c base false
      (putVersion base.location (base.metadataVersion + 1) doc : Program (Object Row) String) := by
  have htarget : c.target tablePrefix base =
      versionPath base.location (base.metadataVersion + 1) := by
    cases c with
    | create => cases hc
    | _ => rfl
  refine Or.inr ⟨namedV_versionPath _ _, rfl, ⟨doc, rfl, hdoc, by rw [htarget]⟩, ?_, ?_⟩
  · refine iff_of_true rfl ?_
    rw [← htarget]
    exact target_ne_empty c tablePrefix base
  · exact fun e => rfl

theorem touches_deleteManifests {snaps : List SnapshotInfo} {location : String}
    (h : ∀ snap ∈ snaps, ¬ NamedV (manifestListKey location snap)) :
    (deleteManifests location snaps : Program (Object Row) ℕ).Touches
      fun path => ¬ NamedV path := by
  induction snaps with
  | nil => trivial
  | cons snap rest ih =>
    obtain ⟨hsnap, hrest⟩ := List.forall_mem_cons.mp h
    exact ⟨hsnap, fun r => .bind (ih hrest) fun _ => trivial⟩

/-- A commit on a table puts one metadata file at most, and returns a path only when it has. -/
theorem commitsOnce_program (hbase : Located tablePrefix n base) (hc : c.isCreate = false) :
    CommitsOnce tablePrefix c base false
      (c.program tablePrefix base : Program (Object Row) String) := by
  cases c with
  | create => cases hc
  | append files schema operation nowMs =>
    change CommitsOnce _ _ _ _ (appendSnapshot base files schema operation nowMs)
    unfold appendSnapshot
    split
    · exact rfl
    · rename_i hfiles
      refine Or.inl ⟨not_namedV_manifest _ nowMs, fun r => ?_⟩
      refine .orFail_bind fun _ _ => .orPanic_bind fun doc hdoc => ?_
      exact putsOnce_putVersion rfl ⟨by simpa using hfiles, hdoc⟩
  | evolveSchema changes nowMs =>
    change CommitsOnce _ _ _ _ (evolveSchema base changes nowMs)
    unfold evolveSchema
    split
    · exact rfl
    · rename_i hchanges
      split
      · exact rfl
      · rename_i current hcurrent
        refine .orFail_bind fun new hnew => .orPanic_bind fun doc hdoc => ?_
        exact putsOnce_putVersion rfl
          ⟨by simpa using hchanges, current, new, hcurrent, hnew, hdoc⟩
  | evolvePartition newFields nowMs =>
    exact .orPanic_bind fun doc hdoc => putsOnce_putVersion rfl hdoc
  | expire olderThanMs retainLastN nowMs =>
    refine Program.PutsOnce.map ?_
    unfold expireSnapshots
    dsimp only
    split
    · exact iff_of_false (by simp) (by simp)
    · rename_i hne
      refine .bind (touches_deleteManifests fun snap hsnap =>
        hbase.not_namedV (mem_snapshots_of_mem_expired hsnap)) fun deleted => ?_
      refine .orPanic_bind fun doc hdoc => Program.PutsOnce.map ?_
      exact putsOnce_putVersion rfl ⟨by simpa using hne, hdoc⟩

end Committing

section Invariant
variable {size : Object Row → ℕ} {tablePrefix : String}
  {trace : List (Commit × IcebergTableState)}

/-- The commit made a table of the trace from the one before it. -/
def MadeIn (tablePrefix : String) (trace : List (Commit × IcebergTableState))
    (e : Commit × IcebergTableState) : Prop :=
  ∃ later made earlier, trace = later ++ (e.1, made) :: earlier ∧
    e.1.Produces tablePrefix e.2 made.metadata ∧
    (e.1.isCreate = false → ∃ last rest, earlier = (last, e.2) :: rest)

theorem MadeIn.cons {e : Commit × IcebergTableState} (h : MadeIn tablePrefix trace e)
    (next : Commit × IcebergTableState) : MadeIn tablePrefix (next :: trace) e := by
  obtain ⟨later, made, earlier, heq, hdoc, hbase⟩ := h
  exact ⟨next :: later, made, earlier, by rw [heq, List.cons_append], hdoc, hbase⟩

/-- What a committer has read is of the trace, and its metadata file has been put when the commit
is in the trace. -/
structure Follows (tablePrefix : String) (trace : List (Commit × IcebergTableState))
    (committer : Committer Row) : Prop where
  loaded : ∀ state, committer.loaded = some state → ∃ c, (c, state) ∈ trace
  loading : ∀ rest, committer.activity = .loading rest → LoadingFrom tablePrefix trace rest
  committing : ∀ c base rest, committer.activity = .committing c base rest →
    c.isCreate = false ∧ (∃ last, (last, base) ∈ trace) ∧
      ∃ did, CommitsOnce tablePrefix c base did rest ∧
        (did = true → MadeIn tablePrefix trace (c, base))

theorem Follows.cons {committer : Committer Row} (h : Follows tablePrefix trace committer)
    (e : Commit × IcebergTableState) : Follows tablePrefix (e :: trace) committer := by
  refine ⟨fun state hstate => ?_, fun rest hrest => (h.loading rest hrest).cons e,
    fun c base rest hrest => ?_⟩
  · obtain ⟨c, hmem⟩ := h.loaded state hstate
    exact ⟨c, List.mem_cons_of_mem _ hmem⟩
  · obtain ⟨hc, ⟨last, hmem⟩, did, hputs, hmade⟩ := h.committing c base rest hrest
    exact ⟨hc, ⟨last, List.mem_cons_of_mem _ hmem⟩, did, hputs, fun hdid => (hmade hdid).cons e⟩

/-- The committer is about to return from a commit whose metadata file has been put. -/
def Landed (tablePrefix : String) (committer : Committer Row) (e : Commit × IcebergTableState) :
    Prop :=
  ∃ rest, committer.activity = .committing e.1 e.2 rest ∧ CommitsOnce tablePrefix e.1 e.2 true rest

/-- What one act of a committer makes of the trace. -/
structure Goes (tablePrefix : String) (trace trace' : List (Commit × IcebergTableState))
    (s' : Store (Object Row)) (committer committer' : Committer Row)
    (done : List (Commit × IcebergTableState)) : Prop where
  grows : trace' = trace ∨ ∃ e, trace' = e :: trace
  chain : VersionChain tablePrefix trace' s'
  follows : Follows tablePrefix trace' committer'
  finished : ∀ e ∈ done, MadeIn tablePrefix trace' e
  landed : ∀ e, e.1.isCreate = false → MadeIn tablePrefix trace' e →
    (MadeIn tablePrefix trace e ∧ (Landed tablePrefix committer e →
      Landed tablePrefix committer' e ∨ e ∈ done)) ∨ Landed tablePrefix committer' e

/-- An act that leaves the chain as it is. -/
theorem Goes.same {s' : Store (Object Row)} {committer committer' : Committer Row}
    {done : List (Commit × IcebergTableState)} (hchain : VersionChain tablePrefix trace s')
    (hfollows : Follows tablePrefix trace committer') (hdone : ∀ e ∈ done, MadeIn tablePrefix trace e)
    (hlanded : ∀ e, Landed tablePrefix committer e → Landed tablePrefix committer' e ∨ e ∈ done) :
    Goes tablePrefix trace trace s' committer committer' done :=
  ⟨Or.inl rfl, hchain, hfollows, hdone, fun e _ hmade => Or.inl ⟨hmade, hlanded e⟩⟩

theorem follows_idle {loaded : Option IcebergTableState}
    (h : ∀ state, loaded = some state → ∃ c, (c, state) ∈ trace) :
    Follows tablePrefix trace (⟨loaded, .idle⟩ : Committer Row) := by
  refine ⟨h, fun rest hrest => ?_, fun c base rest hrest => ?_⟩
  · cases hrest
  · cases hrest

/-- A metadata file that overwrites none goes on with the chain. -/
theorem goes_put {s : Store (Object Row)} {loaded : Option IcebergTableState} {c : Commit}
    {base : IcebergTableState} {key : Path} {object : Object Row}
    {k : Except String Unit → Program (Object Row) String} {rest' : Program (Object Row) String}
    (hchain : VersionChain tablePrefix trace s)
    (hfollows : Follows tablePrefix trace ⟨loaded, .committing c base (.put key object k)⟩)
    (hnamed : NamedV key) (hputs : PutsVersion tablePrefix c base key object)
    (hfree : key ∉ s ∧ base.metadataVersion.toInt + 1 < 2 ^ 31)
    (hrest : CommitsOnce tablePrefix c base true rest') :
    ∃ made, Goes tablePrefix trace ((c, made) :: trace) (s.insert key object)
      ⟨loaded, .committing c base (.put key object k)⟩ ⟨loaded, .committing c base rest'⟩ [] := by
  obtain ⟨doc, rfl, hdoc, rfl⟩ := hputs
  obtain ⟨hc, ⟨last, hmem⟩, -⟩ := hfollows.committing c base _ rfl
  obtain ⟨later, earlier, heq⟩ := List.append_of_mem hmem
  have hlocated := hchain.located_of_eq heq
  have hbound := hchain.bound
  rw [heq, List.length_append, List.length_cons] at hbound
  have hnumber : earlier.length + 1 + 1 < 2 ^ 31 := by
    have hversion := hfree.2
    rw [hlocated.version (by omega), Int32.toInt_ofNat_of_lt (by omega)] at hversion
    omega
  have htarget : Path.ofText (c.target tablePrefix base) =
      versionKey tablePrefix (earlier.length + 1 + 1) := by
    rw [hlocated.target hnumber hc]
    rfl
  rw [htarget] at hfree
  -- A later version would stand under the key already.
  have hlast : later = [] := by
    rcases List.eq_nil_or_concat later with hnil | ⟨later', e, rfl⟩
    · exact hnil
    · rw [List.concat_eq_append, List.append_assoc] at heq
      exact absurd (mem_of_lookup (hchain.docs later' e _ heq)) hfree.1
  rw [hlast, List.nil_append] at heq
  subst heq
  have hplain : c.PlainBucket := by
    cases c with
    | create => cases hc
    | _ => trivial
  have hmakes := Commit.makes_of_produces hdoc
  refine ⟨stateOf doc (c.target tablePrefix base), Or.inr ⟨_, rfl⟩, ?_, ?_, by simp, ?_⟩
  · refine hchain.extend (.commit hchain.made hc hplain hmakes) hnumber fun key _ => ?_
    rw [htarget]
    rfl
  · refine ⟨fun state hstate => ?_, fun _ hload => ?_, fun c' base' rest hcommit => ?_⟩
    · obtain ⟨c', hmem'⟩ := hfollows.loaded state hstate
      exact ⟨c', List.mem_cons_of_mem _ hmem'⟩
    · cases hload
    · cases hcommit
      refine ⟨hc, ⟨last, by simp⟩, true, hrest, fun _ => ?_⟩
      exact ⟨[], _, _, rfl, hdoc, fun _ => ⟨last, earlier, rfl⟩⟩
  · rintro ⟨c', base'⟩ hc' ⟨later', made, earlier', heq, hdoc', hbase⟩
    cases later' with
    | nil =>
      obtain ⟨hhead, rfl⟩ := List.cons.inj heq
      obtain ⟨rfl, -⟩ := Prod.mk.inj hhead
      obtain ⟨last', rest, hcons⟩ := hbase hc'
      obtain ⟨-, hlast⟩ := Prod.mk.inj (List.cons.inj hcons).1
      change base = base' at hlast
      subst hlast
      exact Or.inr ⟨rest', rfl, hrest⟩
    | cons first later' =>
      refine Or.inl ⟨⟨later', made, earlier', (List.cons.inj heq).2, hdoc', hbase⟩, ?_⟩
      rintro ⟨rest, hactivity, honce⟩
      cases hactivity
      rcases honce with ⟨hother, -⟩ | ⟨-, hdid, -⟩
      · exact absurd hnamed hother
      · cases hdid

/-- One act of a committer keeps the chain or goes on with it, as long as it overwrites no
metadata file. -/
theorem goes_of_acts {s s' : Store (Object Row)} {committer committer' : Committer Row}
    {done : List (Commit × IcebergTableState)} (hchain : VersionChain tablePrefix trace s)
    (hfollows : Follows tablePrefix trace committer)
    (h : Acts size tablePrefix FreePut s committer s' committer' done) :
    ∃ trace', Goes tablePrefix trace trace' s' committer committer' done := by
  cases h with
  | load =>
    refine ⟨trace, .same hchain ⟨hfollows.loaded, fun rest hrest => ?_, fun _ _ _ hrest => ?_⟩
      (by simp) fun e ⟨_, hactivity, _⟩ => ?_⟩
    · cases hrest
      exact .opening
    · cases hrest
    · cases hactivity
  | read hstep =>
    obtain ⟨rfl, hload⟩ := (hfollows.loading _ rfl).step hchain hstep
    refine ⟨trace, .same hchain ⟨hfollows.loaded, fun rest hrest => ?_, fun _ _ _ hrest => ?_⟩
      (by simp) fun e ⟨_, hactivity, _⟩ => ?_⟩
    · cases hrest
      exact hload
    · cases hrest
    · cases hactivity
  | opened =>
    have hload := hfollows.loading _ rfl
    refine ⟨trace, .same hchain (follows_idle fun state hstate => ?_) (by simp)
      fun e ⟨_, hactivity, _⟩ => by cases hactivity⟩
    cases hstate
    cases hload with
    | @opened key e hmem => exact ⟨e.1, hmem⟩
  | missing =>
    exact ⟨trace, .same hchain (follows_idle hfollows.loaded) (by simp)
      fun e ⟨_, hactivity, _⟩ => by cases hactivity⟩
  | unread =>
    exact ⟨trace, .same hchain (follows_idle hfollows.loaded) (by simp)
      fun e ⟨_, hactivity, _⟩ => by cases hactivity⟩
  | @start c base hc =>
    obtain ⟨last, hmem⟩ := hfollows.loaded base rfl
    obtain ⟨later, earlier, heq⟩ := List.append_of_mem hmem
    have hlocated := hchain.located_of_eq heq
    refine ⟨trace, .same hchain ⟨hfollows.loaded, fun _ hrest => ?_, fun c' base' rest hrest => ?_⟩
      (by simp) fun e ⟨_, hactivity, _⟩ => by cases hactivity⟩
    · cases hrest
    · cases hrest
      exact ⟨hc, ⟨last, hmem⟩, false, commitsOnce_program hlocated hc, fun hdid => by cases hdid⟩
  | @call _ loaded c base fault rest rest' hallowed hstep =>
    obtain ⟨hc, hbase, did, honce, hmade⟩ := hfollows.committing c base rest rfl
    rcases honce.step hstep with ⟨honce', hsame⟩ | ⟨key, object, k, rfl, rfl, hnamed, -, hputs, rfl, honce'⟩
    · refine ⟨trace, .same (hchain.congr fun key htable => hsame key htable.1)
        ⟨hfollows.loaded, fun _ hload => ?_, fun c' base' rest'' hcommit => ?_⟩
        (by simp) fun e ⟨rest'', hactivity, hlanded⟩ => ?_⟩
      · cases hload
      · cases hcommit
        exact ⟨hc, hbase, did, honce', hmade⟩
      · cases hactivity
        rcases hlanded.step hstep with ⟨hlanded', -⟩ | ⟨-, -, -, -, -, -, hdid, -⟩
        · exact Or.inl ⟨rest', rfl, hlanded'⟩
        · cases hdid
    · obtain ⟨made, hgoes⟩ := goes_put hchain hfollows hnamed hputs (hallowed rfl hnamed) honce'
      exact ⟨_, hgoes⟩
  | @returned loaded c base path hpath =>
    obtain ⟨hc, hbase, did, honce, hmade⟩ := hfollows.committing c base _ rfl
    refine ⟨trace, .same hchain (follows_idle hfollows.loaded) (fun e he => ?_)
      fun e ⟨_, hactivity, _⟩ => ?_⟩
    · rw [List.mem_singleton.mp he]
      exact hmade (honce.mpr hpath)
    · cases hactivity
      exact Or.inr List.mem_cons_self
  | nothing =>
    refine ⟨trace, .same hchain (follows_idle hfollows.loaded) (by simp)
      fun e ⟨_, hactivity, hlanded⟩ => ?_⟩
    cases hactivity
    exact absurd rfl (hlanded.mp rfl)
  | failed =>
    refine ⟨trace, .same hchain (follows_idle hfollows.loaded) (by simp)
      fun e ⟨_, hactivity, hlanded⟩ => ?_⟩
    cases hactivity
    cases hlanded

/-- The store holds the chain of the commits that have put their metadata files: those that have
returned, and those that are about to. -/
structure Consistent (tablePrefix : String) (trace : List (Commit × IcebergTableState))
    (w : World ι Row) : Prop where
  chain : VersionChain tablePrefix trace w.store
  follows : ∀ i, Follows tablePrefix trace (w.committers i)
  finished : ∀ e ∈ w.finished, MadeIn tablePrefix trace e
  started : ∀ e, e.1.isCreate = false → MadeIn tablePrefix trace e →
    e ∈ w.finished ∨ ∃ i, Landed tablePrefix (w.committers i) e

theorem Consistent.act [DecidableEq ι] {w : World ι Row} {s' : Store (Object Row)}
    {committer' : Committer Row} {done : List (Commit × IcebergTableState)}
    (h : Consistent tablePrefix trace w) (i : ι)
    (hacts : Acts size tablePrefix FreePut w.store (w.committers i) s' committer' done) :
    ∃ trace', Consistent tablePrefix trace'
      (⟨s', Function.update w.committers i committer', done ++ w.finished⟩ : World ι Row) := by
  obtain ⟨trace', hgoes⟩ := goes_of_acts h.chain (h.follows i) hacts
  have hmono : ∀ e, MadeIn tablePrefix trace e → MadeIn tablePrefix trace' e := by
    intro e hmade
    rcases hgoes.grows with rfl | ⟨next, rfl⟩
    · exact hmade
    · exact hmade.cons next
  refine ⟨trace', hgoes.chain, fun j => ?_, fun e he => ?_, fun e hc hmade => ?_⟩
  · change Follows tablePrefix trace' (Function.update w.committers i committer' j)
    by_cases hj : j = i
    · subst hj
      rw [Function.update_self]
      exact hgoes.follows
    · rw [Function.update_of_ne hj]
      rcases hgoes.grows with rfl | ⟨next, rfl⟩
      · exact h.follows j
      · exact (h.follows j).cons next
  · rcases List.mem_append.mp he with hnew | hold
    · exact hgoes.finished e hnew
    · exact hmono e (h.finished e hold)
  · have hself : Landed tablePrefix committer' e →
        ∃ j, Landed tablePrefix (Function.update w.committers i committer' j) e := by
      intro hlanded
      exact ⟨i, by rwa [Function.update_self]⟩
    rcases hgoes.landed e hc hmade with ⟨hold, hkeep⟩ | hnew
    · rcases h.started e hc hold with hfin | ⟨j, hlanded⟩
      · exact Or.inl (List.mem_append_right _ hfin)
      · by_cases hj : j = i
        · subst hj
          rcases hkeep hlanded with hlanded' | hdone
          · exact Or.inr (hself hlanded')
          · exact Or.inl (List.mem_append_left _ hdone)
        · have hother : Landed tablePrefix (Function.update w.committers i committer' j) e := by
            rwa [Function.update_of_ne hj]
          exact Or.inr ⟨j, hother⟩
    · exact Or.inr (hself hnew)

/-- A created table is a chain of one version. -/
theorem consistent_created {s s' : Store (Object Row)} {c : Commit} {state : IcebergTableState}
    {faults faults' : Faults} {path : String} (hnone : ∀ key ∈ s, ¬ InTable tablePrefix key)
    (hc : c.isCreate = true) (hplain : c.PlainBucket)
    (hrun : run size (c.program tablePrefix state) faults s = ⟨.ok path, s', faults'⟩) :
    ∃ trace, Consistent tablePrefix trace
      (⟨s', fun _ => ⟨none, .idle⟩, [(c, state)]⟩ : World ι Row) := by
  obtain ⟨⟨made, hchain⟩, -⟩ := chainsOn_create hnone hc hplain hrun
  refine ⟨_, hchain, fun _ => follows_idle fun state hstate => ?_, fun e he => ?_,
    fun e he hmade => ?_⟩
  · cases hstate
  · rw [List.mem_singleton.mp he]
    refine ⟨[], made, [], rfl, ?_, fun hother => ?_⟩
    · cases hchain.made with
      | create _ _ hmakes =>
        obtain ⟨doc, hdoc, rfl⟩ := hmakes.produces
        cases c with
        | create => exact hdoc
        | _ => cases hc
    · change c.isCreate = false at hother
      rw [hc] at hother
      cases hother
  · obtain ⟨later, made', earlier, heq, -⟩ := hmade
    obtain ⟨rfl, hcons⟩ := List.append_eq_singleton_iff.mp heq.symm |>.resolve_right (by simp)
    obtain ⟨hhead, -⟩ := List.cons.inj hcons
    rw [(Prod.mk.inj hhead).1, hc] at he
    cases he

/-- As long as no put overwrites a metadata file, the commits make one chain. -/
theorem exists_consistent [DecidableEq ι] {w : World ι Row}
    (h : Interleaved size tablePrefix Commit.PlainBucket FreePut w) :
    ∃ trace, Consistent tablePrefix trace w := by
  induction h with
  | created hnone hc hplain hrun => exact consistent_created hnone hc hplain hrun
  | act i _ hacts ih =>
    obtain ⟨trace, hconsistent⟩ := ih
    exact hconsistent.act i hacts

end Invariant
end RustLake.Iceberg
