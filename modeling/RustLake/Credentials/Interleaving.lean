import RustLake.Credentials.Frames
import RustLake.Order.Run

/-! Calls of the credentials store whose steps are taken in any order: each reads the file, edits the
entries, writes the one temporary file and renames it. -/
namespace RustLake.Credentials

/-- How far a call has come: what it loaded, and what it has written. -/
inductive Phase where
  | idle
  | loaded (entries : List CredentialEntry)
  | saving (entries : List CredentialEntry) (buf : Bytes)
  | returned (ok : Bool)

structure Disk (ι : Type) where
  file : Option Bytes
  tmp : Option Bytes
  phase : ι → Phase

/-- A write that fails leaves something in the temporary file, or nothing. -/
inductive Action (ι : Type) where
  | read (i : ι) (readable : Bool)
  | write (i : ι) (nonces : ℕ → Nonce)
  | writeFails (i : ι) (left : Option Bytes)
  | rename (i : ι) (renamed : Bool)

variable {ι : Type} (codec : Codec) (calls : ι → Call)

def step [DecidableEq ι] (s : Disk ι) : Action ι → Option (Disk ι)
  | .read i readable =>
    match s.phase i with
    | .idle => some { s with
        phase := Function.update s.phase i (.loaded (loadAll codec readable s.file)) }
    | _ => none
  | .write i nonces =>
    match s.phase i with
    | .loaded entries =>
      match encryptAll codec nonces ((calls i).edit entries) with
      | some buf => some { s with
          tmp := some buf, phase := Function.update s.phase i (.saving entries buf) }
      | none => some { s with phase := Function.update s.phase i (.returned false) }
    | _ => none
  | .writeFails i left =>
    match s.phase i with
    | .loaded _ => some { s with
        tmp := left, phase := Function.update s.phase i (.returned false) }
    | _ => none
  | .rename i renamed =>
    match s.phase i with
    | .saving _ _ =>
      match renamed, s.tmp with
      | true, some buf => some { s with
          file := some buf, tmp := none, phase := Function.update s.phase i (.returned true) }
      | _, _ => some { s with phase := Function.update s.phase i (.returned false) }
    | _ => none

/-- A file that is there can be read, and when a call renames, the file holds what the call loaded and
the temporary file what it wrote. -/
def Undisturbed (s : Disk ι) : Action ι → Prop
  | .read _ readable => readable = true
  | .rename i renamed => renamed = true → ∀ entries buf tmp, s.phase i = .saving entries buf →
      s.tmp = some tmp → loadAll codec true s.file = entries ∧ tmp = buf
  | _ => True

/-- The calls one after another. -/
def applyAll (order : List ι) (entries : List CredentialEntry) : List CredentialEntry :=
  order.foldl (fun es i => (calls i).edit es) entries

/-- What is loaded is what the calls give in some order, and no credential is lost. -/
structure Serial (before after : List CredentialEntry) : Prop where
  ordered : ∃ order : List ι, order.Nodup ∧ (∀ i, i ∈ order) ∧
    loadAllPasswords after = loadAllPasswords (applyAll calls order before) ∧
    loadAllS3Creds after = loadAllS3Creds (applyAll calls order before)
  kept : ∀ entry ∈ before, (∀ i, entry.key ≠ (calls i).key) → entry ∈ after
  stored : ∀ i entry, (calls i).entry = some entry → (∀ j, j ≠ i → (calls j).key ≠ (calls i).key) →
    entry ∈ after

section Edits
variable {calls} {entries : List CredentialEntry} {entry : CredentialEntry}

/-- An edit keeps an entry with another key. -/
theorem Call.mem_edit {call : Call} (hentry : entry ∈ entries) (hkey : entry.key ≠ call.key) :
    entry ∈ call.edit entries := by
  apply List.mem_append_left
  exact (Call.mem_retained hkey).mpr hentry

theorem Call.entry_mem_edit {call : Call} (h : call.entry = some entry) :
    entry ∈ call.edit entries := by
  apply List.mem_append_right
  rw [h]
  exact List.mem_singleton_self entry

theorem mem_applyAll {order : List ι} (hentry : entry ∈ entries)
    (hkey : ∀ i ∈ order, entry.key ≠ (calls i).key) : entry ∈ applyAll calls order entries := by
  induction order generalizing entries with
  | nil => exact hentry
  | cons i order ih =>
    obtain ⟨hi, horder⟩ := List.forall_mem_cons.mp hkey
    exact ih (Call.mem_edit hentry hi) horder

theorem storable_applyAll {codec : Codec} {order : List ι}
    (hbefore : ∀ e ∈ entries, Storable codec e)
    (hcalls : ∀ i e, (calls i).entry = some e → Storable codec e) :
    ∀ e ∈ applyAll calls order entries, Storable codec e := by
  induction order generalizing entries with
  | nil => exact hbefore
  | cons i order ih =>
    apply ih
    intro e he
    rcases List.mem_append.mp he with hold | hnew
    · exact hbefore e (List.mem_of_mem_filter hold)
    · exact hcalls i e (Option.mem_toList.mp hnew)

theorem applyAll_concat (order : List ι) (i : ι) :
    applyAll calls (order ++ [i]) entries = (calls i).edit (applyAll calls order entries) := by
  rw [applyAll, List.foldl_append]
  rfl

/-- The calls in an order lose nothing. -/
theorem serial_applyAll {order : List ι} (hnodup : order.Nodup) (hall : ∀ i, i ∈ order) :
    Serial calls entries (applyAll calls order entries) where
  ordered := ⟨order, hnodup, hall, rfl, rfl⟩
  kept entry hentry hkey := mem_applyAll hentry fun i _ => hkey i
  stored i entry hentry hothers := by
    obtain ⟨earlier, later, rfl⟩ := List.append_of_mem (hall i)
    have hlater : i ∉ later := by
      rw [List.nodup_append] at hnodup
      exact (List.nodup_cons.mp hnodup.2.1).1
    have hsplit : applyAll calls (earlier ++ i :: later) entries =
        applyAll calls later ((calls i).edit (applyAll calls earlier entries)) := by
      rw [applyAll, List.foldl_append]
      rfl
    rw [hsplit]
    apply mem_applyAll (Call.entry_mem_edit hentry)
    intro j hj
    have hne : j ≠ i := by
      rintro rfl
      exact hlater hj
    rw [Call.key_entry hentry]
    exact (hothers j hne).symm

end Edits

section Runs
variable [DecidableEq ι] {codec calls} {before : List CredentialEntry} {s s' : Disk ι} {actions : List (Action ι)}

/-- What a run keeps: the calls that have renamed, in their order, give what the file holds. -/
def Renamed (codec : Codec) (calls : ι → Call) (before : List CredentialEntry) (s : Disk ι) : Prop :=
  (∃ order : List ι, order.Nodup ∧ (∀ i, i ∈ order ↔ s.phase i = .returned true) ∧
    loadAll codec true s.file = applyAll calls order before) ∧
  ∀ i entries buf, s.phase i = .saving entries buf →
    ∃ nonces, encryptAll codec nonces ((calls i).edit entries) = some buf

/-- A step of a call that neither renames nor has written keeps the others as they are. -/
theorem Renamed.progress {i : ι} {phase : Phase} {tmp : Option Bytes} (h : Renamed codec calls before s)
    (hbefore : s.phase i ≠ .returned true) (hafter : phase ≠ .returned true)
    (hsaving : ∀ entries buf, phase = .saving entries buf →
      ∃ nonces, encryptAll codec nonces ((calls i).edit entries) = some buf) :
    Renamed codec calls before
      { s with tmp := tmp, phase := Function.update s.phase i phase } := by
  obtain ⟨⟨order, hnodup, horder, hfile⟩, hwritten⟩ := h
  constructor
  · refine ⟨order, hnodup, fun j => ?_, hfile⟩
    dsimp only
    rcases eq_or_ne j i with rfl | hne
    · rw [Function.update_self, horder]
      constructor
      · intro heq
        exact absurd heq hbefore
      · intro heq
        exact absurd heq hafter
    · rw [Function.update_of_ne hne]
      exact horder j
  · intro j entries buf hj
    dsimp only at hj
    rcases eq_or_ne j i with rfl | hne
    · rw [Function.update_self] at hj
      exact hsaving entries buf hj
    · rw [Function.update_of_ne hne] at hj
      exact hwritten j entries buf hj

theorem Renamed.rename {i : ι} {entries : List CredentialEntry} {buf : Bytes}
    (hlaw : codec.Lawful) (hbefore : ∀ e ∈ before, Storable codec e)
    (hcalls : ∀ i e, (calls i).entry = some e → Storable codec e)
    (h : Renamed codec calls before s) (hphase : s.phase i = .saving entries buf)
    (hloaded : loadAll codec true s.file = entries) :
    Renamed codec calls before
      { s with file := some buf, tmp := none, phase := Function.update s.phase i (.returned true) } := by
  obtain ⟨⟨order, hnodup, horder, hfile⟩, hwritten⟩ := h
  obtain ⟨nonces, hbuf⟩ := hwritten i entries buf hphase
  have hnew : i ∉ order := by
    intro hmem
    rw [horder, hphase] at hmem
    cases hmem
  have hentries : entries = applyAll calls order before := hloaded.symm.trans hfile
  constructor
  · refine ⟨order ++ [i], ?_, ?_, ?_⟩
    · rw [List.nodup_append]
      refine ⟨hnodup, List.nodup_singleton i, ?_⟩
      intro j hj k hk heq
      rw [List.mem_singleton.mp hk] at heq
      exact hnew (heq ▸ hj)
    · intro j
      dsimp only
      rw [List.mem_append, List.mem_singleton]
      rcases eq_or_ne j i with rfl | hne
      · rw [Function.update_self]
        exact ⟨fun _ => rfl, fun _ => Or.inr rfl⟩
      · rw [Function.update_of_ne hne, horder]
        exact or_iff_left hne
    · rw [applyAll_concat, ← hentries]
      apply loadEntries_saved hlaw _ hbuf
      have hstorable : ∀ e ∈ applyAll calls (order ++ [i]) _, Storable codec e :=
        storable_applyAll hbefore hcalls
      rwa [applyAll_concat, ← hentries] at hstorable
  · intro j es bytes hj
    dsimp only at hj
    rcases eq_or_ne j i with rfl | hne
    · rw [Function.update_self] at hj
      cases hj
    · rw [Function.update_of_ne hne] at hj
      exact hwritten j es bytes hj

theorem Renamed.step (hlaw : codec.Lawful) (hbefore : ∀ e ∈ before, Storable codec e)
    (hcalls : ∀ i e, (calls i).entry = some e → Storable codec e) (a : Action ι)
    (h : Renamed codec calls before s) (hok : Undisturbed codec s a)
    (hstep : step codec calls s a = some s') : Renamed codec calls before s' := by
  cases a with
  | read i readable =>
    simp only [Credentials.step] at hstep
    split at hstep
    · rename_i hphase
      cases hstep
      exact h.progress (by rw [hphase]; exact Phase.noConfusion) Phase.noConfusion
        fun _ _ heq => by cases heq
    · cases hstep
  | write i nonces =>
    simp only [Credentials.step] at hstep
    split at hstep
    · rename_i entries hphase
      have hbegun : s.phase i ≠ .returned true := by
        rw [hphase]
        exact Phase.noConfusion
      split at hstep
      · rename_i buf hbuf
        cases hstep
        refine h.progress hbegun Phase.noConfusion fun es bytes heq => ?_
        cases heq
        exact ⟨nonces, hbuf⟩
      · cases hstep
        exact h.progress hbegun (by simp) fun _ _ heq => by cases heq
    · cases hstep
  | writeFails i left =>
    simp only [Credentials.step] at hstep
    split at hstep
    · rename_i entries hphase
      cases hstep
      exact h.progress (by rw [hphase]; exact Phase.noConfusion) (by simp)
        fun _ _ heq => by cases heq
    · cases hstep
  | rename i renamed =>
    simp only [Credentials.step] at hstep
    split at hstep
    · rename_i entries buf hphase
      split at hstep
      · rename_i tmp htmp
        obtain ⟨hloaded, rfl⟩ := hok rfl entries buf tmp hphase htmp
        cases hstep
        exact h.rename hlaw hbefore hcalls hphase hloaded
      · cases hstep
        exact h.progress (by rw [hphase]; exact Phase.noConfusion) (by simp)
          fun _ _ heq => by cases heq
    · cases hstep

/-- In every run of calls that are not disturbed, once all have returned `Ok` the file holds what they
give in some order. -/
theorem serial_of_undisturbed (hlaw : codec.Lawful) (hidle : ∀ i, s.phase i = .idle)
    (hbefore : ∀ e ∈ loadAll codec true s.file, Storable codec e)
    (hcalls : ∀ i e, (calls i).entry = some e → Storable codec e)
    (halong : Run.Along (step codec calls) (Undisturbed codec) s actions)
    (hrun : Run.run (step codec calls) s actions = some s')
    (hall : ∀ i, s'.phase i = .returned true) :
    Serial calls (loadAll codec true s.file) (loadAll codec true s'.file) := by
  have hstart : Renamed codec calls (loadAll codec true s.file) s := by
    constructor
    · refine ⟨[], List.nodup_nil, fun i => ?_, rfl⟩
      rw [hidle i]
      simp
    · intro i entries buf hi
      rw [hidle i] at hi
      cases hi
  have hend := Run.invariant (fun s a s' h hok hstep => h.step hlaw hbefore hcalls a hok hstep)
    hstart halong hrun
  obtain ⟨⟨order, hnodup, horder, hfile⟩, -⟩ := hend
  rw [hfile]
  exact serial_applyAll hnodup fun i => (horder i).mpr (hall i)

/-- A call whose steps are taken without another's between them. -/
def alone (i : ι) (nonces : ℕ → Nonce) : List (Action ι) :=
  [.read i true, .write i nonces, .rename i true]

/-- A call that runs alone is not disturbed. -/
theorem run_alone {i : ι} {nonces : ℕ → Nonce} {buf : Bytes} (hidle : s.phase i = .idle)
    (hbuf : encryptAll codec nonces ((calls i).edit (loadAll codec true s.file)) = some buf) :
    Run.Along (step codec calls) (Undisturbed codec) s (alone i nonces) ∧
      ∃ s', Run.run (step codec calls) s (alone i nonces) = some s' ∧ s'.file = some buf ∧
        s'.phase i = .returned true ∧ ∀ j, j ≠ i → s'.phase j = s.phase j := by
  have hread : step codec calls s (.read i true) = some { s with
      phase := Function.update s.phase i (.loaded (loadAll codec true s.file)) } := by
    simp only [step, hidle]
  have hwrite : step codec calls { s with
      phase := Function.update s.phase i (.loaded (loadAll codec true s.file)) } (.write i nonces) =
        some { s with
          tmp := some buf
          phase := Function.update s.phase i (.saving (loadAll codec true s.file) buf) } := by
    simp only [step, Function.update_self, hbuf, Function.update_idem]
  have hrename : step codec calls { s with
      tmp := some buf
      phase := Function.update s.phase i (.saving (loadAll codec true s.file) buf) }
        (.rename i true) =
        some { s with
          file := some buf, tmp := none, phase := Function.update s.phase i (.returned true) } := by
    simp only [step, Function.update_self, Function.update_idem]
  constructor
  · refine ⟨rfl, fun s₁ h₁ => ⟨trivial, fun s₂ h₂ => ⟨?_, fun _ _ => trivial⟩⟩⟩
    obtain rfl := Option.some.inj (hread.symm.trans h₁)
    obtain rfl := Option.some.inj (hwrite.symm.trans h₂)
    intro _ entries bytes tmp hphase htmp
    dsimp only at hphase htmp
    rw [Function.update_self] at hphase
    cases hphase
    exact ⟨rfl, (Option.some.inj htmp).symm⟩
  · refine ⟨{ s with
      file := some buf, tmp := none, phase := Function.update s.phase i (.returned true) }, ?_, rfl,
      Function.update_self .., fun j hne => Function.update_of_ne hne ..⟩
    rw [alone, Run.run, hread]
    dsimp only
    rw [Run.run, hwrite]
    dsimp only
    rw [Run.run, hrename]
    rfl

end Runs

section Orders

/-- Two passwords that are stored at once. -/
def twoPasswords (second : Bool) : Call :=
  .storePassword (if second then "lake" else "orders") "hunter2"

def noFile : Disk Bool := ⟨none, none, fun _ => .idle⟩

theorem twoPasswords_storable : ∀ i e, (twoPasswords i).entry = some e → Storable plainCodec e := by
  intro i e he
  cases i with
  | false =>
    obtain rfl := Option.some.inj he
    exact plainCodec_storable "orders" (by decide)
  | true =>
    obtain rfl := Option.some.inj he
    exact plainCodec_storable "lake" (by decide)

theorem loadAll_passwordFrame {id : String} (hid : id ∈ ["orders", "lake", "audit"]) :
    loadAll plainCodec true (some (passwordFrame id)) = [passwordEntry id "hunter2"] := by
  have hall : encryptAll plainCodec (fun _ => firstNonce) [passwordEntry id "hunter2"] =
      some (passwordFrame id ++ []) := by
    rw [encryptAll, encryptEntry_passwordFrame id hid]
    rfl
  rw [List.append_nil] at hall
  apply loadEntries_saved plainCodec_lawful _ hall
  intro e he
  obtain rfl := List.mem_singleton.mp he
  exact plainCodec_storable id hid

/-- One call after the other. -/
theorem serial_of_undisturbed_orders : ∃ s', Run.run (step plainCodec twoPasswords) noFile
      (alone false (fun _ => firstNonce) ++ alone true fun _ => firstNonce) = some s' ∧
    Serial twoPasswords (loadAll plainCodec true noFile.file) (loadAll plainCodec true s'.file) := by
  have hfirst : encryptAll plainCodec (fun _ => firstNonce)
      ((twoPasswords false).edit (loadAll plainCodec true noFile.file)) =
        some (passwordFrame "orders") := rfl
  obtain ⟨halong₁, s₁, hrun₁, hfile₁, hdone₁, hother₁⟩ :=
    @run_alone Bool plainCodec twoPasswords _ noFile false _ _ rfl hfirst
  have hsecond : ∃ buf, encryptAll plainCodec (fun _ => firstNonce)
      ((twoPasswords true).edit (loadAll plainCodec true s₁.file)) = some buf := by
    rw [hfile₁, loadAll_passwordFrame (by decide)]
    exact ⟨_, rfl⟩
  obtain ⟨buf, hbuf⟩ := hsecond
  obtain ⟨halong₂, s₂, hrun₂, -, hdone₂, hother₂⟩ := run_alone (hother₁ true (by decide)) hbuf
  have hrun : Run.run (step plainCodec twoPasswords) noFile
      (alone false (fun _ => firstNonce) ++ alone true fun _ => firstNonce) = some s₂ := by
    rw [Run.run_append, hrun₁]
    exact hrun₂
  have halong : Run.Along (step plainCodec twoPasswords) (Undisturbed plainCodec) noFile
      (alone false (fun _ => firstNonce) ++ alone true fun _ => firstNonce) := by
    apply Run.along_concat halong₁
    intro s' hs'
    obtain rfl := Option.some.inj (hrun₁.symm.trans hs')
    exact halong₂
  refine ⟨s₂, hrun, ?_⟩
  apply serial_of_undisturbed plainCodec_lawful (fun _ => rfl) _ twoPasswords_storable halong hrun
  · intro i
    cases i with
    | false => rw [hother₂ false (by decide), hdone₁]
    | true => exact hdone₂
  · intro e he
    cases he

/-- Both calls read the file before either has renamed, both return `Ok`, and a password is lost. -/
theorem not_serial_orders : ∃ s', Run.run (step plainCodec twoPasswords) noFile
      [.read false true, .read true true, .write false fun _ => firstNonce, .rename false true,
        .write true fun _ => firstNonce, .rename true true] = some s' ∧
    (∀ i, s'.phase i = .returned true) ∧
    ¬ Serial twoPasswords (loadAll plainCodec true noFile.file) (loadAll plainCodec true s'.file) := by
  refine ⟨⟨some (passwordFrame "lake"), none, _⟩, rfl, ?_, ?_⟩
  · intro i
    cases i <;> rfl
  · intro h
    have hmem := h.stored false (passwordEntry "orders" "hunter2") rfl (by
      intro j hj
      cases j with
      | false => exact absurd rfl hj
      | true => decide)
    have hfile := @loadAll_passwordFrame "lake" (by decide)
    dsimp only at hmem
    rw [hfile] at hmem
    have hid := congrArg CredentialEntry.id (List.mem_singleton.mp hmem)
    exact absurd hid (by decide)

end Orders

end RustLake.Credentials
