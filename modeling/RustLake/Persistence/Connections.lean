import RustLake.Persistence.StateDb
import RustLake.Persistence.JsonLines
import RustLake.Order.Run

/-! The connections in memory and in their JSONL file, beside calls that add, update and remove
connections while there is no state database. -/
namespace RustLake.Persistence.Connections

/-- A call where it has come to: an added entry is written to the file before the lock is taken,
and a rewrite holds the lock with the texts that it has yet to write and its place in the file. -/
inductive Task where
  | addConnectionEntry (entry : ConnectionEntry)
  | appendNewline (entry : ConnectionEntry)
  | awaitLock (entry : ConnectionEntry)
  | updateConnectionEntry (id : String) (f : ConnectionEntry → ConnectionEntry)
  | removeConnectionEntry (id : String)
  | rewriteJsonLines (pieces : List (List Char)) (offset : ℕ)
  | returned

structure State where
  connections : List ConnectionEntry
  file : List Char
  tasks : List Task

inductive Action where
  | call (task : Task)
  | advance (i : ℕ)
  | fail (i written : ℕ)

/-- A write at a place of the file, over what is there. -/
def writeAt (offset : ℕ) (text file : List Char) : List Char :=
  file.take offset ++ text ++ file.drop (offset + text.length)

/-- `find` and change the first entry with the id. -/
def updateFirst (id : String) (f : ConnectionEntry → ConnectionEntry)
    (connections : List ConnectionEntry) : List ConnectionEntry :=
  connections.replaceF fun c => if c.id = id then some (f c) else none

def retained (id : String) (connections : List ConnectionEntry) : List ConnectionEntry :=
  connections.filter fun c => c.id ≠ id

section Step
variable (toJson : ConnectionEntry → JsonText)

/-- The pieces in which a list is written: each text and its line break. -/
def pieces (connections : List ConnectionEntry) : List (List Char) :=
  connections.flatMap fun c => [(toJson c).chars, ['\n']]

def Task.isCall : Task → Bool
  | .addConnectionEntry _ | .updateConnectionEntry _ _ | .removeConnectionEntry _ => true
  | _ => false

def Task.isRewrite : Task → Bool
  | .rewriteJsonLines _ _ => true
  | _ => false

/-- A task that goes on by taking the write lock. -/
def Task.locks : Task → Bool
  | .awaitLock _ | .updateConnectionEntry _ _ | .removeConnectionEntry _ => true
  | _ => false

/-- The next step of a task, with the connections and the file after it. -/
def Task.next (connections : List ConnectionEntry) (file : List Char) :
    Task → Option (Task × List ConnectionEntry × List Char)
  | .addConnectionEntry entry =>
    some (.appendNewline entry, connections, file ++ (toJson entry).chars)
  | .appendNewline entry => some (.awaitLock entry, connections, file ++ ['\n'])
  | .awaitLock entry => some (.returned, connections ++ [entry], file)
  | .updateConnectionEntry id f =>
    let updated := updateFirst id f connections
    some (.rewriteJsonLines (pieces toJson updated) 0, updated, [])
  | .removeConnectionEntry id =>
    let left := retained id connections
    if left.length < connections.length then
      some (.rewriteJsonLines (pieces toJson left) 0, left, [])
    else some (.returned, connections, file)
  | .rewriteJsonLines [] _ => some (.returned, connections, file)
  | .rewriteJsonLines (piece :: rest) offset =>
    some (.rewriteJsonLines rest (offset + piece.length), connections, writeAt offset piece file)
  | .returned => none

/-- A step in which the call to the file fails, after so many characters are written. -/
def Task.failure (written : ℕ) (connections : List ConnectionEntry) (file : List Char) :
    Task → Option (Task × List ConnectionEntry × List Char)
  | .addConnectionEntry entry =>
    some (.awaitLock entry, connections, file ++ (toJson entry).chars.take written)
  | .appendNewline entry => some (.awaitLock entry, connections, file)
  | .updateConnectionEntry id f => some (.returned, updateFirst id f connections, file)
  | .removeConnectionEntry id => some (.returned, retained id connections, file)
  | .rewriteJsonLines (piece :: _) offset =>
    some (.returned, connections, writeAt offset (piece.take written) file)
  | _ => none

/-- A task can go on unless it waits for the lock. -/
def State.free (s : State) (task : Task) : Bool := !(task.locks && s.tasks.any Task.isRewrite)

/-- The state after a task goes on. -/
def State.resume (s : State) (i : ℕ)
    (go : Task → Option (Task × List ConnectionEntry × List Char)) : Option State :=
  match s.tasks[i]? with
  | some task =>
    if s.free task then
      (go task).map fun (task', connections, file) => ⟨connections, file, s.tasks.set i task'⟩
    else none
  | none => none

def step (s : State) : Action → Option State
  | .call task => if task.isCall then some { s with tasks := s.tasks ++ [task] } else none
  | .advance i => s.resume i (Task.next toJson s.connections s.file)
  | .fail i written => s.resume i (Task.failure toJson written s.connections s.file)

end Step
section Matching
variable (toJson : ConnectionEntry → JsonText)

/-- The file has one line for each connection in memory, with the same ids. -/
def Matches (connections : List ConnectionEntry) (file : List Char) : Prop :=
  ∃ entries : List ConnectionEntry,
    linesFrom [] file = entries.map (fun c => (toJson c).chars) ∧
      (entries.map (·.id)).Perm (connections.map (·.id))

/-- The entry whose text stands in the file without its line break. -/
def Task.begun : Task → Option ConnectionEntry
  | .appendNewline entry => some entry
  | _ => none

/-- The entry whose line is written but that is not in memory. -/
def Task.awaiting : Task → Option ConnectionEntry
  | .awaitLock entry => some entry
  | _ => none

/-- What a rewrite has yet to write, and where. -/
def Task.rewriting : Task → Option (List (List Char) × ℕ)
  | .rewriteJsonLines pieces offset => some (pieces, offset)
  | _ => none

def State.begun (s : State) : List ConnectionEntry := s.tasks.filterMap Task.begun

def State.awaiting (s : State) : List ConnectionEntry := s.tasks.filterMap Task.awaiting

def State.rewriting (s : State) : List (List (List Char) × ℕ) := s.tasks.filterMap Task.rewriting

/-- An entry is written while no rewrite is under way and no other entry is half written, and a
rewrite begins while no entry is on its way from the file into memory. -/
def Undisturbed (s : State) : Task → Prop
  | .addConnectionEntry _ => s.rewriting = [] ∧ s.begun = []
  | .updateConnectionEntry _ _ => s.begun = [] ∧ s.awaiting = []
  | .removeConnectionEntry id =>
    (retained id s.connections).length < s.connections.length → s.begun = [] ∧ s.awaiting = []
  | _ => True

/-- No call to the file fails, and tasks go on undisturbed. -/
def Orderly (s : State) : Action → Prop
  | .call _ => True
  | .advance i => ∀ task, s.tasks[i]? = some task → Undisturbed s task
  | .fail _ _ => False

instance (s : State) (task : Task) : Decidable (Undisturbed s task) :=
  match task with
  | .addConnectionEntry _ => inferInstanceAs (Decidable (s.rewriting = [] ∧ s.begun = []))
  | .updateConnectionEntry _ _ => inferInstanceAs (Decidable (s.begun = [] ∧ s.awaiting = []))
  | .removeConnectionEntry id =>
    inferInstanceAs (Decidable ((retained id s.connections).length < s.connections.length →
      s.begun = [] ∧ s.awaiting = []))
  | .appendNewline _ | .awaitLock _ | .rewriteJsonLines _ _ | .returned => isTrue trivial

instance (s : State) (action : Action) : Decidable (Orderly s action) :=
  match action with
  | .call _ => isTrue trivial
  | .advance i =>
    match h : s.tasks[i]? with
    | some task => decidable_of_iff (Undisturbed s task) (by simp [Orderly, h])
    | none => isTrue (by simp [Orderly, h])
  | .fail _ _ => isFalse id

/-- No rewrite is under way: the file has the connections in memory and those on their way. -/
structure Settled (s : State) : Prop where
  rewriting : s.rewriting = []
  begun : s.begun.length ≤ 1
  file : ∃ entries : List ConnectionEntry,
    s.file = render (entries.map toJson) ++ s.begun.flatMap (fun c => (toJson c).chars) ∧
      (entries.map (·.id)).Perm ((s.connections ++ s.awaiting).map (·.id))

/-- One rewrite is under way, and no connection is on its way: the file and what is yet to be
written are the connections in memory. -/
structure Rewriting (s : State) : Prop where
  begun : s.begun = []
  awaiting : s.awaiting = []
  file : ∃ pieces, s.rewriting = [(pieces, s.file.length)] ∧
    s.file ++ pieces.flatten = render (s.connections.map toJson)

theorem flatten_pieces (connections : List ConnectionEntry) :
    (pieces toJson connections).flatten = render (connections.map toJson) := by
  induction connections with
  | nil => rfl
  | cons c rest ih =>
    have hpieces : pieces toJson (c :: rest) =
        (toJson c).chars :: ['\n'] :: pieces toJson rest := rfl
    rw [hpieces, List.flatten_cons, List.flatten_cons, ih, List.map_cons, render_cons]
    rfl

theorem writeAt_length (text file : List Char) : writeAt file.length text file = file ++ text := by
  unfold writeAt
  rw [List.take_length, List.drop_eq_nil_of_le (Nat.le_add_right _ _), List.append_nil]

section Tasks
variable {connections : List ConnectionEntry} {file : List Char} {before later : List Task}
  {task : Task}

@[simp] theorem begun_mk :
    State.begun ⟨connections, file, before ++ task :: later⟩ =
      before.filterMap Task.begun ++ (task.begun.toList ++ later.filterMap Task.begun) := by
  cases h : task.begun <;> simp [State.begun, h]

@[simp] theorem awaiting_mk :
    State.awaiting ⟨connections, file, before ++ task :: later⟩ =
      before.filterMap Task.awaiting ++ (task.awaiting.toList ++ later.filterMap Task.awaiting) := by
  cases h : task.awaiting <;> simp [State.awaiting, h]

@[simp] theorem rewriting_mk :
    State.rewriting ⟨connections, file, before ++ task :: later⟩ =
      before.filterMap Task.rewriting ++
        (task.rewriting.toList ++ later.filterMap Task.rewriting) := by
  cases h : task.rewriting <;> simp [State.rewriting, h]

end Tasks

/-- A task that needs the lock goes on only while no rewrite is under way. -/
theorem rewriting_of_free {s : State} {task : Task} (hlocks : task.locks = true)
    (hfree : s.free task = true) : s.rewriting = [] := by
  have hnone : ∀ t ∈ s.tasks, t.isRewrite = false := by
    simpa [State.free, hlocks] using hfree
  apply List.filterMap_eq_nil_iff.mpr
  intro t ht
  have hrewrite := hnone t ht
  cases t <;> first | rfl | cases hrewrite

/-- What an advancing task does, and the tasks around it. -/
theorem advance_cases {s s' : State} {i : ℕ} (h : step toJson s (.advance i) = some s') :
    ∃ before task later task' connections file, s.tasks[i]? = some task ∧
      s.free task = true ∧ task.next toJson s.connections s.file = some (task', connections, file) ∧
      s = ⟨s.connections, s.file, before ++ task :: later⟩ ∧
      s' = ⟨connections, file, before ++ task' :: later⟩ := by
  unfold step State.resume at h
  dsimp only at h
  split at h
  · rename_i task htask
    split at h
    · rename_i hfree
      obtain ⟨⟨task', connections, file⟩, hnext, hs'⟩ := Option.map_eq_some_iff.mp h
      obtain ⟨before, later, hsplit, hset⟩ := Run.exists_eq_append_set htask
      refine ⟨before, task, later, task', connections, file, htask, hfree, hnext, ?_, ?_⟩
      · rw [← hsplit]
      · rw [← hs', hset]
    · cases h
  · cases h

section Cases
variable {toJson : ConnectionEntry → JsonText} {connections : List ConnectionEntry}
  {file : List Char} {before later : List Task}

/-- The entry whose text comes next is the only one that has begun. -/
theorem Settled.append {entry : ConnectionEntry}
    (h : Settled toJson ⟨connections, file, before ++ .addConnectionEntry entry :: later⟩)
    (hbegun : State.begun ⟨connections, file, before ++ .addConnectionEntry entry :: later⟩ = []) :
    Settled toJson ⟨connections, file ++ (toJson entry).chars,
      before ++ .appendNewline entry :: later⟩ := by
  obtain ⟨hrewriting, -, entries, hfile, hids⟩ := h
  rw [begun_mk] at hbegun
  obtain ⟨hbefore, hlater⟩ := List.append_eq_nil_iff.mp hbegun
  have hlater : later.filterMap Task.begun = [] := hlater
  have hbegun' : State.begun ⟨connections, file ++ (toJson entry).chars,
      before ++ .appendNewline entry :: later⟩ = [entry] := by
    rw [begun_mk, hbefore, hlater]
    rfl
  refine ⟨?_, ?_, entries, ?_, ?_⟩
  · rw [rewriting_mk] at hrewriting ⊢
    exact hrewriting
  · rw [hbegun']
    rfl
  · have hnone : file = render (entries.map toJson) := by
      simpa [begun_mk, hbefore, hlater, Task.begun] using hfile
    rw [hbegun', hnone]
    simp
  · rw [awaiting_mk] at hids ⊢
    exact hids

/-- A line that is complete counts as an entry of the file. -/
theorem Settled.newline {entry : ConnectionEntry}
    (h : Settled toJson ⟨connections, file, before ++ .appendNewline entry :: later⟩) :
    Settled toJson ⟨connections, file ++ ['\n'], before ++ .awaitLock entry :: later⟩ := by
  obtain ⟨hrewriting, hbegun, entries, hfile, hids⟩ := h
  rw [begun_mk] at hbegun hfile
  have hlength : (before.filterMap Task.begun).length +
      (1 + (later.filterMap Task.begun).length) ≤ 1 := by
    simpa [Task.begun, Nat.add_comm] using hbegun
  have hbefore : before.filterMap Task.begun = [] := List.length_eq_zero_iff.mp (by omega)
  have hlater : later.filterMap Task.begun = [] := List.length_eq_zero_iff.mp (by omega)
  have hbegun' : State.begun ⟨connections, file ++ ['\n'],
      before ++ .awaitLock entry :: later⟩ = [] := by
    rw [begun_mk, hbefore, hlater]
    rfl
  refine ⟨?_, ?_, entries ++ [entry], ?_, ?_⟩
  · rw [rewriting_mk] at hrewriting ⊢
    exact hrewriting
  · rw [hbegun']
    exact Nat.zero_le 1
  · have hone : file = render (entries.map toJson) ++ (toJson entry).chars := by
      simpa [hbefore, hlater, Task.begun] using hfile
    rw [hbegun', hone]
    simp
  · have hmoved : ((connections ++ State.awaiting ⟨connections, file,
        before ++ .appendNewline entry :: later⟩) ++ [entry]).Perm
        (connections ++ State.awaiting ⟨connections, file ++ ['\n'],
          before ++ .awaitLock entry :: later⟩) := by
      rw [awaiting_mk, awaiting_mk, List.append_assoc]
      apply List.Perm.append_left
      rw [List.append_assoc]
      apply List.Perm.append_left
      exact List.perm_append_comm
    rw [List.map_append]
    exact (hids.append_right _).trans (by simpa using hmoved.map (·.id))

/-- An entry that is pushed is in memory. -/
theorem Settled.push {entry : ConnectionEntry}
    (h : Settled toJson ⟨connections, file, before ++ .awaitLock entry :: later⟩) :
    Settled toJson ⟨connections ++ [entry], file, before ++ .returned :: later⟩ := by
  obtain ⟨hrewriting, hbegun, entries, hfile, hids⟩ := h
  refine ⟨?_, ?_, entries, ?_, hids.trans ?_⟩
  · rw [rewriting_mk] at hrewriting ⊢
    exact hrewriting
  · rw [begun_mk] at hbegun ⊢
    exact hbegun
  · rw [begun_mk] at hfile ⊢
    exact hfile
  · rw [awaiting_mk, awaiting_mk, List.append_assoc]
    apply List.Perm.map
    apply List.Perm.append_left
    exact List.perm_middle

/-- A rewrite that begins has all connections to write. -/
theorem rewriting_start {task : Task} {updated : List ConnectionEntry}
    (hnone : State.rewriting ⟨connections, file, before ++ task :: later⟩ = [])
    (hbegun : State.begun ⟨connections, file, before ++ task :: later⟩ = [])
    (hawaiting : State.awaiting ⟨connections, file, before ++ task :: later⟩ = []) :
    Rewriting toJson ⟨updated, [],
      before ++ .rewriteJsonLines (pieces toJson updated) 0 :: later⟩ := by
  rw [rewriting_mk, List.append_eq_nil_iff, List.append_eq_nil_iff] at hnone
  rw [begun_mk, List.append_eq_nil_iff, List.append_eq_nil_iff] at hbegun
  rw [awaiting_mk, List.append_eq_nil_iff, List.append_eq_nil_iff] at hawaiting
  refine ⟨?_, ?_, pieces toJson updated, ?_, ?_⟩
  · rw [begun_mk, hbegun.1, hbegun.2.2]
    rfl
  · rw [awaiting_mk, hawaiting.1, hawaiting.2.2]
    rfl
  · rw [rewriting_mk, hnone.1, hnone.2.2]
    rfl
  · exact flatten_pieces toJson updated

/-- The rewrite that is under way is the only one. -/
theorem Rewriting.unique {left : List (List Char)} {offset : ℕ}
    (h : Rewriting toJson ⟨connections, file, before ++ .rewriteJsonLines left offset :: later⟩) :
    before.filterMap Task.rewriting = [] ∧ later.filterMap Task.rewriting = [] ∧
      offset = file.length ∧ file ++ left.flatten = render (connections.map toJson) := by
  obtain ⟨-, -, pieces, hrewriting, hfile⟩ := h
  rw [rewriting_mk] at hrewriting
  have hsingle : before.filterMap Task.rewriting ++
      (left, offset) :: later.filterMap Task.rewriting = [(pieces, file.length)] := hrewriting
  rcases List.append_eq_singleton_iff.mp hsingle with ⟨hbefore, hone⟩ | ⟨-, hnone⟩
  · obtain ⟨hpair, hlater⟩ := List.cons_eq_cons.mp hone
    cases hpair
    exact ⟨hbefore, hlater, rfl, hfile⟩
  · cases hnone

theorem Rewriting.write {piece : List Char} {left : List (List Char)} {offset : ℕ}
    (h : Rewriting toJson ⟨connections, file,
      before ++ .rewriteJsonLines (piece :: left) offset :: later⟩) :
    Rewriting toJson ⟨connections, writeAt offset piece file,
      before ++ .rewriteJsonLines left (offset + piece.length) :: later⟩ := by
  obtain ⟨hbefore, hlater, rfl, hfile⟩ := h.unique
  obtain ⟨hbegun, hawaiting, -⟩ := h
  refine ⟨?_, ?_, left, ?_, ?_⟩
  · rw [begun_mk] at hbegun ⊢
    exact hbegun
  · rw [awaiting_mk] at hawaiting ⊢
    exact hawaiting
  · rw [rewriting_mk, hbefore, hlater, writeAt_length, List.length_append]
    rfl
  · rw [writeAt_length, List.append_assoc]
    exact hfile

theorem Rewriting.finish {offset : ℕ}
    (h : Rewriting toJson ⟨connections, file,
      before ++ .rewriteJsonLines [] offset :: later⟩) :
    Settled toJson ⟨connections, file, before ++ .returned :: later⟩ := by
  obtain ⟨hbefore, hlater, -, hfile⟩ := h.unique
  obtain ⟨hbegun, hawaiting, -⟩ := h
  rw [begun_mk] at hbegun
  rw [awaiting_mk] at hawaiting
  have hbegun' : State.begun ⟨connections, file, before ++ .returned :: later⟩ = [] := by
    rw [begun_mk]
    exact hbegun
  have hawaiting' : State.awaiting ⟨connections, file, before ++ .returned :: later⟩ = [] := by
    rw [awaiting_mk]
    exact hawaiting
  refine ⟨?_, ?_, connections, ?_, ?_⟩
  · rw [rewriting_mk, hbefore, hlater]
    rfl
  · rw [hbegun']
    exact Nat.zero_le 1
  · rw [hbegun', List.flatMap_nil, List.append_nil, ← hfile]
    exact (List.append_nil file).symm
  · rw [hawaiting', List.append_nil]

/-- A task that does nothing to the file changes nothing. -/
theorem Settled.replace {task task' : Task}
    (h : Settled toJson ⟨connections, file, before ++ task :: later⟩)
    (hbegun : task'.begun = task.begun) (hawaiting : task'.awaiting = task.awaiting)
    (hrewriting : task'.rewriting = task.rewriting) :
    Settled toJson ⟨connections, file, before ++ task' :: later⟩ := by
  obtain ⟨hnone, hone, entries, hfile, hids⟩ := h
  refine ⟨?_, ?_, entries, ?_, ?_⟩
  · rw [rewriting_mk, hrewriting, ← rewriting_mk]
    exact hnone
  · rw [begun_mk, hbegun, ← begun_mk]
    exact hone
  · rw [begun_mk, hbegun, ← begun_mk]
    exact hfile
  · rw [awaiting_mk, hawaiting, ← awaiting_mk]
    exact hids

theorem inv_call {s : State} {task : Task} (hcall : task.isCall = true)
    (h : Settled toJson s ∨ Rewriting toJson s) :
    Settled toJson { s with tasks := s.tasks ++ [task] } ∨
      Rewriting toJson { s with tasks := s.tasks ++ [task] } := by
  have hbegun : State.begun { s with tasks := s.tasks ++ [task] } = s.begun := by
    cases task <;> simp_all [State.begun, Task.begun, Task.isCall]
  have hawaiting : State.awaiting { s with tasks := s.tasks ++ [task] } = s.awaiting := by
    cases task <;> simp_all [State.awaiting, Task.awaiting, Task.isCall]
  have hrewriting : State.rewriting { s with tasks := s.tasks ++ [task] } = s.rewriting := by
    cases task <;> simp_all [State.rewriting, Task.rewriting, Task.isCall]
  rcases h with ⟨hnone, hone, hfile⟩ | ⟨hnone, hidle, hfile⟩
  · refine Or.inl ⟨hrewriting.trans hnone, ?_, ?_⟩
    · rw [hbegun]
      exact hone
    · rw [hbegun, hawaiting]
      exact hfile
  · refine Or.inr ⟨hbegun.trans hnone, hawaiting.trans hidle, ?_⟩
    rw [hrewriting]
    exact hfile

end Cases

/-- A step that meets the condition keeps the file in line with the connections. -/
theorem step_inv {s s' : State} {action : Action}
    (hinv : Settled toJson s ∨ Rewriting toJson s) (hok : Orderly s action)
    (h : step toJson s action = some s') : Settled toJson s' ∨ Rewriting toJson s' := by
  cases action with
  | fail i written => exact hok.elim
  | call task =>
    unfold step at h
    dsimp only at h
    split at h
    · rename_i hcall
      cases h
      exact inv_call hcall hinv
    · cases h
  | advance i =>
    obtain ⟨before, task, later, task', connections, file, hi, hfree, hnext, hs, rfl⟩ :=
      advance_cases toJson h
    have hlocked : task.locks = true → ¬ Rewriting toJson s := by
      intro hlocks hrewriting
      obtain ⟨-, -, pieces, hsome, -⟩ := hrewriting
      rw [rewriting_of_free hlocks hfree] at hsome
      cases hsome
    have hundisturbed := hok task hi
    rw [hs] at hinv hlocked hundisturbed hnext
    cases task with
    | addConnectionEntry entry =>
      cases hnext
      rcases hinv with hsettled | ⟨-, -, pieces, hsome, -⟩
      · exact Or.inl (hsettled.append hundisturbed.2)
      · rw [hundisturbed.1] at hsome
        cases hsome
    | appendNewline entry =>
      cases hnext
      rcases hinv with hsettled | ⟨hbegun, -⟩
      · exact Or.inl hsettled.newline
      · simp [Task.begun] at hbegun
    | awaitLock entry =>
      cases hnext
      exact Or.inl (hinv.resolve_right (hlocked rfl)).push
    | updateConnectionEntry id f =>
      cases hnext
      have hsettled := hinv.resolve_right (hlocked rfl)
      exact Or.inr (rewriting_start hsettled.rewriting hundisturbed.1 hundisturbed.2)
    | removeConnectionEntry id =>
      have hsettled := hinv.resolve_right (hlocked rfl)
      unfold Task.next at hnext
      dsimp only at hnext
      split at hnext
      · rename_i hless
        cases hnext
        obtain ⟨hbegun, hawaiting⟩ := hundisturbed hless
        exact Or.inr (rewriting_start hsettled.rewriting hbegun hawaiting)
      · cases hnext
        exact Or.inl (hsettled.replace rfl rfl rfl)
    | rewriteJsonLines left offset =>
      rcases hinv with hsettled | hrewriting
      · have hnone := hsettled.rewriting
        simp [Task.rewriting] at hnone
      · cases left with
        | nil =>
          cases hnext
          exact Or.inl hrewriting.finish
        | cons piece rest =>
          cases hnext
          exact Or.inr hrewriting.write
    | returned => cases hnext

/-- In every run in which no call to the file fails and no rewrite begins while an entry is on its
way from the file into memory, the file has one line for each connection in memory whenever all
calls have returned, provided that it does so at first. -/
theorem matches_of_orderly {connections : List ConnectionEntry} {actions : List Action}
    {s : State}
    (halong : Run.Along (step toJson) Orderly
      ⟨connections, render (connections.map toJson), []⟩ actions)
    (hrun : Run.run (step toJson) ⟨connections, render (connections.map toJson), []⟩ actions =
      some s) (hreturned : ∀ task ∈ s.tasks, task = .returned) :
    Matches toJson s.connections s.file := by
  have hstart : Settled toJson ⟨connections, render (connections.map toJson), []⟩ := by
    refine ⟨rfl, Nat.zero_le 1, connections, ?_, ?_⟩
    · simp [State.begun]
    · simp [State.awaiting]
  have hnone : ∀ {β : Type} (f : Task → Option β), f .returned = none →
      s.tasks.filterMap f = [] := by
    intro β f hf
    apply List.filterMap_eq_nil_iff.mpr
    intro task htask
    rw [hreturned task htask, hf]
  have hbegun : s.begun = [] := hnone Task.begun rfl
  have hawaiting : s.awaiting = [] := hnone Task.awaiting rfl
  have hrewriting : s.rewriting = [] := hnone Task.rewriting rfl
  have hinv := Run.invariant (fun _ _ _ => step_inv toJson) (Or.inl hstart) halong hrun
  rcases hinv with ⟨-, -, entries, hfile, hids⟩ | ⟨-, -, pieces, hsome, -⟩
  · refine ⟨entries, ?_, ?_⟩
    · rw [hfile, hbegun, List.flatMap_nil, List.append_nil, linesFrom_render, List.map_map]
      rfl
    · rw [hawaiting, List.append_nil] at hids
      exact hids
  · rw [hrewriting] at hsome
    cases hsome

end Matching

section BootstrapConnections

def bootstrapPostgres : ConnectionEntry where
  id := "bootstrap-postgres"
  name := "warehouse"
  connType := "postgres"
  host := "localhost"
  port := 5432
  database := "warehouse"
  username := "rustlake"
  status := "connected"
  tables := []
  source := "bootstrap"
  authMethod := "scram"
  connectionString := none

def bootstrapMysql : ConnectionEntry :=
  { bootstrapPostgres with
    id := "bootstrap-mysql", name := "shop", connType := "mysql", port := 3306, database := "shop" }

def postgresJson : List Char :=
  ("\x7b\"id\":\"bootstrap-postgres\",\"name\":\"warehouse\",\"conn_type\":\"postgres\"," ++
    "\"host\":\"localhost\",\"port\":5432,\"database\":\"warehouse\",\"username\":\"rustlake\"," ++
    "\"status\":\"connected\",\"tables\":[],\"created_at\":\"2024-05-01T07:08:09Z\"," ++
    "\"source\":\"bootstrap\",\"sync_status\":\"ready\",\"auth_method\":\"scram\"\x7d").toList

def mysqlJson : List Char :=
  ("\x7b\"id\":\"bootstrap-mysql\",\"name\":\"shop\",\"conn_type\":\"mysql\"," ++
    "\"host\":\"localhost\",\"port\":3306,\"database\":\"shop\",\"username\":\"rustlake\"," ++
    "\"status\":\"connected\",\"tables\":[],\"created_at\":\"2024-05-01T07:08:10Z\"," ++
    "\"source\":\"bootstrap\",\"sync_status\":\"ready\",\"auth_method\":\"scram\"\x7d").toList

/-- The texts of the two connections, without the line breaks that they do not have. -/
@[irreducible] def bootstrapJson (c : ConnectionEntry) : JsonText where
  chars := (if c.connType = "mysql" then mysqlJson else postgresJson).filter fun ch =>
    ch ≠ '\n' ∧ ch ≠ '\r'
  oneLine ch hch := by simpa using (List.mem_filter.mp hch).2

def oneAdded : List Action :=
  [.call (.addConnectionEntry bootstrapMysql), .advance 0, .advance 0, .advance 0]

theorem run_oneAdded (toJson : ConnectionEntry → JsonText) :
    Run.run (step toJson)
      ⟨[bootstrapPostgres], render ([bootstrapPostgres].map toJson), []⟩ oneAdded =
    some ⟨[bootstrapPostgres, bootstrapMysql],
      render ([bootstrapPostgres, bootstrapMysql].map toJson), [.returned]⟩ := by
  simp [oneAdded, Run.run, step, State.resume, State.free, Task.isCall, Task.locks,
    Task.isRewrite, Task.next]

theorem along_oneAdded (toJson : ConnectionEntry → JsonText) :
    Run.Along (step toJson) Orderly
      ⟨[bootstrapPostgres], render ([bootstrapPostgres].map toJson), []⟩ oneAdded := by
  simp [oneAdded, Run.Along, step, State.resume, State.free, Task.isCall, Task.locks,
    Task.isRewrite, Task.next, Orderly, Undisturbed, State.begun, State.rewriting, Task.begun,
    Task.rewriting]

theorem matches_bootstrap :
    Matches bootstrapJson [bootstrapPostgres, bootstrapMysql]
      (render ([bootstrapPostgres, bootstrapMysql].map bootstrapJson)) := by
  have hreturned : ∀ task ∈ [Task.returned], task = .returned := List.forall_mem_singleton.mpr rfl
  exact matches_of_orderly bootstrapJson (along_oneAdded bootstrapJson)
    (run_oneAdded bootstrapJson) hreturned

/-- The other connection is removed after the line of the first is written and before the entry is
in memory. -/
def removedMeanwhile : List Action :=
  [.call (.addConnectionEntry bootstrapMysql), .call (.removeConnectionEntry "bootstrap-postgres"),
    .advance 0, .advance 0, .advance 1, .advance 1, .advance 0]

theorem run_removedMeanwhile (toJson : ConnectionEntry → JsonText) :
    Run.run (step toJson)
      ⟨[bootstrapPostgres], render ([bootstrapPostgres].map toJson), []⟩ removedMeanwhile =
    some ⟨[bootstrapMysql], [], [.returned, .returned]⟩ := by
  have hretained : retained "bootstrap-postgres" [bootstrapPostgres] = [] := by decide
  simp [removedMeanwhile, Run.run, step, State.resume, State.free, Task.isCall, Task.locks,
    Task.isRewrite, Task.next, hretained, pieces]

/-- All calls have returned, the file is empty, and there is a connection in memory. -/
theorem lost_line_bootstrap :
    Run.run (step bootstrapJson)
        ⟨[bootstrapPostgres], render ([bootstrapPostgres].map bootstrapJson), []⟩ removedMeanwhile =
      some ⟨[bootstrapMysql], [], [.returned, .returned]⟩ ∧
    ¬ Matches bootstrapJson [bootstrapMysql] [] := by
  refine ⟨run_removedMeanwhile bootstrapJson, ?_⟩
  rintro ⟨entries, hlines, hids⟩
  have hnone : entries = [] := List.map_eq_nil_iff.mp hlines.symm
  rw [hnone] at hids
  exact absurd hids.length_eq (by decide)

end BootstrapConnections

end RustLake.Persistence.Connections
