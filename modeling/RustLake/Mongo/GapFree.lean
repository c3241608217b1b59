import RustLake.Mongo.ChangeStream
import RustLake.Order.Run

/-! A MongoDB source on one collection with an initial snapshot: the token capture, the snapshot and
the change stream, among the writes to the collection. -/
namespace RustLake.Mongo

/-- A write to a document, as what it leaves of it. -/
structure Change (Id Doc : Type) where
  id : Id
  document : Option Doc
deriving DecidableEq

/-- A change with its place in the server's log, which stands for its resume token. -/
abbrev Logged (Id Doc : Type) := ℕ × Change Id Doc

/-- Where the task is that `start` spawns. -/
inductive Phase (Id Doc : Type) where
  | capture
  | counting
  | finding
  /-- A cursor is open: what it has still to give, what it may give, and `docs_batch`. -/
  | reading (unread seen docsBatch : List (Id × Doc))
  | opening
  /-- A stream is open at a place in the log, and its next event is awaited or not. -/
  | streaming (position : ℕ) (polling : Bool)
  | finished
deriving DecidableEq

structure CdcSource (Id Doc : Type) where
  docs : List (Id × Doc)
  log : List (Change Id Doc)
  running : Bool
  receiverOpen : Bool
  cdcResumeToken : Option ℕ
  phase : Phase Id Doc
  /-- The documents and the length of the log when the token capture is tried. -/
  startDocs : List (Id × Doc)
  startLength : ℕ
  /-- The batches of the snapshot that have been sent. -/
  snapshot : List (List (Id × Doc))
  /-- A batch of the stream stands for its events. -/
  loop : LoopState (Logged Id Doc) ℕ (List (Logged Id Doc))

/-- What happens next: a write, a request to stop, the end of the receiver, or how an operation of
the task ends. -/
inductive CdcAction (Id Doc : Type) where
  | write (change : Change Id Doc)
  | stop
  | dropReceiver
  /-- A stream opens and has a token, or not. -/
  | capture (token : Bool)
  | count (ok : Bool)
  | find (ok : Bool)
  | read (row : Id × Doc)
  | readFails
  | exhausted
  | openStream (ok : Bool)
  | head
  /-- The server passes over a change that the pipeline takes out. -/
  | passOver
  | event
  | timeout
  | streamEnds
  | streamFails (error : String)
deriving DecidableEq

section Steps

variable {Id Doc : Type} [DecidableEq Id] [DecidableEq Doc]

def Change.apply (change : Change Id Doc) (docs : List (Id × Doc)) : List (Id × Doc) :=
  docs.filter (fun p => p.1 ≠ change.id) ++
    (change.document.map fun doc => (change.id, doc)).toList

/-- The place in the log of an open stream. -/
def Phase.position : Phase Id Doc → Option ℕ
  | .streaming position _ => some position
  | _ => none

/-- A cursor need not give back a document that is written to. -/
def Phase.seeWrite (change : Change Id Doc) : Phase Id Doc → Phase Id Doc
  | .reading unread seen docsBatch =>
    .reading (unread.filter fun p => p.1 ≠ change.id)
      (seen ++ (change.document.map fun doc => (change.id, doc)).toList) docsBatch
  | phase => phase

def CdcSource.write (s : CdcSource Id Doc) (change : Change Id Doc) : CdcSource Id Doc :=
  { s with
    docs := change.apply s.docs
    log := s.log ++ [change]
    phase := s.phase.seeWrite change }

/-- A batch of the snapshot is sent, if there is a receiver. -/
def CdcSource.sendRows (s : CdcSource Id Doc) (rows : List (Id × Doc)) : CdcSource Id Doc :=
  if s.receiverOpen then { s with snapshot := s.snapshot ++ [rows] } else s

/-- After its loop the snapshot sends the rest; a stream is opened next. -/
def CdcSource.endSnapshot (s : CdcSource Id Doc) (docsBatch : List (Id × Doc)) :
    CdcSource Id Doc :=
  if docsBatch ≠ [] then { s.sendRows docsBatch with phase := .opening }
  else { s with phase := .opening }

/-- The loop's end. -/
def CdcSource.finish (s : CdcSource Id Doc) : CdcSource Id Doc :=
  { s with loop := flushRemaining .ok s.receiverOpen s.loop, phase := .finished }

/-- A poll of the stream ends; the stream is at the position then. -/
def CdcSource.polled (s : CdcSource Id Doc) (position : ℕ) (polled : Polled (Logged Id Doc)) :
    CdcSource Id Doc :=
  match handlePoll Prod.fst .ok s.receiverOpen s.loop polled with
  | (loop, .next) => { s with loop := loop, phase := .streaming position false }
  | (loop, .break) => CdcSource.finish { s with loop := loop }
  | (loop, .fail _) => { s with loop := loop, phase := .finished }

/-- One step. `passes` is what the pipeline of the configuration lets through. -/
def cdcStep (passes : Change Id Doc → Bool) (s : CdcSource Id Doc) :
    CdcAction Id Doc → Option (CdcSource Id Doc)
  | .write change => some (s.write change)
  | .stop => some { s with running := false }
  | .dropReceiver => some { s with receiverOpen := false }
  | .capture token =>
    match s.phase with
    | .capture =>
      let captured := if token then some s.log.length else s.cdcResumeToken
      some
        { s with
          cdcResumeToken := captured
          phase := .counting
          startDocs := s.docs
          startLength := s.log.length
          loop := { s.loop with lastResumeToken := captured } }
    | _ => none
  | .count ok =>
    match s.phase with
    | .counting => some { s with phase := if ok && s.docs ≠ [] then .finding else .opening }
    | _ => none
  | .find ok =>
    match s.phase with
    | .finding => some { s with phase := if ok then .reading s.docs s.docs [] else .opening }
    | _ => none
  | .read row =>
    match s.phase with
    | .reading unread seen docsBatch =>
      if row ∈ seen then
        if s.running then
          let pushed := docsBatch ++ [row]
          let unread := unread.filter (· ≠ row)
          if 1000 ≤ pushed.length then
            if s.receiverOpen then
              some { s.sendRows pushed with phase := .reading unread seen [] }
            else some (s.endSnapshot [])
          else some { s with phase := .reading unread seen pushed }
        else some (s.endSnapshot docsBatch)
      else none
    | _ => none
  | .readFails =>
    match s.phase with
    | .reading _ _ _ => some { s with phase := .opening }
    | _ => none
  | .exhausted =>
    match s.phase with
    | .reading unread _ docsBatch => if unread = [] then some (s.endSnapshot docsBatch) else none
    | _ => none
  | .openStream ok =>
    match s.phase with
    | .opening =>
      if s.running && ok then some
        { s with
          phase := .streaming (s.cdcResumeToken.getD s.log.length) false
          loop := ⟨[], s.loop.lastResumeToken, []⟩ }
      else some { s with phase := .finished }
    | _ => none
  | .head =>
    match s.phase with
    | .streaming position false =>
      if s.running then some { s with phase := .streaming position true } else some s.finish
    | _ => none
  | .passOver =>
    match s.phase with
    | .streaming position polling =>
      match s.log[position]? with
      | some change =>
        if passes change then none else some { s with phase := .streaming (position + 1) polling }
      | none => none
    | _ => none
  | .event =>
    match s.phase with
    | .streaming position true =>
      match s.log[position]? with
      | some change =>
        if passes change then some (s.polled (position + 1) (.event (position, change))) else none
      | none => none
    | _ => none
  | .timeout =>
    match s.phase with
    | .streaming position true => some (s.polled position .timeout)
    | _ => none
  | .streamEnds =>
    match s.phase with
    | .streaming position true => some (s.polled position .ended)
    | _ => none
  | .streamFails error =>
    match s.phase with
    | .streaming position true => some (s.polled position (.failed error))
    | _ => none

/-- A source that `start` has just spawned, with a token of the log or none. -/
def CdcSource.init (docs : List (Id × Doc)) (log : List (Change Id Doc))
    (resumeToken : Option {t : ℕ // t ≤ log.length}) : CdcSource Id Doc where
  docs := docs
  log := log
  running := true
  receiverOpen := true
  cdcResumeToken := resumeToken.map Subtype.val
  phase := .capture
  startDocs := []
  startLength := 0
  snapshot := []
  loop := ⟨[], resumeToken.map Subtype.val, []⟩

variable {passes : Change Id Doc → Bool} {s s' : CdcSource Id Doc}

def CdcSource.RowSent (s : CdcSource Id Doc) (p : Id × Doc) : Prop :=
  ∃ batch ∈ s.snapshot, p ∈ batch

/-- The change at a place in the log was sent. -/
def CdcSource.ChangeSent (s : CdcSource Id Doc) (i : ℕ) : Prop :=
  i ∈ s.loop.batches.flatten.map Prod.fst

/-- A document has been written to since the start. -/
def CdcSource.Changed (s : CdcSource Id Doc) (id : Id) : Prop :=
  ∃ change ∈ s.log.drop s.startLength, change.id = id

instance (id : Id) : Decidable (s.Changed id) := inferInstanceAs (Decidable (∃ _ ∈ _, _))

instance (p : Id × Doc) : Decidable (s.RowSent p) := inferInstanceAs (Decidable (∃ _ ∈ _, _))

instance (i : ℕ) : Decidable (s.ChangeSent i) := inferInstanceAs (Decidable (_ ∈ _))

/-- Each document of the start came with the snapshot or with a change to it, and each change since
the start has come. -/
structure CdcSource.Delivered (s : CdcSource Id Doc) : Prop where
  docs : ∀ p ∈ s.startDocs, s.RowSent p ∨
    ∃ i change, s.startLength ≤ i ∧ s.log[i]? = some change ∧ change.id = p.1 ∧ s.ChangeSent i
  changes : ∀ i, s.startLength ≤ i → i < s.log.length → s.ChangeSent i

/-- The source has caught up with the log, or has given up. -/
def CdcSource.Settled (s : CdcSource Id Doc) : Prop :=
  match s.phase with
  | .streaming position _ => position = s.log.length ∧ s.loop.batchBuffer = []
  | .finished => True
  | _ => False

def CdcSource.GapFree (s : CdcSource Id Doc) : Prop := s.running → s.Settled → s.Delivered

/-- A document of the start has neither come with the snapshot nor been written to. -/
def CdcSource.Due (s : CdcSource Id Doc) : Prop :=
  ∃ p ∈ s.startDocs, ¬ s.RowSent p ∧ ¬ s.Changed p.1

instance : Decidable s.Due := inferInstanceAs (Decidable (∃ _ ∈ _, _))

/-- A step that leaves no gap. Only a source that reports itself running has something to lose: by a
snapshot that fails before all documents are sent, by a stream that opens without a token after
writes, or not at all, or that passes over changes or ends before the log does, and by writes once
there is no stream. -/
def Covers (s : CdcSource Id Doc) (action : CdcAction Id Doc) : Prop :=
  s.running → match action with
  | .write _ => s.phase ≠ .finished
  | .dropReceiver => False
  | .count ok => ok ∨ ¬ s.Due
  | .find ok => ok ∨ ¬ s.Due
  | .readFails => ¬ s.Due
  | .openStream ok =>
    if ok then s.cdcResumeToken ≠ none ∨ s.log.length = s.startLength
    else s.log.length = s.startLength
  | .passOver => ∀ position ∈ s.phase.position, position < s.startLength
  | .streamEnds => s.phase = .streaming s.log.length true
  | .streamFails _ => s.phase = .streaming s.log.length true
  | _ => True

/-- The snapshot has still to come to a document. -/
def CdcSource.Ahead (s : CdcSource Id Doc) (p : Id × Doc) : Prop :=
  match s.phase with
  | .capture | .counting | .finding => True
  | .reading unread _ docsBatch => p ∈ unread ∨ p ∈ docsBatch
  | _ => False

/-- The stream has read every change since the start that comes before its position. -/
def CdcSource.Followed (s : CdcSource Id Doc) : Prop :=
  match s.phase with
  | .streaming position _ => s.loop.batchBuffer.length < 100 ∧
      ∃ events, Gathers .ok events s.loop ∧
        ∀ i, s.startLength ≤ i → i < position → i ∈ events.map Prod.fst
  | .finished => ∀ i, s.startLength ≤ i → i < s.log.length → s.ChangeSent i
  | _ => True

/-- The bound of the token that a stream resumes after. -/
def CdcSource.tokenBound (s : CdcSource Id Doc) : ℕ :=
  if s.phase = .capture then s.log.length else s.startLength

/-- What a source that leaves no gap keeps. -/
structure CdcSource.Kept (s : CdcSource Id Doc) : Prop where
  receiver : s.receiverOpen = true
  started : s.phase ≠ .capture → s.startLength ≤ s.log.length
  token : ∀ t, s.cdcResumeToken = some t → t ≤ s.tokenBound
  present : s.phase ≠ .capture → ∀ p ∈ s.startDocs, p ∈ s.docs ∨ s.Changed p.1
  rows : ∀ p ∈ s.startDocs, s.RowSent p ∨ s.Changed p.1 ∨ s.Ahead p
  followed : s.Followed

omit [DecidableEq Id] [DecidableEq Doc] in
theorem gathers_ok {events : List (Logged Id Doc)}
    {loop : LoopState (Logged Id Doc) ℕ (List (Logged Id Doc))} (h : Gathers .ok events loop) :
    loop.batches.flatten ++ loop.batchBuffer = events := by
  obtain ⟨chunks, hcarried, -, hall⟩ := h
  have hchunks : chunks = loop.batches := by
    rw [← List.forall₂_eq_eq_eq]
    exact hcarried.imp fun _ _ => Except.ok.inj
  rw [← hchunks, hall]

/-- What a kept source has settled is delivered. -/
theorem CdcSource.Kept.gapFree (h : s.running → s.Kept) : s.GapFree := by
  intro hrunning hsettled
  obtain ⟨-, -, -, -, hrows, hfollowed⟩ := h hrunning
  have hchanges : ∀ i, s.startLength ≤ i → i < s.log.length → s.ChangeSent i := by
    unfold CdcSource.Followed at hfollowed
    unfold CdcSource.Settled at hsettled
    split at hsettled
    · rename_i position polling hphase
      rw [hphase] at hfollowed
      obtain ⟨-, events, hgathers, hread⟩ := hfollowed
      obtain ⟨hposition, hempty⟩ := hsettled
      intro i hstart hi
      have hall := gathers_ok hgathers
      rw [hempty, List.append_nil] at hall
      unfold CdcSource.ChangeSent
      rw [hall]
      exact hread i hstart (by omega)
    · rename_i hphase
      rw [hphase] at hfollowed
      exact hfollowed
    · exact hsettled.elim
  have hahead : ∀ p, ¬ s.Ahead p := by
    intro p
    unfold CdcSource.Settled at hsettled
    unfold CdcSource.Ahead
    split at hsettled
    · rename_i hphase
      rw [hphase]
      exact not_false
    · rename_i hphase
      rw [hphase]
      exact not_false
    · exact hsettled.elim
  refine ⟨?_, hchanges⟩
  intro p hp
  rcases hrows p hp with hsent | ⟨change, hchange, hid⟩ | hp
  · exact Or.inl hsent
  · apply Or.inr
    obtain ⟨i, hi⟩ := List.mem_iff_getElem?.mp hchange
    rw [List.getElem?_drop] at hi
    have hlt : s.startLength + i < s.log.length := (List.getElem?_eq_some_iff.mp hi).1
    exact ⟨_, change, Nat.le_add_right _ i, hi, hid, hchanges _ (Nat.le_add_right _ i) hlt⟩
  · exact (hahead p hp).elim

theorem CdcSource.Kept.init (docs : List (Id × Doc)) (log : List (Change Id Doc))
    (resumeToken : Option {t : ℕ // t ≤ log.length}) :
    (CdcSource.init docs log resumeToken).Kept where
  receiver := rfl
  started h := absurd rfl h
  token t ht := by
    obtain ⟨⟨t', hle⟩, -, rfl⟩ := Option.map_eq_some_iff.mp ht
    exact hle
  present h := absurd rfl h
  rows p hp := absurd hp List.not_mem_nil
  followed := trivial

section Write

variable {change : Change Id Doc}

omit [DecidableEq Doc] in
theorem changed_write (hstart : s.startLength ≤ s.log.length) {id : Id} :
    (s.write change).Changed id ↔ s.Changed id ∨ change.id = id := by
  unfold CdcSource.Changed CdcSource.write
  dsimp only
  rw [List.drop_append_of_le_length hstart]
  simp [or_and_right, exists_or]

omit [DecidableEq Doc] in
theorem mem_apply_of_ne {docs : List (Id × Doc)} {p : Id × Doc} (hp : p ∈ docs)
    (hne : change.id ≠ p.1) : p ∈ change.apply docs :=
  List.mem_append_left _ (List.mem_filter.mpr ⟨hp, decide_eq_true hne.symm⟩)

omit [DecidableEq Doc] in
theorem seeWrite_eq_capture {phase : Phase Id Doc} :
    phase.seeWrite change = .capture ↔ phase = .capture := by
  cases phase <;> simp [Phase.seeWrite]

omit [DecidableEq Doc] in
theorem ahead_write {p : Id × Doc} (h : s.Ahead p) (hne : change.id ≠ p.1) :
    (s.write change).Ahead p := by
  unfold CdcSource.Ahead CdcSource.write at *
  cases hphase : s.phase with
  | reading unread seen docsBatch =>
    rw [hphase] at h
    exact h.imp_left fun hunread => List.mem_filter.mpr ⟨hunread, decide_eq_true hne.symm⟩
  | capture | counting | finding => exact trivial
  | opening | streaming _ _ | finished =>
    rw [hphase] at h
    exact h.elim

/-- A document written to is one that has changed; the others stay where they were. -/
theorem CdcSource.Kept.write (h : s.Kept)
    (hok : s.phase ≠ .finished) : (s.write change).Kept := by
  have hphase : (s.write change).phase = .capture ↔ s.phase = .capture := seeWrite_eq_capture
  have hlength : (s.write change).log.length = s.log.length + 1 := List.length_append
  refine ⟨h.receiver, ?_, ?_, ?_, ?_, ?_⟩
  · intro hne
    have hstarted := h.started (mt hphase.mpr hne)
    rw [hlength]
    exact hstarted.trans (Nat.le_succ _)
  · intro t ht
    have hbound : s.tokenBound ≤ (s.write change).tokenBound := by
      unfold CdcSource.tokenBound
      rw [hlength]
      by_cases hcapture : s.phase = .capture
      · rw [if_pos hcapture, if_pos (hphase.mpr hcapture)]
        exact Nat.le_succ _
      · rw [if_neg hcapture, if_neg (mt hphase.mp hcapture)]
        exact le_refl s.startLength
    exact (h.token t ht).trans hbound
  · intro hne p hp
    have hcapture := mt hphase.mpr hne
    rw [changed_write (h.started hcapture)]
    by_cases hid : change.id = p.1
    · exact Or.inr (Or.inr hid)
    · exact (h.present hcapture p hp).imp (fun hdoc => mem_apply_of_ne hdoc hid) Or.inl
  · intro p hp
    by_cases hcapture : s.phase = .capture
    · refine Or.inr (Or.inr ?_)
      unfold CdcSource.Ahead
      rw [hphase.mpr hcapture]
      exact trivial
    · rw [changed_write (h.started hcapture)]
      by_cases hid : change.id = p.1
      · exact Or.inr (Or.inl (Or.inr hid))
      · rcases h.rows p hp with hsent | hchanged | hahead
        · exact Or.inl hsent
        · exact Or.inr (Or.inl (Or.inl hchanged))
        · exact Or.inr (Or.inr (ahead_write hahead hid))
  · have hfollowed := h.followed
    unfold CdcSource.Followed at hfollowed ⊢
    cases hs : s.phase with
    | streaming position polling =>
      rw [hs] at hfollowed
      simpa [CdcSource.write, hs, Phase.seeWrite] using hfollowed
    | finished => exact absurd hs hok
    | capture | counting | finding | reading _ _ _ | opening =>
      simp [CdcSource.write, hs, Phase.seeWrite]

end Write

section Phases

/-- The steps of the task leave the collection, its log and the start as they are. -/
theorem CdcSource.Kept.move (h : s.Kept) (hcapture : s.phase ≠ .capture)
    (hcapture' : s'.phase ≠ .capture) (hdocs : s'.docs = s.docs) (hlog : s'.log = s.log)
    (hstart : s'.startDocs = s.startDocs) (hlength : s'.startLength = s.startLength)
    (htoken : s'.cdcResumeToken = s.cdcResumeToken) (hreceiver : s'.receiverOpen = s.receiverOpen)
    (hrows : ∀ p ∈ s.startDocs, s'.RowSent p ∨ s.Changed p.1 ∨ s'.Ahead p)
    (hfollowed : s'.Followed) : s'.Kept := by
  have hchanged : ∀ id, s'.Changed id ↔ s.Changed id := by
    intro id
    unfold CdcSource.Changed
    rw [hlog, hlength]
  refine ⟨hreceiver.trans h.receiver, ?_, ?_, ?_, ?_, hfollowed⟩
  · intro _
    rw [hlog, hlength]
    exact h.started hcapture
  · intro t ht
    rw [htoken] at ht
    have hbound := h.token t ht
    unfold CdcSource.tokenBound at hbound ⊢
    rw [if_neg hcapture] at hbound
    rwa [if_neg hcapture', hlength]
  · intro _ p hp
    rw [hstart] at hp
    rw [hdocs, hchanged]
    exact h.present hcapture p hp
  · intro p hp
    rw [hstart] at hp
    rw [hchanged]
    exact hrows p hp

omit [DecidableEq Id] [DecidableEq Doc] in
theorem rowSent_endSnapshot (hreceiver : s.receiverOpen = true) (docsBatch : List (Id × Doc))
    (p : Id × Doc) : (s.endSnapshot docsBatch).RowSent p ↔ s.RowSent p ∨ p ∈ docsBatch := by
  unfold CdcSource.endSnapshot CdcSource.sendRows CdcSource.RowSent
  by_cases hempty : docsBatch = []
  · simp [hempty]
  · simp [hempty, hreceiver, or_and_right, exists_or]

theorem rows_of_not_due (hdue : ¬ s.Due) {p : Id × Doc} (hp : p ∈ s.startDocs) :
    s.RowSent p ∨ s.Changed p.1 := by
  by_contra hnot
  obtain ⟨hsent, hchanged⟩ := not_or.mp hnot
  exact hdue ⟨p, hp, hsent, hchanged⟩

/-- The stream is opened next, once each document of the start has come or been written to. -/
theorem CdcSource.Kept.toOpening (h : s.Kept) (hcapture : s.phase ≠ .capture)
    (hrows : ∀ p ∈ s.startDocs, s.RowSent p ∨ s.Changed p.1) :
    CdcSource.Kept { s with phase := .opening } := by
  refine h.move hcapture (by simp) rfl rfl rfl rfl rfl rfl ?_ trivial
  intro p hp
  exact (hrows p hp).imp_right Or.inl

theorem CdcSource.Kept.endSnapshot (h : s.Kept) (hcapture : s.phase ≠ .capture)
    {docsBatch : List (Id × Doc)}
    (hrows : ∀ p ∈ s.startDocs, s.RowSent p ∨ s.Changed p.1 ∨ p ∈ docsBatch) :
    (s.endSnapshot docsBatch).Kept := by
  have hphase : (s.endSnapshot docsBatch).phase = .opening := by
    unfold CdcSource.endSnapshot
    split_ifs <;> rfl
  have hsame : s.endSnapshot docsBatch =
      { s with
        snapshot := (s.endSnapshot docsBatch).snapshot
        phase := .opening } := by
    unfold CdcSource.endSnapshot CdcSource.sendRows
    split_ifs <;> rfl
  have hsent := rowSent_endSnapshot h.receiver docsBatch
  rw [hsame] at hsent ⊢
  refine h.move hcapture (by simp) rfl rfl rfl rfl rfl rfl ?_ trivial
  intro p hp
  rw [hsent]
  rcases hrows p hp with hp | hp | hp
  · exact Or.inl (Or.inl hp)
  · exact Or.inr (Or.inl hp)
  · exact Or.inl (Or.inr hp)

theorem CdcSource.Kept.read (h : s.Kept) {unread seen docsBatch : List (Id × Doc)}
    (hphase : s.phase = .reading unread seen docsBatch) (row : Id × Doc) :
    CdcSource.Kept { s with
      phase := .reading (unread.filter (· ≠ row)) seen (docsBatch ++ [row]) } := by
  refine h.move (by simp [hphase]) (by simp) rfl rfl rfl rfl rfl rfl ?_ trivial
  intro p hp
  rcases h.rows p hp with hsent | hchanged | hahead
  · exact Or.inl hsent
  · exact Or.inr (Or.inl hchanged)
  · refine Or.inr (Or.inr ?_)
    unfold CdcSource.Ahead at hahead
    rw [hphase] at hahead
    have hmem : p ∈ unread.filter (· ≠ row) ∨ p ∈ docsBatch ++ [row] := by
      rw [List.mem_filter, List.mem_append, List.mem_singleton, decide_eq_true_eq]
      tauto
    exact hmem

/-- A full batch is sent and makes room. -/
theorem CdcSource.Kept.sendRows (h : s.Kept) {unread seen docsBatch : List (Id × Doc)}
    (hphase : s.phase = .reading unread seen docsBatch) :
    CdcSource.Kept { s with
      snapshot := s.snapshot ++ [docsBatch]
      phase := .reading unread seen [] } := by
  refine h.move (by simp [hphase]) (by simp) rfl rfl rfl rfl rfl rfl ?_ trivial
  intro p hp
  rcases h.rows p hp with ⟨batch, hbatch, hmem⟩ | hchanged | hahead
  · exact Or.inl ⟨batch, List.mem_append_left _ hbatch, hmem⟩
  · exact Or.inr (Or.inl hchanged)
  · unfold CdcSource.Ahead at hahead
    rw [hphase] at hahead
    rcases hahead with hunread | hmem
    · exact Or.inr (Or.inr (Or.inl hunread))
    · exact Or.inl ⟨docsBatch, List.mem_append_right _ (List.mem_singleton_self _), hmem⟩

/-- A poll hands over the changes up to its new position, and ends the loop only behind all of
them. -/
theorem CdcSource.Kept.polled (h : s.Kept) {position position' : ℕ} {polling : Bool}
    (hphase : s.phase = .streaming position polling) {polled : Polled (Logged Id Doc)}
    (hnew : ∀ i, i < position' → i < position ∨ i ∈ polled.events.map Prod.fst)
    (hend : polled.goesOn = false → position' = s.log.length) :
    (s.polled position' polled).Kept := by
  have hconvert : ∀ chunk : List (Logged Id Doc),
      ∃ batch, (.ok chunk : Except String (List (Logged Id Doc))) = .ok batch :=
    fun chunk => ⟨chunk, rfl⟩
  have hfollowed := h.followed
  unfold CdcSource.Followed at hfollowed
  rw [hphase] at hfollowed
  obtain ⟨hbuffer, events, hgathers, hread⟩ := hfollowed
  have hrows : ∀ p ∈ s.startDocs, s.RowSent p ∨ s.Changed p.1 := by
    intro p hp
    have hp := h.rows p hp
    unfold CdcSource.Ahead at hp
    rwa [hphase, or_false] at hp
  have hall : ∀ i, s.startLength ≤ i → i < position' →
      i ∈ (events ++ polled.events).map Prod.fst := by
    intro i hstart hi
    rw [List.map_append, List.mem_append]
    exact (hnew i hi).imp_left fun hi => hread i hstart hi
  obtain ⟨hgathers, hbuffer, hflow⟩ := hgathers.handlePoll Prod.fst hconvert hbuffer polled
  unfold CdcSource.polled
  cases hpoll : handlePoll Prod.fst .ok s.receiverOpen s.loop polled with
  | mk loop flow =>
    rw [h.receiver] at hpoll
    rw [hpoll] at hgathers hbuffer hflow
    cases hgoes : polled.goesOn with
    | true =>
      rw [hgoes, if_pos rfl] at hflow
      obtain rfl : flow = .next := hflow
      refine h.move (by simp [hphase]) (by simp) rfl rfl rfl rfl rfl rfl ?_
        ⟨hbuffer, _, hgathers, hall⟩
      exact fun p hp => (hrows p hp).imp_right Or.inl
    | false =>
      rw [hgoes, if_neg Bool.false_ne_true] at hflow
      obtain rfl : flow = .break := hflow
      obtain ⟨hgathers, hempty⟩ := hgathers.flushRemaining hconvert hbuffer.le
      refine h.move (by simp [hphase]) (by simp [CdcSource.finish]) rfl rfl rfl rfl rfl rfl ?_ ?_
      · exact fun p hp => (hrows p hp).imp_right Or.inl
      · intro i hstart hi
        have hevents := gathers_ok hgathers
        rw [hempty, List.append_nil] at hevents
        have hsent : i ∈ (flushRemaining .ok true loop).batches.flatten.map Prod.fst := by
          rw [hevents]
          refine hall i hstart ?_
          rw [hend hgoes]
          exact hi
        have hreceiver : s.receiverOpen = true := h.receiver
        unfold CdcSource.ChangeSent CdcSource.finish
        dsimp only
        rw [hreceiver]
        exact hsent

end Phases

omit [DecidableEq Id] [DecidableEq Doc] in
theorem running_polled (position : ℕ) (polled : Polled (Logged Id Doc)) :
    (s.polled position polled).running = s.running := by
  unfold CdcSource.polled
  split <;> rfl

omit [DecidableEq Id] [DecidableEq Doc] in
theorem running_endSnapshot (docsBatch : List (Id × Doc)) :
    (s.endSnapshot docsBatch).running = s.running := by
  unfold CdcSource.endSnapshot CdcSource.sendRows
  split_ifs <;> rfl

/-- Each step that covers what it must keeps a running source without a gap. -/
theorem kept_cdcStep {action : CdcAction Id Doc} (h : s.running → s.Kept)
    (hok : Covers s action) (hstep : cdcStep passes s action = some s') :
    s'.running → s'.Kept := by
  intro hrunning'
  cases action with
  | write change =>
    obtain rfl := Option.some.inj hstep
    exact (h hrunning').write (hok hrunning')
  | stop =>
    obtain rfl := Option.some.inj hstep
    cases hrunning'
  | dropReceiver =>
    obtain rfl := Option.some.inj hstep
    exact (hok hrunning').elim
  | capture token =>
    unfold cdcStep at hstep
    dsimp only at hstep
    split at hstep
    · rename_i hphase
      obtain rfl := Option.some.inj hstep
      have hkept := h hrunning'
      refine ⟨hkept.receiver, fun _ => le_refl _, ?_, fun _ p hp => Or.inl hp,
        fun p hp => Or.inr (Or.inr trivial), trivial⟩
      intro t ht
      have hbound := hkept.token
      unfold CdcSource.tokenBound at hbound ⊢
      rw [if_pos hphase] at hbound
      rw [if_neg (by simp)]
      dsimp only at ht ⊢
      split_ifs at ht with htoken
      · exact (Option.some.inj ht).ge
      · exact hbound t ht
    · cases hstep
  | count ok =>
    unfold cdcStep at hstep
    dsimp only at hstep
    split at hstep
    · rename_i hphase
      obtain rfl := Option.some.inj hstep
      have hkept := h hrunning'
      have hcapture : s.phase ≠ .capture := by simp [hphase]
      by_cases hfind : (ok && decide (s.docs ≠ [])) = true
      · rw [if_pos hfind]
        exact hkept.move hcapture (by simp) rfl rfl rfl rfl rfl rfl
          (fun p hp => Or.inr (Or.inr trivial)) trivial
      · rw [if_neg hfind]
        refine hkept.toOpening hcapture ?_
        intro p hp
        rcases hok hrunning' with hok | hdue
        · -- no document is left, so each of the start has been deleted
          have hempty : s.docs = [] := by simpa [hok] using hfind
          refine Or.inr ((hkept.present hcapture p hp).resolve_left ?_)
          rw [hempty]
          exact List.not_mem_nil
        · exact rows_of_not_due hdue hp
    · cases hstep
  | find ok =>
    unfold cdcStep at hstep
    dsimp only at hstep
    split at hstep
    · rename_i hphase
      obtain rfl := Option.some.inj hstep
      have hkept := h hrunning'
      have hcapture : s.phase ≠ .capture := by simp [hphase]
      cases ok with
      | true =>
        refine hkept.move hcapture (by simp) rfl rfl rfl rfl rfl rfl ?_ trivial
        intro p hp
        rcases hkept.present hcapture p hp with hdoc | hchanged
        · exact Or.inr (Or.inr (Or.inl hdoc))
        · exact Or.inr (Or.inl hchanged)
      | false =>
        refine hkept.toOpening hcapture ?_
        intro p hp
        exact rows_of_not_due ((hok hrunning').resolve_left Bool.false_ne_true) hp
    · cases hstep
  | read row =>
    unfold cdcStep at hstep
    dsimp only at hstep
    split at hstep
    · rename_i unread seen docsBatch hphase
      split_ifs at hstep with hseen hrunning hfull hreceiver
      · obtain rfl := Option.some.inj hstep
        unfold CdcSource.sendRows
        rw [if_pos hreceiver]
        exact ((h hrunning).read hphase row).sendRows rfl
      · exact absurd (h hrunning).receiver hreceiver
      · obtain rfl := Option.some.inj hstep
        exact (h hrunning).read hphase row
      · obtain rfl := Option.some.inj hstep
        rw [running_endSnapshot] at hrunning'
        exact absurd hrunning' hrunning
    · cases hstep
  | readFails =>
    unfold cdcStep at hstep
    dsimp only at hstep
    split at hstep
    · rename_i hphase
      obtain rfl := Option.some.inj hstep
      exact (h hrunning').toOpening (by simp [hphase]) fun p hp =>
        rows_of_not_due (hok hrunning') hp
    · cases hstep
  | exhausted =>
    unfold cdcStep at hstep
    dsimp only at hstep
    split at hstep
    · rename_i unread seen docsBatch hphase
      split_ifs at hstep with hunread
      obtain rfl := Option.some.inj hstep
      rw [running_endSnapshot] at hrunning'
      refine (h hrunning').endSnapshot (by simp [hphase]) ?_
      intro p hp
      have hp := (h hrunning').rows p hp
      unfold CdcSource.Ahead at hp
      rw [hphase, hunread] at hp
      simpa using hp
    · cases hstep
  | openStream ok =>
    unfold cdcStep at hstep
    dsimp only at hstep
    split at hstep
    · rename_i hphase
      split_ifs at hstep with hopens
      · obtain rfl := Option.some.inj hstep
        have hkept := h hrunning'
        have hcapture : s.phase ≠ .capture := by simp [hphase]
        have hposition : s.cdcResumeToken.getD s.log.length ≤ s.startLength := by
          have hok := hok hrunning'
          dsimp only at hok
          rw [if_pos (Bool.and_eq_true_iff.mp hopens).2] at hok
          cases htoken : s.cdcResumeToken with
          | none => exact (hok.resolve_left (not_not_intro htoken)).le
          | some t =>
            have hbound := hkept.token t htoken
            unfold CdcSource.tokenBound at hbound
            rwa [if_neg hcapture] at hbound
        refine hkept.move hcapture (by simp) rfl rfl rfl rfl rfl rfl ?_ ?_
        · intro p hp
          have hp := hkept.rows p hp
          unfold CdcSource.Ahead at hp
          rw [hphase] at hp
          exact hp.imp_right fun hp => Or.inl (hp.resolve_right id)
        · refine ⟨Nat.zero_lt_succ 99, [], ⟨[], List.Forall₂.nil, by simp, rfl⟩, ?_⟩
          intro i hstart hi
          exact absurd (hi.trans_le hposition) (not_lt.mpr hstart)
      · obtain rfl := Option.some.inj hstep
        have hkept := h hrunning'
        have hlength : s.log.length = s.startLength := by
          have hok := hok hrunning'
          dsimp only at hok
          rwa [if_neg] at hok
          rintro rfl
          exact hopens (Bool.and_eq_true_iff.mpr ⟨hrunning', rfl⟩)
        refine hkept.move (by simp [hphase]) (by simp) rfl rfl rfl rfl rfl rfl ?_ ?_
        · intro p hp
          have hp := hkept.rows p hp
          unfold CdcSource.Ahead at hp
          rw [hphase] at hp
          exact hp.imp_right fun hp => Or.inl (hp.resolve_right id)
        · intro i hstart hi
          dsimp only at hstart hi
          omega
    · cases hstep
  | head =>
    unfold cdcStep at hstep
    dsimp only at hstep
    split at hstep
    · rename_i position hphase
      split_ifs at hstep with hrunning
      · obtain rfl := Option.some.inj hstep
        have hkept := h hrunning
        refine hkept.move (by simp [hphase]) (by simp) rfl rfl rfl rfl rfl rfl ?_ ?_
        · intro p hp
          have hp := hkept.rows p hp
          unfold CdcSource.Ahead at hp
          rwa [hphase] at hp
        · have hfollowed := hkept.followed
          unfold CdcSource.Followed at hfollowed
          rwa [hphase] at hfollowed
      · obtain rfl := Option.some.inj hstep
        exact absurd hrunning' hrunning
    · cases hstep
  | passOver =>
    unfold cdcStep at hstep
    dsimp only at hstep
    split at hstep
    · rename_i position polling hphase
      split at hstep
      · split_ifs at hstep
        obtain rfl := Option.some.inj hstep
        have hkept := h hrunning'
        have hold : position < s.startLength := by
          refine hok hrunning' position ?_
          rw [hphase]
          rfl
        have hfollowed := hkept.followed
        unfold CdcSource.Followed at hfollowed
        rw [hphase] at hfollowed
        obtain ⟨hbuffer, events, hgathers, -⟩ := hfollowed
        refine hkept.move (by simp [hphase]) (by simp) rfl rfl rfl rfl rfl rfl ?_
          ⟨hbuffer, events, hgathers, ?_⟩
        · intro p hp
          have hp := hkept.rows p hp
          unfold CdcSource.Ahead at hp
          rwa [hphase] at hp
        · intro i hstart hi
          dsimp only at hstart
          omega
      · cases hstep
    · cases hstep
  | event =>
    unfold cdcStep at hstep
    dsimp only at hstep
    split at hstep
    · rename_i position hphase
      split at hstep
      · rename_i change hchange
        split_ifs at hstep
        obtain rfl := Option.some.inj hstep
        rw [running_polled] at hrunning'
        refine (h hrunning').polled hphase ?_ (by simp [Polled.goesOn])
        intro i hi
        rcases Nat.lt_succ_iff_lt_or_eq.mp hi with hi | rfl
        · exact Or.inl hi
        · exact Or.inr List.mem_cons_self
      · cases hstep
    · cases hstep
  | timeout =>
    unfold cdcStep at hstep
    dsimp only at hstep
    split at hstep
    · rename_i position hphase
      obtain rfl := Option.some.inj hstep
      rw [running_polled] at hrunning'
      exact (h hrunning').polled hphase (fun i hi => Or.inl hi) (by simp [Polled.goesOn])
    · cases hstep
  | streamEnds =>
    unfold cdcStep at hstep
    dsimp only at hstep
    split at hstep
    · rename_i position hphase
      obtain rfl := Option.some.inj hstep
      rw [running_polled] at hrunning'
      refine (h hrunning').polled hphase (fun i hi => Or.inl hi) fun _ => ?_
      have hok := hphase.symm.trans (hok hrunning')
      injection hok
    · cases hstep
  | streamFails error =>
    unfold cdcStep at hstep
    dsimp only at hstep
    split at hstep
    · rename_i position hphase
      obtain rfl := Option.some.inj hstep
      rw [running_polled] at hrunning'
      refine (h hrunning').polled hphase (fun i hi => Or.inl hi) fun _ => ?_
      have hok := hphase.symm.trans (hok hrunning')
      injection hok
    · cases hstep

/-- A source whose steps all cover what they must has no gap, in any state of its run. -/
theorem gapFree_of_covers (passes : Change Id Doc → Bool) (docs : List (Id × Doc))
    (log : List (Change Id Doc)) (resumeToken : Option {t : ℕ // t ≤ log.length})
    {actions : List (CdcAction Id Doc)}
    (hcovers : Run.Along (cdcStep passes) Covers (.init docs log resumeToken) actions)
    (hrun : Run.run (cdcStep passes) (.init docs log resumeToken) actions = some s) :
    s.GapFree := by
  have hinit : (CdcSource.init docs log resumeToken).running →
      (CdcSource.init docs log resumeToken).Kept := fun _ => .init docs log resumeToken
  have hkept : s.running → s.Kept := Run.invariant (I := fun s => s.running → s.Kept)
    (fun _ _ _ h hok hstep => kept_cdcStep h hok hstep) hinit hcovers hrun
  exact CdcSource.Kept.gapFree hkept

instance (s : CdcSource Id Doc) : (action : CdcAction Id Doc) → Decidable (Covers s action)
  | .write _ => inferInstanceAs (Decidable (s.running → s.phase ≠ .finished))
  | .dropReceiver => inferInstanceAs (Decidable (s.running → False))
  | .count ok | .find ok => inferInstanceAs (Decidable (s.running → ok ∨ ¬ s.Due))
  | .readFails => inferInstanceAs (Decidable (s.running → ¬ s.Due))
  | .openStream ok => inferInstanceAs (Decidable (s.running →
      if ok then s.cdcResumeToken ≠ none ∨ s.log.length = s.startLength
      else s.log.length = s.startLength))
  | .passOver => inferInstanceAs (Decidable (s.running →
      ∀ position ∈ s.phase.position, position < s.startLength))
  | .streamEnds | .streamFails _ =>
    inferInstanceAs (Decidable (s.running → s.phase = .streaming s.log.length true))
  | .stop | .capture _ | .read _ | .exhausted | .head | .event | .timeout =>
    inferInstanceAs (Decidable (s.running → True))

end Steps

/-- An order that is there, and its snapshot. -/
def snapshotActions (token : Bool) : List (CdcAction ℕ String) :=
  [.capture token, .count true, .find true, .read (1, "open"), .exhausted]

/-- Another order comes in before the stream opens, and the stream is read until nothing is left. -/
def streamActions : List (CdcAction ℕ String) :=
  [.write ⟨2, some "new"⟩, .openStream true, .head]

theorem gapFree_lateOrder : ∃ s : CdcSource ℕ String,
    Run.run (cdcStep fun _ => true) (.init [(1, "open")] [] none)
      (snapshotActions true ++ streamActions ++ [.event, .head, .timeout]) = some s ∧
    s.GapFree := by
  refine ⟨_, rfl, ?_⟩
  have hcovers : Run.Along (cdcStep fun _ => true) Covers (.init [(1, "open")] [] none)
      (snapshotActions true ++ streamActions ++ [.event, .head, .timeout]) := by decide
  exact gapFree_of_covers (fun _ => true) [(1, "open")] [] none hcovers rfl

/-- Without a token the stream opens behind the order, which it never shows. -/
theorem not_gapFree_lateOrder : ∃ s : CdcSource ℕ String,
    Run.run (cdcStep fun _ => true) (.init [(1, "open")] [] none)
      (snapshotActions false ++ streamActions) = some s ∧ ¬ s.GapFree := by
  refine ⟨_, rfl, ?_⟩
  intro h
  have hdelivered := h rfl ⟨rfl, rfl⟩
  have hsent := hdelivered.changes 0 (Nat.zero_le _) Nat.zero_lt_one
  exact absurd hsent (by decide)

end RustLake.Mongo
