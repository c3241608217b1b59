import RustLake.Mongo.Documents

/-! MongoDB's change streams: the rows that change events become, and the loop that gathers events
into batches. -/
namespace RustLake.Mongo
open Arrow

inductive OperationType where
  | insert | update | replace | delete | drop | rename | dropDatabase | invalidate
  | other (name : String)
  /-- What later versions of the driver may know. -/
  | unlisted
deriving DecidableEq, Repr

def operationTypeToString : OperationType → String
  | .insert => "insert"
  | .update => "update"
  | .replace => "replace"
  | .delete => "delete"
  | .drop => "drop"
  | .rename => "rename"
  | .dropDatabase => "dropDatabase"
  | .invalidate => "invalidate"
  | .other name => name
  | .unlisted => "unknown"

/-- A change event. Resume tokens and descriptions of updates are only ever printed. -/
structure ChangeStreamEvent (F Token Description : Type) where
  id : Token
  operationType : OperationType
  /-- The seconds of the cluster's time stamp. -/
  clusterTime : Option UInt32
  /-- Milliseconds. -/
  wallTime : Option Int64
  /-- A database, and a collection of it. -/
  ns : Option (String × Option String)
  fullDocument : Option (Document F)
  updateDescription : Option Description

/-- What `serde_json` and Arrow print. -/
structure EventLibraries (F Token Description : Type) where
  tokenJson : Token → Option String
  documentJson : List (String × Bson F) → Option String
  descriptionJson : Description → Option String
  batchErrorText : BatchError → String

section Conversion

variable {F Token Description : Type} (libs : EventLibraries F Token Description)

/-- The time zone of the time stamps is left out. -/
def cdcEventSchema : List Field :=
  [⟨"_id", .utf8, false⟩, ⟨"operation_type", .utf8, false⟩,
    ⟨"timestamp", .timestampMicrosecond, true⟩, ⟨"namespace_db", .utf8, true⟩,
    ⟨"namespace_coll", .utf8, true⟩, ⟨"document", .utf8, true⟩,
    ⟨"update_description", .utf8, true⟩]

/-- The multiplication of milliseconds wraps, as it does without overflow checks. -/
def eventMicros (event : ChangeStreamEvent F Token Description) : Option Int64 :=
  match event.clusterTime with
  | some time => some (time.toUInt64.toInt64 * 1000000)
  | none => event.wallTime.map (· * 1000)

def eventArrays (events : List (ChangeStreamEvent F Token Description)) : List (Column F) :=
  [⟨.utf8, events.map fun e => some ((libs.tokenJson e.id).getD "")⟩,
    ⟨.utf8, events.map fun e => some (operationTypeToString e.operationType)⟩,
    ⟨.timestampMicrosecond, events.map eventMicros⟩,
    ⟨.utf8, events.map fun e => e.ns.map Prod.fst⟩,
    ⟨.utf8, events.map fun e => e.ns.bind Prod.snd⟩,
    ⟨.utf8, events.map fun e =>
      e.fullDocument.map fun doc => (libs.documentJson doc.entries).getD ""⟩,
    ⟨.utf8, events.map fun e =>
      e.updateDescription.map fun ud => (libs.descriptionJson ud).getD ""⟩]

def eventToRecordBatch (events : List (ChangeStreamEvent F Token Description)) :
    Except String (RecordBatch F) :=
  (RecordBatch.tryNew cdcEventSchema (eventArrays libs events)).mapError fun e =>
    "Failed to create CDC RecordBatch: " ++ libs.batchErrorText e

/-- The columns fit the schema, so a conversion succeeds. -/
theorem eventToRecordBatch_ok (events : List (ChangeStreamEvent F Token Description)) :
    eventToRecordBatch libs events =
      .ok ⟨cdcEventSchema, eventArrays libs events, events.length⟩ := by
  have hlength : ∀ c ∈ eventArrays libs events, c.length = events.length := by
    simp [eventArrays, Column.length]
  have hfits : ∀ p ∈ cdcEventSchema.zip (eventArrays libs events), p.2.Fits p.1 := by
    simp [cdcEventSchema, eventArrays, Column.Fits, nullCount_eq_zero]
  have hcount : (eventArrays libs events).length = cdcEventSchema.length := rfl
  rcases tryNew_cases hcount hlength with ⟨-, -, hok⟩ | ⟨hnot, -⟩
  · unfold eventToRecordBatch
    rw [hok]
    rfl
  · exact absurd ⟨List.cons_ne_nil _ _, hfits⟩ hnot

end Conversion

/-- How `timeout(flush_interval, stream.try_next())` ends. -/
inductive Polled (Event : Type) where
  | event (event : Event)
  | ended
  | failed (error : String)
  | timeout
deriving DecidableEq

/-- A turn of the loop: whether `running` is set at its head, how the poll ends, and whether the
receiver is there for what is sent then. -/
structure Turn (Event : Type) where
  running : Bool
  polled : Polled Event
  receiverOpen : Bool
deriving DecidableEq

structure LoopState (Event Token Batch : Type) where
  batchBuffer : List Event
  lastResumeToken : Option Token
  /-- What has gone into the channel. -/
  sent : List (Except String Batch)

/-- What follows a turn: the next one, the end of the loop, or the end of the function. -/
inductive Flow where
  | next
  | «break»
  | fail (error : String)
deriving DecidableEq

section Loop

variable {Event Token Batch : Type} (id : Event → Token)
  (convert : List Event → Except String Batch)

def LoopState.send (s : LoopState Event Token Batch) (receiverOpen : Bool)
    (message : Except String Batch) : LoopState Event Token Batch :=
  if receiverOpen then { s with sent := s.sent ++ [message] } else s

/-- The buffer is converted, cleared and sent. -/
def flushBuffer (receiverOpen : Bool) (s : LoopState Event Token Batch) :
    LoopState Event Token Batch × Flow :=
  match convert s.batchBuffer with
  | .error e => (s, .fail e)
  | .ok batch =>
    let cleared := { s with batchBuffer := [] }
    (cleared.send receiverOpen (.ok batch), if receiverOpen then .next else .break)

def handlePoll (receiverOpen : Bool) (s : LoopState Event Token Batch) :
    Polled Event → LoopState Event Token Batch × Flow
  | .event event =>
    let pushed :=
      { s with lastResumeToken := some (id event), batchBuffer := s.batchBuffer ++ [event] }
    if 100 ≤ pushed.batchBuffer.length then flushBuffer convert receiverOpen pushed
    else (pushed, .next)
  | .ended => (s, .break)
  | .failed e => (s.send receiverOpen (.error ("Change stream error: " ++ e)), .break)
  | .timeout => if s.batchBuffer ≠ [] then flushBuffer convert receiverOpen s else (s, .next)

/-- After the loop the rest of the buffer is sent; the buffer ends with the function. -/
def flushRemaining (receiverOpen : Bool) (s : LoopState Event Token Batch) :
    LoopState Event Token Batch :=
  if s.batchBuffer ≠ [] then
    match convert s.batchBuffer with
    | .ok batch => { s with batchBuffer := [] }.send receiverOpen (.ok batch)
    | .error _ => s
  else s

/-- The loop, which stands twice in the source. No result means that it still goes on. -/
def changeLoop : LoopState Event Token Batch → List (Turn Event) →
    LoopState Event Token Batch × Option (Except String Unit)
  | s, [] => (s, none)
  | s, turn :: rest =>
    if turn.running then
      match handlePoll id convert turn.receiverOpen s turn.polled with
      | (s', .next) => changeLoop s' rest
      | (s', .break) => (flushRemaining convert turn.receiverOpen s', some (.ok ()))
      | (s', .fail e) => (s', some (.error e))
    else (flushRemaining convert turn.receiverOpen s, some (.ok ()))

/-- The name of a collection without a schema's prefix. -/
def cleanCollection (collection : String) : String :=
  if "mongo.".toList <+: collection.toList then String.ofList (collection.toList.drop 6)
  else if "mongodb.".toList <+: collection.toList then String.ofList (collection.toList.drop 8)
  else collection

/-- What a change stream is opened on. -/
inductive Target where
  | database
  | collection (name : String)
deriving DecidableEq

def targetOf (collection : String) : Target :=
  if cleanCollection collection = "*" then .database
  else .collection (cleanCollection collection)

/-- `run_change_stream`. Opening a stream fails, or gives the turns of the loop. -/
def runChangeStream (watch : Target → Except String (List (Turn Event))) (collection : String)
    (s : LoopState Event Token Batch) :
    LoopState Event Token Batch × Option (Except String Unit) :=
  match targetOf collection with
  | .database =>
    match watch .database with
    | .error e => (s, some (.error ("Failed to open database change stream: " ++ e)))
    | .ok turns => changeLoop id convert s turns
  | .collection name =>
    match watch (.collection name) with
    | .error e => (s, some (.error ("Failed to open collection change stream: " ++ e)))
    | .ok turns => changeLoop id convert s turns

/-- The batches among what was sent. -/
def LoopState.batches (s : LoopState Event Token Batch) : List Batch :=
  s.sent.filterMap Except.toOption

/-- The events of a poll. -/
def Polled.events : Polled Event → List Event
  | .event e => [e]
  | .ended => []
  | .failed _ => []
  | .timeout => []

def Polled.goesOn : Polled Event → Bool
  | .event _ => true
  | .timeout => true
  | .ended => false
  | .failed _ => false

/-- The events that a loop receives: those up to the turn that ends it. -/
def received : List (Turn Event) → List Event
  | [] => []
  | turn :: rest =>
    if turn.running then
      turn.polled.events ++ if turn.polled.goesOn then received rest else []
    else []

/-- The batches sent are the events cut into pieces of at most 100, with those in the buffer left
over. -/
def Gathers (events : List Event) (s : LoopState Event Token Batch) : Prop :=
  ∃ chunks : List (List Event),
    List.Forall₂ (fun chunk batch => convert chunk = .ok batch) chunks s.batches ∧
    (∀ chunk ∈ chunks, chunk.length ≤ 100) ∧ chunks.flatten ++ s.batchBuffer = events

variable {convert} {events : List Event} {s : LoopState Event Token Batch}

theorem LoopState.batches_send (s : LoopState Event Token Batch)
    (message : Except String Batch) :
    (s.send true message).batches = s.batches ++ message.toOption.toList := by
  unfold LoopState.send LoopState.batches
  rw [if_pos rfl, List.filterMap_append]
  cases message <;> rfl

/-- What is cleared from the buffer goes into the channel. -/
theorem Gathers.send (h : Gathers convert events s) (hbuffer : s.batchBuffer.length ≤ 100)
    {batch : Batch} (hbatch : convert s.batchBuffer = .ok batch) :
    Gathers convert events
      (LoopState.send { s with batchBuffer := [] } true (.ok batch)) := by
  obtain ⟨chunks, hcarried, hsmall, hall⟩ := h
  refine ⟨chunks ++ [s.batchBuffer], ?_, ?_, ?_⟩
  · rw [LoopState.batches_send]
    exact List.rel_append hcarried (List.Forall₂.cons hbatch List.Forall₂.nil)
  · intro chunk hchunk
    rcases List.mem_append.mp hchunk with hchunk | hchunk
    · exact hsmall chunk hchunk
    · rwa [List.mem_singleton.mp hchunk]
  · simpa [LoopState.send] using hall

variable (hconvert : ∀ chunk, ∃ batch, convert chunk = .ok batch)
include hconvert

theorem Gathers.flushBuffer (h : Gathers convert events s) (hbuffer : s.batchBuffer.length ≤ 100) :
    Gathers convert events (flushBuffer convert true s).1 ∧
      (Mongo.flushBuffer convert true s).1.batchBuffer = [] ∧
      (Mongo.flushBuffer convert true s).2 = .next := by
  obtain ⟨batch, hbatch⟩ := hconvert s.batchBuffer
  unfold Mongo.flushBuffer
  rw [hbatch]
  exact ⟨h.send hbuffer hbatch, rfl, rfl⟩

theorem Gathers.flushRemaining (h : Gathers convert events s)
    (hbuffer : s.batchBuffer.length ≤ 100) :
    Gathers convert events (flushRemaining convert true s) ∧
      (Mongo.flushRemaining convert true s).batchBuffer = [] := by
  obtain ⟨batch, hbatch⟩ := hconvert s.batchBuffer
  unfold Mongo.flushRemaining
  split_ifs with hempty
  · rw [hbatch]
    exact ⟨h.send hbuffer hbatch, rfl⟩
  · exact ⟨h, not_not.mp hempty⟩

/-- One turn: the event polled is added, and the buffer stays short of a batch. -/
theorem Gathers.handlePoll (h : Gathers convert events s) (hbuffer : s.batchBuffer.length < 100)
    (polled : Polled Event) :
    Gathers convert (events ++ polled.events) (handlePoll id convert true s polled).1 ∧
      (Mongo.handlePoll id convert true s polled).1.batchBuffer.length < 100 ∧
      (Mongo.handlePoll id convert true s polled).2 =
        if polled.goesOn then .next else .break := by
  cases polled with
  | event event =>
    set pushed : LoopState Event Token Batch :=
      { s with lastResumeToken := some (id event), batchBuffer := s.batchBuffer ++ [event] }
    have hpushed : Gathers convert (events ++ [event]) pushed := by
      obtain ⟨chunks, hcarried, hsmall, rfl⟩ := h
      exact ⟨chunks, hcarried, hsmall, (List.append_assoc _ _ _).symm⟩
    have hstep : Mongo.handlePoll id convert true s (.event event) =
        if 100 ≤ pushed.batchBuffer.length then Mongo.flushBuffer convert true pushed
        else (pushed, .next) := rfl
    rw [hstep, Polled.events]
    by_cases hfull : 100 ≤ pushed.batchBuffer.length
    · have hlength : pushed.batchBuffer.length = s.batchBuffer.length + 1 := List.length_append
      obtain ⟨hgathers, hempty, hnext⟩ := hpushed.flushBuffer hconvert (by omega)
      rw [if_pos hfull, hempty, hnext]
      exact ⟨hgathers, Nat.zero_lt_succ 99, rfl⟩
    · rw [if_neg hfull]
      exact ⟨hpushed, not_le.mp hfull, rfl⟩
  | ended =>
    rw [Polled.events, List.append_nil]
    exact ⟨h, hbuffer, rfl⟩
  | failed e =>
    rw [Polled.events, List.append_nil]
    refine ⟨?_, hbuffer, rfl⟩
    obtain ⟨chunks, hcarried, hrest⟩ := h
    refine ⟨chunks, ?_, hrest⟩
    -- an error adds no batch
    have hbatches := s.batches_send (.error ("Change stream error: " ++ e))
    rw [Except.toOption, Option.toList_none, List.append_nil] at hbatches
    exact hbatches ▸ hcarried
  | timeout =>
    rw [Polled.events, List.append_nil]
    have hstep : Mongo.handlePoll id convert true s .timeout =
        if s.batchBuffer ≠ [] then Mongo.flushBuffer convert true s else (s, .next) := rfl
    rw [hstep]
    by_cases hempty : s.batchBuffer = []
    · rw [if_neg (not_not_intro hempty)]
      exact ⟨h, hbuffer, rfl⟩
    · obtain ⟨hgathers, hcleared, hnext⟩ := h.flushBuffer hconvert hbuffer.le
      rw [if_pos hempty, hcleared, hnext]
      exact ⟨hgathers, Nat.zero_lt_succ 99, rfl⟩

theorem Gathers.changeLoop (turns : List (Turn Event)) (hopen : ∀ turn ∈ turns, turn.receiverOpen)
    (h : Gathers convert events s) (hbuffer : s.batchBuffer.length < 100) :
    Gathers convert (events ++ received turns) (changeLoop id convert s turns).1 ∧
      ((Mongo.changeLoop id convert s turns).2 = none ∨
        (Mongo.changeLoop id convert s turns).2 = some (.ok ()) ∧
          (Mongo.changeLoop id convert s turns).1.batchBuffer = []) := by
  induction turns generalizing s events with
  | nil =>
    rw [received, List.append_nil]
    exact ⟨h, Or.inl rfl⟩
  | cons turn rest ih =>
    obtain ⟨hturn, hrest⟩ := List.forall_mem_cons.mp hopen
    unfold Mongo.changeLoop received
    rw [hturn]
    by_cases hrunning : turn.running
    · rw [if_pos hrunning, if_pos hrunning]
      obtain ⟨hgathers, hshort, hflow⟩ := h.handlePoll id hconvert hbuffer turn.polled
      cases hgoes : turn.polled.goesOn with
      | true =>
        rw [hgoes, if_pos rfl] at hflow
        rw [if_pos rfl, ← List.append_assoc]
        split
        · rename_i s' heq
          rw [heq] at hgathers hshort
          exact ih hrest hgathers hshort
        · rename_i heq
          rw [heq] at hflow
          cases hflow
        · rename_i heq
          rw [heq] at hflow
          cases hflow
      | false =>
        rw [hgoes, if_neg Bool.false_ne_true] at hflow
        rw [if_neg Bool.false_ne_true, List.append_nil]
        split
        · rename_i heq
          rw [heq] at hflow
          cases hflow
        · rename_i s' heq
          rw [heq] at hgathers hshort
          obtain ⟨hall, hempty⟩ := hgathers.flushRemaining hconvert hshort.le
          exact ⟨hall, Or.inr ⟨rfl, hempty⟩⟩
        · rename_i heq
          rw [heq] at hflow
          cases hflow
    · rw [if_neg hrunning, if_neg hrunning, List.append_nil]
      obtain ⟨hall, hempty⟩ := h.flushRemaining hconvert hbuffer.le
      exact ⟨hall, Or.inr ⟨rfl, hempty⟩⟩

end Loop

section Delivery

variable {F Token Description : Type} (libs : EventLibraries F Token Description)

/-- The events of a stream that was opened, or not. -/
def eventsOf {Event : Type} : Except String (List (Turn Event)) → List Event
  | .ok turns => received turns
  | .error _ => []

/-- One insert, a time without events, and a stop. -/
def insertAndStop : List (Turn (ChangeStreamEvent ℤ ℕ String)) :=
  [⟨true, .event ⟨7, .insert, some 1700000000, none, some ("shop", some "orders"), none, none⟩,
      true⟩,
    ⟨true, .timeout, true⟩, ⟨false, .timeout, true⟩]

/-- Tokens that are numbers, and events without documents. -/
def numberedTokens : EventLibraries ℤ ℕ String where
  tokenJson token := some token.repr
  documentJson document := if document.isEmpty then some "\x7b\x7d" else none
  descriptionJson := some
  batchErrorText _ := "the columns do not fit the schema"

end Delivery

end RustLake.Mongo
