import RustLake.Order.Recent
import RustLake.Rust.Basic
import RustLake.Text.Basic
import Mathlib.Data.Rat.Defs

/-! The logs that the server keeps in memory: queries, job runs, stream events, engine latencies and
profiled executions, of which only the last entries stay, and the chat messages, which clients poll
for what is newer than what they have. -/
namespace RustLake.Routes.Histories

open Recent

def maxQueryHistory : ℕ := 1000
def maxStreamEvents : ℕ := 10000
def maxEngineHistory : ℕ := 500
def maxChatMessages : ℕ := 500
def maxJobRuns : ℕ := 500
def maxExecutionHistory : ℕ := 1000

structure EngineLatencyRecord where
  engine : String
  queryType : String
  durationMs : UInt64
  rowCount : ℕ
  dataSizeBytes : UInt64
  path : String
  timestamp : String
deriving DecidableEq

/-- The logs, for whatever is recorded of a query, a job run, an event and an execution. -/
structure Logs (Query JobRun Event Execution : Type) where
  queryHistory : List Query
  jobRuns : List JobRun
  streamEvents : List Event
  engineHistory : List EngineLatencyRecord
  executionHistory : List Execution

inductive Recorded (Query JobRun Event Execution : Type) where
  | query (entry : Query)
  | jobRun (entry : JobRun)
  | streamEvents (events : List Event)
  | engine (record : EngineLatencyRecord)
  | execution (record : Execution)

section
variable {Query JobRun Event Execution : Type}

namespace Logs

def new : Logs Query JobRun Event Execution := ⟨[], [], [], [], []⟩

def recordQuery (logs : Logs Query JobRun Event Execution) (entry : Query) :
    Logs Query JobRun Event Execution :=
  { logs with queryHistory := extend maxQueryHistory logs.queryHistory [entry] }

def recordJobRun (logs : Logs Query JobRun Event Execution) (entry : JobRun) :
    Logs Query JobRun Event Execution :=
  { logs with jobRuns := extend maxJobRuns logs.jobRuns [entry] }

def appendStreamEvents (logs : Logs Query JobRun Event Execution) (events : List Event) :
    Logs Query JobRun Event Execution :=
  { logs with streamEvents := extend maxStreamEvents logs.streamEvents events }

def recordEngine (logs : Logs Query JobRun Event Execution) (record : EngineLatencyRecord) :
    Logs Query JobRun Event Execution :=
  { logs with engineHistory := extend maxEngineHistory logs.engineHistory [record] }

def recordExecution (logs : Logs Query JobRun Event Execution) (record : Execution) :
    Logs Query JobRun Event Execution :=
  { logs with executionHistory := pushRing maxExecutionHistory logs.executionHistory record }

def step (logs : Logs Query JobRun Event Execution) :
    Recorded Query JobRun Event Execution → Logs Query JobRun Event Execution
  | .query entry => logs.recordQuery entry
  | .jobRun entry => logs.recordJobRun entry
  | .streamEvents events => logs.appendStreamEvents events
  | .engine record => logs.recordEngine record
  | .execution record => logs.recordExecution record

end Logs

namespace Recorded

def queries : Recorded Query JobRun Event Execution → List Query
  | query entry => [entry]
  | _ => []

def runs : Recorded Query JobRun Event Execution → List JobRun
  | jobRun entry => [entry]
  | _ => []

def events : Recorded Query JobRun Event Execution → List Event
  | streamEvents events => events
  | _ => []

def latencies : Recorded Query JobRun Event Execution → List EngineLatencyRecord
  | engine record => [record]
  | _ => []

def executions : Recorded Query JobRun Event Execution → List Execution
  | execution record => [record]
  | _ => []

end Recorded

/-- The durations from which the mean latency of an engine is taken. -/
def matching (history : List EngineLatencyRecord) (engine queryType : String) : List UInt64 :=
  (history.filter fun r => r.engine = engine ∧ r.queryType = queryType ∧ 0 < r.durationMs).map
    (·.durationMs)

/-- The mean latency as an exact number; none without a record. -/
def avgLatency (history : List EngineLatencyRecord) (engine queryType : String) : Option ℚ :=
  let durations := (matching history engine queryType).map (·.toNat)
  if durations.isEmpty then none else some (durations.sum / durations.length)

/-- Whatever is recorded in whatever order, each log holds the last entries that were recorded in
it, up to its own limit, and the other logs take no room from it. -/
theorem logs_hold_last (steps : List (Recorded Query JobRun Event Execution)) :
    steps.foldl Logs.step Logs.new =
      { queryHistory := (steps.flatMap Recorded.queries).rtake maxQueryHistory
        jobRuns := (steps.flatMap Recorded.runs).rtake maxJobRuns
        streamEvents := (steps.flatMap Recorded.events).rtake maxStreamEvents
        engineHistory := (steps.flatMap Recorded.latencies).rtake maxEngineHistory
        executionHistory := (steps.flatMap Recorded.executions).rtake maxExecutionHistory } := by
  induction steps using List.reverseRecOn with
  | nil => simp [Logs.new]
  | append_singleton steps step ih =>
    rw [List.foldl_append, List.foldl_cons, List.foldl_nil, ih]
    simp only [List.flatMap_append, List.flatMap_singleton]
    cases step with
    | query entry =>
      simp [Logs.step, Logs.recordQuery, extend_rtake, Recorded.queries, Recorded.runs,
        Recorded.events, Recorded.latencies, Recorded.executions]
    | jobRun entry =>
      simp [Logs.step, Logs.recordJobRun, extend_rtake, Recorded.queries, Recorded.runs,
        Recorded.events, Recorded.latencies, Recorded.executions]
    | streamEvents events =>
      simp [Logs.step, Logs.appendStreamEvents, extend_rtake, Recorded.queries, Recorded.runs,
        Recorded.events, Recorded.latencies, Recorded.executions]
    | engine record =>
      simp [Logs.step, Logs.recordEngine, extend_rtake, Recorded.queries, Recorded.runs,
        Recorded.events, Recorded.latencies, Recorded.executions]
    | execution record =>
      have hroom : 0 < maxExecutionHistory := by decide
      simp [Logs.step, Logs.recordExecution, pushRing_rtake hroom, Recorded.queries, Recorded.runs,
        Recorded.events, Recorded.latencies, Recorded.executions]

end

abbrev Uuid := BitVec 128

structure ChatMessage where
  id : Uuid
  message : List Char
  sender : List Char
  category : List Char
  timestamp : ℕ
deriving DecidableEq

structure ChatMessageRequest where
  message : List Char
  sender : Option (List Char)
  category : Option (List Char)

/-- The message of a request, with its id and the time; the error is sent as a bad request. -/
def chatMessage (req : ChatMessageRequest) (id : Uuid) (now : ℕ) : Except String ChatMessage :=
  let message := trim req.message
  if message.isEmpty then .error "Message cannot be empty"
  else
    let sender :=
      if req.sender = some "developer".toList then "developer".toList
      else if req.sender = some "system".toList then "system".toList
      else "user".toList
    .ok ⟨id, message, sender, req.category.getD "general".toList, now⟩

/-- How times, in nanoseconds, are written in the query of a poll. -/
structure TimestampText where
  toText : ℕ → List Char
  parse : List Char → Option ℕ
  parse_toText : ∀ t, parse (toText t) = some t

/-- The messages after a time; all of them when no time is given or it cannot be read. -/
def listChatMessages (text : TimestampText) (messages : List ChatMessage)
    (after : Option (List Char)) : List ChatMessage :=
  match after.bind text.parse with
  | some t => messages.filter fun m => decide (t < m.timestamp)
  | none => messages

/-- The chat with a client: requests that have been given their times and wait for the lock, with
whether they have been written to the file, the file, the messages in memory, what the client has
received and the latest time in it; beside them, all messages that have been pushed and how many
there were when the client last asked. -/
structure Chat where
  pending : List (ChatMessage × Bool)
  file : List ChatMessage
  messages : List ChatMessage
  received : List ChatMessage
  cursor : Option ℕ
  log : List ChatMessage
  seen : ℕ

/-- A request arrives, its message is written to the file or fails to be, it is pushed to the
messages in memory; or the client polls. -/
inductive ChatStep where
  | submit (req : ChatMessageRequest) (id : Uuid) (now : ℕ)
  | persist (i : ℕ) (written : Bool)
  | push (i : ℕ)
  | poll

namespace Chat

variable (text : TimestampText)

def empty : Chat := ⟨[], [], [], [], none, [], 0⟩

def answer (c : Chat) : List ChatMessage :=
  listChatMessages text c.messages (c.cursor.map text.toText)

def step (c : Chat) : ChatStep → Option Chat
  | .submit req id now =>
    match chatMessage req id now with
    | .error _ => some c
    | .ok msg => some { c with pending := c.pending ++ [(msg, false)] }
  | .persist i written =>
    match c.pending[i]? with
    | some (msg, false) => some
      { c with
        pending := c.pending.set i (msg, true)
        file := if written then c.file ++ [msg] else c.file }
    | _ => none
  | .push i =>
    match c.pending[i]? with
    | some (msg, true) => some
      { c with
        pending := c.pending.eraseIdx i
        messages := extend maxChatMessages c.messages [msg]
        log := c.log ++ [msg] }
    | _ => none
  | .poll => some
    { c with
      received := c.received ++ c.answer text
      cursor := advance (·.timestamp) c.cursor (c.answer text)
      seen := c.log.length }

/-- A message that is pushed finds room beside those that the client has not asked for yet, and has
been given a later time than all that the client has. -/
def InTime (c : Chat) : ChatStep → Prop
  | .push i => ∀ msg ∈ c.pending[i]?, c.log.length - c.seen < maxChatMessages ∧
      ∀ t ∈ c.cursor, t < msg.1.timestamp
  | _ => True

/-- The chat as its client sees it. -/
def feed (c : Chat) : Feed ChatMessage ℕ := ⟨c.log, c.seen, c.received, c.cursor⟩

/-- What the steps keep. -/
structure Served (c : Chat) : Prop where
  messages : c.messages = c.log.rtake maxChatMessages
  read : c.feed.Read (·.timestamp) maxChatMessages

section
variable {text : TimestampText} {c c' : Chat} {action : ChatStep}

theorem Served.answer_eq (h : c.Served) :
    c.answer text = c.feed.answer (·.timestamp) maxChatMessages := by
  rw [Chat.answer, listChatMessages, Feed.answer, newer, h.messages]
  cases hcursor : c.cursor with
  | none => simp [feed, hcursor]
  | some t => simp [feed, hcursor, text.parse_toText]

theorem served_empty : empty.Served := ⟨rfl, Feed.read_empty⟩

/-- What a step of the chat is for the client. -/
def feedStep (c : Chat) : ChatStep → Option (FeedStep ChatMessage)
  | .push i =>
    match c.pending[i]? with
    | some (msg, true) => some (.push msg)
    | _ => none
  | .poll => some .poll
  | _ => none

theorem Served.step (h : c.Served) (hstep : c.step text action = some c') :
    c'.messages = c'.log.rtake maxChatMessages ∧
      match c.feedStep action with
      | none => c'.feed = c.feed
      | some feedAction =>
        c.feed.step (·.timestamp) maxChatMessages feedAction = some c'.feed := by
  cases action with
  | submit req id now =>
    rw [Chat.step] at hstep
    split at hstep
    · cases hstep
      exact ⟨h.messages, rfl⟩
    · cases hstep
      exact ⟨h.messages, rfl⟩
  | persist i written =>
    rw [Chat.step] at hstep
    split at hstep
    · cases hstep
      exact ⟨h.messages, rfl⟩
    · cases hstep
  | push i =>
    rw [Chat.step] at hstep
    split at hstep
    · rename_i msg hmsg
      cases hstep
      constructor
      · rw [h.messages, extend_rtake]
      · simp only [feedStep, hmsg]
        rfl
    · cases hstep
  | poll =>
    cases hstep
    constructor
    · exact h.messages
    · simp only [feedStep, Feed.step, h.answer_eq, feed]

theorem Served.keep (h : c.Served) (hstep : c.step text action = some c') : c'.Served := by
  obtain ⟨hmessages, hfeed⟩ := h.step hstep
  refine ⟨hmessages, ?_⟩
  split at hfeed
  · rw [hfeed]
    exact h.read
  · exact h.read.step hfeed

theorem Served.complete_step (h : c.Served) (hstep : c.step text action = some c') :
    c'.feed.Complete (·.timestamp) maxChatMessages ↔
      c.feed.Complete (·.timestamp) maxChatMessages ∧ c.InTime action := by
  obtain ⟨-, hfeed⟩ := h.step hstep
  split at hfeed
  · rename_i hquiet
    have htime : c.InTime action := by
      cases action with
      | push i =>
        rw [Chat.step] at hstep
        split at hstep
        · rename_i msg hmsg
          simp [feedStep, hmsg] at hquiet
        · cases hstep
      | submit req id now => trivial
      | persist i written => trivial
      | poll => trivial
    rw [hfeed, and_iff_left htime]
  · rename_i feedAction haction
    rw [h.read.complete_step hfeed, and_congr_right_iff]
    intro hcomplete
    cases action with
    | push i =>
      rw [feedStep] at haction
      split at haction
      · rename_i msg hmsg
        cases haction
        simp [Feed.InTime, InTime, hmsg, feed]
      · cases haction
    | poll =>
      cases haction
      exact Iff.rfl
    | submit req id now => cases haction
    | persist i written => cases haction

end

end Chat

/-- A client that polls with the latest time it has received gets all messages, each once and in the
order in which they came to be listed, just when each of them was pushed with a later time than the
client had, and never more than the limit between two polls. -/
theorem polled_chat_complete_iff (text : TimestampText) (actions : List ChatStep) (c : Chat)
    (hrun : Run.run (Chat.step text) Chat.empty actions = some c) :
    c.received ++ c.answer text = c.log ↔
      Run.Along (Chat.step text) Chat.InTime Chat.empty actions := by
  have hkeep : ∀ c action c', Chat.Served c → c.step text action = some c' → c'.Served :=
    fun c action c' h hstep => h.keep hstep
  have hexact : ∀ c action c', Chat.Served c → c.step text action = some c' →
      (c'.feed.Complete (·.timestamp) maxChatMessages ↔
        c.feed.Complete (·.timestamp) maxChatMessages ∧ c.InTime action) :=
    fun c action c' h hstep => h.complete_step hstep
  have hserved : c.Served :=
    Run.invariant (fun c action c' h _ => hkeep c action c' h) Chat.served_empty
      (Run.along_of_forall fun _ _ => trivial) hrun
  have hcomplete := Run.iff_along hkeep hexact Chat.served_empty hrun
  have hempty : Chat.empty.feed.Complete (·.timestamp) maxChatMessages := by
    simp [Feed.Complete, Chat.empty, Chat.feed, Feed.answer, newer]
  rw [and_iff_right hempty] at hcomplete
  rw [← hcomplete, hserved.answer_eq]
  exact Iff.rfl

/-- The first of March 2026 as its text, and any other time by its number. -/
def marchText : TimestampText where
  toText t :=
    if t = 1772323200000000000 then "2026-03-01T00:00:00Z".toList else Nat.toDigits 10 t
  parse s :=
    if s = "2026-03-01T00:00:00Z".toList then some 1772323200000000000 else Text.parseDigits s
  parse_toText t := by
    by_cases ht : t = 1772323200000000000
    · rw [if_pos ht, if_pos rfl, ht]
    · rw [if_neg ht, Text.parseDigits_toDigits]
      apply if_neg
      intro heq
      have hparse := Text.parseDigits_toDigits t
      have hnone : Text.parseDigits "2026-03-01T00:00:00Z".toList = none := by decide
      rw [heq, hnone] at hparse
      cases hparse

/-- A message that was given its time first and comes to be listed after the client has polled. -/
def lateMessage : List ChatStep :=
  [.submit ⟨"first".toList, none, none⟩ 1 1772323199000000000,
    .submit ⟨"second".toList, none, none⟩ 2 1772323200000000000,
    .persist 1 true, .push 1, .poll, .persist 0 true, .push 0]

theorem polled_chat_complete_iff_late :
    ¬ Run.Along (Chat.step marchText) Chat.InTime Chat.empty lateMessage := by
  have hrun : ∃ c, Run.run (Chat.step marchText) Chat.empty lateMessage = some c ∧
      c.received ++ c.answer marchText ≠ c.log := ⟨_, rfl, by decide⟩
  obtain ⟨c, hc, hlost⟩ := hrun
  exact fun h => hlost ((polled_chat_complete_iff marchText lateMessage c hc).mpr h)

end RustLake.Routes.Histories
