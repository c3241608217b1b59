import Mathlib.Data.String.Basic

/-! One WebSocket connection: its loop over the messages of the client, and the tasks that it
spawns for queries. The history of queries is left out. -/
namespace RustLake.WebSocket

inductive ServerMsg where
  | queryStart (queryId engine queryType : String)
  | queryRows (queryId : String) (columns rows : List String) (chunkIndex : ℕ)
  | queryComplete (queryId : String) (rowCount durationMs parseMs execMs : ℕ)
    (engine queryType : String)
  | queryError (queryId error engine : String)
  | queryCancelled (queryId : String)
  | pong
  | error (message : String)
deriving DecidableEq

def chunkSize : ℕ := 100

def maxInflight : ℕ := 3

/-- The rows that are left to send, as JSON texts in chunks. -/
structure Streaming where
  columns : List String
  left : List (List String)
  chunkIndex : ℕ
  rowCount : ℕ
  engine : String
  queryType : String
deriving DecidableEq

/-- Where a query is: not yet spawned, on its way through `execute_query`, about to be removed from
the queries in flight, and no more. -/
inductive Place where
  | waiting
  | starting
  | executing (engine queryType : String)
  | fallingBack (queryType : String)
  | failing (error engine : String)
  | streaming (batch : Streaming)
  | sendingRows (chunk : List String) (batch : Streaming)
  | completing (batch : Streaming)
  | ending
  | ended
deriving DecidableEq

/-- A query message of the client, whether it has been cancelled, and what has been sent for it. -/
structure Query where
  queryId : String
  sql : String
  engine : String
  place : Place
  cancelled : Bool
  sent : List ServerMsg
deriving DecidableEq

/-- What the connection loop is at. It holds the lock of the queries in flight while it refuses or
cancels one. -/
inductive Loop where
  | reading
  | checking (n : ℕ)
  | refusing (n : ℕ)
  | inserting (n : ℕ)
  | cancelling (n : ℕ) (queryId : String)
  | closed
deriving DecidableEq

structure State where
  loop : Loop
  /-- The queries in flight, by the ids of the client. -/
  inflight : List (String × ℕ)
  queries : List Query
  /-- What was sent that belongs to no query. -/
  replies : List ServerMsg
deriving DecidableEq

def State.start : State := ⟨.reading, [], [], []⟩

/-- What an engine gives: rows as JSON texts, rows that have no JSON, or an error. -/
inductive Outcome where
  | ok (columns rows : List String)
  | unserializable (error : String)
  | error (error : String)

inductive TaskStep where
  /-- The statement changes a read-only table. -/
  | refuse (table : String)
  | begin (engine queryType : String)
  /-- The engine answers before the cancellation is seen. -/
  | result (outcome : Outcome)
  | seeCancelled
  /-- DataFusion answers after another engine has failed. -/
  | fallback (outcome : Outcome)
  | nextChunk
  | sendRows
  | sendError
  | complete (durationMs parseMs execMs : ℕ)

inductive Action where
  | query (queryId sql engine : String)
  | cancel (queryId : String)
  | ping
  | invalid (error : String)
  | close
  | check
  | sendRefusal
  | insert
  | sendCancelled
  | task (n : ℕ) (taskStep : TaskStep)
  | remove (n : ℕ)

def streamed (columns rows : List String) (engine queryType : String) : Streaming where
  columns := columns
  left := rows.toChunks chunkSize
  chunkIndex := 0
  rowCount := rows.length
  engine := engine
  queryType := queryType

/-- The place after an outcome that is no error. -/
def Outcome.place (engine queryType : String) (onError : String → Place) : Outcome → Place
  | .ok columns rows => .streaming (streamed columns rows engine queryType)
  | .unserializable e => .failing ("Serialization failed: " ++ e) engine
  | .error e => onError e

def Query.send (q : Query) (msg : ServerMsg) : Query := { q with sent := q.sent ++ [msg] }

/-- A step of `execute_query`. -/
def Query.step (q : Query) (taskStep : TaskStep) : Option Query :=
  match q.place, taskStep with
  | .starting, .refuse table =>
    some { q with place := .failing ("Table '" ++ table ++ "' is read-only") "" }
  | .starting, .begin engine queryType =>
    some { q.send (.queryStart q.queryId engine queryType) with
      place := .executing engine queryType }
  | .executing engine queryType, .result outcome =>
    some { q with place := outcome.place engine queryType fun e =>
      if engine = "DataFusion" then .failing e engine else .fallingBack queryType }
  | .executing _ _, .seeCancelled => if q.cancelled then some { q with place := .ending } else none
  | .fallingBack queryType, .fallback outcome =>
    some { q with place := outcome.place "DataFusion" queryType (.failing · "DataFusion") }
  | .streaming batch, .nextChunk =>
    match batch.left with
    | [] => some { q with place := .completing batch }
    | chunk :: left =>
      if q.cancelled then some { q with place := .ending }
      else some { q with place := .sendingRows chunk { batch with left := left } }
  | .sendingRows chunk batch, .sendRows =>
    let columns := if batch.chunkIndex = 0 then batch.columns else []
    some { q.send (.queryRows q.queryId columns chunk batch.chunkIndex) with
      place := .streaming { batch with chunkIndex := batch.chunkIndex + 1 } }
  | .failing e engine, .sendError =>
    some { q.send (.queryError q.queryId e engine) with place := .ending }
  | .completing batch, .complete durationMs parseMs execMs =>
    some { q.send (.queryComplete q.queryId batch.rowCount durationMs parseMs execMs batch.engine
      batch.queryType) with place := .ending }
  | _, _ => none

/-- The loop holds the lock of the queries in flight. -/
def Loop.locked : Loop → Bool
  | .refusing _ | .cancelling _ _ => true
  | _ => false

def erase (queryId : String) (inflight : List (String × ℕ)) : List (String × ℕ) :=
  inflight.filter fun e => e.1 ≠ queryId

/-- The state after a query has gone on. -/
def State.change (s : State) (n : ℕ) (f : Query → Query) : State :=
  { s with queries := s.queries.modify n f }

def refusal : String := "Too many concurrent queries (max 3). Wait for one to finish."

def step (s : State) : Action → Option State
  | .query queryId sql engine =>
    match s.loop with
    | .reading =>
      some { s with
        loop := .checking s.queries.length
        queries := s.queries ++ [⟨queryId, sql, engine, .waiting, false, []⟩] }
    | _ => none
  | .cancel queryId =>
    match s.loop, s.inflight.lookup queryId with
    | .reading, some n =>
      some { s.change n fun q => { q with cancelled := true } with
        inflight := erase queryId s.inflight
        loop := .cancelling n queryId }
    | .reading, none => some s
    | _, _ => none
  | .ping =>
    match s.loop with
    | .reading => some { s with replies := s.replies ++ [.pong] }
    | _ => none
  | .invalid e =>
    match s.loop with
    | .reading => some { s with replies := s.replies ++ [.error ("Invalid message: " ++ e)] }
    | _ => none
  | .close =>
    match s.loop with
    | .reading => some { s with loop := .closed }
    | _ => none
  | .check =>
    match s.loop with
    | .checking n =>
      some { s with loop := if maxInflight ≤ s.inflight.length then .refusing n else .inserting n }
    | _ => none
  | .sendRefusal =>
    match s.loop with
    | .refusing n =>
      some { s.change n fun q =>
          { q.send (.queryError q.queryId refusal "") with place := .ended } with
        loop := .reading }
    | _ => none
  | .insert =>
    match s.loop with
    | .inserting n =>
      (s.queries[n]?).map fun q =>
        { s.change n fun q => { q with place := .starting } with
          inflight := erase q.queryId s.inflight ++ [(q.queryId, n)]
          loop := .reading }
    | _ => none
  | .sendCancelled =>
    match s.loop with
    | .cancelling n queryId =>
      some { s.change n fun q => q.send (.queryCancelled queryId) with loop := .reading }
    | _ => none
  | .task n taskStep =>
    ((s.queries[n]?).bind fun q => q.step taskStep).map fun q' => s.change n fun _ => q'
  | .remove n =>
    match s.queries[n]? with
    | some q =>
      if q.place = .ending ∧ s.loop.locked = false then
        some { s.change n fun q => { q with place := .ended } with
          inflight := erase q.queryId s.inflight }
      else none
    | none => none

end RustLake.WebSocket
