import Mathlib.Data.String.Basic

/-! The consumer loop of a Kafka source beside the Kafka client, which commits offsets, and the
pipeline that receives the batches. -/
namespace RustLake.Stream

structure KafkaConfig where
  batchSize : ℕ
  format : String
  /-- A schema registry is configured. -/
  schemaRegistry : Bool

structure Message where
  topic : String
  partition : Int32
  offset : Int64
  timestampMillis : Option Int64
  key : Option (List UInt8)
  payload : Option (List UInt8)

/-- A row of a batch. -/
structure Row where
  offset : Int64
  timestamp : Int64
  key : Option String
  value : Option String
  topic : String
  partition : Int64
deriving DecidableEq

/-- Where a message stands in Kafka. -/
structure Position where
  topic : String
  partition : Int64
  offset : Int64
deriving DecidableEq

def Message.position (m : Message) : Position := ⟨m.topic, m.partition.toInt64, m.offset⟩

def Row.position (row : Row) : Position := ⟨row.topic, row.partition, row.offset⟩

/-- What comes from outside when a message is received: the time, and what the schema registry
makes of the payload. -/
structure Surroundings where
  nowMillis : Int64
  avro : Except String String

/-- The row of a message. -/
def toRow (lossy : List UInt8 → String) (cfg : KafkaConfig) (m : Message) (at' : Surroundings) :
    Row where
  offset := m.offset
  timestamp := m.timestampMillis.getD at'.nowMillis
  key := m.key.map lossy
  value := m.payload.map fun payload =>
    if cfg.format = "avro" ∧ cfg.schemaRegistry then
      match at'.avro with
      | .ok json => json
      | .error _ => lossy payload
    else lossy payload
  topic := m.topic
  partition := m.partition.toInt64

abbrev BatchResult := Except String (List Row)

/-- Where the consumer loop is: before a micro-batch, collecting it, with the batch built, and with
the batch about to be sent. -/
inductive Loop where
  | top
  | collecting (rows : List Row)
  | collected (rows : List Row)
  | built (batch : BatchResult)
  | sending (batch : BatchResult)
  | stopped

/-- The pipeline that receives batches: waiting for one, writing one to its sink, or gone. -/
inductive Receiver where
  | waiting
  | writing (rows : List Row)
  | gone

structure State where
  running : Bool
  loop : Loop
  /-- The messages that the consumer has handed out, in this order. -/
  received : List Message
  /-- For each asynchronous commit under way, how many messages had been received. -/
  requested : List ℕ
  /-- How many of the messages received are below the committed offsets. -/
  committed : ℕ
  channel : List BatchResult
  receiver : Receiver
  /-- The batches that the receiver has got. -/
  taken : List BatchResult

/-- The state when the loop is started. -/
def State.start : State where
  running := true
  loop := .top
  received := []
  requested := []
  committed := 0
  channel := []
  receiver := .waiting
  taken := []

inductive Action where
  /-- The loop reads whether it is to run on. -/
  | check
  | recv (m : Message) (at' : Surroundings)
  | recvError
  | timeout
  | deadline
  /-- The record batch is built, or an error comes of it. -/
  | build (error : Option String)
  | commit (accepted : Bool)
  | send
  /-- The client serves the oldest asynchronous commit, with the positions it then finds, or
  fails to. -/
  | serve (covered : ℕ)
  | serveError
  | take
  | write (error : Option String)
  | finish
  | dropReceiver
  | signalStop
  /-- The synchronous commit of `stop` and `commit_offsets`. -/
  | commitSync (accepted : Bool)

/-- Leaving the inner loop: an empty micro-batch is not built. -/
def leave (rows : List Row) : Loop := if rows.isEmpty then .top else .collected rows

def State.closed (s : State) : State := { s with receiver := .gone, channel := [] }

section Step
variable (lossy : List UInt8 → String) (cfg : KafkaConfig)

/-- The steps of the consumer loop. -/
def loopStep (s : State) : Loop → Action → Option State
  | .top, .check =>
    if s.running then
      some { s with loop := if cfg.batchSize = 0 then .top else .collecting [] }
    else some { s with loop := .stopped }
  | .collecting rows, .recv m at' =>
    let rows := rows ++ [toRow lossy cfg m at']
    some { s with
      received := s.received ++ [m]
      loop := if rows.length < cfg.batchSize then .collecting rows else .collected rows }
  | .collecting rows, .recvError =>
    some { s with loop := if s.running then .collecting rows else leave rows }
  | .collecting rows, .timeout =>
    some { s with loop := if rows.isEmpty && s.running then .collecting rows else leave rows }
  | .collecting rows, .deadline =>
    if rows.isEmpty then none else some { s with loop := .collected rows }
  | .collected rows, .build error =>
    some { s with loop := .built (match error with
      | none => .ok rows
      | some e => .error ("Failed to create batch: " ++ e)) }
  | .built batch, .commit accepted =>
    some { s with
      requested := if accepted then s.requested ++ [s.received.length] else s.requested
      loop := .sending batch }
  | .sending batch, .send =>
    match s.receiver with
    | .gone => some { s with loop := .stopped }
    | _ =>
      if s.channel.length < 32 then
        some { s with channel := s.channel ++ [batch], loop := .top }
      else none
  | _, _ => none

/-- The steps of the receiving pipeline. -/
def receiverStep (s : State) : Receiver → Action → Option State
  | .waiting, .take =>
    match s.channel with
    | batch :: rest =>
      some { s with
        channel := rest
        taken := s.taken ++ [batch]
        receiver := match batch with
          | .ok rows => .writing rows
          | .error _ => .waiting }
    | [] => none
  | .writing _, .write error =>
    match error with
    | none => some { s with receiver := .waiting }
    | some _ => some s.closed
  | .waiting, .finish =>
    match s.loop, s.channel with
    | .stopped, [] => some s.closed
    | _, _ => none
  | _, _ => none

def step (s : State) : Action → Option State
  | .serve covered =>
    match s.requested with
    | asked :: rest =>
      if asked ≤ covered ∧ covered ≤ s.received.length then
        some { s with requested := rest, committed := max s.committed covered }
      else none
    | [] => none
  | .serveError =>
    match s.requested with
    | _ :: rest => some { s with requested := rest }
    | [] => none
  | .dropReceiver => some s.closed
  | .signalStop => some { s with running := false }
  | .commitSync accepted =>
    some { s with committed := if accepted then s.received.length else s.committed }
  | .take => receiverStep s s.receiver .take
  | .write error => receiverStep s s.receiver (.write error)
  | .finish => receiverStep s s.receiver .finish
  | action => loopStep lossy cfg s s.loop action

end Step
end RustLake.Stream
