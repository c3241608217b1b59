import RustLake.Order.Run
import RustLake.Persistence.JsonLines
import RustLake.Rust.Basic

/-! The sink that produces rows to a topic of Kafka, and the rows that it has been given. -/
namespace RustLake.Stream
open RustLake.Persistence

/-- The sink, with the rows that it has been given, those that the broker has got, and the number of
sends that have been awaited. -/
structure KafkaSink where
  buffer : List String
  flushSize : ℕ
  written : List String
  delivered : List String
  sends : ℕ
deriving DecidableEq

/-- The broker's answer to each send: nothing, or why it fails. -/
abbrev Broker := ℕ → Option String

namespace KafkaSink

def new (batchSize : ℕ) : KafkaSink := ⟨[], batchSize, [], [], 0⟩

/-- A send begins when it is awaited, and those behind one that fails are dropped. -/
def produceMessages (broker : Broker) (sink : KafkaSink) :
    List String → KafkaSink × Except String Unit
  | [] => (sink, .ok ())
  | msg :: rest =>
    match broker sink.sends with
    | some e => ({ sink with sends := sink.sends + 1 }, .error ("Kafka produce failed: " ++ e))
    | none => produceMessages broker
        { sink with delivered := sink.delivered ++ [msg], sends := sink.sends + 1 } rest

def flush (broker : Broker) (sink : KafkaSink) : KafkaSink × Except String Unit :=
  if sink.buffer.isEmpty then (sink, .ok ())
  else { sink with buffer := [] }.produceMessages broker sink.buffer

def commit (broker : Broker) (sink : KafkaSink) : KafkaSink × Except String Unit :=
  sink.flush broker

/-- The rows of a batch that has been written as JSON lines. -/
def jsonRows (json : String) : List String :=
  (lines json).filter fun line => ¬ (trim line.toList).isEmpty

def buffered (json : String) (sink : KafkaSink) : KafkaSink :=
  { sink with buffer := sink.buffer ++ jsonRows json, written := sink.written ++ jsonRows json }

/-- `write`, given what becomes of the batch in JSON. -/
def write (broker : Broker) (json : Except String String) (sink : KafkaSink) :
    KafkaSink × Except String Unit :=
  match json with
  | .error e => (sink, .error e)
  | .ok json =>
    let sink := sink.buffered json
    if sink.flushSize ≤ sink.buffer.length then
      { sink with buffer := [] }.produceMessages broker sink.buffer
    else (sink, .ok ())

end KafkaSink

inductive SinkCall where
  | write (json : Except String String)
  | flush
  | commit

def SinkCall.perform (broker : Broker) (sink : KafkaSink) :
    SinkCall → KafkaSink × Except String Unit
  | .write json => sink.write broker json
  | .flush => sink.flush broker
  | .commit => sink.commit broker

def SinkCall.step (broker : Broker) (sink : KafkaSink) (call : SinkCall) : Option KafkaSink :=
  some (call.perform broker sink).1

section Property

/-- Every row that has been written is with the broker or in the buffer. -/
def KafkaSink.Kept (sink : KafkaSink) : Prop :=
  ∀ row, sink.written.count row ≤ sink.delivered.count row + sink.buffer.count row

/-- What a call takes out of the buffer. -/
def KafkaSink.drained (sink : KafkaSink) : SinkCall → List String
  | .write (.ok json) =>
    if sink.flushSize ≤ (sink.buffered json).buffer.length then (sink.buffered json).buffer else []
  | .write (.error _) => []
  | .flush | .commit => sink.buffer

/-- The broker takes all that a call sends. -/
def Delivers (broker : Broker) (sink : KafkaSink) (call : SinkCall) : Prop :=
  ∀ n < (sink.drained call).length, broker (sink.sends + n) = none

end Property

section Rows
variable {broker : Broker} {sink : KafkaSink} {lost : List String}

/-- The rows that are neither with the broker nor in the buffer. -/
def KafkaSink.Misses (sink : KafkaSink) (lost : List String) : Prop :=
  sink.written.Perm (sink.delivered ++ lost ++ sink.buffer)

theorem kept_iff (h : sink.Misses lost) : sink.Kept ↔ lost = [] := by
  have hcount : ∀ row, sink.written.count row =
      sink.delivered.count row + lost.count row + sink.buffer.count row := by
    intro row
    rw [h.count_eq, List.count_append, List.count_append]
  constructor
  · intro hkept
    refine List.eq_nil_iff_forall_not_mem.mpr fun row hrow => ?_
    have hpos := List.count_pos_iff.mpr hrow
    have hle := hkept row
    rw [hcount row] at hle
    omega
  · rintro rfl row
    rw [hcount row, List.count_nil]
    omega

variable (broker) in
/-- The messages up to the first failure are delivered, the others are lost. -/
theorem produceMessages_spec (sink : KafkaSink) (messages : List String) :
    ∃ sent unsent, messages = sent ++ unsent ∧
      (unsent = [] ↔ ∀ n < messages.length, broker (sink.sends + n) = none) ∧
      (sink.produceMessages broker messages).1.buffer = sink.buffer ∧
      (sink.produceMessages broker messages).1.written = sink.written ∧
      (sink.produceMessages broker messages).1.delivered = sink.delivered ++ sent := by
  induction messages generalizing sink with
  | nil =>
    refine ⟨[], [], rfl, iff_of_true rfl ?_, rfl, rfl, (List.append_nil _).symm⟩
    intro n hn
    cases hn
  | cons msg rest ih =>
    rw [KafkaSink.produceMessages]
    cases hsend : broker sink.sends with
    | some e =>
      refine ⟨[], msg :: rest, rfl, iff_of_false (List.cons_ne_nil _ _) fun h => ?_, rfl, rfl,
        (List.append_nil _).symm⟩
      have hnone := h 0 (Nat.zero_lt_succ _)
      rw [Nat.add_zero, hsend] at hnone
      cases hnone
    | none =>
      obtain ⟨sent, unsent, rfl, hall, hbuffer, hwritten, hdelivered⟩ := ih
        { sink with delivered := sink.delivered ++ [msg], sends := sink.sends + 1 }
      refine ⟨msg :: sent, unsent, rfl, hall.trans ?_, hbuffer, hwritten, ?_⟩
      · constructor
        · intro h n hn
          cases n with
          | zero => exact hsend
          | succ n =>
            have hnext := h n (Nat.lt_of_succ_lt_succ hn)
            rwa [Nat.add_assoc, Nat.add_comm 1 n] at hnext
        · intro h n hn
          have hnext := h (n + 1) (Nat.succ_lt_succ hn)
          rwa [Nat.add_comm n 1, ← Nat.add_assoc] at hnext
      · rw [hdelivered, List.append_assoc]
        rfl

/-- Messages that are sent out of the buffer are lost behind the first failure. -/
theorem misses_produceMessages {messages : List String}
    (h : sink.written.Perm (sink.delivered ++ lost ++ messages)) (hempty : sink.buffer = []) :
    ∃ more, (sink.produceMessages broker messages).1.Misses (lost ++ more) ∧
      (more = [] ↔ ∀ n < messages.length, broker (sink.sends + n) = none) := by
  obtain ⟨sent, unsent, rfl, hall, hbuffer, hwritten, hdelivered⟩ :=
    produceMessages_spec broker sink messages
  refine ⟨unsent, ?_, hall⟩
  unfold KafkaSink.Misses
  rw [hbuffer, hwritten, hdelivered, hempty, List.perm_iff_count]
  intro row
  have hcount := h.count_eq row
  simp only [List.count_append, List.count_nil] at hcount ⊢
  omega

theorem misses_flush (h : sink.Misses lost) :
    ∃ more, (sink.flush broker).1.Misses (lost ++ more) ∧
      (more = [] ↔ ∀ n < sink.buffer.length, broker (sink.sends + n) = none) := by
  unfold KafkaSink.flush
  split
  · rename_i hempty
    rw [List.isEmpty_iff] at hempty
    refine ⟨[], (List.append_nil lost).symm ▸ h, iff_of_true rfl fun n hn => ?_⟩
    rw [hempty] at hn
    cases hn
  · exact misses_produceMessages h rfl

theorem misses_buffered (h : sink.Misses lost) (json : String) :
    (sink.buffered json).Misses lost := by
  change (sink.written ++ _).Perm (sink.delivered ++ lost ++ (sink.buffer ++ _))
  rw [← List.append_assoc]
  exact h.append_right _

variable (broker) in
/-- A call misses more rows exactly when the broker does not take all that it sends. -/
theorem misses_perform (h : sink.Misses lost) (call : SinkCall) :
    ∃ more, (call.perform broker sink).1.Misses (lost ++ more) ∧
      (more = [] ↔ Delivers broker sink call) := by
  cases call with
  | flush => exact misses_flush h
  | commit => exact misses_flush h
  | write json =>
    cases json with
    | error e =>
      refine ⟨[], (List.append_nil lost).symm ▸ h, iff_of_true rfl fun n hn => ?_⟩
      cases hn
    | ok json =>
      have hbuffered := misses_buffered h json
      change ∃ more, (sink.write broker (.ok json)).1.Misses (lost ++ more) ∧ _
      unfold KafkaSink.write Delivers KafkaSink.drained
      dsimp only
      by_cases hfull : sink.flushSize ≤ (sink.buffered json).buffer.length
      · have hlimit : (sink.buffered json).flushSize ≤ (sink.buffered json).buffer.length := hfull
        rw [if_pos hlimit, if_pos hfull]
        have hsent : ({ sink.buffered json with buffer := [] } : KafkaSink).buffer = [] := rfl
        exact misses_produceMessages hbuffered hsent
      · have hlimit : ¬ (sink.buffered json).flushSize ≤ (sink.buffered json).buffer.length := hfull
        rw [if_neg hlimit, if_neg hfull]
        refine ⟨[], (List.append_nil lost).symm ▸ hbuffered, iff_of_true rfl fun n hn => ?_⟩
        cases hn

theorem kept_step {call : SinkCall} {sink' : KafkaSink} (h : ∃ lost, sink.Misses lost)
    (hstep : call.step broker sink = some sink') :
    (∃ lost, sink'.Misses lost) ∧ (sink'.Kept ↔ sink.Kept ∧ Delivers broker sink call) := by
  obtain ⟨lost, hlost⟩ := h
  obtain ⟨more, hmore, hnone⟩ := misses_perform broker hlost call
  obtain rfl := Option.some.inj hstep
  refine ⟨⟨_, hmore⟩, ?_⟩
  rw [kept_iff hmore, kept_iff hlost, List.append_eq_nil_iff, hnone]

variable (broker) in
theorem run_isSome (sink : KafkaSink) (calls : List SinkCall) :
    ∃ sink', Run.run (SinkCall.step broker) sink calls = some sink' := by
  induction calls generalizing sink with
  | nil => exact ⟨sink, rfl⟩
  | cons call rest ih => exact ih (call.perform broker sink).1

end Rows

/-- A run keeps all rows in all of its states exactly when the broker takes all messages that its
calls send. -/
theorem kept_iff_delivers (broker : Broker) (batchSize : ℕ) (calls : List SinkCall) :
    (∀ done sink, done <+: calls →
      Run.run (SinkCall.step broker) (.new batchSize) done = some sink → sink.Kept) ↔
      Run.Along (SinkCall.step broker) (Delivers broker) (.new batchSize) calls := by
  have hnew : ∃ lost, (KafkaSink.new batchSize).Misses lost := ⟨[], List.Perm.refl _⟩
  have hkept : (KafkaSink.new batchSize).Kept := fun row => Nat.zero_le _
  have hrun : ∀ {done sink}, Run.run (SinkCall.step broker) (.new batchSize) done = some sink →
      (sink.Kept ↔ Run.Along (SinkCall.step broker) (Delivers broker) (.new batchSize) done) := by
    intro done sink hdone
    have hiff := Run.iff_along (fun s call s' hs hstep => (kept_step hs hstep).1)
      (fun s call s' hs hstep => (kept_step hs hstep).2) hnew hdone
    exact hiff.trans (and_iff_right hkept)
  constructor
  · intro h
    obtain ⟨sink, hsink⟩ := run_isSome broker (KafkaSink.new batchSize) calls
    exact (hrun hsink).mp (h calls sink (List.prefix_refl calls) hsink)
  · rintro h done sink ⟨rest, rfl⟩ hdone
    exact (hrun hdone).mpr (Run.along_append hdone h).1

/-- A broker that takes one message and no more. -/
def fullBroker : Broker := fun n => if n = 0 then none else some "queue full"

def thirdRow : String := "\x7b\"id\":3\x7d"

def threeRows : String := "\x7b\"id\":1\x7d\n\x7b\"id\":2\x7d\n\x7b\"id\":3\x7d\n"

/-- The second and the third of three rows are gone after a flush that fails. -/
theorem not_kept_threeRows : ¬ ∀ (calls : List SinkCall) (sink : KafkaSink),
    calls <+: [SinkCall.write (.ok threeRows), .flush] →
      Run.run (SinkCall.step fullBroker) (.new 1000) calls = some sink → sink.Kept := by
  intro h
  have hkept := h _ _ (List.prefix_refl _) rfl thirdRow
  revert hkept
  decide +kernel

end RustLake.Stream
