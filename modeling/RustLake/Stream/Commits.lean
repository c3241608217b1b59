import RustLake.Stream.Kafka
import RustLake.Order.Run

/-! Which committed offsets belong to messages that the receiver has got. -/
namespace RustLake.Stream

/-- Every message below the committed offsets has a row in a batch that the receiver has got. -/
def Handed (s : State) : Prop :=
  ∀ m ∈ s.received.take s.committed, ∃ rows, .ok rows ∈ s.taken ∧
    ∃ row ∈ rows, row.position = m.position

/-- What the consumer loop holds. -/
def Loop.batches : Loop → List BatchResult
  | .collecting rows | .collected rows => [.ok rows]
  | .built batch | .sending batch => [batch]
  | .top | .stopped => []

def rowsOf : BatchResult → List Row
  | .ok rows => rows
  | .error _ => []

/-- The batches that the receiver has yet to get. -/
def State.pending (s : State) : List BatchResult := s.channel ++ s.loop.batches

def positions (batches : List BatchResult) : List Position :=
  (batches.flatMap rowsOf).map Row.position

/-- The receiver is there, no batch is an error, and no message that the commit covers is in the
channel or in the loop. -/
structure Covered (s : State) (covered : ℕ) : Prop where
  present : s.receiver ≠ .gone
  faultless : ∀ batch ∈ s.taken ++ s.pending, batch.isOk
  delivered : covered + (s.pending.flatMap rowsOf).length ≤ s.received.length

/-- A step that commits offsets commits only what neither the channel nor the loop holds. -/
def Orderly (s : State) : Action → Prop
  | .serve covered => Covered s covered
  | .commitSync true => Covered s s.received.length
  | _ => True

instance (receiver : Receiver) : Decidable (receiver ≠ .gone) :=
  match receiver with
  | .gone => isFalse (fun h => h rfl)
  | .waiting | .writing _ => isTrue Receiver.noConfusion

instance (s : State) (covered : ℕ) : Decidable (Covered s covered) :=
  decidable_of_iff (s.receiver ≠ .gone ∧ (∀ batch ∈ s.taken ++ s.pending, batch.isOk) ∧
    covered + (s.pending.flatMap rowsOf).length ≤ s.received.length)
    ⟨fun ⟨hpresent, hok, hle⟩ => ⟨hpresent, hok, hle⟩, fun h => ⟨h.1, h.2, h.3⟩⟩

instance (s : State) (action : Action) : Decidable (Orderly s action) := by
  unfold Orderly
  split <;> infer_instance

@[simp] theorem positions_nil : positions [] = [] := rfl

@[simp] theorem positions_append (xs ys : List BatchResult) :
    positions (xs ++ ys) = positions xs ++ positions ys := by simp [positions]

@[simp] theorem positions_ok (rows : List Row) :
    positions [.ok rows] = rows.map Row.position := by simp [positions, rowsOf]

theorem length_positions (batches : List BatchResult) :
    (positions batches).length = (batches.flatMap rowsOf).length := by simp [positions]

/-- A position among those of the batches is that of a row of one of them. -/
theorem exists_row_of_mem {batches : List BatchResult} {p : Position}
    (h : p ∈ positions batches) :
    ∃ rows, .ok rows ∈ batches ∧ ∃ row ∈ rows, row.position = p := by
  obtain ⟨row, hrow, hp⟩ := List.mem_map.mp h
  obtain ⟨batch, hbatch, hin⟩ := List.mem_flatMap.mp hrow
  cases batch with
  | error e => cases hin
  | ok rows => exact ⟨rows, hbatch, row, hin, hp⟩

/-- While the receiver is there and no batch is an error, the batches hold the messages in the order
in which they were received. -/
def Accounted (s : State) : Prop :=
  s.receiver ≠ .gone → (∀ batch ∈ s.taken ++ s.pending, batch.isOk) →
    positions (s.taken ++ s.pending) = s.received.map Message.position

structure Inv (s : State) : Prop where
  committed : s.committed ≤ s.received.length
  handed : Handed s
  accounted : Accounted s

/-- The messages that a commit covers have been handed over when none of them is pending. -/
theorem handed_of_covered {s : State} {covered : ℕ} (hinv : Inv s) (h : Covered s covered) :
    ∀ m ∈ s.received.take covered, ∃ rows, .ok rows ∈ s.taken ∧
      ∃ row ∈ rows, row.position = m.position := by
  intro m hm
  have hall := hinv.accounted h.present h.faultless
  rw [positions_append] at hall
  have hlength : (positions s.taken).length + (positions s.pending).length =
      s.received.length := by
    have := congrArg List.length hall
    rwa [List.length_append, List.length_map] at this
  have hdelivered := h.delivered
  rw [← length_positions] at hdelivered
  have hle : covered ≤ (positions s.taken).length := by omega
  have hmem : m.position ∈ (s.received.map Message.position).take covered := by
    rw [← List.map_take]
    exact List.mem_map_of_mem hm
  rw [← hall, List.take_append_of_le_length hle] at hmem
  exact exists_row_of_mem (List.mem_of_mem_take hmem)

/-- What was handed over stays so while more is received and taken. -/
theorem Handed.mono {s s' : State} (hle : s.committed ≤ s.received.length) (h : Handed s)
    (hcommitted : s'.committed = s.committed) (hreceived : s.received <+: s'.received)
    (htaken : s.taken <+: s'.taken) : Handed s' := by
  intro m hm
  rw [hcommitted] at hm
  obtain ⟨more, hmore⟩ := hreceived
  rw [← hmore, List.take_append_of_le_length hle] at hm
  obtain ⟨rows, hrows, hrow⟩ := h m hm
  exact ⟨rows, htaken.subset hrows, hrow⟩

section Step
variable {lossy : List UInt8 → String} {cfg : KafkaConfig}

/-- What a step of the consumer loop changes: it may receive messages, whose rows it then holds, and
an error stays among the batches. -/
structure Loops (s s' : State) : Prop where
  committed : s'.committed = s.committed
  taken : s'.taken = s.taken
  receiver : s'.receiver = s.receiver
  received : ∃ new, s'.received = s.received ++ new ∧
    (s.receiver ≠ .gone → (∀ batch ∈ s'.pending, batch.isOk) →
      (∀ batch ∈ s.pending, batch.isOk) ∧
        positions s'.pending = positions s.pending ++ new.map Message.position)

/-- A step in which the loop goes on to another place. -/
theorem loops_goto {s : State} {loop' : Loop} {requested : List ℕ} {new : List Message}
    (h : (∀ batch ∈ loop'.batches, batch.isOk) → (∀ batch ∈ s.loop.batches, batch.isOk) ∧
      positions loop'.batches = positions s.loop.batches ++ new.map Message.position) :
    Loops s { s with received := s.received ++ new, requested := requested, loop := loop' } := by
  refine ⟨rfl, rfl, rfl, new, rfl, ?_⟩
  intro _ hok
  obtain ⟨hbefore, hpositions⟩ := h fun batch hbatch => hok batch (List.mem_append_right _ hbatch)
  constructor
  · have hchannel : ∀ batch ∈ s.channel, batch.isOk := fun batch hbatch =>
      hok batch (List.mem_append_left _ hbatch)
    exact List.forall_mem_append.2 ⟨hchannel, hbefore⟩
  · show positions (s.channel ++ loop'.batches) = positions (s.channel ++ s.loop.batches) ++ _
    rw [positions_append, positions_append, hpositions, List.append_assoc]

/-- A step without a message. -/
theorem loops_stay {s : State} {loop' : Loop} {requested : List ℕ}
    (h : (∀ batch ∈ loop'.batches, batch.isOk) → (∀ batch ∈ s.loop.batches, batch.isOk) ∧
      positions loop'.batches = positions s.loop.batches) :
    Loops s { s with requested := requested, loop := loop' } := by
  have hgoto : Loops s
      { s with received := s.received ++ [], requested := requested, loop := loop' } := by
    apply loops_goto
    intro hok
    rw [List.map_nil, List.append_nil]
    exact h hok
  rwa [List.append_nil] at hgoto

theorem isOk_ok (rows : List Row) : ∀ batch ∈ [(.ok rows : BatchResult)], batch.isOk :=
  List.forall_mem_singleton.mpr rfl

theorem positions_leave (rows : List Row) :
    positions (leave rows).batches = rows.map Row.position := by
  unfold leave
  cases rows with
  | nil => rfl
  | cons row rest => exact positions_ok (row :: rest)

theorem loopStep_loops {s s' : State} {action : Action}
    (h : loopStep lossy cfg s s.loop action = some s') : Loops s s' := by
  generalize hloop : s.loop = loop at h
  unfold loopStep at h
  split at h
  · split at h
    · cases h
      apply loops_stay
      intro _
      rw [hloop]
      have hnone : ∀ batch ∈ Loop.top.batches, batch.isOk := List.forall_mem_nil _
      split <;> exact ⟨hnone, rfl⟩
    · cases h
      apply loops_stay
      intro _
      rw [hloop]
      exact ⟨List.forall_mem_nil _, rfl⟩
  · rename_i rows m at'
    cases h
    apply loops_goto
    intro _
    rw [hloop]
    refine ⟨isOk_ok rows, ?_⟩
    have hrow : (rows ++ [toRow lossy cfg m at']).map Row.position =
        rows.map Row.position ++ [m].map Message.position := by
      rw [List.map_append]
      rfl
    split <;> exact (positions_ok _).trans (hrow.trans (by rw [← positions_ok]; rfl))
  · rename_i rows
    cases h
    apply loops_stay
    intro _
    rw [hloop]
    refine ⟨isOk_ok rows, ?_⟩
    split
    · rfl
    · exact (positions_leave rows).trans (positions_ok rows).symm
  · rename_i rows
    cases h
    apply loops_stay
    intro _
    rw [hloop]
    refine ⟨isOk_ok rows, ?_⟩
    split
    · rfl
    · exact (positions_leave rows).trans (positions_ok rows).symm
  · rename_i rows
    split at h
    · cases h
    · cases h
      apply loops_stay
      intro _
      rw [hloop]
      exact ⟨isOk_ok rows, rfl⟩
  · rename_i rows error
    cases h
    apply loops_stay
    intro hok
    rw [hloop]
    cases error with
    | none => exact ⟨isOk_ok rows, rfl⟩
    | some e => exact absurd (hok _ (List.mem_singleton_self _)) Bool.false_ne_true
  · rename_i batch accepted
    cases h
    apply loops_stay
    intro hok
    rw [hloop]
    exact ⟨hok, rfl⟩
  · rename_i batch
    split at h
    · rename_i hgone
      cases h
      exact ⟨rfl, rfl, rfl, [], (List.append_nil _).symm, fun hpresent => absurd hgone hpresent⟩
    · split at h
      · cases h
        refine ⟨rfl, rfl, rfl, [], (List.append_nil _).symm, ?_⟩
        intro _ hok
        have hpending : State.pending { s with channel := s.channel ++ [batch], loop := .top } =
            s.pending := by
          unfold State.pending
          rw [hloop]
          exact List.append_nil _
        rw [hpending] at hok ⊢
        exact ⟨hok, (List.append_nil _).symm⟩
      · cases h
  · cases h

/-- The step keeps the order of the messages, and no commit takes effect in it. -/
theorem Loops.inv {s s' : State} (hinv : Inv s) (h : Loops s s') : Inv s' := by
  obtain ⟨hcommitted, htaken, hreceiver, new, hreceived, hpending⟩ := h
  obtain ⟨hle, hhanded, haccounted⟩ := hinv
  refine ⟨?_, ?_, ?_⟩
  · rw [hcommitted, hreceived, List.length_append]
    omega
  · apply hhanded.mono hle hcommitted
    · exact ⟨new, hreceived.symm⟩
    · exact htaken.symm ▸ List.prefix_rfl
  · intro hpresent hok
    rw [hreceiver] at hpresent
    rw [htaken] at hok ⊢
    obtain ⟨hokTaken, hokPending⟩ := List.forall_mem_append.1 hok
    obtain ⟨hbefore, hpositions⟩ := hpending hpresent hokPending
    have hall := haccounted hpresent (List.forall_mem_append.2 ⟨hokTaken, hbefore⟩)
    rw [positions_append] at hall ⊢
    rw [hpositions, ← List.append_assoc, hall, hreceived, List.map_append]

theorem Inv.closed {s : State} (h : Inv s) : Inv s.closed := by
  refine ⟨h.committed, ?_, ?_⟩
  · exact h.handed
  · intro hpresent
    exact absurd rfl hpresent

theorem receiverStep_inv {s s' : State} {action : Action} (hinv : Inv s)
    (h : receiverStep s s.receiver action = some s') : Inv s' := by
  generalize hreceiver : s.receiver = receiver at h
  unfold receiverStep at h
  split at h
  · split at h
    · rename_i batch rest hchannel
      cases h
      refine ⟨hinv.committed, ?_, ?_⟩
      · exact Handed.mono hinv.committed hinv.handed rfl List.prefix_rfl
          (List.prefix_append s.taken [batch])
      · intro _ hok
        have hpresent : s.receiver ≠ .gone := by
          rw [hreceiver]
          exact Receiver.noConfusion
        have hall := hinv.accounted hpresent
        unfold State.pending at hall hok ⊢
        rw [hchannel] at hall
        dsimp only at hok ⊢
        rw [List.append_assoc] at hok ⊢
        exact hall hok
    · cases h
  · split at h
    · cases h
      refine ⟨hinv.committed, hinv.handed, ?_⟩
      intro _ hok
      apply hinv.accounted
      · rw [hreceiver]
        exact Receiver.noConfusion
      · exact hok
    · cases h
      exact hinv.closed
  · split at h
    · cases h
      exact hinv.closed
    · cases h
  · cases h

/-- An orderly step keeps the invariant. -/
theorem step_inv {s s' : State} {action : Action} (hinv : Inv s) (hok : Orderly s action)
    (h : step lossy cfg s action = some s') : Inv s' := by
  unfold step at h
  split at h
  · rename_i covered
    split at h
    · split at h
      · rename_i hcovered
        cases h
        refine ⟨max_le hinv.committed hcovered.2, ?_, hinv.accounted⟩
        intro m hm
        rcases max_cases s.committed covered with ⟨hmax, -⟩ | ⟨hmax, -⟩
        · exact hinv.handed m (by rwa [← hmax])
        · exact handed_of_covered hinv hok m (by rwa [← hmax])
      · cases h
    · cases h
  · split at h
    · cases h
      exact ⟨hinv.committed, hinv.handed, hinv.accounted⟩
    · cases h
  · cases h
    exact hinv.closed
  · cases h
    exact ⟨hinv.committed, hinv.handed, hinv.accounted⟩
  · rename_i accepted
    cases h
    cases accepted with
    | false => exact ⟨hinv.committed, hinv.handed, hinv.accounted⟩
    | true =>
      have hhanded := handed_of_covered hinv hok
      exact ⟨le_rfl, hhanded, hinv.accounted⟩
  · exact receiverStep_inv hinv h
  · exact receiverStep_inv hinv h
  · exact receiverStep_inv hinv h
  · exact (loopStep_loops h).inv hinv

variable (lossy cfg)

/-- In every state of every run in which each commit takes effect while the receiver is there, no
batch is an error, and neither the channel nor the loop holds a message that the commit covers,
every message below the committed offsets is in a batch that the receiver has got. -/
theorem handed_of_orderly {actions : List Action} {s : State}
    (halong : Run.Along (step lossy cfg) Orderly .start actions)
    (hrun : Run.run (step lossy cfg) .start actions = some s) : Handed s := by
  have hstart : Inv .start := by
    refine ⟨le_rfl, ?_, fun _ _ => rfl⟩
    intro m hm
    cases hm
  exact (Run.invariant (fun _ _ _ => step_inv) hstart halong hrun).handed

end Step

section Orders

/-- A topic of orders, in batches of two rows. -/
def ordersConfig : KafkaConfig where
  batchSize := 2
  format := "json"
  schemaRegistry := false

def order : Message where
  topic := "orders"
  partition := 0
  offset := 41
  timestampMillis := some 1700000000000
  key := none
  payload := some [123, 125]

def noon : Surroundings where
  nowMillis := 1700000000500
  avro := .error "not an avro message"

/-- The batch is taken before the commit is served. -/
def takenFirst : List Action :=
  [.check, .recv order noon, .timeout, .build none, .commit true, .send, .take, .serve 1]

theorem handed_order :
    ∃ s, Run.run (step (fun _ => "{}") ordersConfig) .start takenFirst = some s ∧
      s.committed = 1 ∧ Handed s := by
  have halong : Run.Along (step (fun _ => "{}") ordersConfig) Orderly .start takenFirst := by
    decide
  exact ⟨_, rfl, rfl, handed_of_orderly _ ordersConfig halong rfl⟩

/-- The commit is served before the batch is sent, and the process stops. -/
def committedFirst : List Action :=
  [.check, .recv order noon, .timeout, .build none, .commit true, .serve 1]

/-- The committed message is in no batch that the receiver has got. -/
theorem order_lost :
    ∃ s, Run.run (step (fun _ => "{}") ordersConfig) .start committedFirst = some s ∧
      ¬ Handed s := by
  refine ⟨_, rfl, ?_⟩
  intro h
  obtain ⟨rows, hrows, -⟩ := h order (List.mem_singleton_self _)
  cases hrows

end Orders
end RustLake.Stream
