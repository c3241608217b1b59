import RustLake.Rust.Basic

/-! The pipeline from a source to a sink, and the counters that it keeps. -/
namespace RustLake.Stream

/-- A value behind a lock. A poisoned lock is passed by. -/
structure RwLock (α : Type) where
  value : α
  poisoned : Bool

def RwLock.modify {α : Type} (f : α → α) (lock : RwLock α) : RwLock α :=
  if lock.poisoned then lock else { lock with value := f lock.value }

structure PipelineMetrics where
  recordsIngested : UInt64
  recordsWritten : UInt64
  bytesIngested : UInt64
  batchesProcessed : UInt64
  errors : UInt64

/-- The rate is the number that becomes a float. -/
structure StreamingMetrics where
  eventsIngested : UInt64
  bytesProcessed : UInt64
  eventsPerSecond : RwLock UInt64
  activePipelines : RwLock UInt64
  lastEventTime : RwLock (Option Int64)

def StreamingMetrics.recordIngestion (eventCount byteCount eps : UInt64) (now : Int64)
    (gm : StreamingMetrics) : StreamingMetrics :=
  { gm with
    eventsIngested := gm.eventsIngested + eventCount
    bytesProcessed := gm.bytesProcessed + byteCount
    eventsPerSecond := gm.eventsPerSecond.modify fun _ => eps
    lastEventTime := gm.lastEventTime.modify fun _ => some now }

/-- What a sink answers, and how its state moves on. -/
structure StreamSink (σ Row : Type) where
  write : σ → List Row → σ × Except String Unit
  flush : σ → σ × Except String Unit
  commit : σ → σ × Except String Unit

/-- A pipeline with the state of its sink and the batches that the sink has accepted so far. -/
structure StreamPipeline (σ Row : Type) where
  metrics : PipelineMetrics
  globalMetrics : Option StreamingMetrics
  sinkState : σ
  accepted : List (List Row)

variable {σ Row : Type} (sink : StreamSink σ Row)

namespace StreamPipeline

def updateActive (f : UInt64 → UInt64) (p : StreamPipeline σ Row) : StreamPipeline σ Row :=
  { p with globalMetrics := p.globalMetrics.map fun gm =>
      { gm with activePipelines := gm.activePipelines.modify f } }

def countError (p : StreamPipeline σ Row) : StreamPipeline σ Row :=
  { p with metrics := { p.metrics with errors := p.metrics.errors + 1 } }

def ingested (numRows : UInt64) (p : StreamPipeline σ Row) : StreamPipeline σ Row :=
  { p with metrics := { p.metrics with recordsIngested := p.metrics.recordsIngested + numRows } }

def written (numRows : UInt64) (now : Int64) (p : StreamPipeline σ Row) : StreamPipeline σ Row :=
  { p with
    metrics := { p.metrics with
      recordsWritten := p.metrics.recordsWritten + numRows
      batchesProcessed := p.metrics.batchesProcessed + 1 }
    globalMetrics := p.globalMetrics.map (·.recordIngestion numRows 0 numRows now) }

def taken (state : σ) (batch : List Row) (p : StreamPipeline σ Row) : StreamPipeline σ Row :=
  { p with sinkState := state, accepted := p.accepted ++ [batch] }

/-- One call of the sink's `write`. -/
def write (batch : List Row) (p : StreamPipeline σ Row) :
    StreamPipeline σ Row × Except String Unit :=
  match sink.write p.sinkState batch with
  | (state, .ok ()) => (p.taken state batch, .ok ())
  | (state, .error e) => ({ p with sinkState := state }, .error e)

/-- The loop over what the source sends, until it closes the channel. -/
def drain (clock : ℕ → Int64) (p : StreamPipeline σ Row) :
    List (Except String (List Row)) → StreamPipeline σ Row × Except String Unit
  | [] => (p, .ok ())
  | .error _ :: rest => drain clock p.countError rest
  | .ok batch :: rest =>
    let numRows := UInt64.ofNat batch.length
    match (p.ingested numRows).write sink batch with
    | (p, .error e) => (p.countError, .error e)
    | (p, .ok ()) => drain clock (p.written numRows (clock rest.length)) rest

/-- `run` on a source that starts with a stream or fails to. -/
def run (clock : ℕ → Int64) (source : Except String (List (Except String (List Row))))
    (p : StreamPipeline σ Row) : StreamPipeline σ Row × Except String Unit :=
  let p := p.updateActive (· + 1)
  match source with
  | .error e => (p, .error e)
  | .ok stream =>
    match p.drain sink clock stream with
    | (p, .error e) => (p, .error e)
    | (p, .ok ()) =>
      match sink.flush p.sinkState with
      | (state, .error e) => ({ p with sinkState := state }, .error e)
      | (state, .ok ()) =>
        match sink.commit state with
        | (state, .error e) => ({ p with sinkState := state }, .error e)
        | (state, .ok ()) =>
          -- `saturating_sub(1)`
          ({ p with sinkState := state }.updateActive fun count =>
            if count = 0 then 0 else count - 1, .ok ())

end StreamPipeline

section Property

def rowCount (batches : List (List Row)) : UInt64 := UInt64.ofNat (batches.map List.length).sum

/-- The count of active pipelines is what it was, and the rows that have been added to
`records_written` are those of the batches that the sink has accepted. -/
structure Settled (p p' : StreamPipeline σ Row) : Prop where
  active : p'.globalMetrics.map (·.activePipelines.value) =
    p.globalMetrics.map (·.activePipelines.value)
  written : ∃ accepted, p'.accepted = p.accepted ++ accepted ∧
    p'.metrics.recordsWritten = p.metrics.recordsWritten + rowCount accepted

/-- The sink takes all batches, one after the other. -/
def TakesAll : σ → List (List Row) → σ → Prop
  | state, [], state' => state' = state
  | state, batch :: rest, state' =>
    (sink.write state batch).2 = .ok () ∧ TakesAll (sink.write state batch).1 rest state'

def batchesOf (stream : List (Except String (List Row))) : List (List Row) :=
  stream.filterMap Except.toOption

/-- Nothing fails but batches of the source: it starts, and the sink takes them all, is flushed and
commits. -/
def Completes (source : Except String (List (Except String (List Row)))) (state : σ) : Prop :=
  ∃ stream state', source = .ok stream ∧ TakesAll sink state (batchesOf stream) state' ∧
    (sink.flush state').2 = .ok () ∧ (sink.commit (sink.flush state').1).2 = .ok ()

end Property

section Counters
variable {sink} {clock : ℕ → Int64} {source : Except String (List (Except String (List Row)))}
  {p : StreamPipeline σ Row} {stream : List (Except String (List Row))}

namespace StreamPipeline

def active (p : StreamPipeline σ Row) : Option (RwLock UInt64) :=
  p.globalMetrics.map (·.activePipelines)

@[simp] theorem active_updateActive (f : UInt64 → UInt64) (p : StreamPipeline σ Row) :
    (p.updateActive f).active = p.active.map (RwLock.modify f) := by
  simp [active, updateActive, Function.comp_def]

@[simp] theorem active_countError (p : StreamPipeline σ Row) : p.countError.active = p.active := rfl

@[simp] theorem active_ingested (n : UInt64) (p : StreamPipeline σ Row) :
    (p.ingested n).active = p.active := rfl

@[simp] theorem active_written (n : UInt64) (now : Int64) (p : StreamPipeline σ Row) :
    (p.written n now).active = p.active := by
  simp [active, written, StreamingMetrics.recordIngestion, Function.comp_def]

variable (sink) in
@[simp] theorem active_write (batch : List Row) (p : StreamPipeline σ Row) :
    (p.write sink batch).1.active = p.active := by
  unfold write
  split <;> rfl

variable (sink clock) in
theorem active_drain (p : StreamPipeline σ Row) (stream : List (Except String (List Row))) :
    (p.drain sink clock stream).1.active = p.active := by
  induction stream generalizing p with
  | nil => rfl
  | cons result rest ih =>
    cases result with
    | error e => exact ih p.countError
    | ok batch =>
      rw [drain]
      have hwrite := active_write sink batch (p.ingested (UInt64.ofNat batch.length))
      cases hresult : (p.ingested (UInt64.ofNat batch.length)).write sink batch with
      | mk p' result =>
        rw [hresult] at hwrite
        cases result with
        | error e => exact hwrite
        | ok u => exact (ih _).trans ((active_written _ _ p').trans hwrite)

/-- The batches that have been accepted on the way from one state to another are counted. -/
def Counts (p p' : StreamPipeline σ Row) (accepted : List (List Row)) : Prop :=
  p'.accepted = p.accepted ++ accepted ∧
    p'.metrics.recordsWritten = p.metrics.recordsWritten + rowCount accepted

theorem rowCount_cons (batch : List Row) (rest : List (List Row)) :
    rowCount (batch :: rest) = UInt64.ofNat batch.length + rowCount rest := by
  rw [rowCount, List.map_cons, List.sum_cons, UInt64.ofNat_add]
  rfl

variable (sink clock) in
theorem counts_drain (p : StreamPipeline σ Row) (stream : List (Except String (List Row))) :
    ∃ accepted, Counts p (p.drain sink clock stream).1 accepted := by
  induction stream generalizing p with
  | nil => exact ⟨[], (List.append_nil _).symm, (UInt64.add_zero _).symm⟩
  | cons result rest ih =>
    cases result with
    | error e => exact ih p.countError
    | ok batch =>
      rw [drain]
      unfold write
      cases hwrite : sink.write (p.ingested (UInt64.ofNat batch.length)).sinkState batch with
      | mk state answer =>
        cases answer with
        | error e => exact ⟨[], (List.append_nil _).symm, (UInt64.add_zero _).symm⟩
        | ok u =>
          obtain ⟨accepted, haccepted, hwritten⟩ := ih
            (((p.ingested (UInt64.ofNat batch.length)).taken state batch).written
              (UInt64.ofNat batch.length) (clock rest.length))
          refine ⟨batch :: accepted, haccepted.trans (List.append_assoc _ _ _), ?_⟩
          rw [rowCount_cons, ← UInt64.add_assoc]
          exact hwritten

variable (clock) in
/-- The loop gets to its end exactly when the sink takes all batches. -/
theorem takesAll_iff_drain {state' : σ} (p : StreamPipeline σ Row)
    (stream : List (Except String (List Row))) :
    TakesAll sink p.sinkState (batchesOf stream) state' ↔
      (p.drain sink clock stream).2 = .ok () ∧
        (p.drain sink clock stream).1.sinkState = state' := by
  induction stream generalizing p with
  | nil => exact eq_comm.trans (and_iff_right rfl).symm
  | cons result rest ih =>
    cases result with
    | error e => exact ih p.countError
    | ok batch =>
      rw [drain]
      unfold write
      cases hwrite : sink.write (p.ingested (UInt64.ofNat batch.length)).sinkState batch with
      | mk state answer =>
        have hanswer : sink.write p.sinkState batch = (state, answer) := hwrite
        have hcons : TakesAll sink p.sinkState (batchesOf (.ok batch :: rest)) state' ↔
            answer = .ok () ∧ TakesAll sink state (batchesOf rest) state' := by
          change (sink.write p.sinkState batch).2 = .ok () ∧
            TakesAll sink (sink.write p.sinkState batch).1 (batchesOf rest) state' ↔ _
          rw [hanswer]
        rw [hcons]
        cases answer with
        | error e => exact iff_of_false (fun h => by cases h.1) fun h => by cases h.1
        | ok u =>
          exact (and_iff_right rfl).trans (ih
            (((p.ingested (UInt64.ofNat batch.length)).taken state batch).written
              (UInt64.ofNat batch.length) (clock rest.length)))

theorem counts_run (clock : ℕ → Int64)
    (source : Except String (List (Except String (List Row)))) (p : StreamPipeline σ Row) :
    ∃ accepted, Counts p (p.run sink clock source).1 accepted := by
  unfold run
  cases source with
  | error e => exact ⟨[], (List.append_nil _).symm, (UInt64.add_zero _).symm⟩
  | ok stream =>
    have hcounts := counts_drain sink clock (p.updateActive (· + 1)) stream
    dsimp only
    split
    · rename_i hdrain
      rwa [hdrain] at hcounts
    · rename_i p' hdrain
      rw [hdrain] at hcounts
      split
      · exact hcounts
      · split
        · exact hcounts
        · exact hcounts

variable (sink) in
/-- The count of active pipelines goes down again where nothing has failed. -/
theorem active_run (clock : ℕ → Int64)
    (source : Except String (List (Except String (List Row)))) (p : StreamPipeline σ Row) :
    (Completes sink source p.sinkState ∧ (p.run sink clock source).1.active =
        p.active.map fun lock => (lock.modify (· + 1)).modify fun count =>
          if count = 0 then 0 else count - 1) ∨
      ¬ Completes sink source p.sinkState ∧
        (p.run sink clock source).1.active = p.active.map (RwLock.modify (· + 1)) := by
  unfold run
  cases source with
  | error e =>
    refine Or.inr ⟨?_, active_updateActive _ p⟩
    rintro ⟨stream, state', hsource, -⟩
    cases hsource
  | ok stream =>
    have hactive := active_drain sink clock (p.updateActive (· + 1)) stream
    rw [active_updateActive] at hactive
    have hcompletes : Completes sink (.ok stream) p.sinkState ↔ ∃ state',
        TakesAll sink p.sinkState (batchesOf stream) state' ∧ (sink.flush state').2 = .ok () ∧
          (sink.commit (sink.flush state').1).2 = .ok () := by
      constructor
      · rintro ⟨_, state', hstream, h⟩
        obtain rfl := Except.ok.inj hstream
        exact ⟨state', h⟩
      · exact fun ⟨state', h⟩ => ⟨stream, state', rfl, h⟩
    have htakes : ∀ state', TakesAll sink p.sinkState (batchesOf stream) state' ↔ _ :=
      fun state' => takesAll_iff_drain clock (p.updateActive (· + 1)) stream
    simp only [hcompletes, htakes]
    cases hdrain : (p.updateActive (· + 1)).drain sink clock stream with
    | mk p' result =>
      rw [hdrain] at hactive
      cases result with
      | error e =>
        refine Or.inr ⟨?_, hactive⟩
        rintro ⟨state', ⟨hok, -⟩, -⟩
        cases hok
      | ok u =>
        dsimp only
        cases hflush : sink.flush p'.sinkState with
        | mk state flushed =>
          cases flushed with
          | error e =>
            refine Or.inr ⟨?_, hactive⟩
            rintro ⟨state', ⟨-, rfl⟩, hok, -⟩
            rw [hflush] at hok
            cases hok
          | ok v =>
            dsimp only
            cases hcommit : sink.commit state with
            | mk last committed =>
              cases committed with
              | error e =>
                refine Or.inr ⟨?_, hactive⟩
                rintro ⟨state', ⟨-, rfl⟩, -, hok⟩
                rw [hflush, hcommit] at hok
                cases hok
              | ok w =>
                refine Or.inl ⟨⟨p'.sinkState, ⟨rfl, rfl⟩, ?_, ?_⟩, ?_⟩
                · rw [hflush]
                · rw [hflush, hcommit]
                dsimp only
                rw [active_updateActive]
                change p'.active.map _ = _
                rw [hactive, Option.map_map]
                rfl

end StreamPipeline

theorem settled_iff_active (p' : StreamPipeline σ Row)
    (hcounts : ∃ accepted, p.Counts p' accepted) : Settled p p' ↔ p'.active.map (·.value) = p.active.map (·.value) := by
  have hvalue : ∀ q : StreamPipeline σ Row,
      q.active.map (·.value) = q.globalMetrics.map (·.activePipelines.value) := by
    intro q
    rw [StreamPipeline.active, Option.map_map]
    rfl
  rw [hvalue, hvalue]
  exact ⟨fun h => h.active, fun h => ⟨h, hcounts⟩⟩

theorem modify_value {f : UInt64 → UInt64} (lock : RwLock UInt64) :
    (lock.modify f).value = lock.value ↔ lock.poisoned = true ∨ f lock.value = lock.value := by
  unfold RwLock.modify
  cases hpoisoned : lock.poisoned <;> simp

theorem modify_modify {f g : UInt64 → UInt64} (lock : RwLock UInt64) :
    (lock.modify f).modify g = lock.modify (g ∘ f) := by
  unfold RwLock.modify
  cases hpoisoned : lock.poisoned <;> simp [hpoisoned]

/-- A run settles exactly when there are no global metrics, when nobody can count in them, or when
nothing fails. -/
theorem run_settled_iff (sink : StreamSink σ Row) (clock : ℕ → Int64)
    (source : Except String (List (Except String (List Row)))) (p : StreamPipeline σ Row) :
    Settled p (p.run sink clock source).1 ↔
      ∀ gm, p.globalMetrics = some gm → gm.activePipelines.poisoned = true ∨
        Completes sink source p.sinkState ∧ gm.activePipelines.value.toNat < 2 ^ 64 - 1 := by
  rw [settled_iff_active _ (StreamPipeline.counts_run clock source p)]
  have hone : ∀ n : UInt64, n + 1 ≠ n := by
    intro n h
    have hnat := congrArg UInt64.toNat h
    have hlt := n.toNat_lt
    simp only [UInt64.toNat_add, UInt64.toNat_one] at hnat
    omega
  have hback : ∀ n : UInt64, (if n + 1 = 0 then 0 else n + 1 - 1) = n ↔ n.toNat < 2 ^ 64 - 1 := by
    intro n
    have hnat : (n + 1).toNat = (n.toNat + 1) % 2 ^ 64 := by
      simp only [UInt64.toNat_add, UInt64.toNat_one]
    have hlt := n.toNat_lt
    by_cases hzero : n + 1 = 0
    · rw [hzero, UInt64.toNat_zero] at hnat
      rw [if_pos hzero]
      refine iff_of_false (fun h => ?_) (by omega)
      rw [← h] at hzero
      cases hzero
    · rw [if_neg hzero]
      refine iff_of_true (UInt64.add_sub_cancel n 1) ?_
      by_contra hmax
      refine hzero (UInt64.toNat_inj.mp ?_)
      rw [hnat, UInt64.toNat_zero]
      omega
  have hactive : p.active = p.globalMetrics.map (·.activePipelines) := rfl
  cases hglobal : p.globalMetrics with
  | none =>
    have hnone : p.active = none := by rw [hactive, hglobal]; rfl
    refine iff_of_true ?_ fun gm h => by cases h
    rcases StreamPipeline.active_run sink clock source p with ⟨-, h⟩ | ⟨-, h⟩
    · rw [h, hnone]
      rfl
    · rw [h, hnone]
      rfl
  | some gm =>
    have hsome : p.active = some gm.activePipelines := by rw [hactive, hglobal]; rfl
    have hall : ∀ P : StreamingMetrics → Prop, (∀ gm', some gm = some gm' → P gm') ↔ P gm :=
      fun P => ⟨fun h => h gm rfl, fun h gm' hgm => Option.some.inj hgm ▸ h⟩
    rw [hall]
    rcases StreamPipeline.active_run sink clock source p with ⟨hdone, h⟩ | ⟨hnot, h⟩
    · rw [h, hsome, Option.map_some, Option.map_some, Option.map_some, Option.some.injEq,
        modify_modify, modify_value, Function.comp_apply, hback]
      exact or_congr_right (and_iff_right hdone).symm
    · rw [h, hsome, Option.map_some, Option.map_some, Option.map_some, Option.some.injEq,
        modify_value]
      exact or_congr_right (iff_of_false (hone _) fun h => hnot h.1)

def zeroMetrics : PipelineMetrics := ⟨0, 0, 0, 0, 0⟩

def idleMetrics : StreamingMetrics := ⟨0, 0, ⟨0, false⟩, ⟨0, false⟩, ⟨none, false⟩⟩

/-- A sink that takes everything. -/
def quietSink : StreamSink Unit ℕ where
  write s _ := (s, .ok ())
  flush s := (s, .ok ())
  commit s := (s, .ok ())

/-- A source that does not start leaves a pipeline that counts as active. -/
theorem not_settled_unreachable : ¬ Settled ⟨zeroMetrics, some idleMetrics, (), []⟩
    (StreamPipeline.run quietSink (fun _ => 0) (.error "broker unreachable")
      ⟨zeroMetrics, some idleMetrics, (), []⟩).1 := by
  intro h
  cases h.active

end Counters
end RustLake.Stream
