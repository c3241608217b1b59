import RustLake.WebSocket.Queries
import RustLake.Order.Run

/-! What the messages of a connection keep to, beside cancels and ids that are used again. -/
namespace RustLake.WebSocket

def ServerMsg.isFinal : ServerMsg → Bool
  | .queryComplete .. | .queryError .. | .queryCancelled _ => true
  | _ => false

def ServerMsg.isCancelled : ServerMsg → Bool
  | .queryCancelled _ => true
  | _ => false

/-- Rows or a completion. -/
def ServerMsg.isAnswer : ServerMsg → Bool
  | .queryRows .. | .queryComplete .. => true
  | _ => false

/-- The task of the query is there. -/
def Query.running (q : Query) : Bool := q.place ≠ .waiting && q.place ≠ .ended

def Query.finals (q : Query) : ℕ := q.sent.countP ServerMsg.isFinal

/-- Each query has at most one final message, and exactly one when it is no more, nothing of its
answer comes after its cancelled message, it can be cancelled by its id while it runs, and at most
three queries run. -/
structure Protocol (s : State) : Prop where
  finals : ∀ q ∈ s.queries, q.finals ≤ 1 ∧ (q.place = .ended → q.finals = 1)
  quiet : ∀ q ∈ s.queries, q.sent.Pairwise fun a b => a.isCancelled = true → b.isAnswer = false
  cancellable : ∀ n q, s.queries[n]? = some q → q.running = true → q.cancelled = false →
    s.inflight.lookup q.queryId = some n
  inflight : s.queries.countP Query.running ≤ maxInflight

/-- A place from which a cancelled query sends no more of its answer, as long as its engine has not
answered: the cancellation is looked at next, or before the next chunk. -/
def Place.attentive : Place → Bool
  | .starting | .executing _ _ => true
  | .streaming batch => !batch.left.isEmpty
  | _ => false

/-- An id is not used again while its query runs, a query is cancelled only at an attentive place,
a query passes the check for concurrency only when those that are cancelled and still running leave
room, and a cancelled query is neither refused nor answered by its engine. -/
def Orderly (s : State) : Action → Prop
  | .query queryId _ _ => ∀ q ∈ s.queries, q.running = true → q.queryId ≠ queryId
  | .cancel queryId => ∀ e ∈ s.inflight, e.1 = queryId → ∀ q ∈ s.queries[e.2]?,
    q.place.attentive = true
  | .check => s.inflight.length < maxInflight →
    s.inflight.length + s.queries.countP (fun q => q.running && q.cancelled) < maxInflight
  | .task n (.refuse _) | .task n (.result _) => ∀ q ∈ s.queries[n]?, q.cancelled = false
  | _ => True

instance (s : State) (action : Action) : Decidable (Orderly s action) := by
  unfold Orderly
  split <;> infer_instance

/-- The loop handles a query message that has no task yet. -/
def Loop.handles : Loop → ℕ → Bool
  | .checking m, n | .refusing m, n | .inserting m, n => m = n
  | _, _ => false

/-- The loop has cancelled a query and is about to say so. -/
def Loop.cancels : Loop → ℕ → Bool
  | .cancelling m _, n => m = n
  | _, _ => false

/-- What holds of a query while the loop is at a place. -/
structure QueryInv (loop : Loop) (n : ℕ) (q : Query) : Prop where
  finals : q.finals =
    if q.cancelled then (if loop.cancels n then 0 else 1)
    else if q.place = .ending ∨ q.place = .ended then 1 else 0
  heedful : q.cancelled = true → q.place.attentive = true ∨ q.place = .ending ∨ q.place = .ended
  told : q.cancelled = false → ∀ msg ∈ q.sent, msg.isCancelled = false
  quiet : q.sent.Pairwise fun a b => a.isCancelled = true → b.isAnswer = false
  waiting : q.place = .waiting ↔ loop.handles n = true

/-- What a step of a task leaves as it is. -/
structure SameQuery (q q' : Query) : Prop where
  queryId : q'.queryId = q.queryId
  cancelled : q'.cancelled = q.cancelled
  wasRunning : q.running = true
  running : q'.running = true

def Heeds (q : Query) : TaskStep → Prop
  | .refuse _ | .result _ => q.cancelled = false
  | _ => True

section Queries
variable {loop : Loop} {n : ℕ} {q q' : Query}

@[simp] theorem finals_send (msg : ServerMsg) :
    (q.send msg).finals = q.finals + if msg.isFinal then 1 else 0 := by
  simp [Query.finals, Query.send, List.countP_cons]

/-- A message that is no answer, or that is sent while the query is not cancelled. -/
theorem quiet_send {msg : ServerMsg}
    (hquiet : q.sent.Pairwise fun a b => a.isCancelled = true → b.isAnswer = false)
    (h : msg.isAnswer = false ∨ ∀ m ∈ q.sent, m.isCancelled = false) :
    (q.send msg).sent.Pairwise fun a b => a.isCancelled = true → b.isAnswer = false := by
  apply List.pairwise_append.mpr
  refine ⟨hquiet, List.pairwise_singleton _ _, ?_⟩
  intro a ha b hb hcancelled
  rw [List.mem_singleton.mp hb]
  rcases h with hanswer | hnone
  · exact hanswer
  · rw [hnone a ha] at hcancelled
    cases hcancelled

/-- The task of a query is at work. -/
def Place.busy (place : Place) : Prop := place ≠ .waiting ∧ place ≠ .ending ∧ place ≠ .ended

theorem Place.busy.not_done {place : Place} (h : place.busy) :
    ¬ (place = .ending ∨ place = .ended) := by
  rintro (hending | hended)
  · exact h.2.1 hending
  · exact h.2.2 hended

theorem Place.busy.running (h : q.place.busy) : q.running = true := by
  simp [Query.running, h.1, h.2.2]

/-- A query that is not at an attentive place is not cancelled. -/
theorem QueryInv.not_cancelled (h : QueryInv loop n q) (hbusy : q.place.busy)
    (hplace : q.place.attentive = false) : q.cancelled = false := by
  apply Bool.eq_false_iff.mpr
  intro hcancelled
  rcases h.heedful hcancelled with hattentive | hdone
  · rw [hplace] at hattentive
    cases hattentive
  · exact hbusy.not_done hdone

/-- A query that is at work and not cancelled has no final message. -/
theorem QueryInv.finals_eq_zero (h : QueryInv loop n q) (hbusy : q.place.busy)
    (hcancelled : q.cancelled = false) : q.finals = 0 := by
  have hfinals := h.finals
  rwa [hcancelled, if_neg Bool.false_ne_true, if_neg hbusy.not_done] at hfinals

/-- A query that is not cancelled goes to another place and sends nothing. -/
theorem QueryInv.goto (h : QueryInv loop n q) (hbusy : q.place.busy)
    (hcancelled : q.cancelled = false) {place : Place} (hplace : place.busy) :
    QueryInv loop n { q with place := place } := by
  refine ⟨?_, ?_, h.told, h.quiet, iff_of_false hplace.1 (mt h.waiting.mpr hbusy.1)⟩
  · show q.finals = _
    rw [hcancelled, if_neg Bool.false_ne_true, if_neg hplace.not_done]
    exact h.finals_eq_zero hbusy hcancelled
  · intro hnow
    rw [hcancelled] at hnow
    cases hnow

/-- A cancelled query ends. -/
theorem QueryInv.end_cancelled (h : QueryInv loop n q) (hbusy : q.place.busy)
    (hcancelled : q.cancelled = true) : QueryInv loop n { q with place := .ending } := by
  have hnot : Place.ending ≠ .waiting := Place.noConfusion
  refine ⟨?_, fun _ => Or.inr (Or.inl rfl), h.told, h.quiet,
    iff_of_false hnot (mt h.waiting.mpr hbusy.1)⟩
  have hfinals := h.finals
  rw [hcancelled, if_pos rfl] at hfinals ⊢
  exact hfinals

/-- A query that is not cancelled sends a message and goes on. -/
theorem QueryInv.goto_send (h : QueryInv loop n q) (hbusy : q.place.busy)
    (hcancelled : q.cancelled = false) {place : Place} {msg : ServerMsg}
    (hplace : place ≠ .waiting) (hmsg : msg.isCancelled = false)
    (hfinal : (if msg.isFinal then 1 else 0) = if place = .ending ∨ place = .ended then 1 else 0) :
    QueryInv loop n { q.send msg with place := place } := by
  have htold := h.told hcancelled
  have hsame : (q.send msg).cancelled = false := hcancelled
  refine ⟨?_, ?_, ?_, quiet_send h.quiet (Or.inr htold),
    iff_of_false hplace (mt h.waiting.mpr hbusy.1)⟩
  · have hsent : (q.send msg).finals = if place = .ending ∨ place = .ended then 1 else 0 := by
      rw [finals_send, h.finals_eq_zero hbusy hcancelled, hfinal, Nat.zero_add]
    rw [hsame, if_neg Bool.false_ne_true]
    exact hsent
  · intro hnow
    rw [hsame] at hnow
    cases hnow
  · intro _ m hm
    rcases List.mem_append.mp hm with hold | hnew
    · exact htold m hold
    · rw [List.mem_singleton.mp hnew]
      exact hmsg

/-- A query begins, cancelled or not. -/
theorem QueryInv.begin (h : QueryInv loop n q) (hbusy : q.place.busy) (engine queryType : String) :
    QueryInv loop n { q.send (.queryStart q.queryId engine queryType) with
      place := .executing engine queryType } := by
  have hnot : Place.executing engine queryType ≠ .waiting := Place.noConfusion
  refine ⟨?_, fun _ => Or.inl rfl, ?_, quiet_send h.quiet (Or.inl rfl),
    iff_of_false hnot (mt h.waiting.mpr hbusy.1)⟩
  · have hsent : (q.send (.queryStart q.queryId engine queryType)).finals = q.finals := by
      rw [finals_send]
      rfl
    have hfinals := h.finals
    rw [if_neg hbusy.not_done] at hfinals
    have hnext : ¬ (Place.executing engine queryType = .ending ∨
        Place.executing engine queryType = .ended) := by simp
    show (q.send (.queryStart q.queryId engine queryType)).finals =
      if q.cancelled = true then (if loop.cancels n = true then 0 else 1)
      else if Place.executing engine queryType = .ending ∨
        Place.executing engine queryType = .ended then 1 else 0
    rw [hsent, hfinals, if_neg hnext]
  · intro hcancelled m hm
    rcases List.mem_append.mp hm with hold | hnew
    · exact h.told hcancelled m hold
    · rw [List.mem_singleton.mp hnew]
      rfl

theorem Outcome.place_cases (outcome : Outcome) (engine queryType : String)
    (onError : String → Place) {p : Place → Prop} (hstreaming : ∀ batch, p (.streaming batch))
    (hfailing : ∀ e, p (.failing e engine)) (herror : ∀ e, p (onError e)) :
    p (outcome.place engine queryType onError) := by
  cases outcome with
  | ok columns rows => exact hstreaming _
  | unserializable e => exact hfailing _
  | error e => exact herror e

/-- A step of a task keeps the invariant of its query. -/
theorem QueryInv.step (h : QueryInv loop n q) {taskStep : TaskStep} (hok : Heeds q taskStep)
    (hstep : q.step taskStep = some q') : QueryInv loop n q' ∧ SameQuery q q' := by
  unfold Query.step at hstep
  split at hstep
  · rename_i table hplace
    cases hstep
    have hbusy : q.place.busy := by simp [hplace, Place.busy]
    exact ⟨h.goto hbusy hok ⟨nofun, nofun, nofun⟩, rfl, rfl, hbusy.running, rfl⟩
  · rename_i engine queryType hplace
    cases hstep
    have hbusy : q.place.busy := by simp [hplace, Place.busy]
    exact ⟨h.begin hbusy engine queryType, rfl, rfl, hbusy.running, rfl⟩
  · rename_i engine queryType outcome hplace
    cases hstep
    have hbusy : q.place.busy := by simp [hplace, Place.busy]
    have hnext : (outcome.place engine queryType fun e =>
        if engine = "DataFusion" then .failing e engine else .fallingBack queryType).busy := by
      apply outcome.place_cases
      · exact fun _ => ⟨nofun, nofun, nofun⟩
      · exact fun _ => ⟨nofun, nofun, nofun⟩
      · intro e
        split <;> exact ⟨nofun, nofun, nofun⟩
    exact ⟨h.goto hbusy hok hnext, rfl, rfl, hbusy.running,
      Place.busy.running (q := { q with place := _ }) hnext⟩
  · rename_i engine queryType hplace
    have hbusy : q.place.busy := by simp [hplace, Place.busy]
    split at hstep
    · rename_i hcancelled
      cases hstep
      exact ⟨h.end_cancelled hbusy hcancelled, rfl, rfl, hbusy.running, rfl⟩
    · cases hstep
  · rename_i queryType outcome hplace
    cases hstep
    have hbusy : q.place.busy := by simp [hplace, Place.busy]
    have hcancelled := h.not_cancelled hbusy (by rw [hplace]; rfl)
    have hnext : (outcome.place "DataFusion" queryType (.failing · "DataFusion")).busy := by
      apply outcome.place_cases
      · exact fun _ => ⟨nofun, nofun, nofun⟩
      · exact fun _ => ⟨nofun, nofun, nofun⟩
      · exact fun _ => ⟨nofun, nofun, nofun⟩
    exact ⟨h.goto hbusy hcancelled hnext, rfl, rfl, hbusy.running,
      Place.busy.running (q := { q with place := _ }) hnext⟩
  · rename_i batch hplace
    have hbusy : q.place.busy := by simp [hplace, Place.busy]
    split at hstep
    · rename_i hleft
      cases hstep
      have hcancelled := h.not_cancelled hbusy (by simp [hplace, Place.attentive, hleft])
      exact ⟨h.goto hbusy hcancelled ⟨nofun, nofun, nofun⟩, rfl, rfl, hbusy.running, rfl⟩
    · rename_i chunk left hleft
      split at hstep
      · rename_i hcancelled
        cases hstep
        exact ⟨h.end_cancelled hbusy hcancelled, rfl, rfl, hbusy.running, rfl⟩
      · rename_i hcancelled
        cases hstep
        exact ⟨h.goto hbusy (Bool.eq_false_iff.mpr hcancelled) ⟨nofun, nofun, nofun⟩, rfl, rfl,
          hbusy.running, rfl⟩
  · rename_i chunk batch hplace
    cases hstep
    have hbusy : q.place.busy := by simp [hplace, Place.busy]
    have hcancelled := h.not_cancelled hbusy (by rw [hplace]; rfl)
    exact ⟨h.goto_send hbusy hcancelled nofun rfl rfl, rfl, rfl, hbusy.running, rfl⟩
  · rename_i e engine hplace
    cases hstep
    have hbusy : q.place.busy := by simp [hplace, Place.busy]
    have hcancelled := h.not_cancelled hbusy (by rw [hplace]; rfl)
    exact ⟨h.goto_send hbusy hcancelled nofun rfl rfl, rfl, rfl, hbusy.running, rfl⟩
  · rename_i batch durationMs parseMs execMs hplace
    cases hstep
    have hbusy : q.place.busy := by simp [hplace, Place.busy]
    have hcancelled := h.not_cancelled hbusy (by rw [hplace]; rfl)
    exact ⟨h.goto_send hbusy hcancelled nofun rfl rfl, rfl, rfl, hbusy.running, rfl⟩
  · cases hstep

end Queries

end RustLake.WebSocket
