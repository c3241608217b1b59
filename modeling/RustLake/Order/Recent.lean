import RustLake.Order.Run
import Mathlib.Data.List.DropRight
import Mathlib.Order.Lattice

/-! Logs that keep only their last entries, and readers that ask such a log for what is newer than
all that they have seen. -/
namespace RustLake.Recent

variable {α τ : Type}

/-- The log with further entries, cut to its last ones. -/
def extend (max : ℕ) (buffer entries : List α) : List α :=
  let longer := buffer ++ entries
  if max < longer.length then longer.drop (longer.length - max) else longer

/-- The log with one more entry; the first one leaves before a full log grows. -/
def pushRing (max : ℕ) (buffer : List α) (entry : α) : List α :=
  (if max ≤ buffer.length then buffer.tail else buffer) ++ [entry]

theorem rtake_append (l l' : List α) (n : ℕ) :
    (l ++ l').rtake n = l.rtake (n - l'.length) ++ l'.rtake n := by
  rw [List.rtake, List.rtake, List.rtake, List.length_append, List.drop_append]
  congr 1
  · by_cases h : n ≤ l'.length
    · rw [List.drop_of_length_le (by omega), List.drop_of_length_le (by omega)]
    · congr 1
      omega
  · congr 1
    omega

theorem rtake_of_length_le {l : List α} {n : ℕ} (h : l.length ≤ n) : l.rtake n = l := by
  rw [List.rtake, Nat.sub_eq_zero_of_le h, List.drop_zero]

theorem length_rtake (l : List α) (n : ℕ) : (l.rtake n).length = min n l.length := by
  rw [List.rtake, List.length_drop]
  omega

theorem rtake_suffix (l : List α) (n : ℕ) : l.rtake n <:+ l := List.drop_suffix _ _

theorem rtake_suffix_rtake (l : List α) {m n : ℕ} (h : m ≤ n) : l.rtake m <:+ l.rtake n := by
  have hlength : (l.rtake m).length ≤ (l.rtake n).length := by
    rw [length_rtake, length_rtake]
    omega
  exact List.suffix_of_suffix_length_le (rtake_suffix l m) (rtake_suffix l n) hlength

/-- What has been cut off makes no difference later. -/
theorem extend_rtake (max : ℕ) (log entries : List α) :
    extend max (log.rtake max) entries = (log ++ entries).rtake max := by
  have hextend : ∀ buffer, extend max buffer entries = (buffer ++ entries).rtake max := by
    intro buffer
    rw [extend]
    split_ifs with hlong
    · rfl
    · rw [rtake_of_length_le (by omega)]
  have htwice : (log.rtake max).rtake (max - entries.length) = log.rtake (max - entries.length) := by
    have hle : (log.rtake (max - entries.length)).length ≤
        ((log.rtake max).rtake (max - entries.length)).length := by
      simp only [length_rtake]
      omega
    have hsuffix := (rtake_suffix (log.rtake max) (max - entries.length)).trans
      (rtake_suffix log max)
    exact ((List.suffix_of_suffix_length_le (rtake_suffix _ _) hsuffix hle).eq_of_length
      (by simp only [length_rtake]; omega)).symm
  rw [hextend, rtake_append, htwice, ← rtake_append]

theorem pushRing_rtake {max : ℕ} (hmax : 0 < max) (log : List α) (entry : α) :
    pushRing max (log.rtake max) entry = (log ++ [entry]).rtake max := by
  rw [← extend_rtake, pushRing, extend]
  by_cases hfull : max ≤ (log.rtake max).length
  · have hlength : (log.rtake max).length = max := by
      rw [length_rtake] at hfull ⊢
      omega
    have htail : (log.rtake max ++ [entry]).tail = (log.rtake max).tail ++ [entry] := by
      apply List.tail_append_of_ne_nil
      intro hnil
      rw [hnil, List.length_nil] at hlength
      omega
    simp [hlength, ← htail]
  · have hshort : ¬ max < (log.rtake max ++ [entry]).length := by
      rw [List.length_append, List.length_singleton]
      omega
    rw [if_neg hfull, if_neg hshort]

section
variable [LinearOrder τ] (key : α → τ)

/-- The entries whose keys come after a cursor. -/
def newer (cursor : Option τ) (entries : List α) : List α :=
  entries.filter fun a => decide (∀ c ∈ cursor, c < key a)

/-- The greatest key that has been seen. -/
def advance (cursor : Option τ) (entries : List α) : Option τ :=
  entries.foldl (fun seen a => some (seen.elim (key a) (max · (key a)))) cursor

/-- A log, of which the last entries are kept, and a reader: how long the log was when the reader
last asked, what it has received, and the greatest key among it. -/
structure Feed (α τ : Type) where
  log : List α
  seen : ℕ
  received : List α
  cursor : Option τ

inductive FeedStep (α : Type) where
  | push (a : α)
  | poll

namespace Feed

def empty : Feed α τ := ⟨[], 0, [], none⟩

/-- What the reader gets when it asks. -/
def answer (max : ℕ) (f : Feed α τ) : List α := newer key f.cursor (f.log.rtake max)

def step (max : ℕ) (f : Feed α τ) : FeedStep α → Option (Feed α τ)
  | .push a => some { f with log := f.log ++ [a] }
  | .poll => some
    { log := f.log
      seen := f.log.length
      received := f.received ++ f.answer key max
      cursor := advance key f.cursor (f.answer key max) }

/-- With one more answer the reader has received the whole log, each entry once and in order. -/
def Complete (max : ℕ) (f : Feed α τ) : Prop := f.received ++ f.answer key max = f.log

/-- An entry is pushed while there is room for it among those that the reader has yet to ask for,
and its key comes after all that the reader has seen. -/
def InTime (max : ℕ) (f : Feed α τ) : FeedStep α → Prop
  | .push a => f.log.length - f.seen < max ∧ ∀ c ∈ f.cursor, c < key a
  | .poll => True

/-- The reader has received part of what it has asked for, and asks for none of it again. -/
structure Read (max : ℕ) (f : Feed α τ) : Prop where
  bound : f.seen ≤ f.log.length
  part : f.received.Sublist (f.log.take f.seen)
  past : ∀ a ∈ (f.log.take f.seen).rtake max, ∃ c ∈ f.cursor, key a ≤ c

end Feed

variable {key} {max : ℕ} {f f' : Feed α τ}

theorem newer_append (cursor : Option τ) (l l' : List α) :
    newer key cursor (l ++ l') = newer key cursor l ++ newer key cursor l' := List.filter_append ..

theorem le_of_mem_advance (cursor : Option τ) (l : List α) :
    (∀ c ∈ cursor, ∃ d ∈ advance key cursor l, c ≤ d) ∧
      ∀ a ∈ l, ∃ d ∈ advance key cursor l, key a ≤ d := by
  induction l generalizing cursor with
  | nil =>
    constructor
    · intro c hc
      exact ⟨c, hc, le_rfl⟩
    · simp
  | cons a l ih =>
    obtain ⟨hbefore, hlater⟩ := ih (some (cursor.elim (key a) (Max.max · (key a))))
    obtain ⟨d, hd, hle⟩ := hbefore _ rfl
    constructor
    · intro c hc
      obtain rfl : cursor = some c := hc
      exact ⟨d, hd, (le_max_left c (key a)).trans hle⟩
    · intro b hb
      rcases List.mem_cons.mp hb with rfl | hmem
      · refine ⟨d, hd, le_trans ?_ hle⟩
        cases cursor with
        | none => exact le_rfl
        | some c => exact le_max_right c (key b)
      · exact hlater b hmem

namespace Feed

/-- Only entries that have been pushed since the reader last asked are in its answer. -/
theorem Read.answer_eq (h : f.Read key max) :
    f.answer key max = newer key f.cursor ((f.log.drop f.seen).rtake max) := by
  have hsplit : f.log = f.log.take f.seen ++ f.log.drop f.seen := (List.take_append_drop _ _).symm
  have hold : newer key f.cursor
      ((f.log.take f.seen).rtake (max - (f.log.drop f.seen).length)) = [] := by
    apply List.filter_eq_nil_iff.mpr
    intro a ha
    have hmem := (rtake_suffix_rtake (f.log.take f.seen) (Nat.sub_le max _)).subset ha
    obtain ⟨c, hc, hle⟩ := h.past a hmem
    simp only [decide_eq_true_eq, not_forall, not_lt]
    exact ⟨c, hc, hle⟩
  rw [answer]
  conv_lhs => rw [hsplit, rtake_append, newer_append, hold, List.nil_append]

theorem Read.isComplete_iff (h : f.Read key max) :
    f.Complete key max ↔ f.received = f.log.take f.seen ∧ f.log.length - f.seen ≤ max ∧
      ∀ a ∈ f.log.drop f.seen, ∀ c ∈ f.cursor, c < key a := by
  have hsplit := List.take_append_drop f.seen f.log
  have hsub : (newer key f.cursor ((f.log.drop f.seen).rtake max)).Sublist (f.log.drop f.seen) :=
    List.filter_sublist.trans (rtake_suffix _ _).sublist
  rw [Complete, h.answer_eq]
  constructor
  · intro heq
    have hlengths := congrArg List.length (heq.trans hsplit.symm)
    rw [List.length_append, List.length_append] at hlengths
    have hle := h.part.length_le
    have hle' := hsub.length_le
    have hreceived := h.part.eq_of_length (by omega)
    have hrest := hsub.eq_of_length (by omega)
    refine ⟨hreceived, ?_, ?_⟩
    · have hcount := congrArg List.length hrest
      have hfilter := List.length_filter_le (fun a => decide (∀ c ∈ f.cursor, c < key a))
        ((f.log.drop f.seen).rtake max)
      rw [newer] at hcount
      rw [length_rtake] at hfilter
      rw [List.length_drop] at hcount
      omega
    · intro a ha
      rw [← hrest] at ha
      simpa using (List.mem_filter.mp ha).2
  · intro hall
    obtain ⟨hreceived, hroom, hafter⟩ := hall
    have hrest : newer key f.cursor ((f.log.drop f.seen).rtake max) = f.log.drop f.seen := by
      rw [rtake_of_length_le (by rw [List.length_drop]; exact hroom)]
      apply List.filter_eq_self.mpr
      intro a ha
      simpa using hafter a ha
    rw [hreceived, hrest, hsplit]

theorem read_empty : (empty : Feed α τ).Read key max :=
  ⟨le_rfl, List.nil_sublist _, by simp [empty]⟩

theorem Read.step {action : FeedStep α} (h : f.Read key max) (hstep : f.step key max action = some f') :
    f'.Read key max := by
  cases action with
  | push a =>
    obtain rfl : { f with log := f.log ++ [a] } = f' := Option.some.inj hstep
    have htake : (f.log ++ [a]).take f.seen = f.log.take f.seen :=
      List.take_append_of_le_length h.bound
    refine ⟨?_, ?_, ?_⟩
    · have hbound := h.bound
      simp only [List.length_append]
      omega
    · simpa only [htake] using h.part
    · simpa only [htake] using h.past
  | poll =>
    obtain rfl := Option.some.inj hstep
    refine ⟨le_rfl, ?_, ?_⟩
    · simp only [List.take_length]
      rw [h.answer_eq]
      have hsub : (newer key f.cursor ((f.log.drop f.seen).rtake max)).Sublist
          (f.log.drop f.seen) := List.filter_sublist.trans (rtake_suffix _ _).sublist
      have hboth := h.part.append hsub
      rwa [List.take_append_drop] at hboth
    · simp only [List.take_length]
      intro a ha
      by_cases hnew : ∀ c ∈ f.cursor, c < key a
      · have hmem : a ∈ f.answer key max := List.mem_filter.mpr ⟨ha, decide_eq_true hnew⟩
        exact (le_of_mem_advance f.cursor _).2 a hmem
      · simp only [not_forall, not_lt] at hnew
        obtain ⟨c, hc, hle⟩ := hnew
        obtain ⟨d, hd, hcd⟩ := (le_of_mem_advance f.cursor (f.answer key max)).1 c hc
        exact ⟨d, hd, hle.trans hcd⟩

theorem Read.complete_step {action : FeedStep α} (h : f.Read key max)
    (hstep : f.step key max action = some f') :
    f'.Complete key max ↔ f.Complete key max ∧ f.InTime key max action := by
  have hread := h.step hstep
  rw [hread.isComplete_iff]
  cases action with
  | push a =>
    obtain rfl : { f with log := f.log ++ [a] } = f' := Option.some.inj hstep
    have hbound := h.bound
    have htake : (f.log ++ [a]).take f.seen = f.log.take f.seen :=
      List.take_append_of_le_length hbound
    have hdrop : (f.log ++ [a]).drop f.seen = f.log.drop f.seen ++ [a] :=
      List.drop_append_of_le_length hbound
    rw [h.isComplete_iff]
    simp only [htake, hdrop, List.forall_mem_append, List.forall_mem_singleton, InTime,
      List.length_append, List.length_singleton]
    constructor
    · intro hall
      exact ⟨⟨hall.1, by omega, hall.2.2.1⟩, by omega, hall.2.2.2⟩
    · intro hall
      exact ⟨hall.1.1, by omega, hall.1.2.2, hall.2.2⟩
  | poll =>
    obtain rfl := Option.some.inj hstep
    simp [Complete, InTime]

end Feed

end

end RustLake.Recent
