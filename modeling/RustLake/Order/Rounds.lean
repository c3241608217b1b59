import Mathlib.Data.List.Perm.Basic
import Mathlib.Data.List.TakeDrop

/-! Rounds over a list, each of which takes at once all elements that need only what earlier rounds
have taken. Elements go by keys, which several of them may share. -/
namespace RustLake.Rounds
variable {ι K : Type} [DecidableEq K] (key : ι → K) (needs : ι → List K)

def ready (done : List K) (l : List ι) : List ι := l.filter fun a => ∀ k ∈ needs a, k ∈ done

/-- The elements whose keys no element of the others has. -/
def without (taken l : List ι) : List ι := l.filter fun a => key a ∉ taken.map key

/-- What each round takes, and what is left when nothing is ready. -/
def rounds : ℕ → List K → List ι → List (List ι) × List ι
  | 0, _, l => ([], l)
  | n + 1, done, l =>
    if ready needs done l = [] then ([], l)
    else
      let (more, rest) := rounds n (done ++ (ready needs done l).map key)
        (without key (ready needs done l) l)
      (ready needs done l :: more, rest)

/-- So many elements need one another in a row behind an element. -/
inductive Chain (l : List ι) : ℕ → ι → Prop
  | zero {a : ι} : Chain l 0 a
  | succ {n : ℕ} {a b : ι} : b ∈ l → key b ∈ needs a → Chain l n b → Chain l (n + 1) a

section Spec
variable {key needs} {l rest : List ι} {done : List K} {n : ℕ}

theorem rounds_of_ready_nil (h : ready needs done l = []) : rounds key needs n done l = ([], l) := by
  cases n with
  | zero => rfl
  | succ n => exact if_pos h

theorem rounds_succ (h : ready needs done l ≠ []) : rounds key needs (n + 1) done l =
    (ready needs done l :: (rounds key needs n (done ++ (ready needs done l).map key)
      (without key (ready needs done l) l)).1,
      (rounds key needs n (done ++ (ready needs done l).map key)
        (without key (ready needs done l) l)).2) := if_neg h

theorem mem_ready {a : ι} : a ∈ ready needs done l ↔ a ∈ l ∧ ∀ k ∈ needs a, k ∈ done := by
  rw [ready, List.mem_filter, decide_eq_true_iff]

theorem mem_without {taken : List ι} {a : ι} :
    a ∈ without key taken l ↔ a ∈ l ∧ key a ∉ taken.map key := by
  rw [without, List.mem_filter, decide_eq_true_iff]

/-- A round that takes something leaves less. -/
theorem length_without_lt (h : ready needs done l ≠ []) :
    (without key (ready needs done l) l).length < l.length := by
  obtain ⟨a, ha⟩ := List.exists_mem_of_ne_nil _ h
  refine List.length_filter_lt_length_iff_exists.mpr ⟨a, (mem_ready.mp ha).1, ?_⟩
  simpa using ⟨a, ha, rfl⟩

/-- An element is in a round when all its needs have been met before, but not a round earlier. -/
theorem stage_spec {i : ℕ} {stage : List ι} (h : (rounds key needs n done l).1[i]? = some stage) :
    stage ⊆ l ∧ ∀ a ∈ stage,
      (∀ k ∈ needs a, k ∈ done ++ ((rounds key needs n done l).1.take i).flatten.map key) ∧
      (∀ j, i = j + 1 → ∃ k ∈ needs a,
        k ∉ done ++ ((rounds key needs n done l).1.take j).flatten.map key) ∧
      key a ∉ ((rounds key needs n done l).1.take i).flatten.map key := by
  induction n generalizing done l i with
  | zero => cases h
  | succ n ih =>
    by_cases hready : ready needs done l = []
    · rw [rounds_of_ready_nil hready] at h
      cases h
    · rw [rounds_succ hready] at h ⊢
      cases i with
      | zero =>
        obtain rfl := Option.some.inj h
        refine ⟨fun a ha => (mem_ready.mp ha).1, fun a ha => ⟨?_, ?_, List.not_mem_nil⟩⟩
        · simpa using (mem_ready.mp ha).2
        · exact fun j hj => absurd hj.symm (Nat.succ_ne_zero j)
      | succ i =>
        obtain ⟨hsub, hspec⟩ := ih (i := i) h
        refine ⟨fun a ha => (mem_without.mp (hsub ha)).1, fun a ha => ?_⟩
        obtain ⟨hmet, hlate, hnew⟩ := hspec a ha
        obtain ⟨hmem, hkey⟩ := mem_without.mp (hsub ha)
        refine ⟨?_, ?_, ?_⟩
        · simpa [List.append_assoc] using hmet
        · rintro j hj
          obtain rfl := Nat.succ.inj hj
          cases i with
          | zero =>
            have hnot : a ∉ ready needs done l := fun hin => hkey (List.mem_map_of_mem hin)
            rw [mem_ready] at hnot
            push Not at hnot
            simpa using hnot hmem
          | succ i => simpa [List.append_assoc] using hlate i rfl
        · rw [List.take_succ_cons, List.flatten_cons, List.map_append, List.mem_append, not_or]
          exact ⟨hkey, hnew⟩

/-- Whatever a round drops has the key of an element that it takes. -/
theorem rounds_perm (n : ℕ) (done : List K) (l : List ι) : ∃ dropped,
    ((rounds key needs n done l).1.flatten ++ (rounds key needs n done l).2 ++ dropped).Perm l ∧
      ∀ a ∈ dropped, key a ∈ (rounds key needs n done l).1.flatten.map key := by
  induction n generalizing done l with
  | zero => exact ⟨[], by simp [rounds], by simp⟩
  | succ n ih =>
    by_cases hready : ready needs done l = []
    · rw [rounds_of_ready_nil hready]
      exact ⟨[], by simp, by simp⟩
    · rw [rounds_succ hready]
      set taken := ready needs done l
      obtain ⟨dropped, hperm, hdropped⟩ := ih (done ++ taken.map key) (without key taken l)
      -- The elements with the keys of the round are those taken and those dropped.
      let shared := l.filter fun a => key a ∈ taken.map key
      have hsplit : (shared ++ without key taken l).Perm l := by
        have hfilter := List.filter_append_perm (fun a => decide (key a ∈ taken.map key)) l
        simpa only [shared, without, decide_not] using hfilter
      have htaken : shared.filter (fun a => ∀ k ∈ needs a, k ∈ done) = taken := by
        change (l.filter _).filter _ = l.filter _
        rw [List.filter_filter]
        refine List.filter_congr fun a ha => ?_
        by_cases hneeds : ∀ k ∈ needs a, k ∈ done
        · have hmem : key a ∈ taken.map key := List.mem_map_of_mem (mem_ready.mpr ⟨ha, hneeds⟩)
          simp only [decide_eq_true hneeds, decide_eq_true hmem, Bool.and_self]
        · simp only [decide_eq_false hneeds, Bool.false_and]
      have hshared := List.filter_append_perm (fun a => decide (∀ k ∈ needs a, k ∈ done)) shared
      rw [htaken] at hshared
      set others := shared.filter fun a => !decide (∀ k ∈ needs a, k ∈ done)
      refine ⟨dropped ++ others, ?_, ?_⟩
      · have hall : (taken ++ others ++ without key taken l).Perm l :=
          (hshared.append_right _).trans hsplit
        refine List.Perm.trans ?_ hall
        have hrest := hperm.append_left (taken ++ others)
        refine List.Perm.trans ?_ hrest
        rw [List.flatten_cons]
        set later := rounds key needs n (done ++ taken.map key) (without key taken l)
        have hmove : (others ++ (later.1.flatten ++ later.2 ++ dropped)).Perm
          (later.1.flatten ++ later.2 ++ dropped ++ others) := List.perm_append_comm
        simpa [List.append_assoc] using (hmove.append_left taken).symm
      · intro a ha
        rw [List.flatten_cons, List.map_append, List.mem_append]
        rcases List.mem_append.mp ha with ha | ha
        · exact Or.inr (hdropped a ha)
        · exact Or.inl (of_decide_eq_true (List.mem_filter.mp (List.mem_filter.mp ha).1).2)

omit [DecidableEq K] in
theorem Chain.pred {a : ι} (h : Chain key needs l (n + 1) a) : Chain key needs l n a := by
  induction n generalizing a with
  | zero => exact .zero
  | succ n ih =>
    cases h with
    | succ hb hneeds hchain => exact .succ hb hneeds (ih hchain)

omit [DecidableEq K] in
theorem Chain.mono {a : ι} {m : ℕ} (h : Chain key needs l m a) (hn : n ≤ m) :
    Chain key needs l n a := by
  induction hn with
  | refl => exact h
  | step _ ih => exact ih h.pred

omit [DecidableEq K] in
/-- Where some element begins a chain of a length and none is endless, some chain ends there. -/
theorem exists_chain_not_succ {i m : ℕ} {a : ι} (ha : a ∈ l) (hchain : Chain key needs l i a)
    (hend : ¬ Chain key needs l (i + m + 1) a) :
    ∃ b ∈ l, Chain key needs l i b ∧ ¬ Chain key needs l (i + 1) b := by
  induction m generalizing a with
  | zero => exact ⟨a, ha, hchain, hend⟩
  | succ m ih =>
    by_cases hmore : Chain key needs l (i + 1) a
    · cases hmore with
      | succ hb hneeds hrest => exact ih hb hrest fun hlong => hend (.succ hb hneeds hlong)
    · exact ⟨a, ha, hchain, hmore⟩

omit [DecidableEq K] in
/-- Where no chain behind an element is endless, none from it is. -/
theorem exists_not_chain {a : ι}
    (h : ∀ b ∈ l, key b ∈ needs a → ∃ m, ¬ Chain key needs l m b) : ∃ m, ¬ Chain key needs l m a := by
  have hbound : ∀ some : List ι, some ⊆ l → ∃ m, ∀ b ∈ some, key b ∈ needs a → ¬ Chain key needs l m b := by
    intro some hsome
    induction some with
    | nil => exact ⟨0, by simp⟩
    | cons b some ih =>
      obtain ⟨m, hm⟩ := ih fun c hc => hsome (List.mem_cons_of_mem _ hc)
      by_cases hneed : key b ∈ needs a
      · obtain ⟨m', hm'⟩ := h b (hsome List.mem_cons_self) hneed
        refine ⟨max m m', fun c hc hkey => ?_⟩
        rcases List.mem_cons.mp hc with rfl | hc
        · exact fun hchain => hm' (hchain.mono (Nat.le_max_right m m'))
        · exact fun hchain => hm c hc hkey (hchain.mono (Nat.le_max_left m m'))
      · refine ⟨m, fun c hc hkey => ?_⟩
        rcases List.mem_cons.mp hc with rfl | hc
        · exact absurd hkey hneed
        · exact hm c hc hkey
  obtain ⟨m, hm⟩ := hbound l (List.Subset.refl l)
  refine ⟨m + 1, ?_⟩
  rintro (_ | ⟨hb, hneed, hchain⟩)
  exact hm _ hb hneed hchain

/-- Elements with the same key begin the same chains, all needs are keys, and no chain is endless. -/
structure Leveled (key : ι → K) (needs : ι → List K) (l : List ι) : Prop where
  named : ∀ a ∈ l, ∀ k ∈ needs a, ∃ b ∈ l, key b = k
  same : ∀ a ∈ l, ∀ b ∈ l, key a = key b → ∀ n, Chain key needs l n a → Chain key needs l n b
  finite : ∀ a ∈ l, ∃ n, ¬ Chain key needs l n a

/-- Rounds that go on from elements with longer chains take them by the lengths of their chains. -/
theorem Leveled.rounds_from (h : Leveled key needs l) {rem : List ι} {i : ℕ}
    (hdone : ∀ a ∈ l, key a ∈ done ↔ ¬ Chain key needs l i a)
    (hrem : ∀ a, a ∈ rem ↔ a ∈ l ∧ Chain key needs l i a) (hfuel : rem.length ≤ n) :
    (rounds key needs n done rem).2 = [] ∧ (rounds key needs n done rem).1.flatten.Perm rem ∧
      ∀ j stage, (rounds key needs n done rem).1[j]? = some stage →
        ∀ a ∈ stage, ∀ m, Chain key needs l m a ↔ m ≤ i + j := by
  induction n generalizing done rem i with
  | zero =>
    obtain rfl := List.length_eq_zero_iff.mp (Nat.le_zero.mp hfuel)
    exact ⟨rfl, List.Perm.refl _, fun j stage hstage => by cases hstage⟩
  | succ n ih =>
    have hmet : ∀ a ∈ l, (∀ k ∈ needs a, k ∈ done) ↔ ¬ Chain key needs l (i + 1) a := by
      intro a ha
      constructor
      · rintro hneeds (_ | ⟨hb, hneed, hchain⟩)
        exact (hdone _ hb).mp (hneeds _ hneed) hchain
      · intro hend k hk
        obtain ⟨b, hb, rfl⟩ := h.named a ha k hk
        exact (hdone b hb).mpr fun hchain => hend (.succ hb hk hchain)
    have hready : ∀ a, a ∈ ready needs done rem ↔ a ∈ rem ∧ ¬ Chain key needs l (i + 1) a := by
      intro a
      rw [mem_ready]
      exact and_congr_right fun ha => hmet a ((hrem a).mp ha).1
    by_cases hnil : ready needs done rem = []
    · have hempty : rem = [] := by
        rw [List.eq_nil_iff_forall_not_mem]
        intro a ha
        obtain ⟨hmem, hchain⟩ := (hrem a).mp ha
        obtain ⟨m, hm⟩ := h.finite a hmem
        have hlong : ¬ Chain key needs l (i + m + 1) a := fun hc => hm (hc.mono (by omega))
        obtain ⟨b, hb, hbi, hbend⟩ := exists_chain_not_succ hmem hchain hlong
        have hin := (hready b).mpr ⟨(hrem b).mpr ⟨hb, hbi⟩, hbend⟩
        rw [hnil] at hin
        exact List.not_mem_nil hin
      rw [rounds_of_ready_nil hnil, hempty]
      exact ⟨rfl, List.Perm.refl _, fun j stage hstage => by cases hstage⟩
    · have hkeys : ∀ a ∈ l, key a ∈ (ready needs done rem).map key ↔
          Chain key needs l i a ∧ ¬ Chain key needs l (i + 1) a := by
        intro a ha
        constructor
        · intro hmem
          obtain ⟨b, hb, hkey⟩ := List.mem_map.mp hmem
          obtain ⟨hbrem, hbend⟩ := (hready b).mp hb
          obtain ⟨hbl, hbi⟩ := (hrem b).mp hbrem
          exact ⟨h.same b hbl a ha hkey i hbi,
            fun hc => hbend (h.same a ha b hbl hkey.symm (i + 1) hc)⟩
        · rintro ⟨hchain, hend⟩
          exact List.mem_map_of_mem ((hready a).mpr ⟨(hrem a).mpr ⟨ha, hchain⟩, hend⟩)
      have hdone' : ∀ a ∈ l, key a ∈ done ++ (ready needs done rem).map key ↔
          ¬ Chain key needs l (i + 1) a := by
        intro a ha
        rw [List.mem_append, hdone a ha, hkeys a ha]
        constructor
        · rintro (hnone | ⟨-, hend⟩)
          · exact fun hc => hnone hc.pred
          · exact hend
        · intro hend
          by_cases hchain : Chain key needs l i a
          · exact Or.inr ⟨hchain, hend⟩
          · exact Or.inl hchain
      have hleft : without key (ready needs done rem) rem =
          rem.filter fun a => !decide (∀ k ∈ needs a, k ∈ done) := by
        refine List.filter_congr fun a ha => ?_
        obtain ⟨hmem, hchain⟩ := (hrem a).mp ha
        rw [← decide_not]
        refine decide_eq_decide.mpr ?_
        rw [hkeys a hmem, hmet a hmem, not_not]
        simp [hchain]
      have hrem' : ∀ a, a ∈ without key (ready needs done rem) rem ↔
          a ∈ l ∧ Chain key needs l (i + 1) a := by
        intro a
        rw [mem_without, hrem a]
        constructor
        · rintro ⟨⟨hmem, hchain⟩, hkey⟩
          rw [hkeys a hmem] at hkey
          exact ⟨hmem, not_not.mp fun hend => hkey ⟨hchain, hend⟩⟩
        · rintro ⟨hmem, hchain⟩
          rw [hkeys a hmem]
          exact ⟨⟨hmem, hchain.pred⟩, fun hend => hend.2 hchain⟩
      have hlength : (without key (ready needs done rem) rem).length < rem.length :=
        length_without_lt hnil
      obtain ⟨hrest, hperm, hstages⟩ := ih hdone' hrem' (by omega)
      rw [rounds_succ hnil]
      refine ⟨hrest, ?_, ?_⟩
      · rw [List.flatten_cons]
        refine (hperm.append_left _).trans ?_
        rw [hleft]
        exact List.filter_append_perm _ rem
      · intro j stage hstage a ha m
        cases j with
        | zero =>
          obtain rfl := Option.some.inj hstage
          obtain ⟨harem, hend⟩ := (hready a).mp ha
          constructor
          · intro hc
            by_contra hlt
            exact hend (hc.mono (by omega))
          · exact fun hle => ((hrem a).mp harem).2.mono (by omega)
        | succ j =>
          rw [hstages j stage hstage a ha m]
          omega

/-- All elements are taken, each in the round of the length of its chains. -/
theorem Leveled.rounds (h : Leveled key needs l) (hfuel : l.length ≤ n) :
    (rounds key needs n [] l).2 = [] ∧ (rounds key needs n [] l).1.flatten.Perm l ∧
      ∀ i stage, (rounds key needs n [] l).1[i]? = some stage →
        ∀ a ∈ stage, ∀ m, Chain key needs l m a ↔ m ≤ i := by
  have hdone : ∀ a ∈ l, key a ∈ ([] : List K) ↔ ¬ Chain key needs l 0 a :=
    fun a _ => iff_of_false List.not_mem_nil (not_not.mpr .zero)
  have hrem : ∀ a, a ∈ l ↔ a ∈ l ∧ Chain key needs l 0 a := fun a => ⟨fun ha => ⟨ha, .zero⟩, And.left⟩
  simpa using h.rounds_from hdone hrem hfuel

/-- Where all elements are taken, each behind those that it needs, the rounds are by the lengths of
their chains. -/
theorem chain_iff_of_behind (hall : (rounds key needs n [] l).1.flatten.Perm l)
    (hbehind : ∀ (i j : ℕ) (s t : List ι), (rounds key needs n [] l).1[i]? = some s →
      (rounds key needs n [] l).1[j]? = some t → ∀ a ∈ s, ∀ b ∈ t, key b ∈ needs a → j < i)
    {i : ℕ} {stage : List ι} (hstage : (rounds key needs n [] l).1[i]? = some stage) {a : ι}
    (ha : a ∈ stage) (m : ℕ) : Chain key needs l m a ↔ m ≤ i := by
  constructor
  · intro hchain
    induction hchain generalizing i stage with
    | zero => exact Nat.zero_le i
    | @succ m a b hb hneed _ ih =>
      obtain ⟨t, ht, hbt⟩ := List.mem_flatten.mp (hall.mem_iff.mpr hb)
      obtain ⟨j, hj⟩ := List.mem_iff_getElem?.mp ht
      have hlt := hbehind i j stage t hstage hj a ha b hbt hneed
      have hle := ih hj hbt
      omega
  · intro hle
    have hchain : Chain key needs l i a := by
      clear hle
      induction i generalizing stage a with
      | zero => exact .zero
      | succ i ih =>
        obtain ⟨hmet, hlate, -⟩ := (stage_spec hstage).2 a ha
        obtain ⟨k, hk, hnot⟩ := hlate i rfl
        -- What is met now but not a round before is a key of the round between.
        have hin := hmet k hk
        rw [List.nil_append] at hin hnot
        have hsome : i < (rounds key needs n [] l).1.length := by
          have hlt := (List.getElem?_eq_some_iff.mp hstage).1
          omega
        rw [List.take_succ_eq_append_getElem hsome, List.flatten_append, List.map_append,
          List.mem_append, or_iff_right hnot, List.flatten_singleton] at hin
        obtain ⟨b, hb, rfl⟩ := List.mem_map.mp hin
        have hprev := List.getElem?_eq_getElem hsome
        exact .succ ((stage_spec hprev).1 hb) hk (ih hprev hb)
    exact hchain.mono hle

end Spec
end RustLake.Rounds
