import RustLake.Order.Dependency

/-! A depth-first walk that puts each node behind those it depends on. It marks a node once it is done
with it and not before, so that it does not end on a cycle, and it stops at the first node that cannot
be emitted. -/
namespace RustLake.Walk
open Dependency

variable {α ε : Type} [DecidableEq α]

/-- Visits one node after the other, as long as none of them stops the walk. -/
def visitAll (visit : α → List α → Option (Except ε (List α))) :
    List α → List α → Option (Except ε (List α))
  | [], done => some (.ok done)
  | a :: rest, done =>
    match visit a done with
    | some (.ok done') => visitAll visit rest done'
    | stopped => stopped

section Walk
variable (deps : α → Option (List α)) (emit : α → Except ε Unit)

/-- The nodes done after a node, or none where the fuel runs out. A node without an entry is passed
over. -/
def walk : ℕ → α → List α → Option (Except ε (List α))
  | 0, _, _ => none
  | fuel + 1, a, done =>
    if a ∈ done then some (.ok done)
    else match deps a with
      | none => some (.ok done)
      | some below =>
        match visitAll (walk fuel) below done with
        | some (.ok done') => some ((emit a).map fun _ => done' ++ [a])
        | stopped => stopped

def children (a : α) : List α := (deps a).getD []

/-- Everything upstream of the node that has an entry can be emitted. -/
def Fine (a : α) : Prop :=
  ∀ b, Upstream (children deps) a b → (deps b).isSome → emit b = .ok ()

/-- The walk may come to the second node from the first: what stands before it is fine. -/
def Next (a b : α) : Prop :=
  ∃ before after, children deps a = before ++ b :: after ∧ ∀ d ∈ before, Fine deps emit d

/-- The nodes done have been emitted after all that they depend on. -/
def Settled (done : List α) : Prop :=
  ∀ a ∈ done, (deps a).isSome ∧ emit a = .ok () ∧ ∀ b ∈ children deps a, (deps b).isSome → b ∈ done

end Walk

section Spec
variable {deps : α → Option (List α)} {emit : α → Except ε Unit}

omit [DecidableEq α] in
theorem visitAll_mono {visit visit' : α → List α → Option (Except ε (List α))}
    (h : ∀ a done r, visit a done = some r → visit' a done = some r) {l done : List α}
    {r : Except ε (List α)} (hr : visitAll visit l done = some r) :
    visitAll visit' l done = some r := by
  induction l generalizing done with
  | nil => exact hr
  | cons a rest ih =>
    rw [visitAll] at hr ⊢
    cases hvisit : visit a done with
    | none =>
      rw [hvisit] at hr
      cases hr
    | some result =>
      rw [hvisit] at hr
      rw [h a done result hvisit]
      cases result with
      | error e => exact hr
      | ok done' => exact ih hr

theorem walk_succ {fuel : ℕ} {a : α} {done : List α} {r : Except ε (List α)}
    (h : walk deps emit fuel a done = some r) : walk deps emit (fuel + 1) a done = some r := by
  induction fuel generalizing a done r with
  | zero => cases h
  | succ fuel ih =>
    rw [walk] at h ⊢
    split at h
    · rename_i hdone
      rw [if_pos hdone]
      exact h
    · rename_i hdone
      rw [if_neg hdone]
      cases hdeps : deps a with
      | none =>
        rw [hdeps] at h
        exact h
      | some below =>
        rw [hdeps] at h
        dsimp only at h ⊢
        cases hvisit : visitAll (walk deps emit fuel) below done with
        | none =>
          rw [hvisit] at h
          cases h
        | some result =>
          rw [visitAll_mono (fun b done' r' hr => ih hr) hvisit]
          rwa [hvisit] at h

theorem walk_mono {fuel fuel' : ℕ} (hle : fuel ≤ fuel') {a : α} {done : List α}
    {r : Except ε (List α)} (h : walk deps emit fuel a done = some r) :
    walk deps emit fuel' a done = some r := by
  induction hle with
  | refl => exact h
  | step _ ih => exact walk_succ ih

/-- What a walk from a node can do: the node is done already or has no entry, or those that it depends
on are visited, and then it is emitted. -/
theorem walk_cases {fuel : ℕ} {a : α} {done : List α} {r : Except ε (List α)}
    (h : walk deps emit (fuel + 1) a done = some r) :
    ((a ∈ done ∨ deps a = none) ∧ r = .ok done) ∨
    a ∉ done ∧ (deps a).isSome ∧
      ((∃ e, visitAll (walk deps emit fuel) (children deps a) done = some (.error e) ∧
          r = .error e) ∨
        ∃ done', visitAll (walk deps emit fuel) (children deps a) done = some (.ok done') ∧
          r = (emit a).map fun _ => done' ++ [a]) := by
  rw [walk] at h
  split at h
  · rename_i hdone
    exact Or.inl ⟨Or.inl hdone, (Option.some.inj h).symm⟩
  · rename_i hdone
    cases hdeps : deps a with
    | none =>
      rw [hdeps] at h
      exact Or.inl ⟨Or.inr rfl, (Option.some.inj h).symm⟩
    | some below =>
      right
      have hchildren : children deps a = below := by
        unfold children
        rw [hdeps]
        rfl
      rw [hdeps] at h
      rw [hchildren]
      dsimp only at h
      refine ⟨hdone, rfl, ?_⟩
      cases hvisit : visitAll (walk deps emit fuel) below done with
      | none =>
        rw [hvisit] at h
        cases h
      | some result =>
        rw [hvisit] at h
        cases result with
        | error e => exact Or.inl ⟨e, rfl, (Option.some.inj h).symm⟩
        | ok done' => exact Or.inr ⟨done', rfl, (Option.some.inj h).symm⟩

omit [DecidableEq α] in
theorem Fine.child {a b : α} (h : Fine deps emit a) (hb : b ∈ children deps a) :
    Fine deps emit b := fun c hc => h c (Relation.ReflTransGen.head hb hc)

/-- A walk that stops has found a node that cannot be emitted. -/
theorem not_fine_of_error {fuel : ℕ} {a : α} {done : List α} {e : ε}
    (h : walk deps emit fuel a done = some (.error e)) : ¬ Fine deps emit a := by
  induction fuel generalizing a done e with
  | zero => cases h
  | succ fuel ih =>
    intro hfine
    rcases walk_cases h with ⟨-, hr⟩ | ⟨-, hentry, ⟨e', hvisit, -⟩ | ⟨done', -, hr⟩⟩
    · cases hr
    · have hbelow : ∀ l done, (∀ b ∈ l, b ∈ children deps a) →
          visitAll (walk deps emit fuel) l done ≠ some (.error e') := by
        intro l
        induction l with
        | nil =>
          intro done _ hr
          cases hr
        | cons b rest ihl =>
          intro done hsub hr
          rw [visitAll] at hr
          split at hr
          · exact ihl _ (fun c hc => hsub c (List.mem_cons_of_mem _ hc)) hr
          · exact ih hr (hfine.child (hsub b List.mem_cons_self))
      exact hbelow _ _ (fun b hb => hb) hvisit
    · rw [hfine a Relation.ReflTransGen.refl hentry] at hr
      cases hr

/-- What visiting leaves when it goes through: what was done, and behind it nodes upstream of those
visited. -/
structure Added (deps : α → Option (List α)) (emit : α → Except ε Unit) (starts done done' : List α) :
    Prop where
  settled : Settled deps emit done'
  grows : done <+: done'
  covers : ∀ a ∈ starts, (deps a).isSome → a ∈ done'
  upstream : ∀ b ∈ done', b ∉ done → ∃ a ∈ starts, Upstream (children deps) a b

omit [DecidableEq α] in
theorem visitAll_added {visit : α → List α → Option (Except ε (List α))}
    (hvisit : ∀ a done done', Settled deps emit done → visit a done = some (.ok done') →
      Added deps emit [a] done done') {l done done' : List α} (hdone : Settled deps emit done)
    (h : visitAll visit l done = some (.ok done')) : Added deps emit l done done' := by
  induction l generalizing done with
  | nil =>
    obtain rfl : done = done' := Except.ok.inj (Option.some.inj h)
    exact ⟨hdone, List.prefix_rfl, fun a ha => absurd ha List.not_mem_nil, fun b hb hnot =>
      absurd hb hnot⟩
  | cons a rest ih =>
    rw [visitAll] at h
    split at h
    · rename_i between hfirst
      have hadded := hvisit a done between hdone hfirst
      have hrest := ih hadded.settled h
      refine ⟨hrest.settled, hadded.grows.trans hrest.grows, ?_, ?_⟩
      · intro b hb hentry
        rcases List.mem_cons.mp hb with rfl | hb
        · exact hrest.grows.subset (hadded.covers b (List.mem_singleton_self b) hentry)
        · exact hrest.covers b hb hentry
      · intro b hb hnot
        by_cases hmiddle : b ∈ between
        · obtain ⟨c, hc, hupstream⟩ := hadded.upstream b hmiddle hnot
          rw [List.mem_singleton] at hc
          exact ⟨a, List.mem_cons_self, hc ▸ hupstream⟩
        · obtain ⟨c, hc, hupstream⟩ := hrest.upstream b hb hmiddle
          exact ⟨c, List.mem_cons_of_mem _ hc, hupstream⟩
    · rename_i hnot
      exact absurd h (hnot done')

theorem walk_added {fuel : ℕ} {a : α} {done done' : List α} (hdone : Settled deps emit done)
    (h : walk deps emit fuel a done = some (.ok done')) : Added deps emit [a] done done' := by
  induction fuel generalizing a done done' with
  | zero => cases h
  | succ fuel ih =>
    rcases walk_cases h with ⟨hstop, hr⟩ | ⟨hnew, hentry, ⟨e', -, hr⟩ | ⟨between, hvisit, hr⟩⟩
    · obtain rfl := Except.ok.inj hr
      refine ⟨hdone, List.prefix_rfl, fun b hb hentry => ?_, fun b hb hnot => absurd hb hnot⟩
      rw [List.mem_singleton.mp hb] at hentry ⊢
      rcases hstop with hmem | hnone
      · exact hmem
      · rw [hnone] at hentry
        cases hentry
    · cases hr
    · have hbelow := visitAll_added (fun b done done' hsettled hwalk => ih hsettled hwalk) hdone hvisit
      cases hemit : emit a with
      | error e =>
        rw [hemit] at hr
        cases hr
      | ok u =>
        rw [hemit] at hr
        obtain rfl := Except.ok.inj hr
        refine ⟨?_, hbelow.grows.trans (List.prefix_append _ _), ?_, ?_⟩
        · intro b hb
          rcases List.mem_append.mp hb with hold | hlast
          · obtain ⟨hb₁, hb₂, hb₃⟩ := hbelow.settled b hold
            exact ⟨hb₁, hb₂, fun c hc hentry => List.mem_append_left _ (hb₃ c hc hentry)⟩
          · obtain rfl := List.mem_singleton.mp hlast
            exact ⟨hentry, hemit, fun c hc hc' => List.mem_append_left _ (hbelow.covers c hc hc')⟩
        · intro b hb _
          exact List.mem_append_right _ hb
        · intro b hb hnot
          rcases List.mem_append.mp hb with hold | hlast
          · obtain ⟨c, hc, hupstream⟩ := hbelow.upstream b hold hnot
            exact ⟨a, List.mem_singleton_self a, Relation.ReflTransGen.head hc hupstream⟩
          · exact ⟨b, hlast, Relation.ReflTransGen.refl⟩

omit [DecidableEq α] in
/-- All that a settled list depends on is in it. -/
theorem Settled.upstream {done : List α} (h : Settled deps emit done) {a b : α} (ha : a ∈ done)
    (hupstream : Upstream (children deps) a b) : b ∈ done ∨ deps b = none := by
  induction hupstream with
  | refl => exact Or.inl ha
  | @tail b c _ hc ih =>
    rcases ih with hb | hnone
    · cases hentry : deps c with
      | none => exact Or.inr rfl
      | some below => exact Or.inl ((h b hb).2.2 c hc (by rw [hentry]; rfl))
    · unfold children at hc
      rw [hnone] at hc
      cases hc

omit [DecidableEq α] in
theorem Settled.fine {done : List α} (h : Settled deps emit done) {a : α}
    (ha : (deps a).isSome → a ∈ done) : Fine deps emit a := by
  intro b hb hentry
  by_cases hstart : (deps a).isSome
  · rcases h.upstream (ha hstart) hb with hmem | hnone
    · exact (h b hmem).2.1
    · rw [hnone] at hentry
      cases hentry
  · rcases Relation.ReflTransGen.cases_head hb with rfl | ⟨c, hc, -⟩
    · exact absurd hentry hstart
    · have hnone : deps a = none := by simpa using hstart
      unfold children at hc
      rw [hnone] at hc
      cases hc

omit [DecidableEq α] in
theorem settled_nil : Settled deps emit [] := fun _ ha => absurd ha List.not_mem_nil

/-- The walk goes on without end only where it may come to nodes without end. -/
theorem acc_visitAll {fuel : ℕ} {l done : List α} {r : Except ε (List α)}
    (hwalk : ∀ {a done r}, walk deps emit fuel a done = some r →
      (∀ b ∈ done, Acc (fun c b => Next deps emit b c) b) →
      Acc (fun c b => Next deps emit b c) a ∧
        ∀ done', r = .ok done' → ∀ b ∈ done', Acc (fun c b => Next deps emit b c) b)
    (h : visitAll (walk deps emit fuel) l done = some r)
    (hdone : ∀ b ∈ done, Acc (fun c b => Next deps emit b c) b) :
    (∀ before b after, l = before ++ b :: after → (∀ d ∈ before, Fine deps emit d) →
      Acc (fun c b => Next deps emit b c) b) ∧
    ∀ done', r = .ok done' → ∀ b ∈ done', Acc (fun c b => Next deps emit b c) b := by
  induction l generalizing done with
  | nil =>
    refine ⟨fun before b after heq => absurd heq (by simp), fun done' hr => ?_⟩
    rw [visitAll, hr, Option.some.injEq, Except.ok.injEq] at h
    rwa [← h]
  | cons a rest ih =>
    rw [visitAll] at h
    split at h
    · rename_i between hfirst
      obtain ⟨ha, hbetween⟩ := hwalk hfirst hdone
      obtain ⟨hrest, hend⟩ := ih h (hbetween between rfl)
      refine ⟨fun before b after heq hfine => ?_, hend⟩
      cases before with
      | nil =>
        obtain ⟨rfl, -⟩ := List.cons.inj heq
        exact ha
      | cons d before =>
        obtain ⟨-, heq⟩ := List.cons.inj heq
        exact hrest before b after heq fun d hd => hfine d (List.mem_cons_of_mem _ hd)
    · rename_i hstop
      obtain ⟨ha, hend⟩ := hwalk h hdone
      refine ⟨fun before b after heq hfine => ?_, hend⟩
      cases before with
      | nil =>
        obtain ⟨rfl, -⟩ := List.cons.inj heq
        exact ha
      | cons d before =>
        obtain ⟨rfl, -⟩ := List.cons.inj heq
        cases r with
        | ok between => exact absurd h (hstop between)
        | error e => exact absurd (hfine a List.mem_cons_self) (not_fine_of_error h)

theorem acc_walk {fuel : ℕ} {a : α} {done : List α} {r : Except ε (List α)}
    (h : walk deps emit fuel a done = some r)
    (hdone : ∀ b ∈ done, Acc (fun c b => Next deps emit b c) b) :
    Acc (fun c b => Next deps emit b c) a ∧
      ∀ done', r = .ok done' → ∀ b ∈ done', Acc (fun c b => Next deps emit b c) b := by
  induction fuel generalizing a done r with
  | zero => cases h
  | succ fuel ih =>
    rcases walk_cases h with ⟨hstop, rfl⟩ | ⟨-, -, hbelow⟩
    · refine ⟨?_, fun done' hr => by rwa [← Except.ok.inj hr]⟩
      rcases hstop with hmem | hnone
      · exact hdone a hmem
      · constructor
        rintro b ⟨before, after, heq, -⟩
        unfold children at heq
        rw [hnone] at heq
        exact absurd heq (by simp)
    · rcases hbelow with ⟨e, hvisit, rfl⟩ | ⟨between, hvisit, hr⟩
      · obtain ⟨hnext, -⟩ := acc_visitAll ih hvisit hdone
        refine ⟨?_, fun done' hr => by cases hr⟩
        constructor
        rintro b ⟨before, after, heq, hfine⟩
        exact hnext before b after heq hfine
      · obtain ⟨hnext, hend⟩ := acc_visitAll ih hvisit hdone
        have ha : Acc (fun c b => Next deps emit b c) a := by
          constructor
          rintro b ⟨before, after, heq, hfine⟩
          exact hnext before b after heq hfine
        refine ⟨ha, fun done' hok b hb => ?_⟩
        rw [hok] at hr
        cases hemit : emit a with
        | error e =>
          rw [hemit] at hr
          cases hr
        | ok u =>
          rw [hemit] at hr
          obtain rfl := Except.ok.inj hr
          rcases List.mem_append.mp hb with hold | hlast
          · exact hend between rfl b hold
          · rw [List.mem_singleton.mp hlast]
            exact ha

theorem exists_walk {a : α} (ha : Acc (fun c b => Next deps emit b c) a) {done : List α}
    (hdone : Settled deps emit done) : ∃ fuel r, walk deps emit fuel a done = some r := by
  induction ha generalizing done with
  | intro a _ ih =>
    have hbelow : ∀ after before done, children deps a = before ++ after →
        (∀ d ∈ before, Fine deps emit d) → Settled deps emit done →
        ∃ fuel r, visitAll (walk deps emit fuel) after done = some r := by
      intro after
      induction after with
      | nil => exact fun _ done _ _ _ => ⟨0, .ok done, rfl⟩
      | cons b rest ihl =>
        intro before done heq hfine hsettled
        obtain ⟨fuel, r, hfirst⟩ := ih b ⟨before, rest, heq, hfine⟩ hsettled
        cases r with
        | error e => exact ⟨fuel, .error e, by rw [visitAll, hfirst]⟩
        | ok between =>
          have hadded := walk_added hsettled hfirst
          have hb : Fine deps emit b :=
            hadded.settled.fine (hadded.covers b (List.mem_singleton_self b))
          obtain ⟨fuel', r, hrest⟩ := ihl (before ++ [b]) between (by rw [heq, List.append_cons])
            (fun d hd => by
              rcases List.mem_append.mp hd with hold | hnew
              · exact hfine d hold
              · rw [List.mem_singleton.mp hnew]
                exact hb) hadded.settled
          refine ⟨max fuel fuel', r, ?_⟩
          rw [visitAll, walk_mono (le_max_left fuel fuel') hfirst]
          exact visitAll_mono (fun c done' r' hr => walk_mono (le_max_right fuel fuel') hr) hrest
    obtain ⟨fuel, r, hvisit⟩ := hbelow (children deps a) [] done rfl
      (fun d hd => absurd hd List.not_mem_nil) hdone
    by_cases hmem : a ∈ done
    · exact ⟨1, .ok done, by rw [walk, if_pos hmem]⟩
    · cases hentry : deps a with
      | none => exact ⟨1, .ok done, by rw [walk, if_neg hmem, hentry]⟩
      | some below =>
        have hchildren : children deps a = below := by
          unfold children
          rw [hentry]
          rfl
        rw [hchildren] at hvisit
        cases r with
        | error e => exact ⟨fuel + 1, .error e, by rw [walk, if_neg hmem, hentry]; simp [hvisit]⟩
        | ok between =>
          exact ⟨fuel + 1, (emit a).map fun _ => between ++ [a],
            by rw [walk, if_neg hmem, hentry]; simp [hvisit]⟩

/-- The walk ends just when it may not come from node to node without end. -/
theorem exists_walk_iff (a : α) : (∃ fuel r, walk deps emit fuel a [] = some r) ↔
    Acc (fun c b => Next deps emit b c) a := by
  constructor
  · rintro ⟨fuel, r, h⟩
    exact (acc_walk h fun b hb => absurd hb List.not_mem_nil).1
  · exact fun ha => exists_walk ha settled_nil

omit [DecidableEq α] in
theorem acc_next_of_acc {a : α} (h : Acc (fun c b => c ∈ children deps b) a) :
    Acc (fun c b => Next deps emit b c) a := by
  refine Subrelation.accessible ?_ h
  rintro c b ⟨before, after, heq, -⟩
  rw [heq]
  exact List.mem_append_right _ List.mem_cons_self

omit [DecidableEq α] in
theorem Fine.acc {a : α} (hfine : Fine deps emit a)
    (h : Acc (fun c b => Next deps emit b c) a) : Acc (fun c b => c ∈ children deps b) a := by
  induction h with
  | intro a _ ih =>
    constructor
    intro b hb
    obtain ⟨before, after, heq⟩ := List.append_of_mem hb
    apply ih b ⟨before, after, heq, fun d hd => hfine.child ?_⟩ (hfine.child hb)
    rw [heq]
    exact List.mem_append_left _ hd

omit [DecidableEq α] in
/-- Each node is done once, and after all that it depends on. -/
theorem visitAll_ordered {visit : α → List α → Option (Except ε (List α))} {l done done' : List α}
    (hvisit : ∀ a ∈ l, ∀ done done', Settled deps emit done → visit a done = some (.ok done') →
      done.Nodup → Precedes (fun a b => b ∈ children deps a ∧ (deps b).isSome) done →
      done'.Nodup ∧ Precedes (fun a b => b ∈ children deps a ∧ (deps b).isSome) done')
    (hsettles : ∀ a done done', Settled deps emit done → visit a done = some (.ok done') →
      Settled deps emit done')
    (hdone : Settled deps emit done) (h : visitAll visit l done = some (.ok done'))
    (hnodup : done.Nodup)
    (hordered : Precedes (fun a b => b ∈ children deps a ∧ (deps b).isSome) done) :
    done'.Nodup ∧ Precedes (fun a b => b ∈ children deps a ∧ (deps b).isSome) done' := by
  induction l generalizing done with
  | nil =>
    obtain rfl : done = done' := Except.ok.inj (Option.some.inj h)
    exact ⟨hnodup, hordered⟩
  | cons a rest ih =>
    rw [visitAll] at h
    split at h
    · rename_i between hfirst
      obtain ⟨hnodup', hordered'⟩ := hvisit a List.mem_cons_self done between hdone hfirst hnodup
        hordered
      exact ih (fun b hb => hvisit b (List.mem_cons_of_mem _ hb)) (hsettles a done between hdone hfirst)
        h hnodup' hordered'
    · rename_i hstop
      exact absurd h (hstop done')

theorem walk_ordered {fuel : ℕ} {a : α} {done done' : List α} (hdone : Settled deps emit done)
    (ha : Acc (fun c b => c ∈ children deps b) a)
    (h : walk deps emit fuel a done = some (.ok done')) (hnodup : done.Nodup)
    (hordered : Precedes (fun a b => b ∈ children deps a ∧ (deps b).isSome) done) :
    done'.Nodup ∧ Precedes (fun a b => b ∈ children deps a ∧ (deps b).isSome) done' := by
  induction fuel generalizing a done done' with
  | zero => cases h
  | succ fuel ih =>
    rcases walk_cases h with ⟨-, hr⟩ | ⟨hnew, hentry, ⟨e', -, hr⟩ | ⟨between, hvisit, hr⟩⟩
    · obtain rfl := Except.ok.inj hr
      exact ⟨hnodup, hordered⟩
    · cases hr
    · obtain ⟨hbetween, hprecedes⟩ := visitAll_ordered
        (fun b hb done done' hsettled hwalk => ih hsettled (ha.inv hb) hwalk)
        (fun b done done' hsettled hwalk => (walk_added hsettled hwalk).settled) hdone hvisit hnodup
        hordered
      have hadded := visitAll_added (fun b done done' hsettled hwalk => walk_added hsettled hwalk)
        hdone hvisit
      -- A node that was done on the way would depend on itself.
      have hfresh : a ∉ between := by
        intro hmem
        obtain ⟨c, hc, hupstream⟩ := hadded.upstream a hmem hnew
        exact not_dependsOn_self ha (Relation.TransGen.head' hc hupstream)
      cases hemit : emit a with
      | error e =>
        rw [hemit] at hr
        cases hr
      | ok u =>
        rw [hemit] at hr
        obtain rfl := Except.ok.inj hr
        constructor
        · rw [List.nodup_append_comm, List.singleton_append]
          exact List.nodup_cons.mpr ⟨hfresh, hbetween⟩
        · exact hprecedes.concat fun b hb => hadded.covers b hb.1 hb.2

/-- A walk that goes through. -/
structure Order (deps : α → Option (List α)) (emit : α → Except ε Unit) (a : α) (l : List α) :
    Prop where
  nodup : l.Nodup
  ordered : Precedes (fun a b => b ∈ children deps a ∧ (deps b).isSome) l
  mem_iff : ∀ b, b ∈ l ↔ Upstream (children deps) a b ∧ (deps b).isSome
  emitted : ∀ b ∈ l, emit b = .ok ()
  last : (deps a).isSome → ∃ before, l = before ++ [a]

omit [DecidableEq α] in
theorem mem_of_dependsOn {l before after : List α} {a b : α}
    (h : Precedes (fun a b => b ∈ children deps a ∧ (deps b).isSome) l)
    (heq : l = before ++ a :: after) (hb : DependsOn (children deps) a b)
    (hentry : (deps b).isSome) : b ∈ before := by
  induction hb using Relation.TransGen.head_induction_on generalizing before after with
  | single hchild => exact h before _ after heq b ⟨hchild, hentry⟩
  | @head a c hchild hrest ih =>
    have hc : (deps c).isSome := by
      obtain ⟨d, hd, -⟩ := Relation.TransGen.head'_iff.mp hrest
      unfold children at hd
      cases hdeps : deps c with
      | none =>
        rw [hdeps] at hd
        cases hd
      | some below => rfl
    obtain ⟨before', between, rfl⟩ := List.append_of_mem (h before a after heq c ⟨hchild, hc⟩)
    exact List.mem_append_left _ (ih (by rw [heq, List.append_assoc, List.cons_append]))

omit [DecidableEq α] in
/-- Before the last node stands what it depends on. -/
theorem Order.mem_before {before : List α} {a b : α} (h : Order deps emit a (before ++ [a])) :
    b ∈ before ↔ DependsOn (children deps) a b ∧ (deps b).isSome := by
  constructor
  · intro hb
    obtain ⟨hupstream, hentry⟩ := (h.mem_iff b).mp (List.mem_append_left _ hb)
    refine ⟨?_, hentry⟩
    rcases Relation.reflTransGen_iff_eq_or_transGen.mp hupstream with rfl | hdepends
    · have hnodup := h.nodup
      rw [List.nodup_append_comm, List.singleton_append] at hnodup
      exact absurd hb (List.nodup_cons.mp hnodup).1
    · exact hdepends
  · exact fun hb => mem_of_dependsOn h.ordered rfl hb.1 hb.2

theorem walk_order {fuel : ℕ} {a : α} {l : List α} (h : walk deps emit fuel a [] = some (.ok l)) :
    Order deps emit a l := by
  have hadded := walk_added settled_nil h
  have hfine : Fine deps emit a := hadded.settled.fine (hadded.covers a (List.mem_singleton_self a))
  have hacc := hfine.acc (acc_walk h fun b hb => absurd hb List.not_mem_nil).1
  obtain ⟨hnodup, hordered⟩ := walk_ordered settled_nil hacc h List.nodup_nil
    (fun before b after heq => absurd heq (by simp))
  refine ⟨hnodup, hordered, fun b => ?_, fun b hb => (hadded.settled b hb).2.1, fun hentry => ?_⟩
  · constructor
    · intro hb
      obtain ⟨c, hc, hupstream⟩ := hadded.upstream b hb List.not_mem_nil
      rw [List.mem_singleton.mp hc] at hupstream
      exact ⟨hupstream, (hadded.settled b hb).1⟩
    · rintro ⟨hupstream, hentry⟩
      have ha : (deps a).isSome := by
        rcases Relation.ReflTransGen.cases_head hupstream with rfl | ⟨c, hc, -⟩
        · exact hentry
        · unfold children at hc
          cases hdeps : deps a with
          | none =>
            rw [hdeps] at hc
            cases hc
          | some below => rfl
      rcases hadded.settled.upstream (hadded.covers a (List.mem_singleton_self a) ha) hupstream with
        hmem | hnone
      · exact hmem
      · rw [hnone] at hentry
        cases hentry
  · cases fuel with
    | zero => cases h
    | succ fuel =>
      rcases walk_cases h with ⟨hstop, -⟩ | ⟨-, -, ⟨e', -, hr⟩ | ⟨between, -, hr⟩⟩
      · rcases hstop with hmem | hnone
        · cases hmem
        · rw [hnone] at hentry
          cases hentry
      · cases hr
      · cases hemit : emit a with
        | error e =>
          rw [hemit] at hr
          cases hr
        | ok u =>
          rw [hemit] at hr
          exact ⟨between, Except.ok.inj hr⟩

/-- Where nothing upstream depends on itself and all of it can be emitted, the walk goes through. -/
theorem exists_order {a : α} (hacc : Acc (fun c b => c ∈ children deps b) a)
    (hfine : Fine deps emit a) : ∃ fuel l, walk deps emit fuel a [] = some (.ok l) := by
  have hends : Acc (fun c b => Next deps emit b c) a := acc_next_of_acc hacc
  obtain ⟨fuel, r, h⟩ := (exists_walk_iff a).mpr hends
  cases r with
  | ok l => exact ⟨fuel, l, h⟩
  | error e => exact absurd hfine (not_fine_of_error h)

end Spec
end RustLake.Walk
