import RustLake.WebSocket.Inflight

/-! Runs of a connection that keep to the protocol. -/
namespace RustLake.WebSocket

structure Inv (s : State) : Prop where
  queries : ∀ n q, s.queries[n]? = some q → QueryInv s.loop n q
  tracks : Tracks s.inflight s.queries
  distinct : Distinct s.queries
  bound : ∀ n, s.loop.handles n = true ∨ s.loop.cancels n = true → n < s.queries.length
  fresh : ∀ n q, s.loop.handles n = true → s.queries[n]? = some q →
    ∀ p ∈ s.queries, p.running = true → p.queryId ≠ q.queryId
  cancelling : ∀ n q, s.loop.cancels n = true → s.queries[n]? = some q →
    q.cancelled = true ∧ q.running = true
  count : s.queries.countP Query.running ≤ maxInflight
  room : ∀ n, s.loop = .inserting n → s.queries.countP Query.running < maxInflight

section Steps
variable {s s' : State} {n : ℕ} {q q' : Query} {loop' : Loop} {inflight' : List (String × ℕ)}

theorem change_eq (hq : s.queries[n]? = some q) (f : Query → Query) :
    s.change n f = { s with queries := s.queries.set n (f q) } := by
  unfold State.change
  congr 1
  apply List.ext_getElem?
  intro m
  rw [List.getElem?_modify]
  by_cases hm : n = m
  · subst hm
    rw [getElem?_set_of_some hq, hq]
    simp
  · rw [List.getElem?_set_ne hm]
    simp [hm]

theorem QueryInv.at_loop (h : QueryInv s.loop n q) (hhandles : loop'.handles n = s.loop.handles n)
    (hcancels : loop'.cancels n = s.loop.cancels n) : QueryInv loop' n q := by
  obtain ⟨hfinals, hheedful, htold, hquiet, hwaiting⟩ := h
  refine ⟨?_, hheedful, htold, hquiet, ?_⟩
  · rw [hcancels]
    exact hfinals
  · rw [hhandles]
    exact hwaiting

/-- One query changes, and no query begins to run: the invariant is kept when it is kept for this
query and for the list of those in flight. -/
theorem Inv.set (h : Inv s) (hq : s.queries[n]? = some q) (hid : q'.queryId = q.queryId)
    (hrunning : q'.running = true → q.running = true) (hthis : QueryInv loop' n q')
    (hothers : ∀ m, m ≠ n → loop'.handles m = s.loop.handles m ∧
      loop'.cancels m = s.loop.cancels m)
    (hhandles : ∀ m, loop'.handles m = true → loop' = s.loop)
    (htracks : Tracks inflight' (s.queries.set n q'))
    (hcancels : loop'.cancels n = true → q'.cancelled = true ∧ q'.running = true) :
    Inv { s with queries := s.queries.set n q', inflight := inflight', loop := loop' } := by
  have hn : n < s.queries.length := (List.getElem?_eq_some_iff.mp hq).1
  have hget : s.queries[n] = q := (List.getElem?_eq_some_iff.mp hq).2
  have hcount : (s.queries.set n q').countP Query.running ≤ s.queries.countP Query.running := by
    rw [List.countP_set hn, hget]
    have hpos : q.running = true → 0 < s.queries.countP Query.running := fun hrun =>
      List.countP_pos_iff.mpr ⟨q, List.mem_of_getElem? hq, hrun⟩
    by_cases hrun : q'.running = true
    · have := hpos (hrunning hrun)
      rw [if_pos hrun, if_pos (hrunning hrun)]
      omega
    · rw [if_neg hrun]
      omega
  refine ⟨?_, htracks, ?_, ?_, ?_, ?_, ?_, ?_⟩
  · intro m p hp
    rcases getElem?_set_cases hp with ⟨rfl, rfl⟩ | ⟨hm, hold⟩
    · exact hthis
    · exact (h.queries m p hold).at_loop (hothers m hm).1 (hothers m hm).2
  · intro k m p r hp hr hprun hrrun hids
    rcases getElem?_set_cases hp with ⟨rfl, rfl⟩ | ⟨hk, hpold⟩
    · rcases getElem?_set_cases hr with ⟨rfl, -⟩ | ⟨hm, hrold⟩
      · rfl
      · exact h.distinct k m q r hq hrold (hrunning hprun) hrrun (hid.symm.trans hids)
    · rcases getElem?_set_cases hr with ⟨rfl, rfl⟩ | ⟨hm, hrold⟩
      · exact h.distinct k m p q hpold hq hprun (hrunning hrrun) (hids.trans hid)
      · exact h.distinct k m p r hpold hrold hprun hrrun hids
  · intro m hm
    rw [List.length_set]
    by_cases hmn : m = n
    · rw [hmn]
      exact hn
    · rw [(hothers m hmn).1, (hothers m hmn).2] at hm
      exact h.bound m hm
  · intro m r hm hr p hp hprun
    have hloop := hhandles m hm
    rw [hloop] at hm
    obtain ⟨r', hr', hrid⟩ : ∃ r', s.queries[m]? = some r' ∧ r.queryId = r'.queryId := by
      rcases getElem?_set_cases hr with ⟨rfl, rfl⟩ | ⟨-, hold⟩
      · exact ⟨q, hq, hid⟩
      · exact ⟨r, hold, rfl⟩
    rw [hrid]
    rcases List.mem_or_eq_of_mem_set hp with hold | rfl
    · exact h.fresh m r' hm hr' p hold hprun
    · rw [hid]
      exact h.fresh m r' hm hr' q (List.mem_of_getElem? hq) (hrunning hprun)
  · intro m p hm hp
    rcases getElem?_set_cases hp with ⟨rfl, rfl⟩ | ⟨hmn, hold⟩
    · exact hcancels hm
    · rw [(hothers m hmn).2] at hm
      exact h.cancelling m p hm hold
  · exact hcount.trans h.count
  · intro m hm
    have hinserting : loop' = .inserting m := hm
    have hloop : loop' = s.loop := by
      apply hhandles m
      rw [hinserting]
      exact decide_eq_true rfl
    exact hcount.trans_lt (h.room m (hloop.symm.trans hm))

/-- Only the loop changes. -/
theorem Inv.at_loop (h : Inv s) (hothers : ∀ m, loop'.handles m = s.loop.handles m ∧
      loop'.cancels m = s.loop.cancels m)
    (hroom : ∀ m, loop' = .inserting m → s.queries.countP Query.running < maxInflight) :
    Inv { s with loop := loop' } := by
  refine ⟨?_, h.tracks, h.distinct, ?_, ?_, ?_, h.count, hroom⟩
  · intro m p hp
    exact (h.queries m p hp).at_loop (hothers m).1 (hothers m).2
  · intro m hm
    rw [(hothers m).1, (hothers m).2] at hm
    exact h.bound m hm
  · intro m r hm
    rw [(hothers m).1] at hm
    exact h.fresh m r hm
  · intro m p hm
    rw [(hothers m).2] at hm
    exact h.cancelling m p hm

/-- Before its task is there, a query is live in no sense. -/
theorem not_running_of_waiting (h : q.place = .waiting) : q.running = false := by
  simp [Query.running, h]

theorem inv_query (h : Inv s) (hloop : s.loop = .reading) {queryId : String} (sql engine : String)
    (hok : ∀ q ∈ s.queries, q.running = true → q.queryId ≠ queryId) :
    Inv { s with
      loop := .checking s.queries.length
      queries := s.queries ++ [⟨queryId, sql, engine, .waiting, false, []⟩] } := by
  have hnew : ∀ m p, (s.queries ++ [⟨queryId, sql, engine, .waiting, false, []⟩])[m]? = some p →
      (m < s.queries.length ∧ s.queries[m]? = some p) ∨ (m = s.queries.length ∧
        p = ⟨queryId, sql, engine, .waiting, false, []⟩) := by
    intro m p hp
    by_cases hm : m < s.queries.length
    · rw [List.getElem?_append_left hm] at hp
      exact Or.inl ⟨hm, hp⟩
    · obtain ⟨hlt, -⟩ := List.getElem?_eq_some_iff.mp hp
      rw [List.length_append, List.length_singleton] at hlt
      have hlast : m = s.queries.length := by omega
      subst hlast
      rw [List.getElem?_concat_length] at hp
      exact Or.inr ⟨rfl, (Option.some.inj hp).symm⟩
  have hcount : (s.queries ++ [(⟨queryId, sql, engine, .waiting, false, []⟩ : Query)]).countP
      Query.running = s.queries.countP Query.running := by
    rw [List.countP_append]
    rfl
  refine ⟨?_, ⟨h.tracks.nodup, ?_⟩, ?_, ?_, ?_, ?_, ?_, ?_⟩
  · intro m p hp
    rcases hnew m p hp with ⟨hm, hold⟩ | ⟨rfl, rfl⟩
    · apply (h.queries m p hold).at_loop
      · rw [hloop]
        exact decide_eq_false (by omega)
      · rw [hloop]
        rfl
    · refine ⟨rfl, nofun, nofun, List.Pairwise.nil, ?_⟩
      exact iff_of_true rfl (decide_eq_true rfl)
  · intro id m
    rw [h.tracks.mem]
    constructor
    · rintro ⟨p, hp, hpid, hplive⟩
      refine ⟨p, ?_, hpid, hplive⟩
      rw [List.getElem?_append_left (List.getElem?_eq_some_iff.mp hp).1]
      exact hp
    · rintro ⟨p, hp, hpid, hplive⟩
      rcases hnew m p hp with ⟨-, hold⟩ | ⟨rfl, rfl⟩
      · exact ⟨p, hold, hpid, hplive⟩
      · cases hplive.1
  · intro k m p r hp hr hprun hrrun hids
    rcases hnew k p hp with ⟨-, hpold⟩ | ⟨-, rfl⟩
    · rcases hnew m r hr with ⟨-, hrold⟩ | ⟨-, rfl⟩
      · exact h.distinct k m p r hpold hrold hprun hrrun hids
      · cases hrrun
    · cases hprun
  · intro m hm
    rcases hm with hm | hm
    · have hlast : s.queries.length = m := of_decide_eq_true hm
      rw [List.length_append, List.length_singleton]
      omega
    · cases hm
  · intro m r hm hr p hp hprun
    have hlast : s.queries.length = m := of_decide_eq_true hm
    rcases hnew m r hr with ⟨hlt, -⟩ | ⟨-, rfl⟩
    · omega
    · rcases List.mem_append.mp hp with hold | hlast
      · exact hok p hold hprun
      · rw [List.mem_singleton.mp hlast] at hprun
        cases hprun
  · intro m p hm
    cases hm
  · show _ ≤ _
    rw [hcount]
    exact h.count
  · intro m hm
    cases hm

/-- The query that the loop handles is there, and waits. -/
theorem Inv.handled (h : Inv s) (hn : s.loop.handles n = true) :
    ∃ q, s.queries[n]? = some q ∧ q.place = .waiting ∧ q.cancelled = false ∧ q.finals = 0 := by
  have hlt := h.bound n (Or.inl hn)
  have hq := List.getElem?_eq_getElem hlt
  have hthis := h.queries n _ hq
  have hplace := hthis.waiting.mpr hn
  have hcancelled : s.queries[n].cancelled = false := by
    apply Bool.eq_false_iff.mpr
    intro hcancelled
    rcases hthis.heedful hcancelled with hattentive | hending | hended
    · rw [hplace] at hattentive
      cases hattentive
    · rw [hplace] at hending
      cases hending
    · rw [hplace] at hended
      cases hended
  have hfinals := hthis.finals
  rw [hcancelled, hplace] at hfinals
  exact ⟨_, hq, hplace, hcancelled, hfinals⟩

theorem inv_refusal (h : Inv s) (hloop : s.loop = .refusing n) :
    Inv { s.change n fun q =>
        { q.send (.queryError q.queryId refusal "") with place := .ended } with
      loop := .reading } := by
  have hn : s.loop.handles n = true := by
    rw [hloop]
    exact decide_eq_true rfl
  obtain ⟨q, hq, hplace, hcancelled, hfinals⟩ := h.handled hn
  have hthis := h.queries n q hq
  rw [change_eq hq]
  apply h.set hq
  · rfl
  · intro hrunning
    cases hrunning
  · refine ⟨?_, fun _ => Or.inr (Or.inr rfl), ?_, quiet_send hthis.quiet (Or.inl rfl), ?_⟩
    · have hsame : (q.send (.queryError q.queryId refusal "")).cancelled = false := hcancelled
      rw [hsame, if_neg Bool.false_ne_true, if_pos (Or.inr rfl)]
      show (q.send (.queryError q.queryId refusal "")).finals = 1
      rw [finals_send, hfinals]
      rfl
    · intro _ m hm
      rcases List.mem_append.mp hm with hold | hnew
      · exact hthis.told hcancelled m hold
      · rw [List.mem_singleton.mp hnew]
        rfl
    · exact iff_of_false nofun nofun
  · intro m hm
    rw [hloop]
    exact ⟨(decide_eq_false (Ne.symm hm)).symm, rfl⟩
  · intro m hm
    cases hm
  · have hwas := not_running_of_waiting hplace
    apply h.tracks.keep hq
    · rfl
    · constructor
      · rintro ⟨hrunning, -⟩
        cases hrunning
      · rintro ⟨hrunning, -⟩
        rw [hwas] at hrunning
        cases hrunning
  · intro hm
    cases hm

theorem inv_check (h : Inv s) (hloop : s.loop = .checking n)
    (hok : s.inflight.length < maxInflight →
      s.inflight.length + s.queries.countP (fun q => q.running && q.cancelled) < maxInflight) :
    Inv { s with loop :=
      if maxInflight ≤ s.inflight.length then .refusing n else .inserting n } := by
  apply h.at_loop
  · intro m
    rw [hloop]
    split <;> exact ⟨rfl, rfl⟩
  · intro m hm
    split at hm
    · cases hm
    · rename_i hless
      rw [countP_running, ← h.tracks.length]
      exact hok (Nat.lt_of_not_le hless)

theorem inv_insert (h : Inv s) (hloop : s.loop = .inserting n) (hq : s.queries[n]? = some q) :
    Inv { s.change n fun q => { q with place := .starting } with
      inflight := erase q.queryId s.inflight ++ [(q.queryId, n)]
      loop := .reading } := by
  have hn : s.loop.handles n = true := by
    rw [hloop]
    exact decide_eq_true rfl
  obtain ⟨q₀, hq₀, hplace, hcancelled, hfinals⟩ := h.handled hn
  rw [hq] at hq₀
  cases hq₀
  have hthis := h.queries n q hq
  have hwas := not_running_of_waiting hplace
  have hlt : n < s.queries.length := (List.getElem?_eq_some_iff.mp hq).1
  have hget : s.queries[n] = q := (List.getElem?_eq_some_iff.mp hq).2
  have hfresh := h.fresh n q hn hq
  have hcount : (s.queries.set n { q with place := .starting }).countP Query.running =
      s.queries.countP Query.running + 1 := by
    have hstarting : ({ q with place := .starting } : Query).running = true := rfl
    rw [List.countP_set hlt, hget, hwas, hstarting]
    rfl
  rw [change_eq hq]
  refine ⟨?_, ?_, ?_, ?_, ?_, ?_, ?_, ?_⟩
  · intro m p hp
    rcases getElem?_set_cases hp with ⟨rfl, rfl⟩ | ⟨hm, hold⟩
    · refine ⟨?_, fun _ => Or.inl rfl, hthis.told, hthis.quiet, iff_of_false nofun nofun⟩
      show q.finals = _
      rw [hfinals, hcancelled]
      rfl
    · apply (h.queries m p hold).at_loop
      · rw [hloop]
        exact (decide_eq_false (Ne.symm hm)).symm
      · rw [hloop]
        rfl
  · apply h.tracks.insert hq
    · rintro ⟨hrunning, -⟩
      rw [hwas] at hrunning
      cases hrunning
    · rfl
    · exact ⟨rfl, hcancelled⟩
    · intro m p hp hplive
      exact hfresh p (List.mem_of_getElem? hp) hplive.1
  · intro k m p r hp hr hprun hrrun hids
    rcases getElem?_set_cases hp with ⟨rfl, rfl⟩ | ⟨hk, hpold⟩
    · rcases getElem?_set_cases hr with ⟨rfl, -⟩ | ⟨-, hrold⟩
      · rfl
      · exact absurd hids.symm (hfresh r (List.mem_of_getElem? hrold) hrrun)
    · rcases getElem?_set_cases hr with ⟨rfl, rfl⟩ | ⟨-, hrold⟩
      · exact absurd hids (hfresh p (List.mem_of_getElem? hpold) hprun)
      · exact h.distinct k m p r hpold hrold hprun hrrun hids
  · rintro m (hm | hm) <;> cases hm
  · intro m r hm
    cases hm
  · intro m p hm
    cases hm
  · show _ ≤ _
    rw [hcount]
    exact h.room n hloop
  · intro m hm
    cases hm

theorem inv_cancel (h : Inv s) (hloop : s.loop = .reading) {queryId : String}
    (hn : (queryId, n) ∈ s.inflight)
    (hok : ∀ e ∈ s.inflight, e.1 = queryId → ∀ q ∈ s.queries[e.2]?, q.place.attentive = true) :
    Inv { s.change n fun q => { q with cancelled := true } with
      inflight := erase queryId s.inflight
      loop := .cancelling n queryId } := by
  obtain ⟨q, hq, hid, hrunning, hcancelled⟩ := (h.tracks.mem _ _).mp hn
  have hattentive := hok _ hn rfl q hq
  have hthis := h.queries n q hq
  have hnotDone : ¬ (q.place = .ending ∨ q.place = .ended) := by
    rintro (hplace | hplace) <;> rw [hplace] at hattentive <;> cases hattentive
  have hfinals := hthis.finals
  rw [hcancelled, if_neg Bool.false_ne_true, if_neg hnotDone] at hfinals
  have hplace : q.place ≠ .waiting := by
    intro hplace
    rw [hplace] at hattentive
    cases hattentive
  rw [change_eq hq]
  apply h.set hq
  · rfl
  · exact fun _ => hrunning
  · refine ⟨?_, fun _ => Or.inl hattentive, nofun, hthis.quiet, iff_of_false hplace nofun⟩
    have hcancels : (Loop.cancelling n queryId).cancels n = true := decide_eq_true rfl
    rw [if_pos rfl, if_pos hcancels]
    exact hfinals
  · intro m hm
    rw [hloop]
    exact ⟨rfl, decide_eq_false (Ne.symm hm)⟩
  · intro m hm
    cases hm
  · rw [← hid]
    apply h.tracks.erase hq
    · rintro ⟨-, hnot⟩
      cases hnot
    · intro m p hm hp hplive hsame
      exact hm (h.distinct m n p q hp hq hplive.1 hrunning hsame)
  · intro _
    exact ⟨rfl, hrunning⟩

theorem inv_cancelled (h : Inv s) {queryId : String} (hloop : s.loop = .cancelling n queryId) :
    Inv { s.change n fun q => q.send (.queryCancelled queryId) with loop := .reading } := by
  have hn : s.loop.cancels n = true := by
    rw [hloop]
    exact decide_eq_true rfl
  have hlt := h.bound n (Or.inr hn)
  have hq := List.getElem?_eq_getElem hlt
  generalize s.queries[n] = q at hq
  obtain ⟨hcancelled, hrunning⟩ := h.cancelling n q hn hq
  have hthis := h.queries n q hq
  have hfinals := hthis.finals
  rw [hcancelled, if_pos rfl, hn, if_pos rfl] at hfinals
  rw [change_eq hq]
  apply h.set hq
  · rfl
  · exact id
  · refine ⟨?_, hthis.heedful, ?_, quiet_send hthis.quiet (Or.inl rfl), ?_⟩
    · have hsame : (q.send (.queryCancelled queryId)).cancelled = true := hcancelled
      rw [hsame, if_pos rfl, finals_send, hfinals]
      rfl
    · intro hnot
      have hsame : q.cancelled = false := hnot
      rw [hcancelled] at hsame
      cases hsame
    · refine iff_of_false (fun hplace => ?_) nofun
      have hwas := not_running_of_waiting (q := q) hplace
      rw [hrunning] at hwas
      cases hwas
  · intro m hm
    rw [hloop]
    exact ⟨rfl, (decide_eq_false (Ne.symm hm)).symm⟩
  · intro m hm
    cases hm
  · exact h.tracks.keep hq rfl Iff.rfl
  · intro hm
    cases hm

theorem inv_task (h : Inv s) (hq : s.queries[n]? = some q) {taskStep : TaskStep}
    (hok : Heeds q taskStep) (hstep : q.step taskStep = some q') : Inv (s.change n fun _ => q') := by
  obtain ⟨hthis, hid, hcancelled, hwas, hrunning⟩ := (h.queries n q hq).step hok hstep
  rw [change_eq hq]
  apply h.set hq hid (fun _ => hwas) hthis (fun _ _ => ⟨rfl, rfl⟩) fun _ _ => rfl
  · apply h.tracks.keep hq hid
    unfold Query.live
    rw [hcancelled, hwas, hrunning]
  · intro hn
    rw [hcancelled]
    exact ⟨(h.cancelling n q hn hq).1, hrunning⟩

theorem inv_remove (h : Inv s) (hq : s.queries[n]? = some q) (hplace : q.place = .ending)
    (hlocked : s.loop.locked = false) :
    Inv { s.change n fun q => { q with place := .ended } with
      inflight := erase q.queryId s.inflight } := by
  have hrunning : q.running = true := by simp [Query.running, hplace]
  have hthis := h.queries n q hq
  have hnot : s.loop.cancels n = false := by
    cases hloop : s.loop with
    | cancelling m queryId =>
      rw [hloop] at hlocked
      cases hlocked
    | _ => rfl
  rw [change_eq hq]
  apply h.set hq
  · rfl
  · intro hnow
    cases hnow
  · have hwaiting : q.place ≠ .waiting := by
      intro hnow
      rw [hplace] at hnow
      cases hnow
    refine ⟨?_, fun _ => Or.inr (Or.inr rfl), hthis.told, hthis.quiet,
      iff_of_false ?_ (mt hthis.waiting.mpr hwaiting)⟩
    · have hfinals := hthis.finals
      rw [if_pos (Or.inl hplace)] at hfinals
      rw [if_pos (Or.inr rfl)]
      exact hfinals
    · intro hnow
      cases hnow
  · exact fun _ _ => ⟨rfl, rfl⟩
  · exact fun _ _ => rfl
  · apply h.tracks.erase hq
    · rintro ⟨hnow, -⟩
      cases hnow
    · intro m p hm hp hplive hsame
      exact hm (h.distinct m n p q hp hq hplive.1 hrunning hsame)
  · intro hn
    have hcancels : s.loop.cancels n = true := hn
    rw [hnot] at hcancels
    cases hcancels

/-- An orderly step keeps the invariant. -/
theorem step_inv {action : Action} (h : Inv s) (hok : Orderly s action)
    (hstep : step s action = some s') : Inv s' := by
  unfold step at hstep
  split at hstep
  · split at hstep
    · rename_i hloop
      cases hstep
      exact inv_query h hloop _ _ hok
    · cases hstep
  · split at hstep
    · rename_i queryId _ _ n hloop hlookup
      cases hstep
      exact inv_cancel h hloop (mem_of_lookup hlookup) hok
    · cases hstep
      exact h
    · cases hstep
  · split at hstep
    · cases hstep
      exact ⟨h.queries, h.tracks, h.distinct, h.bound, h.fresh, h.cancelling, h.count, h.room⟩
    · cases hstep
  · split at hstep
    · cases hstep
      exact ⟨h.queries, h.tracks, h.distinct, h.bound, h.fresh, h.cancelling, h.count, h.room⟩
    · cases hstep
  · split at hstep
    · rename_i hloop
      cases hstep
      apply h.at_loop
      · intro m
        rw [hloop]
        exact ⟨rfl, rfl⟩
      · intro m hm
        cases hm
    · cases hstep
  · split at hstep
    · rename_i n hloop
      cases hstep
      exact inv_check h hloop hok
    · cases hstep
  · split at hstep
    · rename_i n hloop
      cases hstep
      exact inv_refusal h hloop
    · cases hstep
  · split at hstep
    · rename_i n hloop
      obtain ⟨q, hq, rfl⟩ := Option.map_eq_some_iff.mp hstep
      exact inv_insert h hloop hq
    · cases hstep
  · split at hstep
    · rename_i n queryId hloop
      cases hstep
      exact inv_cancelled h hloop
    · cases hstep
  · rename_i n taskStep
    obtain ⟨q', hq', rfl⟩ := Option.map_eq_some_iff.mp hstep
    obtain ⟨q, hq, hnext⟩ := Option.bind_eq_some_iff.mp hq'
    have hheeds : Heeds q taskStep := by
      cases taskStep with
      | refuse table => exact hok q hq
      | result outcome => exact hok q hq
      | _ => trivial
    exact inv_task h hq hheeds hnext
  · rename_i n
    split at hstep
    · rename_i q hq
      split at hstep
      · rename_i hcond
        cases hstep
        exact inv_remove h hq hcond.1 hcond.2
      · cases hstep
    · cases hstep

/-- What the invariant says of the messages. -/
theorem Inv.protocol (h : Inv s) : Protocol s := by
  refine ⟨?_, ?_, ?_, h.count⟩
  · intro q hq
    obtain ⟨n, hn⟩ := List.mem_iff_getElem?.mp hq
    have hfinals := (h.queries n q hn).finals
    constructor
    · rw [hfinals]
      split <;> split <;> omega
    · intro hended
      rw [hfinals]
      by_cases hcancelled : q.cancelled = true
      · have hnot : ¬ s.loop.cancels n = true := by
          intro hcancels
          have hrunning := (h.cancelling n q hcancels hn).2
          simp [Query.running, hended] at hrunning
        rw [if_pos hcancelled, if_neg hnot]
      · rw [if_neg hcancelled, if_pos (Or.inr hended)]
  · intro q hq
    obtain ⟨n, hn⟩ := List.mem_iff_getElem?.mp hq
    exact (h.queries n q hn).quiet
  · intro n q hq hrunning hcancelled
    exact h.tracks.lookup h.distinct hq ⟨hrunning, hcancelled⟩

theorem inv_start : Inv .start := by
  refine ⟨nofun, ⟨List.nodup_nil, ?_⟩, nofun, ?_, nofun, nofun, Nat.zero_le _, nofun⟩
  · intro queryId n
    exact iff_of_false nofun nofun
  · rintro n (hn | hn) <;> cases hn

/-- In every state of every run in which no id is used again while its query runs, queries are
cancelled at attentive places only and are then neither refused nor answered by their engine, and
a query is let in only when those cancelled but still running leave room, the messages keep to the
protocol. -/
theorem protocol_of_orderly {actions : List Action} (halong : Run.Along step Orderly .start actions)
    (hrun : Run.run step .start actions = some s) : Protocol s :=
  (Run.invariant (fun _ _ _ => step_inv) inv_start halong hrun).protocol

end Steps
section Dashboard

/-- A query that comes in and is let in. -/
def opened (queryId sql : String) : List Action := [.query queryId sql "auto", .check, .insert]

/-- One query is answered, and another is cancelled while it runs. -/
def oneCancelled : List Action :=
  opened "q1" "SELECT 1" ++ opened "q2" "SELECT * FROM orders" ++
    [.task 0 (.begin "DataFusion" "OLAP"), .task 1 (.begin "DataFusion" "OLAP"),
      .task 0 (.result (.ok ["1"] ["\x7b\"1\":1\x7d"])), .task 0 .nextChunk, .cancel "q2",
      .sendCancelled, .task 0 .sendRows, .task 1 .seeCancelled, .task 0 .nextChunk,
      .task 0 (.complete 4 0 3), .remove 1, .remove 0]

theorem protocol_dashboard :
    ∃ s, Run.run step .start oneCancelled = some s ∧ s.inflight = [] ∧ Protocol s := by
  have halong : Run.Along step Orderly .start oneCancelled := by decide
  exact ⟨_, rfl, rfl, protocol_of_orderly halong rfl⟩

/-- The cancel comes after the completion and before the query is removed. -/
def cancelledComplete : List Action :=
  opened "q1" "SELECT 1" ++ [.task 0 (.begin "DataFusion" "OLAP"), .task 0 (.result (.ok [] [])),
    .task 0 .nextChunk, .task 0 (.complete 4 0 3), .cancel "q1", .sendCancelled]

/-- The cancel comes after the look at the cancellation and before the rows are sent. -/
def cancelledRows : List Action :=
  opened "q1" "SELECT 1" ++ [.task 0 (.begin "DataFusion" "OLAP"),
    .task 0 (.result (.ok ["1"] ["\x7b\"1\":1\x7d"])), .task 0 .nextChunk, .cancel "q1",
    .sendCancelled, .task 0 .sendRows]

/-- The id of a running query comes again. -/
def idAgain : List Action := opened "q1" "SELECT * FROM orders" ++ opened "q1" "SELECT 1"

/-- A fourth query comes while one of three is cancelled and still running. -/
def fourQueries : List Action :=
  opened "q1" "SELECT 1" ++ opened "q2" "SELECT 2" ++ opened "q3" "SELECT 3" ++
    [.cancel "q1", .sendCancelled] ++ opened "q4" "SELECT 4"

/-- Two final messages for one query, rows after its cancelled message, a running query that its id
does not cancel, and four queries that run. -/
theorem dashboard_broken :
    (∃ s, Run.run step .start cancelledComplete = some s ∧ ∃ q ∈ s.queries, q.finals = 2) ∧
    (∃ s, Run.run step .start cancelledRows = some s ∧ ∃ q ∈ s.queries,
      ¬ q.sent.Pairwise fun a b => a.isCancelled = true → b.isAnswer = false) ∧
    (∃ s, Run.run step .start idAgain = some s ∧ ∃ q, s.queries[0]? = some q ∧
      q.running = true ∧ q.cancelled = false ∧ s.inflight.lookup q.queryId ≠ some 0) ∧
    ∃ s, Run.run step .start fourQueries = some s ∧
      s.queries.countP Query.running = maxInflight + 1 := by
  refine ⟨⟨_, rfl, ?_⟩, ⟨_, rfl, ?_⟩, ⟨_, rfl, ?_⟩, ⟨_, rfl, rfl⟩⟩
  · exact ⟨_, List.mem_singleton_self _, rfl⟩
  · refine ⟨_, List.mem_singleton_self _, ?_⟩
    decide
  · refine ⟨_, rfl, rfl, rfl, ?_⟩
    decide

end Dashboard
end RustLake.WebSocket
