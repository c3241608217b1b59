import RustLake.WebSocket.Protocol
import Mathlib.Data.List.Nodup

/-! The list of the queries in flight beside the queries that run. -/
namespace RustLake.WebSocket

/-- The query is in flight as long as it runs and is not cancelled. -/
def Query.live (q : Query) : Prop := q.running = true ∧ q.cancelled = false

/-- The queries in flight are the live ones, by their ids. -/
structure Tracks (inflight : List (String × ℕ)) (queries : List Query) : Prop where
  nodup : inflight.Nodup
  mem : ∀ queryId n, (queryId, n) ∈ inflight ↔
    ∃ q, queries[n]? = some q ∧ q.queryId = queryId ∧ q.live

/-- Ids of running queries are different. -/
def Distinct (queries : List Query) : Prop :=
  ∀ (m n : ℕ) (p q : Query), queries[m]? = some p → queries[n]? = some q → p.running = true → q.running = true →
    p.queryId = q.queryId → m = n

variable {inflight : List (String × ℕ)} {queries : List Query} {n : ℕ} {q q' : Query}

theorem getElem?_set_cases {m : ℕ} {p : Query} (h : (queries.set n q')[m]? = some p) :
    (m = n ∧ p = q') ∨ (m ≠ n ∧ queries[m]? = some p) := by
  by_cases hm : n = m
  · subst hm
    rw [List.getElem?_set_self'] at h
    left
    cases hq : queries[n]? with
    | none => simp [hq] at h
    | some q => simpa [hq, eq_comm] using h
  · rw [List.getElem?_set_ne hm] at h
    exact Or.inr ⟨Ne.symm hm, h⟩

theorem getElem?_set_of_some (hq : queries[n]? = some q) : (queries.set n q')[n]? = some q' := by
  rw [List.getElem?_set_self', hq]
  rfl

/-- A query that stays live, or that stays not live, does not change what is in flight. -/
theorem Tracks.keep (h : Tracks inflight queries) (hq : queries[n]? = some q)
    (hid : q'.queryId = q.queryId) (hlive : q'.live ↔ q.live) :
    Tracks inflight (queries.set n q') := by
  refine ⟨h.nodup, ?_⟩
  intro queryId m
  rw [h.mem]
  constructor
  · rintro ⟨p, hp, hpid, hplive⟩
    by_cases hm : m = n
    · subst hm
      rw [hq] at hp
      cases hp
      exact ⟨q', getElem?_set_of_some hq, hid.trans hpid, hlive.mpr hplive⟩
    · rw [← List.getElem?_set_ne (Ne.symm hm) (a := q')] at hp
      exact ⟨p, hp, hpid, hplive⟩
  · rintro ⟨p, hp, hpid, hplive⟩
    rcases getElem?_set_cases hp with ⟨rfl, rfl⟩ | ⟨-, hold⟩
    · exact ⟨q, hq, hid.symm.trans hpid, hlive.mp hplive⟩
    · exact ⟨p, hold, hpid, hplive⟩

theorem mem_erase {e : String × ℕ} {queryId : String} :
    e ∈ erase queryId inflight ↔ e ∈ inflight ∧ e.1 ≠ queryId := by
  unfold erase
  rw [List.mem_filter, decide_eq_true_iff]

/-- A query that is no longer live is erased by its id, which no other live query has. -/
theorem Tracks.erase (h : Tracks inflight queries) (hq : queries[n]? = some q)
    (hlive : ¬ q'.live) (hother : ∀ (m : ℕ) (p : Query), m ≠ n → queries[m]? = some p → p.live →
      p.queryId ≠ q.queryId) : Tracks (erase q.queryId inflight) (queries.set n q') := by
  refine ⟨h.nodup.filter _, ?_⟩
  intro queryId m
  rw [mem_erase, h.mem]
  constructor
  · rintro ⟨⟨p, hp, hpid, hplive⟩, hne⟩
    have hm : m ≠ n := by
      rintro rfl
      rw [hq] at hp
      cases hp
      exact hne hpid.symm
    rw [← List.getElem?_set_ne (Ne.symm hm) (a := q')] at hp
    exact ⟨p, hp, hpid, hplive⟩
  · rintro ⟨p, hp, hpid, hplive⟩
    rcases getElem?_set_cases hp with ⟨rfl, rfl⟩ | ⟨hm, hold⟩
    · exact absurd hplive hlive
    · refine ⟨⟨p, hold, hpid, hplive⟩, ?_⟩
      rw [← hpid]
      exact hother m p hm hold hplive

/-- A query that becomes live is inserted under its id, which no live query has. -/
theorem Tracks.insert (h : Tracks inflight queries) (hq : queries[n]? = some q)
    (hnot : ¬ q.live) (hid : q'.queryId = q.queryId) (hlive : q'.live)
    (hother : ∀ (m : ℕ) (p : Query), queries[m]? = some p → p.live → p.queryId ≠ q.queryId) :
    Tracks (WebSocket.erase q.queryId inflight ++ [(q.queryId, n)]) (queries.set n q') := by
  have hsame : WebSocket.erase q.queryId inflight = inflight := by
    apply List.filter_eq_self.mpr
    rintro ⟨queryId, m⟩ he
    obtain ⟨p, hp, hpid, hplive⟩ := (h.mem queryId m).mp he
    apply decide_eq_true
    show queryId ≠ q.queryId
    rw [← hpid]
    exact hother m p hp hplive
  rw [hsame]
  constructor
  · apply List.nodup_append.mpr
    refine ⟨h.nodup, List.nodup_singleton _, ?_⟩
    intro e he e' he' hee
    rw [hee, List.mem_singleton.mp he', h.mem] at he
    obtain ⟨p, hp, -, hplive⟩ := he
    rw [hq] at hp
    cases hp
    exact hnot hplive
  · intro queryId m
    rw [List.mem_append, List.mem_singleton, h.mem]
    constructor
    · rintro (⟨p, hp, hpid, hplive⟩ | hnew)
      · have hm : m ≠ n := by
          rintro rfl
          rw [hq] at hp
          cases hp
          exact hnot hplive
        rw [← List.getElem?_set_ne (Ne.symm hm) (a := q')] at hp
        exact ⟨p, hp, hpid, hplive⟩
      · cases hnew
        exact ⟨q', getElem?_set_of_some hq, hid, hlive⟩
    · rintro ⟨p, hp, hpid, hplive⟩
      rcases getElem?_set_cases hp with ⟨rfl, rfl⟩ | ⟨-, hold⟩
      · right
        rw [← hpid, hid]
      · exact Or.inl ⟨p, hold, hpid, hplive⟩

/-- As many queries are in flight as are live. -/
theorem Tracks.length (h : Tracks inflight queries) :
    inflight.length = queries.countP fun q => q.running && !q.cancelled := by
  let entries := (queries.zipIdx.filter fun e => e.1.running && !e.1.cancelled).map
    fun e => (e.1.queryId, e.2)
  have hnodup : entries.Nodup := by
    apply List.Nodup.of_map Prod.snd
    have hsnd : entries.map Prod.snd =
        (queries.zipIdx.filter fun e => e.1.running && !e.1.cancelled).map Prod.snd := by
      rw [List.map_map]
      rfl
    rw [hsnd]
    apply List.Nodup.sublist (List.filter_sublist.map Prod.snd)
    rw [List.zipIdx_map_snd]
    exact List.nodup_range'
  have hmem : ∀ e, e ∈ inflight ↔ e ∈ entries := by
    rintro ⟨queryId, n⟩
    rw [h.mem, List.mem_map]
    constructor
    · rintro ⟨q, hq, hid, hrunning, hcancelled⟩
      refine ⟨(q, n), List.mem_filter.mpr ⟨List.mk_mem_zipIdx_iff_getElem?.mpr hq, ?_⟩, ?_⟩
      · rw [hrunning, hcancelled]
        rfl
      · rw [hid]
    · rintro ⟨⟨q, m⟩, he, heq⟩
      cases heq
      obtain ⟨hq, hlive⟩ := List.mem_filter.mp he
      rw [Bool.and_eq_true, Bool.not_eq_true'] at hlive
      exact ⟨q, List.mk_mem_zipIdx_iff_getElem?.mp hq, rfl, hlive⟩
  have hperm : inflight.Perm entries := (List.perm_ext_iff_of_nodup h.nodup hnodup).mpr hmem
  have hcount : (queries.zipIdx.map Prod.fst).countP (fun q => q.running && !q.cancelled) =
      entries.length := by
    rw [List.countP_map, List.countP_eq_length_filter, List.length_map]
    rfl
  rw [hperm.length_eq, ← hcount, List.zipIdx_map_fst]

theorem countP_running (queries : List Query) : queries.countP Query.running =
    queries.countP (fun q => q.running && !q.cancelled) +
      queries.countP (fun q => q.running && q.cancelled) := by
  induction queries with
  | nil => rfl
  | cons q rest ih =>
    rw [List.countP_cons, List.countP_cons, List.countP_cons, ih]
    cases q.running <;> cases q.cancelled <;> simp <;> omega

/-- A live query is found by its id. -/
theorem Tracks.lookup (h : Tracks inflight queries) (hdistinct : Distinct queries)
    (hq : queries[n]? = some q) (hlive : q.live) : inflight.lookup q.queryId = some n := by
  have hmem : (q.queryId, n) ∈ inflight := (h.mem _ _).mpr ⟨q, hq, rfl, hlive⟩
  have hunique : ∀ m, (q.queryId, m) ∈ inflight → m = n := by
    intro m hm
    obtain ⟨p, hp, hpid, hplive⟩ := (h.mem _ _).mp hm
    exact hdistinct m n p q hp hq hplive.1 hlive.1 hpid
  clear h hdistinct
  induction inflight with
  | nil => cases hmem
  | cons e rest ih =>
    obtain ⟨queryId, m⟩ := e
    by_cases he : q.queryId = queryId
    · subst he
      rw [List.lookup_cons_self, hunique m List.mem_cons_self]
    · have hne : (q.queryId == queryId) = false := beq_false_of_ne he
      rw [List.lookup_cons, hne]
      apply ih
      · rcases List.mem_cons.mp hmem with hfirst | hrest
        · cases hfirst
          exact absurd rfl he
        · exact hrest
      · intro k hk
        exact hunique k (List.mem_cons_of_mem _ hk)

theorem mem_of_lookup {queryId : String} (h : inflight.lookup queryId = some n) :
    (queryId, n) ∈ inflight := by
  obtain ⟨first, rest, hsplit, -⟩ := List.lookup_eq_some_iff.mp h
  rw [hsplit]
  exact List.mem_append_right _ List.mem_cons_self

end RustLake.WebSocket
