import RustLake.Order.Leases

/-! `FlightClientPool`: connections that are kept for later queries, with queries that run beside
each other and evictions that run some time after a query has failed. -/
namespace RustLake.Flight.Pool

structure CachedChannel where
  channel : ℕ
  createdAt : ℕ
deriving DecidableEq

structure FlightClientPool where
  channels : String → Option CachedChannel
  maxIdleDuration : ℕ

/-- What comes of an attempt to connect. -/
inductive Connection where
  | invalid (e : String)
  | failed (e : String)
  | connected
deriving DecidableEq

namespace FlightClientPool
variable (pool : FlightClientPool)

def isFresh (now : ℕ) (cached : CachedChannel) : Bool :=
  now - cached.createdAt < pool.maxIdleDuration

def remove (endpoint : String) : FlightClientPool :=
  { pool with channels := Function.update pool.channels endpoint none }

/-- The pool after a channel was asked for, and the channel; `next` is the one that is new. The lock
is held from `start`, when the age of a cached channel is looked at, to `finish`. -/
def getChannel (endpoint : String) (start finish next : ℕ) (connection : Connection) :
    FlightClientPool × Except String ℕ :=
  match (pool.channels endpoint).filter (pool.isFresh start) with
  | some cached => (pool, .ok cached.channel)
  | none =>
    let pool := pool.remove endpoint
    match connection with
    | .invalid e => (pool, .error ("Invalid endpoint: " ++ e))
    | .failed e => (pool, .error ("Connection to " ++ endpoint ++ " failed: " ++ e))
    | .connected => ({ pool with
        channels := Function.update pool.channels endpoint (some ⟨next, finish⟩) }, .ok next)

def clear : FlightClientPool := { pool with channels := fun _ => none }

def evictExpired (now : ℕ) : FlightClientPool :=
  { pool with channels := fun endpoint => (pool.channels endpoint).filter (pool.isFresh now) }

end FlightClientPool

/-- A request that is sent to an endpoint on a channel. -/
structure Call where
  endpoint : String
  channel : ℕ
deriving DecidableEq

/-- The pool with the calls that wait for an answer, the evictions that wait for the lock, and all
calls so far. A channel has the number of the query that made it. -/
structure State where
  pool : FlightClientPool
  clock : ℕ
  queries : ℕ
  calls : List Call
  evictions : List Call
  sent : List Call

def State.new (maxIdleDuration : ℕ) : State where
  pool := ⟨fun _ => none, maxIdleDuration⟩
  clock := 0
  queries := 0
  calls := []
  evictions := []
  sent := []

inductive Action where
  | query (endpoint : String) (start finish : ℕ) (connection : Connection)
  | answer (call : Call) (ok : Bool)
  | evict (call : Call)
  | clear
  | evictExpired (now : ℕ)
deriving DecidableEq

/-- A query up to its call of `do_get`. -/
def State.query (s : State) (endpoint : String) (start finish : ℕ) (connection : Connection) :
    State :=
  let (pool, channel) := s.pool.getChannel endpoint start finish s.queries connection
  let call := match channel with
    | .ok channel => [⟨endpoint, channel⟩]
    | .error _ => []
  { s with
    pool := pool
    clock := finish
    queries := s.queries + 1
    calls := s.calls ++ call
    sent := s.sent ++ call }

def step (s : State) : Action → Option State
  | .query endpoint start finish connection =>
    if s.clock ≤ start ∧ start ≤ finish then some (s.query endpoint start finish connection)
    else none
  | .answer call ok =>
    if call ∈ s.calls then some { s with
      calls := s.calls.erase call
      evictions := if ok then s.evictions else s.evictions ++ [call] }
    else none
  | .evict call =>
    if call ∈ s.evictions then some { s with
      evictions := s.evictions.erase call
      pool := s.pool.remove call.endpoint }
    else none
  | .clear => some { s with pool := s.pool.clear }
  | .evictExpired now =>
    if s.clock ≤ now then some { s with clock := now, pool := s.pool.evictExpired now } else none

/-- What an action means to the channel of an endpoint. Using it does not renew it. -/
def Action.event (endpoint : String) : Action → Option (Lease.Event ℕ)
  | .query other start _ _ => if other = endpoint then some (.sweep start) else none
  | .answer _ _ => none
  | .evict call => if call.endpoint = endpoint then some .release else none
  | .clear => some .release
  | .evictExpired now => some (.sweep now)

def limits (maxIdleDuration : ℕ) : Lease.Limits ℕ where
  suspects _ _ := false
  expires created now := maxIdleDuration ≤ now - created

section
variable {s s' : State} {action : Action} {endpoint : String} {cached : CachedChannel}

theorem lastHeard_event (endpoint : String) (created : ℕ) (actions : List Action) :
    Lease.lastHeard (Action.event endpoint) created actions = created := by
  induction actions using List.reverseRecOn with
  | nil => rfl
  | append_singleton actions action ih =>
    have hquiet : ∀ t, action.event endpoint ≠ some (.renew t) := by
      intro t
      cases action <;> simp only [Action.event] <;> (try split_ifs) <;> simp
    rw [Lease.lastHeard_concat hquiet, ih]

/-- A query connects, since there is no channel that is young enough. -/
def Connects (s : State) (action : Action) (endpoint : String) (cached : CachedChannel) : Prop :=
  ∃ start finish, action = .query endpoint start finish .connected ∧
    (∀ old, s.pool.channels endpoint = some old → s.pool.maxIdleDuration ≤ start - old.createdAt) ∧
    cached = ⟨s.queries, finish⟩

theorem channels_remove (pool : FlightClientPool) (other : String) :
    (pool.remove other).channels endpoint = if endpoint = other then none
      else pool.channels endpoint := by
  simp [FlightClientPool.remove, Function.update_apply]

theorem isFresh_iff (pool : FlightClientPool) (now : ℕ) :
    pool.isFresh now cached = true ↔
      (limits pool.maxIdleDuration).expires cached.createdAt now = false := by
  simp [FlightClientPool.isFresh, limits]

/-- What a query finds or makes. -/
theorem getChannel_cases (pool : FlightClientPool) (endpoint : String) (start finish next : ℕ)
    (connection : Connection) :
    (∃ cached, pool.channels endpoint = some cached ∧ pool.isFresh start cached = true ∧
      pool.getChannel endpoint start finish next connection = (pool, .ok cached.channel)) ∨
    (∀ cached, pool.channels endpoint = some cached → pool.isFresh start cached = false) ∧
      ((connection ≠ .connected ∧ ∃ e, pool.getChannel endpoint start finish next connection =
          (pool.remove endpoint, .error e)) ∨
        connection = .connected ∧ pool.getChannel endpoint start finish next connection =
          ({ pool with channels := Function.update pool.channels endpoint (some ⟨next, finish⟩) },
            .ok next)) := by
  cases hfound : (pool.channels endpoint).filter (pool.isFresh start) with
  | some cached =>
    obtain ⟨hcached, hfresh⟩ := Option.filter_eq_some_iff.mp hfound
    refine Or.inl ⟨cached, hcached, hfresh, ?_⟩
    rw [FlightClientPool.getChannel, hfound]
  | none =>
    refine Or.inr ⟨fun cached hcached => ?_, ?_⟩
    · rw [hcached, Option.filter_eq_none_iff] at hfound
      exact Bool.eq_false_iff.mpr (hfound cached rfl)
    · cases connection with
      | invalid e =>
        left
        exact ⟨by simp, _, by rw [FlightClientPool.getChannel, hfound]⟩
      | failed e =>
        left
        exact ⟨by simp, _, by rw [FlightClientPool.getChannel, hfound]⟩
      | connected =>
        right
        refine ⟨rfl, ?_⟩
        rw [FlightClientPool.getChannel, hfound]
        simp [FlightClientPool.remove]

/-- The pool that an action leaves. -/
def Action.pool (s : State) : Action → FlightClientPool
  | .query endpoint start finish connection =>
    (s.pool.getChannel endpoint start finish s.queries connection).1
  | .answer _ _ => s.pool
  | .evict call => s.pool.remove call.endpoint
  | .clear => s.pool.clear
  | .evictExpired now => s.pool.evictExpired now

/-- The calls that an action sends. -/
def Action.sends (s : State) : Action → List Call
  | .query endpoint start finish connection =>
    match (s.pool.getChannel endpoint start finish s.queries connection).2 with
    | .ok channel => [⟨endpoint, channel⟩]
    | .error _ => []
  | _ => []

/-- The number of queries that an action makes. -/
def Action.count : Action → ℕ
  | .query _ _ _ _ => 1
  | _ => 0

theorem step_spec (h : step s action = some s') :
    s'.pool = action.pool s ∧ s'.sent = s.sent ++ action.sends s ∧
      s'.queries = s.queries + action.count := by
  cases action <;> rw [step] at h <;> (try split_ifs at h) <;> obtain rfl := Option.some.inj h <;>
    simp [Action.pool, Action.sends, Action.count, State.query]

theorem maxIdleDuration_step (h : step s action = some s') :
    s'.pool.maxIdleDuration = s.pool.maxIdleDuration := by
  rw [(step_spec h).1]
  cases action with
  | query endpoint start finish connection =>
    rw [Action.pool]
    rcases getChannel_cases s.pool endpoint start finish s.queries connection with
      ⟨_, -, -, heq⟩ | ⟨-, ⟨-, _, heq⟩ | ⟨-, heq⟩⟩ <;> simp [heq, FlightClientPool.remove]
  | answer call ok => rfl
  | evict call => rfl
  | clear => rfl
  | evictExpired now => rfl

/-- An action leaves the channel of an endpoint, unless it gives it back or finds it too old, or
makes a new one. -/
theorem channels_step_iff (h : step s action = some s') :
    s'.pool.channels endpoint = some cached ↔
      s.pool.channels endpoint = some cached ∧ action.event endpoint ≠ some .release ∧
        (∀ t, action.event endpoint = some (.sweep t) →
          (limits s.pool.maxIdleDuration).expires cached.createdAt t = false) ∨
      Connects s action endpoint cached := by
  rw [(step_spec h).1]
  cases action with
  | query other start finish connection =>
    rw [Action.pool]
    by_cases hsame : other = endpoint
    · subst hsame
      have hevent : (Action.query other start finish connection).event other =
          some (.sweep start) := if_pos rfl
      simp only [hevent, ne_eq, Option.some.injEq, reduceCtorEq, not_false_eq_true, true_and,
        Lease.Event.sweep.injEq, forall_eq']
      rcases getChannel_cases s.pool other start finish s.queries connection with
        ⟨c, hc, hfresh, heq⟩ | ⟨hstale, ⟨hconnection, e, heq⟩ | ⟨rfl, heq⟩⟩
      · rw [heq, hc]
        have hnot : ¬ Connects s (.query other start finish connection) other cached := by
          rintro ⟨_, _, hquery, hold, -⟩
          cases hquery
          have hexpired := hold c hc
          have hyoung := (isFresh_iff s.pool start).mp hfresh
          simp only [limits, decide_eq_false_iff_not] at hyoung
          exact hyoung hexpired
        simp only [hnot, or_false, Option.some.injEq, iff_self_and]
        rintro rfl
        exact (isFresh_iff s.pool start).mp hfresh
      · rw [heq]
        refine iff_of_false (by simp [channels_remove]) ?_
        rintro (⟨hcached, hyoung⟩ | ⟨_, _, hquery, -, -⟩)
        · have hfresh := (isFresh_iff s.pool start).mpr hyoung
          rw [hstale cached hcached] at hfresh
          cases hfresh
        · cases hquery
          exact hconnection rfl
      · rw [heq]
        simp only [Function.update_self, Option.some.injEq]
        constructor
        · rintro rfl
          refine Or.inr ⟨start, finish, rfl, fun old hold => ?_, rfl⟩
          have hexpired := hstale old hold
          simpa [FlightClientPool.isFresh] using hexpired
        · rintro (⟨hcached, hyoung⟩ | ⟨_, _, hquery, -, rfl⟩)
          · have hfresh := (isFresh_iff s.pool start).mpr hyoung
            rw [hstale cached hcached] at hfresh
            cases hfresh
          · cases hquery
            rfl
    · have hchannels : (s.pool.getChannel other start finish s.queries connection).1.channels
          endpoint = s.pool.channels endpoint := by
        rcases getChannel_cases s.pool other start finish s.queries connection with
          ⟨_, -, -, heq⟩ | ⟨-, ⟨-, _, heq⟩ | ⟨-, heq⟩⟩ <;>
          simp [heq, FlightClientPool.remove, Function.update_of_ne (Ne.symm hsame)]
      have hevent : (Action.query other start finish connection).event endpoint = none :=
        if_neg hsame
      have hnot : ¬ Connects s (.query other start finish connection) endpoint cached := by
        rintro ⟨_, _, hquery, -⟩
        cases hquery
        exact hsame rfl
      rw [hchannels, hevent]
      simp [hnot]
  | answer call ok => simp [Action.pool, Action.event, Connects]
  | evict call =>
    by_cases hsame : call.endpoint = endpoint <;>
      simp [Action.pool, channels_remove, Action.event, Connects, hsame, eq_comm (a := endpoint)]
  | clear => simp [Action.pool, FlightClientPool.clear, Action.event, Connects]
  | evictExpired now =>
    simp [Action.pool, FlightClientPool.evictExpired, Option.filter_eq_some_iff, isFresh_iff,
      Action.event, Connects]

/-- The channel of an endpoint was made by a query to it that had none that was young enough, and
since then no eviction of the endpoint ran, the pool was not cleared, and at every query to the
endpoint and every sweep the channel was young enough. -/
def IsKept (maxIdleDuration : ℕ) (actions : List Action) (endpoint : String)
    (cached : CachedChannel) : Prop :=
  ∃ before action after s, actions = before ++ action :: after ∧
    Run.run step (.new maxIdleDuration) before = some s ∧ Connects s action endpoint cached ∧
    Lease.Kept (limits maxIdleDuration) (Action.event endpoint) cached.createdAt after

theorem kept_nil (created : ℕ) (endpoint : String) (maxIdleDuration : ℕ) :
    Lease.Kept (limits maxIdleDuration) (Action.event endpoint) created [] := by
  simp [Lease.Kept]

theorem isKept_concat_iff {maxIdleDuration : ℕ} {actions : List Action}
    (hrun : Run.run step (.new maxIdleDuration) actions = some s) :
    IsKept maxIdleDuration (actions ++ [action]) endpoint cached ↔
      IsKept maxIdleDuration actions endpoint cached ∧ action.event endpoint ≠ some .release ∧
        (∀ t, action.event endpoint = some (.sweep t) →
          (limits maxIdleDuration).expires cached.createdAt t = false) ∨
      Connects s action endpoint cached := by
  constructor
  · rintro ⟨before, made, after, sb, heq, hbefore, hconnects, hkept⟩
    rcases List.eq_nil_or_concat after with rfl | ⟨front, last, rfl⟩
    · obtain ⟨rfl, hlast⟩ := List.append_inj' heq rfl
      obtain rfl : action = made := by simpa using hlast
      obtain rfl := Option.some.inj (hrun.symm.trans hbefore)
      exact Or.inr hconnects
    · rw [List.concat_eq_append] at heq hkept
      have hends : actions ++ [action] = (before ++ made :: front) ++ [last] := by simpa using heq
      obtain ⟨hactions, hlast⟩ := List.append_inj' hends rfl
      obtain rfl : action = last := by simpa using hlast
      obtain ⟨hfront, hrelease, hsweep⟩ := Lease.kept_concat_iff.mp hkept
      rw [lastHeard_event] at hsweep
      have hfirst : IsKept maxIdleDuration actions endpoint cached :=
        ⟨before, made, front, sb, hactions, hbefore, hconnects, hfront⟩
      exact Or.inl ⟨hfirst, hrelease, hsweep⟩
  · rintro (⟨hfirst, hrelease, hsweep⟩ | hconnects)
    · obtain ⟨before, made, after, sb, rfl, hbefore, hconnects, hkept⟩ := hfirst
      refine ⟨before, made, after ++ [action], sb, by simp, hbefore, hconnects, ?_⟩
      refine Lease.kept_concat_iff.mpr ⟨hkept, hrelease, ?_⟩
      rw [lastHeard_event]
      exact hsweep
    · exact ⟨actions, action, [], s, rfl, hrun, hconnects, kept_nil _ _ _⟩

theorem maxIdleDuration_run {maxIdleDuration : ℕ} {actions : List Action}
    (hrun : Run.run step (.new maxIdleDuration) actions = some s) :
    s.pool.maxIdleDuration = maxIdleDuration :=
  Run.invariant (fun _ _ _ hs _ hstep => (maxIdleDuration_step hstep).trans hs) rfl
    (Run.along_of_forall fun _ _ => trivial) hrun

/-- The pool holds exactly the channels that are kept. -/
theorem channels_iff_isKept {maxIdleDuration : ℕ} {actions : List Action}
    (hrun : Run.run step (.new maxIdleDuration) actions = some s) :
    s.pool.channels endpoint = some cached ↔ IsKept maxIdleDuration actions endpoint cached := by
  induction actions using List.reverseRecOn generalizing s with
  | nil =>
    obtain rfl := Option.some.inj hrun
    refine iff_of_false (by simp [State.new]) ?_
    rintro ⟨before, _, _, _, hnil, -⟩
    simp at hnil
  | append_singleton actions action ih =>
    rw [Run.run_concat, Option.bind_eq_some_iff] at hrun
    obtain ⟨before, hbefore, hstep⟩ := hrun
    rw [channels_step_iff hstep, isKept_concat_iff hbefore, ih hbefore, maxIdleDuration_run hbefore]

/-- A query is sent on the channel of its endpoint that is kept, as long as this is young enough,
and else on a new one. -/
theorem query_sent {maxIdleDuration : ℕ} {actions : List Action} {start finish : ℕ}
    {connection : Connection} (hrun : Run.run step (.new maxIdleDuration) actions = some s)
    (hstep : step s (.query endpoint start finish connection) = some s') :
    (∀ cached, IsKept maxIdleDuration actions endpoint cached →
      start - cached.createdAt < maxIdleDuration →
        s'.sent = s.sent ++ [⟨endpoint, cached.channel⟩]) ∧
    ((∀ cached, IsKept maxIdleDuration actions endpoint cached →
      maxIdleDuration ≤ start - cached.createdAt) →
        s'.sent = s.sent ++ if connection = .connected then [⟨endpoint, s.queries⟩] else []) := by
  have hyoung : ∀ cached, s.pool.isFresh start cached = true ↔
      start - cached.createdAt < maxIdleDuration := by
    intro cached
    rw [FlightClientPool.isFresh, maxIdleDuration_run hrun, decide_eq_true_iff]
  rw [(step_spec hstep).2.1, Action.sends]
  rcases getChannel_cases s.pool endpoint start finish s.queries connection with
    ⟨c, hc, hfresh, heq⟩ | ⟨hstale, ⟨hconnection, e, heq⟩ | ⟨hconnection, heq⟩⟩
  · constructor
    · intro cached hkept _
      rw [← channels_iff_isKept hrun, hc] at hkept
      obtain rfl := Option.some.inj hkept
      rw [heq]
    · intro hold
      have hage := hold c ((channels_iff_isKept hrun).mp hc)
      have hless := (hyoung c).mp hfresh
      omega
  · constructor
    · intro cached hkept hage
      have hfresh := (hyoung cached).mpr hage
      rw [hstale cached ((channels_iff_isKept hrun).mpr hkept)] at hfresh
      cases hfresh
    · intro _
      rw [heq, if_neg hconnection]
  · constructor
    · intro cached hkept hage
      have hfresh := (hyoung cached).mpr hage
      rw [hstale cached ((channels_iff_isKept hrun).mpr hkept)] at hfresh
      cases hfresh
    · intro _
      rw [heq, if_pos hconnection]

/-- All channels have numbers below that of the next query, and an endpoint that has a channel has the
newest of its own. -/
structure Named (s : State) : Prop where
  cached : ∀ endpoint cached, s.pool.channels endpoint = some cached → cached.channel < s.queries
  sent : ∀ call ∈ s.sent, call.channel < s.queries
  newest : ∀ call ∈ s.sent, ∀ cached, s.pool.channels call.endpoint = some cached →
    call.channel ≤ cached.channel
  waiting : ∀ call ∈ s.calls ++ s.evictions, call ∈ s.sent

theorem sends_of_connects (h : Connects s action endpoint cached) :
    action.sends s = [⟨endpoint, cached.channel⟩] ∧ cached.channel = s.queries := by
  obtain ⟨start, finish, rfl, hstale, rfl⟩ := h
  refine ⟨?_, rfl⟩
  rw [Action.sends]
  rcases getChannel_cases s.pool endpoint start finish s.queries .connected with
    ⟨c, hc, hfresh, -⟩ | ⟨-, ⟨hconnection, -⟩ | ⟨-, heq⟩⟩
  · have hold := hstale c hc
    rw [FlightClientPool.isFresh, decide_eq_true_iff] at hfresh
    omega
  · exact absurd rfl hconnection
  · rw [heq]

theorem Connects.count (h : Connects s action endpoint cached) : action.count = 1 := by
  obtain ⟨_, _, rfl, -⟩ := h
  rfl

/-- What is sent is sent on the channel of the endpoint or on a new one. -/
theorem mem_sends {call : Call} (h : call ∈ action.sends s) :
    ∃ cached, call.channel = cached.channel ∧ (s.pool.channels call.endpoint = some cached ∨
      Connects s action call.endpoint cached) := by
  cases action with
  | query endpoint start finish connection =>
    rw [Action.sends] at h
    rcases getChannel_cases s.pool endpoint start finish s.queries connection with
      ⟨c, hc, -, heq⟩ | ⟨hstale, ⟨-, _, heq⟩ | ⟨rfl, heq⟩⟩
    · rw [heq] at h
      obtain rfl := List.mem_singleton.mp h
      exact ⟨c, rfl, Or.inl hc⟩
    · rw [heq] at h
      exact absurd h List.not_mem_nil
    · rw [heq] at h
      obtain rfl := List.mem_singleton.mp h
      refine ⟨⟨s.queries, finish⟩, rfl, Or.inr ⟨start, finish, rfl, fun old hold => ?_, rfl⟩⟩
      have hexpired := hstale old hold
      simpa [FlightClientPool.isFresh] using hexpired
  | answer call ok => exact absurd h List.not_mem_nil
  | evict call => exact absurd h List.not_mem_nil
  | clear => exact absurd h List.not_mem_nil
  | evictExpired now => exact absurd h List.not_mem_nil

theorem waiting_step (h : step s action = some s') {call : Call}
    (hcall : call ∈ s'.calls ++ s'.evictions) :
    call ∈ s.calls ++ s.evictions ∨ call ∈ action.sends s := by
  cases action with
  | query endpoint start finish connection =>
    rw [step] at h
    split_ifs at h
    obtain rfl := Option.some.inj h
    have hcalls : (s.query endpoint start finish connection).calls =
        s.calls ++ Action.sends s (.query endpoint start finish connection) := rfl
    rw [hcalls] at hcall
    rcases List.mem_append.mp hcall with hmem | hevictions
    · rcases List.mem_append.mp hmem with hold | hnew
      · exact Or.inl (List.mem_append_left _ hold)
      · exact Or.inr hnew
    · exact Or.inl (List.mem_append_right _ hevictions)
  | answer answered ok =>
    rw [step] at h
    split_ifs at h with hanswered
    all_goals
      obtain rfl := Option.some.inj h
      left
      rcases List.mem_append.mp hcall with hold | hevictions
      · exact List.mem_append_left _ (List.mem_of_mem_erase hold)
    · exact List.mem_append_right _ hevictions
    · rcases List.mem_append.mp hevictions with hold | hnew
      · exact List.mem_append_right _ hold
      · rw [List.mem_singleton.mp hnew]
        exact List.mem_append_left _ hanswered
  | evict evicted =>
    rw [step] at h
    split_ifs at h
    obtain rfl := Option.some.inj h
    left
    rcases List.mem_append.mp hcall with hold | hevictions
    · exact List.mem_append_left _ hold
    · exact List.mem_append_right _ (List.mem_of_mem_erase hevictions)
  | clear =>
    obtain rfl := Option.some.inj h
    exact Or.inl hcall
  | evictExpired now =>
    rw [step] at h
    split_ifs at h
    obtain rfl := Option.some.inj h
    exact Or.inl hcall

theorem Named.step (h : Named s) (hstep : step s action = some s') : Named s' := by
  obtain ⟨-, hsent, hqueries⟩ := step_spec hstep
  constructor
  · intro endpoint cached hcached
    rcases (channels_step_iff hstep).mp hcached with ⟨hold, -⟩ | hconnects
    · have hless := h.cached endpoint cached hold
      omega
    · have hnumber := (sends_of_connects hconnects).2
      have hcount := hconnects.count
      omega
  · intro call hcall
    rw [hsent] at hcall
    rcases List.mem_append.mp hcall with hold | hmem
    · have hless := h.sent call hold
      omega
    · obtain ⟨cached, hchannel, hc | hconnects⟩ := mem_sends hmem
      · have hless := h.cached call.endpoint cached hc
        omega
      · have hnumber := (sends_of_connects hconnects).2
        have hcount := hconnects.count
        omega
  · intro call hcall cached hcached
    rw [hsent] at hcall
    rcases (channels_step_iff hstep).mp hcached with ⟨hkept, -⟩ | hconnects
    · rcases List.mem_append.mp hcall with hold | hmem
      · exact h.newest call hold cached hkept
      · obtain ⟨made, hchannel, hc | hconnects⟩ := mem_sends hmem
        · obtain rfl := Option.some.inj (hc.symm.trans hkept)
          exact hchannel.le
        · have hmade := (channels_step_iff hstep).mpr (Or.inr hconnects)
          obtain rfl := Option.some.inj (hmade.symm.trans hcached)
          exact hchannel.le
    · obtain ⟨hsends, hnumber⟩ := sends_of_connects hconnects
      rcases List.mem_append.mp hcall with hold | hmem
      · have hless := h.sent call hold
        omega
      · rw [hsends] at hmem
        rw [List.mem_singleton.mp hmem]
  · intro call hcall
    rw [hsent]
    rcases waiting_step hstep hcall with hold | hmem
    · exact List.mem_append_left _ (h.waiting call hold)
    · exact List.mem_append_right _ hmem

theorem named_run {maxIdleDuration : ℕ} {actions : List Action}
    (hrun : Run.run step (.new maxIdleDuration) actions = some s) : Named s :=
  Run.invariant (fun _ _ _ hs _ hstep => hs.step hstep)
    ⟨by simp [State.new], by simp [State.new], by simp [State.new], by simp [State.new]⟩
    (Run.along_of_forall fun _ _ => trivial) hrun

/-- The endpoint does not have the channel of the call and will not get it again. -/
def Gone (s : State) (call : Call) : Prop :=
  call.channel < s.queries ∧ ∀ cached, s.pool.channels call.endpoint = some cached →
    cached.channel ≠ call.channel

theorem Gone.step {call : Call} (h : Gone s call) (hstep : step s action = some s') :
    Gone s' call ∧ call ∉ action.sends s := by
  obtain ⟨hless, hnone⟩ := h
  obtain ⟨-, -, hqueries⟩ := step_spec hstep
  refine ⟨⟨by omega, fun cached hcached => ?_⟩, fun hcall => ?_⟩
  · rcases (channels_step_iff hstep).mp hcached with ⟨hold, -⟩ | hconnects
    · exact hnone cached hold
    · have hnew := (sends_of_connects hconnects).2
      omega
  · obtain ⟨cached, hchannel, hc | hconnects⟩ := mem_sends hcall
    · exact hnone cached hc hchannel.symm
    · have hnew := (sends_of_connects hconnects).2
      omega

theorem Gone.run {call : Call} {later : List Action} (h : Gone s call)
    (hrun : Run.run Pool.step s later = some s') :
    Gone s' call ∧ ∃ calls, s'.sent = s.sent ++ calls ∧ call ∉ calls := by
  induction later using List.reverseRecOn generalizing s' with
  | nil =>
    obtain rfl := Option.some.inj hrun
    exact ⟨h, [], by simp, by simp⟩
  | append_singleton later action ih =>
    rw [Run.run_concat, Option.bind_eq_some_iff] at hrun
    obtain ⟨before, hbefore, hstep⟩ := hrun
    obtain ⟨hgone, calls, hcalls, hother⟩ := ih hbefore
    obtain ⟨hgone', hsends⟩ := hgone.step hstep
    refine ⟨hgone', calls ++ action.sends before, ?_, fun hmem => ?_⟩
    · rw [(step_spec hstep).2.1, hcalls, List.append_assoc]
    · exact (List.mem_append.mp hmem).elim hother hsends

end

/-- Two calls on one channel fail. The eviction for the first one runs, the next query connects, and
the eviction for the second one takes the new channel away. -/
def twoFailures : List Action :=
  [.query "w" 0 1 .connected, .query "w" 2 2 .connected, .answer ⟨"w", 0⟩ false,
    .answer ⟨"w", 0⟩ false, .evict ⟨"w", 0⟩, .query "w" 3 4 .connected]

/-- The second query is sent on the channel of the first. -/
theorem query_sent_second :
    ∃ s s', Run.run step (.new 300) (twoFailures.take 1) = some s ∧
      step s (.query "w" 2 2 .connected) = some s' ∧ s'.sent = s.sent ++ [⟨"w", 0⟩] := by
  have hconnects : Connects (.new 300) (.query "w" 0 1 .connected) "w" ⟨0, 1⟩ :=
    ⟨0, 1, rfl, by simp [State.new], rfl⟩
  have hkept : IsKept 300 (twoFailures.take 1) "w" ⟨0, 1⟩ :=
    ⟨[], _, [], _, rfl, rfl, hconnects, kept_nil 1 "w" 300⟩
  have hrun : Run.run step (.new 300) (twoFailures.take 1) =
      some ((State.new 300).query "w" 0 1 .connected) := rfl
  have hstep : step ((State.new 300).query "w" 0 1 .connected) (.query "w" 2 2 .connected) =
      some (((State.new 300).query "w" 0 1 .connected).query "w" 2 2 .connected) := rfl
  exact ⟨_, _, hrun, hstep, (query_sent hrun hstep).1 ⟨0, 1⟩ hkept (by decide)⟩

end RustLake.Flight.Pool
