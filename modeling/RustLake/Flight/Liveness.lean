import RustLake.Flight.Registry
import RustLake.Order.Leases
import RustLake.Text.Basic

/-! Which workers the coordinator holds for alive: the leases that registered workers keep by their
heartbeats, the requests of the Flight server that grant and renew them, and the heartbeat loops
that run beside the health check. -/
namespace RustLake.Flight

def Registry.worker? (r : Registry) (workerId : String) : Option RegisteredWorker :=
  r.workers.find? (·.id = workerId)

/-- When the health check suspects a worker and when it evicts one. -/
def ClusterConfig.limits (config : ClusterConfig) : Lease.Limits ℕ where
  suspects heard now := nanosOfSecs (config.heartbeatIntervalSecs * 2) < now - heard
  expires heard now := nanosOfSecs config.heartbeatTimeoutSecs < now - heard

/-- What a step means to the lease of a worker. -/
def RegistryStep.event (workerId : String) : RegistryStep → Option (Lease.Event ℕ)
  | .register _ _ => none
  | .deregister id => if id = workerId then some .release else none
  | .heartbeat id now => if id = workerId then some (.renew now) else none
  | .checkHealth now => some (.sweep now)

def RegistryStep.registers : RegistryStep → Bool
  | .register _ _ => true
  | _ => false

/-- What a step makes of the entry of a worker that is registered already. -/
def RegistryStep.change (config : ClusterConfig) (w : RegisteredWorker) :
    RegistryStep → Option RegisteredWorker
  | .register _ _ => some w
  | .deregister id => if w.id = id then none else some w
  | .heartbeat id now => some (if w.id = id then Registry.beat now w else w)
  | .checkHealth now => checkWorker config now w

/-- The entry of a worker with its lease. -/
def RegisteredWorker.withLease (w : RegisteredWorker) (held : Lease.Held ℕ) : RegisteredWorker :=
  { w with
    lastHeartbeat := held.heard
    status := if held.suspected then .draining else .active }

section
variable {config : ClusterConfig} {r : Registry} {workerId : String} {w w' : RegisteredWorker}
  {step : RegistryStep}

theorem Registry.worker?_eq_some_iff :
    r.worker? workerId = some w ↔ w ∈ r.workers ∧ w.id = workerId := by
  rw [Registry.worker?, List.find?_eq_some_iff_append]
  simp only [decide_eq_true_eq, Bool.not_eq_true', decide_eq_false_iff_not]
  constructor
  · intro h
    obtain ⟨hid, before, later, hworkers, -⟩ := h
    exact ⟨by simp [hworkers], hid⟩
  · intro h
    obtain ⟨hmem, hid⟩ := h
    obtain ⟨before, later, hworkers⟩ := List.append_of_mem hmem
    refine ⟨hid, before, later, hworkers, fun v hv hkey => ?_⟩
    have hdistinct := r.distinct
    rw [hworkers, List.map_append, List.nodup_append] at hdistinct
    exact hdistinct.2.2 v.id (List.mem_map_of_mem hv) w.id (by simp) (hkey.trans hid.symm)

theorem RegistryStep.id_of_change (h : step.change config w = some w') : w'.id = w.id := by
  cases step with
  | register reg now =>
    cases h
    rfl
  | deregister id =>
    rw [change] at h
    split_ifs at h
    cases h
    rfl
  | heartbeat id now =>
    have hw' : (if w.id = id then Registry.beat now w else w) = w' := Option.some.inj h
    rw [← hw']
    split_ifs <;> rfl
  | checkHealth now => exact (checkWorker_eq_some h).1

theorem Registry.mem_step_iff (hnew : step.registers = true → r.newId ≠ w'.id) :
    w' ∈ (r.step config step).workers ↔ ∃ w ∈ r.workers, step.change config w = some w' := by
  cases step with
  | register reg now =>
    have hne : w'.id ≠ r.newId := (hnew rfl).symm
    have hnot : w' ≠ r.newHandle reg now := by
      intro heq
      exact hne (heq ▸ rfl)
    simp [Registry.step, registerWorker, without, RegistryStep.change, hne, hnot]
  | deregister id =>
    simp only [Registry.step, deregisterWorker, without, RegistryStep.change, List.mem_filter]
    constructor
    · intro h
      exact ⟨w', h.1, by simpa using h.2⟩
    · intro h
      obtain ⟨w, hw, hchange⟩ := h
      split_ifs at hchange with hid
      cases hchange
      simp [hw, hid]
  | heartbeat id now =>
    simp [Registry.step, Registry.heartbeat, RegistryStep.change]
  | checkHealth now =>
    simp [Registry.step, checkWorkerHealth, RegistryStep.change]

/-- A step makes its change of the entry of a worker that it does not register. -/
theorem Registry.worker?_step (hnew : step.registers = true → r.newId ≠ workerId) :
    (r.step config step).worker? workerId =
      (r.worker? workerId).bind fun w => step.change config w := by
  apply Option.ext
  intro w'
  rw [worker?_eq_some_iff, Option.bind_eq_some_iff]
  constructor
  · intro h
    obtain ⟨hmem, rfl⟩ := h
    obtain ⟨w, hw, hchange⟩ := (mem_step_iff hnew).mp hmem
    have hid := RegistryStep.id_of_change hchange
    exact ⟨w, worker?_eq_some_iff.mpr ⟨hw, hid.symm⟩, hchange⟩
  · intro h
    obtain ⟨w, hw, hchange⟩ := h
    obtain ⟨hmem, hid⟩ := worker?_eq_some_iff.mp hw
    have hid' : w'.id = workerId := (RegistryStep.id_of_change hchange).trans hid
    have hnew' : step.registers = true → r.newId ≠ w'.id := by
      rw [hid']
      exact hnew
    exact ⟨(mem_step_iff hnew').mpr ⟨w, hmem, hchange⟩, hid'⟩

/-- A change of an entry is a step of its lease. -/
theorem change_withLease (held : Lease.Held ℕ) :
    step.change config (w.withLease held) =
      (Lease.step config.limits (RegistryStep.event w.id) held step).map w.withLease := by
  obtain ⟨heard, suspected⟩ := held
  cases step with
  | register reg now => rfl
  | deregister id =>
    by_cases hid : w.id = id <;>
      simp [RegistryStep.change, RegistryStep.event, Lease.step, hid, eq_comm (a := id),
        RegisteredWorker.withLease]
  | heartbeat id now =>
    by_cases hid : w.id = id <;> cases suspected <;>
      simp [RegistryStep.change, RegistryStep.event, Lease.step, hid, eq_comm (a := id),
        RegisteredWorker.withLease, Registry.beat]
  | checkHealth now =>
    by_cases hexpired : nanosOfSecs config.heartbeatTimeoutSecs < now - heard
    · simp [RegistryStep.change, RegistryStep.event, Lease.step, checkWorker,
        ClusterConfig.limits, RegisteredWorker.withLease, hexpired]
    · by_cases hsilent : nanosOfSecs (config.heartbeatIntervalSecs * 2) < now - heard <;>
        cases suspected <;>
        simp [RegistryStep.change, RegistryStep.event, Lease.step, checkWorker,
          ClusterConfig.limits, RegisteredWorker.withLease, hexpired, hsilent]

/-- The numbers of the workers that are registered by the steps. -/
theorem nextWorkerId_foldl (config : ClusterConfig) (r : Registry) (steps : List RegistryStep) :
    (steps.foldl (Registry.step config) r).nextWorkerId =
      r.nextWorkerId + UInt64.ofNat (steps.countP RegistryStep.registers) := by
  induction steps generalizing r with
  | nil => simp
  | cons step steps ih =>
    rw [List.foldl_cons, ih, List.countP_cons]
    cases step with
    | register reg now =>
      have hone : (r.step config (.register reg now)).nextWorkerId = r.nextWorkerId + 1 := rfl
      simp [hone, RegistryStep.registers, UInt64.ofNat_add, UInt64.add_assoc, UInt64.add_comm 1]
    | deregister id => rfl
    | heartbeat id now => rfl
    | checkHealth now => rfl

/-- No id is given twice before the counter has come round. -/
theorem newId_ne (first : UInt64) {c : ℕ} (hc : c + 1 < 2 ^ 64)
    (h : r.nextWorkerId = first + 1 + UInt64.ofNat c) :
    r.newId ≠ "worker-" ++ toString first.toNat := by
  intro heq
  have hnat := Text.toString_nat_inj ((String.append_right_inj "worker-").mp heq)
  have hnext : r.nextWorkerId.toNat = (first.toNat + 1 + c) % 2 ^ 64 := by
    rw [h]
    simp
  have hfirst := first.toNat_lt
  omega

/-- The registry keeps the entry of a worker as the lease that was granted with its id. -/
theorem worker?_register {before after : List RegistryStep} {reg : WorkerRegistration} {now : ℕ}
    (hr : registryAfter config before = r)
    (hcount : after.countP RegistryStep.registers < 2 ^ 64) :
    (registryAfter config (before ++ .register reg now :: after)).worker? r.newId =
      (Run.run (Lease.step config.limits (RegistryStep.event r.newId)) ⟨now, false⟩ after).map
        (r.newHandle reg now).withLease := by
  subst hr
  generalize hr : registryAfter config before = r
  have hafter : ∀ steps, registryAfter config (before ++ .register reg now :: steps) =
      steps.foldl (Registry.step config) (r.registerWorker reg now) := by
    intro steps
    rw [registryAfter, List.foldl_append, List.foldl_cons, ← hr]
    rfl
  have hnew : (r.newHandle reg now).id = r.newId := rfl
  induction after using List.reverseRecOn with
  | nil =>
    rw [hafter, List.foldl_nil, Run.run, Option.map_some]
    apply Registry.worker?_eq_some_iff.mpr
    constructor
    · exact List.mem_append_right _ List.mem_cons_self
    · rfl
  | append_singleton steps step ih =>
    rw [List.countP_append, List.countP_singleton] at hcount
    have hbefore := ih (by omega)
    have hfresh : step.registers = true →
        (registryAfter config (before ++ .register reg now :: steps)).newId ≠ r.newId := by
      intro hregisters
      rw [if_pos hregisters] at hcount
      refine newId_ne r.nextWorkerId hcount ?_
      rw [hafter, nextWorkerId_foldl]
      rfl
    have hconcat : registryAfter config (before ++ .register reg now :: (steps ++ [step])) =
        (registryAfter config (before ++ .register reg now :: steps)).step config step := by
      rw [hafter, hafter, List.foldl_append, List.foldl_cons, List.foldl_nil]
    have hrun : ∀ held, Run.run (Lease.step config.limits (RegistryStep.event r.newId)) held [step] =
        Lease.step config.limits (RegistryStep.event r.newId) held step := by
      intro held
      rw [Run.run]
      split
      · rename_i next hnext
        rw [hnext, Run.run]
      · rename_i hnone
        exact hnone.symm
    rw [hconcat, Registry.worker?_step hfresh, hbefore, Run.run_append, Option.bind_map,
      Option.map_bind]
    apply Option.bind_congr
    intro held hheld
    rw [Function.comp_apply, change_withLease, hnew, Function.comp_apply, hrun]

end

/-- When a worker was last heard of: its last heartbeat, or its registration. -/
def lastHeard (workerId : String) (registeredAt : ℕ) (steps : List RegistryStep) : ℕ :=
  steps.foldl (fun heard step =>
    match step with
    | .heartbeat id now => if id = workerId then now else heard
    | _ => heard) registeredAt

/-- The worker has not left, and no health check came too late for its last heartbeat. -/
def Heard (config : ClusterConfig) (workerId : String) (registeredAt : ℕ)
    (steps : List RegistryStep) : Prop :=
  .deregister workerId ∉ steps ∧ ∀ earlier now, earlier ++ [.checkHealth now] <+: steps →
    now - lastHeard workerId registeredAt earlier ≤ nanosOfSecs config.heartbeatTimeoutSecs

/-- A health check has missed heartbeats of the worker, and it has not been heard of since. -/
def MissedHeartbeats (config : ClusterConfig) (workerId : String) (registeredAt : ℕ)
    (steps : List RegistryStep) : Prop :=
  ∃ earlier now later, steps = earlier ++ .checkHealth now :: later ∧
    (∀ t, .heartbeat workerId t ∉ later) ∧
    nanosOfSecs (config.heartbeatIntervalSecs * 2) < now - lastHeard workerId registeredAt earlier

section
variable {config : ClusterConfig} {workerId : String} {registeredAt : ℕ}
  {steps : List RegistryStep}

theorem lastHeard_eq : lastHeard workerId registeredAt steps =
    Lease.lastHeard (RegistryStep.event workerId) registeredAt steps := by
  unfold lastHeard Lease.lastHeard
  congr 1
  funext heard step
  cases step with
  | heartbeat id now =>
    by_cases hid : id = workerId <;> simp [RegistryStep.event, hid]
  | deregister id =>
    by_cases hid : id = workerId <;> simp [RegistryStep.event, hid]
  | register reg now => rfl
  | checkHealth now => rfl

theorem event_eq_release_iff {step : RegistryStep} :
    RegistryStep.event workerId step = some .release ↔ step = .deregister workerId := by
  cases step <;> simp [RegistryStep.event]

theorem event_eq_renew_iff {step : RegistryStep} {t : ℕ} :
    RegistryStep.event workerId step = some (.renew t) ↔ step = .heartbeat workerId t := by
  cases step <;> simp [RegistryStep.event]

theorem event_eq_sweep_iff {step : RegistryStep} {t : ℕ} :
    RegistryStep.event workerId step = some (.sweep t) ↔ step = .checkHealth t := by
  cases step <;> simp [RegistryStep.event]

theorem heard_iff_kept : Heard config workerId registeredAt steps ↔
    Lease.Kept config.limits (RegistryStep.event workerId) registeredAt steps := by
  have hrelease : RegistryStep.deregister workerId ∉ steps ↔
      ∀ step ∈ steps, RegistryStep.event workerId step ≠ some .release := by
    simp only [ne_eq, event_eq_release_iff]
    exact ⟨fun h step hstep heq => h (heq ▸ hstep), fun h hmem => h _ hmem rfl⟩
  rw [Heard, Lease.Kept, hrelease, and_congr_right_iff]
  intro hstays
  constructor
  · intro h earlier step t hbegins hsweep
    obtain rfl := event_eq_sweep_iff.mp hsweep
    have hle := h earlier t hbegins
    rw [lastHeard_eq] at hle
    simpa [ClusterConfig.limits] using hle
  · intro h earlier t hbegins
    have hexpires := h earlier (.checkHealth t) t hbegins rfl
    rw [lastHeard_eq]
    simpa [ClusterConfig.limits] using hexpires

theorem missedHeartbeats_iff : MissedHeartbeats config workerId registeredAt steps ↔
    Lease.Suspected config.limits (RegistryStep.event workerId) registeredAt steps := by
  have hquiet : ∀ later : List RegistryStep, (∀ t, RegistryStep.heartbeat workerId t ∉ later) ↔
      ∀ step ∈ later, ∀ t, RegistryStep.event workerId step ≠ some (.renew t) := by
    intro later
    simp only [ne_eq, event_eq_renew_iff]
    exact ⟨fun h step hstep t heq => h t (heq ▸ hstep), fun h t hmem => h _ hmem t rfl⟩
  simp [MissedHeartbeats, Lease.Suspected, hquiet, event_eq_sweep_iff, lastHeard_eq,
    ClusterConfig.limits]

end

/-- Whatever else comes to the coordinator, a worker stays registered just as long as it has not
left and every health check has heard of it in time; it is draining just when a check has missed
its heartbeats since, and nothing else of its entry changes. -/
theorem registered_iff_heard (config : ClusterConfig) (before after : List RegistryStep)
    (reg : WorkerRegistration) (now : ℕ) (w : RegisteredWorker)
    (hcount : after.countP RegistryStep.registers < 2 ^ 64) :
    (registryAfter config (before ++ .register reg now :: after)).worker?
        (registryAfter config before).newId = some w ↔
      Heard config (registryAfter config before).newId now after ∧ ∃ suspected : Bool,
        (suspected = true ↔
          MissedHeartbeats config (registryAfter config before).newId now after) ∧
        w = ((registryAfter config before).newHandle reg now).withLease
          ⟨lastHeard (registryAfter config before).newId now after, suspected⟩ := by
  generalize hr : registryAfter config before = r
  rw [worker?_register hr hcount, Option.map_eq_some_iff, heard_iff_kept, missedHeartbeats_iff,
    lastHeard_eq]
  constructor
  · intro h
    obtain ⟨⟨heard, suspected⟩, hheld, rfl⟩ := h
    obtain ⟨hkept, hheard, hsuspected⟩ := Lease.run_eq_some_iff.mp hheld
    have hlast : heard = Lease.lastHeard (RegistryStep.event r.newId) now after := hheard
    exact ⟨hkept, suspected, hsuspected, by rw [hlast]⟩
  · intro h
    obtain ⟨hkept, suspected, hsuspected, rfl⟩ := h
    exact ⟨_, Lease.run_eq_some_iff.mpr ⟨hkept, rfl, hsuspected⟩, rfl⟩

/-- A worker that has missed its heartbeats and is not yet evicted. -/
theorem registered_iff_heard_late :
    Heard clusterConfig (registryAfter clusterConfig []).newId 0 [.checkHealth 25000000000] :=
  ((registered_iff_heard clusterConfig [] [.checkHealth 25000000000]
    (workerRegistration "10.0.0.7:50051" 4) 0
    (((registryAfter clusterConfig []).newHandle
      (workerRegistration "10.0.0.7:50051" 4) 0).withLease ⟨0, true⟩) (by decide)).mp
      (by decide)).1

inductive GrpcCode where
  | invalidArgument | failedPrecondition | notFound | internal
deriving DecidableEq

structure GrpcStatus where
  code : GrpcCode
  message : String
deriving DecidableEq

/-- What `do_action` calls: the parser of a registration, and the engine for the number of rows. -/
structure ActionCalls where
  registrationFromSlice : ByteArray → Except String WorkerRegistration
  sql : String → Except String ℕ

def notACoordinator : GrpcStatus := ⟨.failedPrecondition, "This node is not a coordinator"⟩

def invalidWorkerId : GrpcStatus := ⟨.invalidArgument, "Worker ID must be valid UTF-8"⟩

def notRegistered (workerId : String) : GrpcStatus :=
  ⟨.notFound, "Worker " ++ workerId ++ " not registered"⟩

/-- The answer of `do_action`, with the body of its one result, and the step of the registry. -/
def doAction (calls : ActionCalls) (coordinator : Option Registry) (now : ℕ) (type : String)
    (body : ByteArray) : Except GrpcStatus ByteArray × Option RegistryStep :=
  match type with
  | "healthcheck" => (.ok "ok".toUTF8, none)
  | "sql" =>
    match String.fromUTF8? body with
    | none => (.error ⟨.invalidArgument, "Action body must be valid UTF-8 SQL"⟩, none)
    | some sql =>
      match calls.sql sql with
      | .error e => (.error ⟨.internal, "Query execution failed: " ++ e⟩, none)
      | .ok rows => (.ok ("Query returned " ++ toString rows ++ " rows").toUTF8, none)
  | "register_worker" =>
    match coordinator with
    | none => (.error notACoordinator, none)
    | some r =>
      match calls.registrationFromSlice body with
      | .error e => (.error ⟨.invalidArgument, "Invalid registration payload: " ++ e⟩, none)
      | .ok reg => (.ok r.newId.toUTF8, some (.register reg now))
  | "heartbeat" =>
    match coordinator with
    | none => (.error notACoordinator, none)
    | some r =>
      match String.fromUTF8? body with
      | none => (.error invalidWorkerId, none)
      | some workerId =>
        if (r.worker? workerId).isSome then (.ok "ok".toUTF8, some (.heartbeat workerId now))
        else (.error (notRegistered workerId), none)
  | "deregister_worker" =>
    match coordinator with
    | none => (.error notACoordinator, none)
    | some _ =>
      match String.fromUTF8? body with
      | none => (.error invalidWorkerId, none)
      | some workerId => (.ok "ok".toUTF8, some (.deregister workerId))
  | other => (.error ⟨.invalidArgument, "Unknown action type: " ++ other⟩, none)

/-- A worker node once it is registered, in its `heartbeat_loop`. -/
structure HeartbeatLoop where
  workerId : String
  consecutiveFailures : UInt32
  running : Bool
deriving DecidableEq

/-- One round of the loop, with the answer to the heartbeat that it sends unless it is cancelled. -/
def HeartbeatLoop.tick (l : HeartbeatLoop) (cancel : Bool) (sent : Except GrpcStatus ByteArray) :
    HeartbeatLoop :=
  if cancel then { l with running := false }
  else match sent with
    | .ok _ => { l with consecutiveFailures := 0 }
    | .error _ => { l with consecutiveFailures := l.consecutiveFailures + 1 }

/-- What becomes of a request on its way: it is answered, it is lost, or its answer is. -/
inductive Delivery where
  | answered | lostRequest | lostAnswer
deriving DecidableEq

/-- The coordinator and the loops of the workers that it has registered. -/
structure Cluster where
  registry : Registry
  loops : List HeartbeatLoop

/-- A request to the coordinator, a health check, a worker that registers and starts its loop, or
one round of a loop. -/
inductive ClusterStep where
  | doAction (now : ℕ) (type : String) (body : ByteArray)
  | checkHealth (now : ℕ)
  | join (now : ℕ) (reg : WorkerRegistration)
  | tick (i now : ℕ) (cancel : Bool) (delivery : Delivery)

namespace Cluster

variable (config : ClusterConfig) (calls : ActionCalls)

def request (c : Cluster) (now : ℕ) (type : String) (body : ByteArray) : Cluster :=
  match (Flight.doAction calls (some c.registry) now type body).2 with
  | none => c
  | some step => { c with registry := c.registry.step config step }

/-- The answer to a heartbeat as the worker sees it. -/
def heartbeatAnswer (c : Cluster) (workerId : String) (now : ℕ) (delivery : Delivery) :
    Except GrpcStatus ByteArray :=
  match delivery with
  | .answered => (Flight.doAction calls (some c.registry) now "heartbeat" workerId.toUTF8).1
  | _ => .error ⟨.internal, "transport error"⟩

def step (c : Cluster) : ClusterStep → Cluster
  | .doAction now type body => c.request config calls now type body
  | .checkHealth now => { c with registry := c.registry.checkWorkerHealth config now }
  | .join now reg =>
    { registry := c.registry.registerWorker reg now
      loops := c.loops ++ [⟨c.registry.newId, 0, true⟩] }
  | .tick i now cancel delivery =>
    match c.loops[i]? with
    | none => c
    | some l =>
      if l.running = false then c
      else
        let reached := !cancel && delivery != .lostRequest
        let c' := if reached then c.request config calls now "heartbeat" l.workerId.toUTF8 else c
        { c' with
          loops := c.loops.set i (l.tick cancel (c.heartbeatAnswer calls l.workerId now delivery)) }

def after (c : Cluster) (steps : List ClusterStep) : Cluster := steps.foldl (step config calls) c

end Cluster

/-- The step of the registry in a step of the cluster. -/
def Cluster.registryStep (calls : ActionCalls) (c : Cluster) : ClusterStep → Option RegistryStep
  | .doAction now type body => (doAction calls (some c.registry) now type body).2
  | .checkHealth now => some (.checkHealth now)
  | .join now reg => some (.register reg now)
  | .tick i now cancel delivery =>
    match c.loops[i]? with
    | none => none
    | some l =>
      if l.running && !cancel && delivery != .lostRequest then
        (doAction calls (some c.registry) now "heartbeat" l.workerId.toUTF8).2
      else none

/-- A request that registers a worker, if it is well formed. -/
def ClusterStep.mayRegister : ClusterStep → Bool
  | .join _ _ => true
  | .doAction _ type _ => type = "register_worker"
  | _ => false

/-- The heartbeats that a running loop sends until it is cancelled. -/
def sentHeartbeats (i : ℕ) : List ClusterStep → ℕ
  | [] => 0
  | .tick j _ cancel _ :: steps =>
    if j = i then if cancel then 0 else sentHeartbeats i steps + 1
    else sentHeartbeats i steps
  | _ :: steps => sentHeartbeats i steps

section
variable {config : ClusterConfig} {calls : ActionCalls} {c : Cluster} {step : ClusterStep}
  {workerId : String}

@[simp] theorem fromUTF8?_toUTF8 (s : String) : String.fromUTF8? s.toUTF8 = some s := by
  have hvalid : s.toUTF8.IsValidUTF8 := s.isValidUTF8
  rw [String.fromUTF8?, dif_pos hvalid]
  rfl

theorem doAction_heartbeat (r : Registry) (now : ℕ) (workerId : String) :
    doAction calls (some r) now "heartbeat" workerId.toUTF8 =
      if (r.worker? workerId).isSome then (.ok "ok".toUTF8, some (.heartbeat workerId now))
      else (.error (notRegistered workerId), none) := by
  simp only [doAction, fromUTF8?_toUTF8]

theorem Cluster.registry_step : (c.step config calls step).registry =
    (c.registryStep calls step).elim c.registry (c.registry.step config) := by
  have hrequest : ∀ now type body, (c.request config calls now type body).registry =
      (doAction calls (some c.registry) now type body).2.elim c.registry
        (c.registry.step config) := by
    intro now type body
    rw [Cluster.request]
    cases (doAction calls (some c.registry) now type body).2 with
    | none => rfl
    | some step => rfl
  cases step with
  | doAction now type body => exact hrequest now type body
  | checkHealth now => rfl
  | join now reg => rfl
  | tick i now cancel delivery =>
    simp only [Cluster.step, Cluster.registryStep]
    cases c.loops[i]? with
    | none => rfl
    | some l =>
      cases hrunning : l.running with
      | false => simp [hrunning]
      | true =>
        by_cases hreached : (!cancel && delivery != .lostRequest) = true
        · simp [hrunning, hreached, hrequest]
        · simp [hrunning, hreached]

theorem Cluster.mayRegister_of_registers {registryStep : RegistryStep}
    (h : c.registryStep calls step = some registryStep)
    (hregisters : registryStep.registers = true) : step.mayRegister = true := by
  cases step with
  | doAction now type body =>
    by_contra hother
    have htype : type ≠ "register_worker" := by simpa [ClusterStep.mayRegister] using hother
    simp only [Cluster.registryStep, doAction] at h
    grind [RegistryStep.registers]
  | checkHealth now =>
    cases h
    cases hregisters
  | join now reg => rfl
  | tick i now cancel delivery =>
    simp only [Cluster.registryStep] at h
    split at h
    · cases h
    · rw [doAction_heartbeat] at h
      split_ifs at h
      cases h
      cases hregisters

/-- What a step makes of a loop. -/
def HeartbeatLoop.round (calls : ActionCalls) (c : Cluster) (i : ℕ) (l : HeartbeatLoop) :
    ClusterStep → HeartbeatLoop
  | .tick j now cancel delivery =>
    if j = i ∧ l.running then l.tick cancel (c.heartbeatAnswer calls l.workerId now delivery) else l
  | _ => l

theorem Cluster.loops_request (now : ℕ) (type : String) (body : ByteArray) :
    (c.request config calls now type body).loops = c.loops := by
  rw [Cluster.request]
  split <;> rfl

theorem Cluster.loop_step {i : ℕ} {l : HeartbeatLoop} (hl : c.loops[i]? = some l) :
    (c.step config calls step).loops[i]? = some (l.round calls c i step) := by
  have hi := (List.getElem?_eq_some_iff.mp hl).1
  cases step with
  | doAction now type body =>
    rw [Cluster.step, loops_request]
    exact hl
  | checkHealth now => exact hl
  | join now reg =>
    have hsame : (c.loops ++ [⟨c.registry.newId, 0, true⟩])[i]? = c.loops[i]? :=
      List.getElem?_append_left hi
    exact hsame.trans hl
  | tick j now cancel delivery =>
    simp only [Cluster.step, HeartbeatLoop.round]
    by_cases hj : j = i
    · subst hj
      simp only [hl]
      cases hrunning : l.running with
      | false => simpa [hrunning] using hl
      | true => simp [hi]
    · simp only [hj, false_and, if_false]
      cases c.loops[j]? with
      | none => exact hl
      | some other =>
        dsimp only
        split
        · exact hl
        · rw [List.getElem?_set_ne hj]
          exact hl

/-- The coordinator does not know the worker before any of the steps. -/
def Cluster.Gone (config : ClusterConfig) (calls : ActionCalls) (c : Cluster) (workerId : String)
    (steps : List ClusterStep) : Prop :=
  ∀ before, before <+: steps → (c.after config calls before).registry.worker? workerId = none

theorem Cluster.Gone.tail {steps : List ClusterStep}
    (h : c.Gone config calls workerId (step :: steps)) :
    (c.step config calls step).Gone config calls workerId steps := by
  intro before hbefore
  exact h (step :: before) (List.prefix_cons_inj step |>.mpr hbefore)

theorem heartbeatAnswer_of_gone (calls : ActionCalls) (h : c.registry.worker? workerId = none) (now : ℕ)
    (delivery : Delivery) : ∃ e, c.heartbeatAnswer calls workerId now delivery = .error e := by
  cases delivery with
  | answered =>
    rw [Cluster.heartbeatAnswer, doAction_heartbeat, h]
    exact ⟨_, rfl⟩
  | lostRequest => exact ⟨_, rfl⟩
  | lostAnswer => exact ⟨_, rfl⟩

/-- Every heartbeat of a worker that is gone fails, and its loop counts them all. -/
theorem failures_of_gone {steps : List ClusterStep} {i : ℕ} {l : HeartbeatLoop}
    (hl : c.loops[i]? = some l) (hgone : c.Gone config calls l.workerId steps) :
    ∃ l', (c.after config calls steps).loops[i]? = some l' ∧ l'.workerId = l.workerId ∧
      l'.consecutiveFailures = l.consecutiveFailures +
        if l.running then UInt32.ofNat (sentHeartbeats i steps) else 0 := by
  induction steps generalizing c l with
  | nil => exact ⟨l, hl, rfl, by simp [sentHeartbeats]⟩
  | cons step steps ih =>
    have hnow : c.registry.worker? l.workerId = none := hgone [] List.nil_prefix
    have hid : (l.round calls c i step).workerId = l.workerId := by
      cases step with
      | tick j now cancel delivery =>
        obtain ⟨e, he⟩ := heartbeatAnswer_of_gone calls hnow now delivery
        by_cases hround : j = i ∧ l.running = true
        · cases cancel <;> simp [HeartbeatLoop.round, HeartbeatLoop.tick, hround, he]
        · simp [HeartbeatLoop.round, hround]
      | doAction now type body => rfl
      | checkHealth now => rfl
      | join now reg => rfl
    have htail := hgone.tail
    rw [← hid] at htail
    obtain ⟨l', hl', hid', hfailures⟩ := ih (Cluster.loop_step hl) htail
    refine ⟨l', hl', hid'.trans hid, ?_⟩
    rw [hfailures]
    cases step with
    | tick j now cancel delivery =>
      obtain ⟨e, he⟩ := heartbeatAnswer_of_gone calls hnow now delivery
      by_cases hj : j = i
      · cases hrunning : l.running with
        | false => simp [HeartbeatLoop.round, hrunning]
        | true =>
          cases cancel with
          | false =>
            simp [HeartbeatLoop.round, HeartbeatLoop.tick, hj, hrunning, he, sentHeartbeats,
              UInt32.ofNat_add, UInt32.add_assoc, UInt32.add_comm 1]
          | true => simp [HeartbeatLoop.round, HeartbeatLoop.tick, hj, hrunning, sentHeartbeats]
      · simp [HeartbeatLoop.round, hj, sentHeartbeats]
    | doAction now type body => rfl
    | checkHealth now => rfl
    | join now reg => rfl

/-- The counter of the ids moves on by at most the registrations. -/
theorem nextWorkerId_after (config : ClusterConfig) (calls : ActionCalls) (c : Cluster)
    (steps : List ClusterStep) :
    ∃ k, k ≤ steps.countP ClusterStep.mayRegister ∧
      (c.after config calls steps).registry.nextWorkerId =
        c.registry.nextWorkerId + UInt64.ofNat k := by
  induction steps generalizing c with
  | nil => exact ⟨0, le_rfl, by simp [Cluster.after]⟩
  | cons step steps ih =>
    obtain ⟨k, hk, hnext⟩ := ih (c := c.step config calls step)
    have hafter : c.after config calls (step :: steps) =
        (c.step config calls step).after config calls steps := rfl
    rw [List.countP_cons, hafter, hnext, Cluster.registry_step]
    cases hstep : c.registryStep calls step with
    | none => exact ⟨k, by omega, rfl⟩
    | some registryStep =>
      have hone := nextWorkerId_foldl config c.registry [registryStep]
      rw [List.foldl_cons, List.foldl_nil, List.countP_singleton] at hone
      rw [Option.elim_some, hone]
      by_cases hregisters : registryStep.registers = true
      · refine ⟨1 + k, ?_, ?_⟩
        · rw [if_pos (Cluster.mayRegister_of_registers hstep hregisters)]
          omega
        · rw [if_pos hregisters, UInt64.ofNat_add, UInt64.add_assoc]
      · refine ⟨k, by omega, ?_⟩
        rw [if_neg hregisters]
        simp

theorem Cluster.after_append (steps steps' : List ClusterStep) :
    c.after config calls (steps ++ steps') =
      (c.after config calls steps).after config calls steps' := List.foldl_append

/-- A loop stays the one of its worker. -/
theorem Cluster.loop_after (config : ClusterConfig) (calls : ActionCalls)
    (steps : List ClusterStep) {i : ℕ} {l : HeartbeatLoop} (hl : c.loops[i]? = some l) :
    ∃ l', (c.after config calls steps).loops[i]? = some l' ∧ l'.workerId = l.workerId := by
  induction steps generalizing c l with
  | nil => exact ⟨l, hl, rfl⟩
  | cons step steps ih =>
    obtain ⟨l', hl', hid⟩ := ih (Cluster.loop_step hl)
    refine ⟨l', hl', hid.trans ?_⟩
    cases step with
    | tick j now cancel delivery =>
      simp only [HeartbeatLoop.round, HeartbeatLoop.tick]
      split_ifs
      · rfl
      · split <;> rfl
      · rfl
    | doAction now type body => rfl
    | checkHealth now => rfl
    | join now reg => rfl

/-- A worker that the coordinator does not know stays unknown while its id is not given again. -/
theorem gone_of_gone {first : UInt64} {earlier later : List ClusterStep}
    (hid : workerId = "worker-" ++ toString first.toNat)
    (hnext : c.registry.nextWorkerId = first + 1)
    (hcount : (earlier ++ later).countP ClusterStep.mayRegister < 2 ^ 64)
    (hgone : (c.after config calls earlier).registry.worker? workerId = none) :
    (c.after config calls earlier).Gone config calls workerId later := by
  intro before hbefore
  induction before using List.reverseRecOn with
  | nil => exact hgone
  | append_singleton before step ih =>
    have hunknown := ih ((List.prefix_append _ _).trans hbefore)
    rw [Cluster.after_append]
    generalize hc' : (c.after config calls earlier).after config calls before = c' at hunknown ⊢
    have hlast : (c'.after config calls [step]).registry =
        (c'.registryStep calls step).elim c'.registry (c'.registry.step config) :=
      Cluster.registry_step
    rw [hlast]
    cases hstep : c'.registryStep calls step with
    | none => exact hunknown
    | some registryStep =>
      have hfresh : registryStep.registers = true → c'.registry.newId ≠ workerId := by
        intro hregisters
        obtain ⟨k, hk, hnumber⟩ :=
          nextWorkerId_after config calls c (earlier ++ before)
        have hmay := Cluster.mayRegister_of_registers hstep hregisters
        have hle := (List.IsPrefix.sublist hbefore).countP_le (p := ClusterStep.mayRegister)
        rw [List.countP_append, List.countP_singleton, if_pos hmay] at hle
        rw [List.countP_append] at hk hcount
        rw [hid]
        refine newId_ne first (c := k) (by omega) ?_
        rw [← hnext, ← hnumber, ← hc', Cluster.after_append]
      rw [Option.elim_some, Registry.worker?_step hfresh, hunknown, Option.bind_none]

end

/-- Once a worker is gone, by eviction or by its own leave, it stays gone whatever comes next: each
of its heartbeats is refused, and its loop goes on to count failures without ever registering
again. -/
theorem evicted_worker_never_returns (config : ClusterConfig) (calls : ActionCalls) (c : Cluster)
    (reg : WorkerRegistration) (now : ℕ) (earlier later : List ClusterStep)
    (hcount : (earlier ++ later).countP ClusterStep.mayRegister < 2 ^ 64)
    (hgone : ((c.step config calls (.join now reg)).after config calls earlier).registry.worker?
      c.registry.newId = none) :
    let gone := (c.step config calls (.join now reg)).after config calls earlier
    (∀ before, before <+: later → ∀ t,
      doAction calls (some (gone.after config calls before).registry) t "heartbeat"
        c.registry.newId.toUTF8 = (.error (notRegistered c.registry.newId), none)) ∧
    ∃ l l', gone.loops[c.loops.length]? = some l ∧ l.workerId = c.registry.newId ∧
      (gone.after config calls later).loops[c.loops.length]? = some l' ∧
      l'.consecutiveFailures = l.consecutiveFailures +
        if l.running then UInt32.ofNat (sentHeartbeats c.loops.length later) else 0 := by
  intro gone
  have hjoined : (c.step config calls (.join now reg)).loops[c.loops.length]? =
      some ⟨c.registry.newId, 0, true⟩ := by
    simp [Cluster.step]
  have hstays : gone.Gone config calls c.registry.newId later :=
    gone_of_gone (c := c.step config calls (.join now reg)) rfl rfl hcount hgone
  constructor
  · intro before hbefore t
    rw [doAction_heartbeat, hstays before hbefore]
    rfl
  · obtain ⟨l, hl, hid⟩ := Cluster.loop_after config calls earlier hjoined
    have hid' : l.workerId = c.registry.newId := hid
    obtain ⟨l', hl', -, hfailures⟩ := failures_of_gone hl (hid' ▸ hstays)
    exact ⟨l, l', hl, hid', hl', hfailures⟩

/-- A coordinator that knows no worker yet. -/
def emptyCluster : Cluster := ⟨.new, []⟩

/-- A server on which no registration is well formed and no query runs. -/
def failingCalls : ActionCalls := ⟨fun _ => .error "expected value", fun _ => .error "no table"⟩

/-- A worker that is evicted after thirty-one seconds and goes on to send heartbeats. -/
theorem evicted_worker_never_returns_twice :
    ∃ l l', ((emptyCluster.step clusterConfig failingCalls
        (.join 0 (workerRegistration "10.0.0.7:50051" 4))).after clusterConfig failingCalls
          [.checkHealth 31000000000]).loops[0]? = some l ∧ l.workerId = emptyCluster.registry.newId ∧
      (((emptyCluster.step clusterConfig failingCalls
        (.join 0 (workerRegistration "10.0.0.7:50051" 4))).after clusterConfig failingCalls
          [.checkHealth 31000000000]).after clusterConfig failingCalls
            [.tick 0 32000000000 false .answered, .tick 0 42000000000 false .answered]).loops[0]? =
        some l' ∧
      l'.consecutiveFailures = l.consecutiveFailures +
        if l.running then UInt32.ofNat (sentHeartbeats 0
          [.tick 0 32000000000 false .answered, .tick 0 42000000000 false .answered]) else 0 :=
  (evicted_worker_never_returns clusterConfig failingCalls emptyCluster
    (workerRegistration "10.0.0.7:50051" 4) 0 [.checkHealth 31000000000]
    [.tick 0 32000000000 false .answered, .tick 0 42000000000 false .answered]
    (by decide) (by decide)).2

end RustLake.Flight
