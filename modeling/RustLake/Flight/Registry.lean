import RustLake.Flight.Planner
import Mathlib.Data.List.Induction
import Mathlib.Data.List.Nodup

/-! The workers that the coordinator knows: registration, heartbeats and the removal of workers that
have gone silent, and to how many endpoints a query goes. -/
namespace RustLake.Flight

structure WorkerRegistration where
  endpoint : String
  label : Option String
  cpuCores : ℕ
  memoryBytes : ℕ
deriving DecidableEq

/-- A worker in the registry; the times are in nanoseconds. -/
structure RegisteredWorker extends WorkerHandle where
  label : Option String
  cpuCores : ℕ
  memoryBytes : ℕ
  registeredAt : ℕ
  lastHeartbeat : ℕ
deriving DecidableEq

inductive DiscoveryMethod where
  | static | register | kubernetes
deriving DecidableEq

/-- A worker listed in the configuration. -/
structure WorkerConfig where
  address : String
  label : Option String

structure ClusterConfig where
  workers : List WorkerConfig
  discovery : DiscoveryMethod
  heartbeatIntervalSecs : UInt64
  heartbeatTimeoutSecs : UInt64

/-- The map of the workers by their ids, as its values. -/
structure Registry where
  workers : List RegisteredWorker
  nextWorkerId : UInt64
  distinct : (workers.map (·.id)).Nodup

namespace Registry

def new : Registry := ⟨[], 1, List.nodup_nil⟩

/-- The id of the next worker. -/
def newId (r : Registry) : String := "worker-" ++ toString r.nextWorkerId.toNat

/-- The map without an id. -/
def without (r : Registry) (workerId : String) : List RegisteredWorker :=
  r.workers.filter (·.id ≠ workerId)

theorem without_sublist (r : Registry) (workerId : String) :
    (r.without workerId).Sublist r.workers := List.filter_sublist

theorem ne_of_mem_without {r : Registry} {workerId : String} {w : RegisteredWorker}
    (h : w ∈ r.without workerId) : w.id ≠ workerId := of_decide_eq_true (List.mem_filter.mp h).2

/-- The entry of a worker that has just been registered. -/
def newHandle (r : Registry) (reg : WorkerRegistration) (now : ℕ) : RegisteredWorker where
  id := r.newId
  endpoint := reg.endpoint
  status := .active
  label := reg.label
  cpuCores := reg.cpuCores
  memoryBytes := reg.memoryBytes
  registeredAt := now
  lastHeartbeat := now

def registerWorker (r : Registry) (reg : WorkerRegistration) (now : ℕ) : Registry where
  workers := r.without r.newId ++ [r.newHandle reg now]
  nextWorkerId := r.nextWorkerId + 1
  distinct := by
    have hrest := ((r.without_sublist r.newId).map (·.id)).nodup r.distinct
    rw [List.map_append, List.nodup_append]
    refine ⟨hrest, by simp, ?_⟩
    intro workerId hmem newId hnew heq
    obtain ⟨w, hw, rfl⟩ := List.mem_map.mp hmem
    have hid : newId = r.newId := by simpa [newHandle] using hnew
    exact ne_of_mem_without hw (heq.trans hid)

def deregisterWorker (r : Registry) (workerId : String) : Registry where
  workers := r.without workerId
  nextWorkerId := r.nextWorkerId
  distinct := ((r.without_sublist workerId).map (·.id)).nodup r.distinct

/-- A worker that is heard of. -/
def beat (now : ℕ) (w : RegisteredWorker) : RegisteredWorker :=
  { w with lastHeartbeat := now, status := if w.status = .draining then .active else w.status }

def heartbeat (r : Registry) (workerId : String) (now : ℕ) : Registry where
  workers := r.workers.map fun w => if w.id = workerId then beat now w else w
  nextWorkerId := r.nextWorkerId
  distinct := by
    have hids : (r.workers.map fun w => if w.id = workerId then beat now w else w).map (·.id) =
        r.workers.map (·.id) := by
      rw [List.map_map]
      apply List.map_congr_left
      intro w hw
      dsimp only [Function.comp]
      split_ifs <;> rfl
    rw [hids]
    exact r.distinct

end Registry

def nanosOfSecs (secs : UInt64) : ℕ := secs.toNat * 1000000000

/-- What the health check makes of a worker; none when it has timed out. -/
def checkWorker (config : ClusterConfig) (now : ℕ) (w : RegisteredWorker) :
    Option RegisteredWorker :=
  let elapsed := now - w.lastHeartbeat
  if nanosOfSecs config.heartbeatTimeoutSecs < elapsed then none
  else if nanosOfSecs (config.heartbeatIntervalSecs * 2) < elapsed ∧ w.status = .active then
    some { w with status := .draining }
  else some w

theorem checkWorker_eq_some {config : ClusterConfig} {now : ℕ} {w w' : RegisteredWorker}
    (h : checkWorker config now w = some w') : w'.id = w.id ∧ w'.endpoint = w.endpoint := by
  unfold checkWorker at h
  dsimp only at h
  split_ifs at h <;> cases h <;> exact ⟨rfl, rfl⟩

/-- What is left of a list has no more keys than it had. -/
theorem map_filterMap_sublist {α β : Type} {f : α → Option α} {key : α → β}
    (h : ∀ a b, f a = some b → key b = key a) (l : List α) :
    ((l.filterMap f).map key).Sublist (l.map key) := by
  induction l with
  | nil => exact List.Sublist.refl _
  | cons a l ih =>
    rw [List.map_cons, List.filterMap_cons]
    cases hf : f a with
    | none => exact ih.cons _
    | some b =>
      rw [List.map_cons, h a b hf]
      exact ih.cons_cons _

def Registry.checkWorkerHealth (r : Registry) (config : ClusterConfig) (now : ℕ) : Registry where
  workers := r.workers.filterMap (checkWorker config now)
  nextWorkerId := r.nextWorkerId
  distinct :=
    (map_filterMap_sublist (fun _ _ h => (checkWorker_eq_some h).1) r.workers).nodup r.distinct

/-- The registrations of `seed_static_workers`. -/
def staticRegistrations (config : ClusterConfig) : List WorkerRegistration :=
  if config.discovery ≠ .static then []
  else config.workers.map fun w => ⟨"http://" ++ w.address, w.label, 0, 0⟩

/-- The registrations of one round of `k8s_discovery_loop`, for the addresses behind the service. -/
def k8sRegistrations (ips : List String) : List WorkerRegistration :=
  ips.map fun ip => ⟨"http://" ++ ip ++ ":50051", some ("k8s-" ++ ip), 0, 0⟩

/-- The registration that a worker node sends for itself. -/
def workerRegistration (advertisedAddr : String) (cpuCores : ℕ) : WorkerRegistration :=
  ⟨"http://" ++ advertisedAddr, some ("worker-" ++ advertisedAddr), cpuCores, 0⟩

/-- One request or one round of the health check, with its time. -/
inductive RegistryStep where
  | register (reg : WorkerRegistration) (now : ℕ)
  | deregister (workerId : String)
  | heartbeat (workerId : String) (now : ℕ)
  | checkHealth (now : ℕ)
deriving DecidableEq

def Registry.step (config : ClusterConfig) (r : Registry) : RegistryStep → Registry
  | .register reg now => r.registerWorker reg now
  | .deregister workerId => r.deregisterWorker workerId
  | .heartbeat workerId now => r.heartbeat workerId now
  | .checkHealth now => r.checkWorkerHealth config now

def registryAfter (config : ClusterConfig) (steps : List RegistryStep) : Registry :=
  steps.foldl (Registry.step config) .new

def Registry.activeWorkers (r : Registry) : List WorkerHandle :=
  (r.workers.map (·.toWorkerHandle)).filter (·.status = .active)

/-- No two entries have the same endpoint. -/
def Registry.UniqueEndpoints (r : Registry) : Prop := (r.workers.map (·.endpoint)).Nodup

instance (r : Registry) : Decidable r.UniqueEndpoints :=
  inferInstanceAs (Decidable (r.workers.map (·.endpoint)).Nodup)

/-- No query is sent twice to one endpoint, in whatever order the active workers come. -/
def Registry.DispatchesOnce (r : Registry) : Prop :=
  ∀ workers, workers.Perm r.activeWorkers →
    (workers.map (·.endpoint)).Nodup ∧ ∀ createLogicalPlan sql,
      ((plan createLogicalPlan sql workers).workerAssignments.map (·.workerEndpoint)).Nodup

/-- A step brings in no endpoint that another entry has. -/
def RegistryStep.Fresh (r : Registry) : RegistryStep → Prop
  | .register reg _ => ∀ w ∈ r.workers, w.endpoint = reg.endpoint → w.id = r.newId
  | _ => True

instance (r : Registry) (step : RegistryStep) : Decidable (step.Fresh r) := by
  cases step <;> unfold RegistryStep.Fresh <;> infer_instance

section
variable {config : ClusterConfig} {r : Registry}

theorem Registry.UniqueEndpoints.nodup_active (h : r.UniqueEndpoints) :
    (r.activeWorkers.map (·.endpoint)).Nodup := by
  have hall : (r.workers.map (·.toWorkerHandle)).map (·.endpoint) = r.workers.map (·.endpoint) := by
    rw [List.map_map]
    rfl
  have hsub : (r.activeWorkers.map (·.endpoint)).Sublist (r.workers.map (·.endpoint)) := by
    rw [← hall]
    exact List.filter_sublist.map _
  exact hsub.nodup h

/-- A plan assigns no worker more work than one piece. -/
theorem plan_endpoints_sublist (createLogicalPlan : String → Option LogicalPlan) (sql : String)
    (workers : List WorkerHandle) :
    ((plan createLogicalPlan sql workers).workerAssignments.map (·.workerEndpoint)).Sublist
      (workers.map (·.endpoint)) := by
  have hindexed : (workers.mapIdx (partitionAssignment sql)).map (·.workerEndpoint) =
      workers.map (·.endpoint) := by
    apply List.ext_getElem (by simp)
    intro i hi hi'
    simp [partitionAssignment]
  have hfull : ∀ some' : List WorkerHandle, (some'.map (fullAssignment sql)).map (·.workerEndpoint) =
      some'.map (·.endpoint) := by
    intro some'
    rw [List.map_map]
    rfl
  have hscatter : ((planScatterGather sql workers).workerAssignments.map (·.workerEndpoint)).Sublist
      (workers.map (·.endpoint)) := by
    rw [planScatterGather, hfull]
  have hlocal : ∀ cost, ((localPlan sql cost).workerAssignments.map (·.workerEndpoint)).Sublist
      (workers.map (·.endpoint)) := fun _ => List.nil_sublist _
  unfold plan
  split_ifs
  · exact hlocal 0
  · cases createLogicalPlan sql with
    | none => exact hlocal 0
    | some logicalPlan =>
      dsimp only
      cases analyzePlan logicalPlan with
      | simpleScan table => simp only [planFor, planPartitionedScan, hindexed, List.Sublist.refl]
      | aggregateQuery table groupCols aggFuncs =>
        simp only [planFor, planPartialAggregate, hindexed, List.Sublist.refl]
      | joinQuery left right => exact hscatter
      | simple => exact hlocal 1
      | complex =>
        rw [planFor]
        split_ifs
        · exact hscatter
        · rw [singleWorkerPlan, hfull]
          exact (List.take_sublist 1 workers).map _

theorem Registry.UniqueEndpoints.dispatchesOnce (h : r.UniqueEndpoints) : r.DispatchesOnce := by
  intro workers hperm
  have hnodup : (workers.map (·.endpoint)).Nodup :=
    (hperm.map (·.endpoint)).nodup_iff.mpr h.nodup_active
  refine ⟨hnodup, fun createLogicalPlan sql => ?_⟩
  exact (plan_endpoints_sublist createLogicalPlan sql workers).nodup hnodup

/-- What one step keeps, and when. -/
theorem uniqueEndpoints_step_iff (h : r.UniqueEndpoints) (step : RegistryStep) :
    (r.step config step).UniqueEndpoints ↔ step.Fresh r := by
  have hnodup : (r.workers.map (·.endpoint)).Nodup := h
  cases step with
  | register reg now =>
    have hrest : ((r.without r.newId).map (·.endpoint)).Nodup :=
      ((r.without_sublist r.newId).map (·.endpoint)).nodup hnodup
    have hworkers : (r.step config (.register reg now)).workers.map (·.endpoint) =
        (r.without r.newId).map (·.endpoint) ++ [reg.endpoint] := by
      simp [Registry.step, Registry.registerWorker, Registry.newHandle]
    rw [Registry.UniqueEndpoints, hworkers, List.nodup_append]
    constructor
    · rintro ⟨-, -, hnew⟩ w hw heq
      by_contra hid
      have hmem : w ∈ r.without r.newId := List.mem_filter.mpr ⟨hw, by simpa using hid⟩
      exact hnew w.endpoint (List.mem_map_of_mem hmem) reg.endpoint List.mem_cons_self heq
    · intro hfresh
      refine ⟨hrest, by simp, ?_⟩
      intro endpoint hendpoint new hnew heq
      obtain ⟨w, hw, rfl⟩ := List.mem_map.mp hendpoint
      have hreg : w.endpoint = reg.endpoint := heq.trans (List.mem_singleton.mp hnew)
      exact Registry.ne_of_mem_without hw (hfresh w ((r.without_sublist _).subset hw) hreg)
  | deregister workerId =>
    have hsub := ((r.without_sublist workerId).map (·.endpoint)).nodup hnodup
    exact iff_of_true hsub trivial
  | heartbeat workerId now =>
    have hworkers : (r.heartbeat workerId now).workers.map (·.endpoint) =
        r.workers.map (·.endpoint) := by
      rw [Registry.heartbeat, List.map_map]
      apply List.map_congr_left
      intro w hw
      dsimp only [Function.comp]
      split_ifs <;> rfl
    have hsame : (r.heartbeat workerId now).UniqueEndpoints := by
      rw [Registry.UniqueEndpoints, hworkers]
      exact h
    exact iff_of_true hsame trivial
  | checkHealth now =>
    have hsub := (map_filterMap_sublist (fun _ _ h => (checkWorker_eq_some h).2)
      r.workers (f := checkWorker config now)).nodup h
    exact iff_of_true hsub trivial

/-- The registry never has two entries with one endpoint, and no query goes twice to one worker,
just when each registration comes while no other entry has its endpoint. -/
theorem uniqueEndpoints_iff (config : ClusterConfig) (steps : List RegistryStep) :
    (∀ before, before <+: steps → (registryAfter config before).UniqueEndpoints ∧
      (registryAfter config before).DispatchesOnce) ↔
    ∀ before step, before ++ [step] <+: steps → step.Fresh (registryAfter config before) := by
  have hstep : ∀ before step, registryAfter config (before ++ [step]) =
      (registryAfter config before).step config step := by
    intro before step
    simp [registryAfter]
  constructor
  · intro h before step hbegins
    have hbefore := (h before ((List.prefix_append _ _).trans hbegins)).1
    have hafter := (h _ hbegins).1
    rw [hstep] at hafter
    exact (uniqueEndpoints_step_iff hbefore step).mp hafter
  · intro h before hbegins
    have hunique : (registryAfter config before).UniqueEndpoints := by
      induction before using List.reverseRecOn with
      | nil => exact List.nodup_nil
      | append_singleton before step ih =>
        rw [hstep]
        have hbefore := ih ((List.prefix_append _ _).trans hbegins)
        exact (uniqueEndpoints_step_iff hbefore step).mpr (h before step hbegins)
    exact ⟨hunique, hunique.dispatchesOnce⟩

end

/-- A cluster with one worker listed in the configuration. -/
def clusterConfig : ClusterConfig := ⟨[⟨"10.0.0.7:50051", none⟩], .static, 10, 30⟩

/-- A worker that restarts five seconds after its registration and registers again. -/
def restartSteps : List RegistryStep :=
  [.register (workerRegistration "10.0.0.7:50051" 4) 0,
    .register (workerRegistration "10.0.0.7:50051" 4) 5000000000, .checkHealth 6000000000]

/-- The worker that is listed registers by itself, too. -/
def seededSteps : List RegistryStep :=
  (staticRegistrations clusterConfig).map (.register · 0) ++
    [.register (workerRegistration "10.0.0.7:50051" 4) 1000000000]

/-- Two rounds of the discovery in a cluster with one pod. -/
def discoverySteps : List RegistryStep :=
  (k8sRegistrations ["10.0.0.7"]).map (.register · 0) ++
    (k8sRegistrations ["10.0.0.7"]).map (.register · 10000000000)

theorem restart_twice :
    (registryAfter clusterConfig restartSteps).workers.map (·.endpoint) =
      ["http://10.0.0.7:50051", "http://10.0.0.7:50051"] ∧
    ((plan (fun _ => some (.tableScan "orders")) "SELECT * FROM orders"
      (registryAfter clusterConfig restartSteps).activeWorkers).workerAssignments.map
        (·.workerEndpoint)) = ["http://10.0.0.7:50051", "http://10.0.0.7:50051"] ∧
    ¬ (registryAfter clusterConfig restartSteps).UniqueEndpoints ∧
    ¬ (registryAfter clusterConfig seededSteps).UniqueEndpoints ∧
    ¬ (registryAfter clusterConfig discoverySteps).UniqueEndpoints := by
  exact ⟨by decide, by decide, by decide, by decide, by decide⟩

end RustLake.Flight
