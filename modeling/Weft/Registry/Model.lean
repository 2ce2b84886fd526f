import Weft.Lib.InsertionMap

/-! The server's registry of remote workers: which workers are connected, which tasks each of
them has in flight, the counters kept beside the tasks, and the routing policies that read
the counters. Times are milliseconds; what no routing or accounting decision reads (heartbeat
times, build metadata, the texts of drain reasons) is left out. -/

namespace Weft.Registry

open Weft.Lib

universe u v w

variable {ι : Type u} {κ : Type v} {φ : Type w}

/-- In-flight counts by worker and fair-share key. -/
structure FairShareCounters (ι : Type u) (φ : Type w) where
  counts : InsertionMap ι (InsertionMap φ Nat)

structure WorkerInfo (ι : Type u) where
  id : ι
  queue : String
  activities : List String
  concurrency : Nat
  inFlight : Nat
  deploymentName : Option String
  drainStartedAt : Option Nat
deriving DecidableEq, Repr

structure WorkerRegistrationInfo (ι : Type u) where
  id : ι
  queue : String
  activities : List String
  concurrency : Nat
  deploymentName : Option String

structure InFlightTask (ι : Type u) (κ : Type v) (φ : Type w) where
  operationId : κ
  workerId : ι
  deadline : Nat
  visibilityTimeout : Nat
  fairShareKey : Option φ
  attemptToken : String
deriving DecidableEq, Repr

inductive RoutingPolicy where
  | leastLoaded
  | roundRobin
  | fairShare
deriving DecidableEq, Repr

structure WorkerRegistry (ι : Type u) (κ : Type v) (φ : Type w) where
  workers : InsertionMap ι (WorkerInfo ι)
  inFlightTasks : InsertionMap κ (InFlightTask ι κ φ)
  deploymentDrainStates : InsertionMap String Nat
  policy : RoutingPolicy
  /-- Cursors by queue and activity. -/
  roundRobinCursor : InsertionMap String Nat
  fairShareCounts : FairShareCounters ι φ

namespace FairShareCounters

def empty : FairShareCounters ι φ := ⟨.empty⟩

variable [DecidableEq ι]

def purge (c : FairShareCounters ι φ) (workerId : ι) : FairShareCounters ι φ :=
  ⟨c.counts.delete workerId⟩

variable [DecidableEq φ]

def load (c : FairShareCounters ι φ) (workerId : ι) (key : φ) : Nat :=
  ((c.counts.get workerId).bind fun workerCounts => workerCounts.get key).getD 0

def increment (c : FairShareCounters ι φ) (workerId : ι) (key : φ) : FairShareCounters ι φ :=
  let workerCounts := (c.counts.get workerId).getD .empty
  ⟨c.counts.set workerId (workerCounts.set key ((workerCounts.get key).getD 0 + 1))⟩

def release (c : FairShareCounters ι φ) (workerId : ι) (key : φ) : FairShareCounters ι φ :=
  match c.counts.get workerId with
  | none => c
  | some workerCounts =>
      -- subtraction of natural numbers floors at zero, as `Math.max(0, ..)` does
      let next := (workerCounts.get key).getD 0 - 1
      if next = 0 then
        let rest := workerCounts.delete key
        if rest.size = 0 then ⟨c.counts.delete workerId⟩ else ⟨c.counts.set workerId rest⟩
      else
        ⟨c.counts.set workerId (workerCounts.set key next)⟩

theorem load_increment (c : FairShareCounters ι φ) (w v : ι) (k j : φ) :
    (c.increment w k).load v j = c.load v j + if v = w ∧ j = k then 1 else 0 := by
  simp only [load, increment, InsertionMap.get_set]
  by_cases hv : v = w
  · subst hv
    by_cases hj : j = k
    · subst hj
      cases c.counts.get v <;> simp [InsertionMap.get_set]
    · cases c.counts.get v <;> simp [InsertionMap.get_set, hj]
  · simp [hv]

theorem load_purge (c : FairShareCounters ι φ) (w v : ι) (k : φ) :
    (c.purge w).load v k = if v = w then 0 else c.load v k := by
  simp only [load, purge, InsertionMap.get_delete]
  split_ifs with hv
  · rfl
  · rfl

theorem load_release (c : FairShareCounters ι φ) (w v : ι) (k j : φ) :
    (c.release w k).load v j = c.load v j - if v = w ∧ j = k then 1 else 0 := by
  rw [release]
  cases hw : c.counts.get w with
  | none =>
    by_cases hv : v = w
    · subst hv
      simp [load, hw]
    · simp [hv]
  | some workerCounts =>
    simp only
    by_cases hv : v = w
    · subst hv
      by_cases hj : j = k
      · subst hj
        have hone : (if v = v ∧ j = j then 1 else 0) = 1 := if_pos ⟨rfl, rfl⟩
        rw [hone]
        split_ifs with hnext hsize
        · simp [load, InsertionMap.get_delete, hw, hnext]
        · simp [load, InsertionMap.get_set, InsertionMap.get_delete, hw, hnext]
        · simp [load, InsertionMap.get_set, hw]
      · have hzero : (if v = v ∧ j = k then 1 else 0) = 0 := if_neg fun h => hj h.2
        rw [hzero]
        split_ifs with hnext hsize
        · -- the pruned inner map had no other key left
          have hgone : (workerCounts.delete k).get j = none := by
            rw [InsertionMap.get, List.length_eq_zero_iff.1 hsize]
            rfl
          rw [InsertionMap.get_delete, if_neg hj] at hgone
          simp [load, InsertionMap.get_delete, hw, hgone]
        · simp [load, InsertionMap.get_set, InsertionMap.get_delete, hw, hj]
        · simp [load, InsertionMap.get_set, hw, hj]
    · have hzero : (if v = w ∧ j = k then 1 else 0) = 0 := if_neg fun h => hv h.1
      rw [hzero]
      split_ifs with hnext hsize
      · simp [load, InsertionMap.get_delete, hv]
      · simp [load, InsertionMap.get_set, hv]
      · simp [load, InsertionMap.get_set, hv]

end FairShareCounters

namespace WorkerRegistry

def new (policy : RoutingPolicy) : WorkerRegistry ι κ φ where
  workers := .empty
  inFlightTasks := .empty
  deploymentDrainStates := .empty
  policy := policy
  roundRobinCursor := .empty
  fairShareCounts := .empty

variable [DecidableEq ι]

/-- The tasks in flight on a worker. -/
def getWorkerTasks (r : WorkerRegistry ι κ φ) (workerId : ι) : List (InFlightTask ι κ φ) :=
  r.inFlightTasks.values.filter fun task => task.workerId = workerId

/-- A worker that reconnects keeps its tasks, so `inFlight` is counted and not reset. -/
def register (r : WorkerRegistry ι κ φ) (info : WorkerRegistrationInfo ι) :
    WorkerRegistry ι κ φ :=
  let inFlight := r.inFlightTasks.count fun task => task.workerId = info.id
  let worker : WorkerInfo ι :=
    { id := info.id, queue := info.queue, activities := info.activities,
      concurrency := info.concurrency, inFlight, deploymentName := info.deploymentName,
      drainStartedAt := none }
  { r with workers := r.workers.set info.id worker }

/-- A change of the record of a worker, where there is one. -/
def updateWorker (r : WorkerRegistry ι κ φ) (workerId : ι) (f : WorkerInfo ι → WorkerInfo ι) :
    WorkerRegistry ι κ φ :=
  match r.workers.get workerId with
  | none => r
  | some info => { r with workers := r.workers.set workerId (f info) }

theorem get_workers_updateWorker (r : WorkerRegistry ι κ φ) (workerId v : ι)
    (f : WorkerInfo ι → WorkerInfo ι) : (r.updateWorker workerId f).workers.get v =
      if v = workerId then (r.workers.get v).map f else r.workers.get v := by
  rw [updateWorker]
  cases hw : r.workers.get workerId with
  | none =>
    split_ifs with hv
    · rw [hv, hw]
      rfl
    · rfl
  | some info =>
    simp only [InsertionMap.get_set]
    split_ifs with hv
    · rw [hv, hw]
      rfl
    · rfl

@[simp] theorem inFlightTasks_updateWorker (r : WorkerRegistry ι κ φ) (workerId : ι)
    (f : WorkerInfo ι → WorkerInfo ι) :
    (r.updateWorker workerId f).inFlightTasks = r.inFlightTasks := by
  rw [updateWorker]
  split
  · rfl
  · rfl

@[simp] theorem fairShareCounts_updateWorker (r : WorkerRegistry ι κ φ) (workerId : ι)
    (f : WorkerInfo ι → WorkerInfo ι) :
    (r.updateWorker workerId f).fairShareCounts = r.fairShareCounts := by
  rw [updateWorker]
  split
  · rfl
  · rfl

def taskAssigned (r : WorkerRegistry ι κ φ) (workerId : ι) : WorkerRegistry ι κ φ :=
  r.updateWorker workerId fun info => { info with inFlight := info.inFlight + 1 }

def taskCompleted (r : WorkerRegistry ι κ φ) (workerId : ι) : WorkerRegistry ι κ φ :=
  r.updateWorker workerId fun info => { info with inFlight := info.inFlight - 1 }

def isWorkerDraining (r : WorkerRegistry ι κ φ) (worker : WorkerInfo ι) : Bool :=
  worker.drainStartedAt.isSome || worker.deploymentName.any r.deploymentDrainStates.has

section Tasks

variable [DecidableEq κ]

def getTask (r : WorkerRegistry ι κ φ) (operationId : κ) : Option (InFlightTask ι κ φ) :=
  r.inFlightTasks.get operationId

def isAssigned (r : WorkerRegistry ι κ φ) (operationId : κ) : Bool :=
  r.inFlightTasks.has operationId

/-- The entries of a worker that leaves are deleted while the map is walked. -/
def unregister (r : WorkerRegistry ι κ φ) (workerId : ι) : WorkerRegistry ι κ φ :=
  match r.workers.get workerId with
  | none => r
  | some _ =>
      { r with
        workers := r.workers.delete workerId
        fairShareCounts := r.fairShareCounts.purge workerId
        inFlightTasks := r.inFlightTasks.deleteWhere fun task => task.workerId = workerId }

def extendVisibility (r : WorkerRegistry ι κ φ) (operationId : κ) (now extension : Nat) :
    WorkerRegistry ι κ φ :=
  match r.inFlightTasks.get operationId with
  | none => r
  | some task =>
      let extended := { task with deadline := now + extension }
      { r with inFlightTasks := r.inFlightTasks.set operationId extended }

variable [DecidableEq φ]

/-- The entry that an assignment makes. -/
def assignedTask (workerId : ι) (operationId : κ) (now visibilityTimeout : Nat)
    (fairShareKey : Option φ) (attemptToken : String) : InFlightTask ι κ φ where
  operationId := operationId
  workerId := workerId
  deadline := now + visibilityTimeout
  visibilityTimeout := visibilityTimeout
  fairShareKey := fairShareKey
  attemptToken := attemptToken

def countFairShare (r : WorkerRegistry ι κ φ) (task : InFlightTask ι κ φ) :
    WorkerRegistry ι κ φ :=
  match task.fairShareKey with
  | none => r
  | some key => { r with fairShareCounts := r.fairShareCounts.increment task.workerId key }

def assignTask (r : WorkerRegistry ι κ φ) (workerId : ι) (operationId : κ)
    (now visibilityTimeout : Nat) (fairShareKey : Option φ) (attemptToken : String) :
    WorkerRegistry ι κ φ :=
  let task := assignedTask workerId operationId now visibilityTimeout fairShareKey attemptToken
  let counted := r.countFairShare task
  let tracked := { counted with inFlightTasks := counted.inFlightTasks.set operationId task }
  tracked.taskAssigned workerId

def releaseFairShare (r : WorkerRegistry ι κ φ) (task : InFlightTask ι κ φ) :
    WorkerRegistry ι κ φ :=
  match task.fairShareKey with
  | none => r
  | some key => { r with fairShareCounts := r.fairShareCounts.release task.workerId key }

def completeTask (r : WorkerRegistry ι κ φ) (operationId : κ) : WorkerRegistry ι κ φ :=
  match r.inFlightTasks.get operationId with
  | none => r
  | some task =>
      let removed := { r with inFlightTasks := r.inFlightTasks.delete operationId }
      (removed.taskCompleted task.workerId).releaseFairShare task

/-- The tasks whose deadline has passed. -/
def expiredTasks (r : WorkerRegistry ι κ φ) (now : Nat) : List (InFlightTask ι κ φ) :=
  r.inFlightTasks.values.filter fun task => task.deadline ≤ now

/-- One round of the removing loop: the worker's `inFlight` is not touched. -/
def expireTask (r : WorkerRegistry ι κ φ) (task : InFlightTask ι κ φ) : WorkerRegistry ι κ φ :=
  releaseFairShare { r with inFlightTasks := r.inFlightTasks.delete task.operationId } task

def checkExpiredTasks (r : WorkerRegistry ι κ φ) (now : Nat) : WorkerRegistry ι κ φ :=
  (r.expiredTasks now).foldl expireTask r

end Tasks

end WorkerRegistry

/-! The routing policies. -/

structure RoutingOptions (ι : Type u) (φ : Type w) where
  queue : Option String
  sticky : Option ι
  fairShareKey : Option φ
  excludeWorkerIds : List ι

structure WorkerScore (ι : Type u) where
  keyLoad : Nat
  inFlight : Nat
  id : ι

def matchesWorkerCapabilities (worker : WorkerInfo ι) (activityName : String)
    (queue : Option String) : Bool :=
  if queue.any fun q => worker.queue != q then false
  else if activityName ∈ worker.activities then decide (worker.inFlight < worker.concurrency)
  else false

section Policies

variable [LinearOrder ι]

/-- Negative where `a` is preferred. -/
def compareScores (a b : WorkerScore ι) : Int :=
  if a.keyLoad ≠ b.keyLoad then (a.keyLoad : Int) - b.keyLoad
  else if a.inFlight ≠ b.inFlight then (a.inFlight : Int) - b.inFlight
  else if a.id < b.id then -1
  else if b.id < a.id then 1
  else 0

def pickLeastLoaded (first : WorkerInfo ι) (rest : List (WorkerInfo ι)) : WorkerInfo ι :=
  rest.foldl
    (fun best candidate =>
      if candidate.inFlight < best.inFlight ∨
          candidate.inFlight = best.inFlight ∧ candidate.id < best.id
      then candidate else best)
    first

def roundRobinKey (queue : Option String) (activityName : String) : String :=
  queue.getD "__default__" ++ "::" ++ activityName

/-- The picked worker and the advanced cursors. -/
def pickRoundRobin (eligible : List (WorkerInfo ι)) (cursor : InsertionMap String Nat)
    (queue : Option String) (activityName : String) :
    Option (WorkerInfo ι) × InsertionMap String Nat :=
  let key := roundRobinKey queue activityName
  let position := (cursor.get key).getD 0
  (eligible[position % eligible.length]?, cursor.set key (position + 1))

variable [DecidableEq φ]

def pickFairShare (first : WorkerInfo ι) (rest : List (WorkerInfo ι))
    (counters : FairShareCounters ι φ) (fairShareKey : φ) : Option (WorkerInfo ι) :=
  let scoreWorker := fun worker : WorkerInfo ι =>
    ({ keyLoad := counters.load worker.id fairShareKey, inFlight := worker.inFlight,
       id := worker.id } : WorkerScore ι)
  let winner := (rest.map scoreWorker).foldl
    (fun best candidate => if compareScores candidate best < 0 then candidate else best)
    (scoreWorker first)
  (first :: rest).find? fun worker => worker.id = winner.id

namespace WorkerRegistry

def workerIsEligible (r : WorkerRegistry ι κ φ) (activityName : String)
    (options : RoutingOptions ι φ) (worker : WorkerInfo ι) : Bool :=
  if worker.id ∈ options.excludeWorkerIds then false
  else if !matchesWorkerCapabilities worker activityName options.queue then false
  else !r.isWorkerDraining worker

def eligibleWorkers (r : WorkerRegistry ι κ φ) (activityName : String)
    (options : RoutingOptions ι φ) : List (WorkerInfo ι) :=
  r.workers.values.filter (r.workerIsEligible activityName options)

def selectByPolicy (r : WorkerRegistry ι κ φ) (first : WorkerInfo ι)
    (rest : List (WorkerInfo ι)) (activityName : String) (options : RoutingOptions ι φ) :
    Option (WorkerInfo ι) × WorkerRegistry ι κ φ :=
  match r.policy, options.fairShareKey with
  | .roundRobin, _ =>
      let picked := pickRoundRobin (first :: rest) r.roundRobinCursor options.queue activityName
      (picked.1, { r with roundRobinCursor := picked.2 })
  | .fairShare, some key => (pickFairShare first rest r.fairShareCounts key, r)
  | _, _ => (some (pickLeastLoaded first rest), r)

/-- The selected worker, and the registry whose cursor the selection may have advanced. -/
def findWorker (r : WorkerRegistry ι κ φ) (activityName : String)
    (options : RoutingOptions ι φ) : Option (WorkerInfo ι) × WorkerRegistry ι κ φ :=
  let eligible := r.eligibleWorkers activityName options
  match (eligible.filter fun worker => options.sticky = some worker.id).getLast? with
  | some stickyCandidate => (some stickyCandidate, r)
  | none =>
      match eligible with
      | [] => (none, r)
      | first :: rest => r.selectByPolicy first rest activityName options

/-! What a selection can be. -/

variable {r : WorkerRegistry ι κ φ} {options : RoutingOptions ι φ}

variable {activityName : String} {worker : WorkerInfo ι}

omit [DecidableEq φ] in
theorem mem_eligibleWorkers (h : worker ∈ r.eligibleWorkers activityName options) :
    worker ∈ r.workers.values ∧ worker.inFlight < worker.concurrency := by
  obtain ⟨hmem, heligible⟩ := List.mem_filter.1 h
  refine ⟨hmem, ?_⟩
  simp only [workerIsEligible, matchesWorkerCapabilities] at heligible
  split_ifs at heligible with hexcluded hqueue hactivity
  all_goals simp_all

omit [DecidableEq φ] in
theorem pickLeastLoaded_mem (first : WorkerInfo ι) (rest : List (WorkerInfo ι)) :
    pickLeastLoaded first rest ∈ first :: rest := by
  rw [pickLeastLoaded]
  induction rest generalizing first with
  | nil => exact List.mem_singleton.2 rfl
  | cons candidate rest ih =>
    rw [List.foldl_cons]
    have hbest := List.mem_cons.1 (ih (if candidate.inFlight < first.inFlight ∨
      candidate.inFlight = first.inFlight ∧ candidate.id < first.id then candidate else first))
    obtain heq | hmem := hbest
    · rw [heq]
      split_ifs
      · exact List.mem_cons_of_mem _ List.mem_cons_self
      · exact List.mem_cons_self
    · exact List.mem_cons_of_mem _ (List.mem_cons_of_mem _ hmem)

variable {first worker : WorkerInfo ι} {rest : List (WorkerInfo ι)}

theorem pickFairShare_mem {counters : FairShareCounters ι φ} {fairShareKey : φ}
    (h : pickFairShare first rest counters fairShareKey = some worker) :
    worker ∈ first :: rest := by
  rw [pickFairShare] at h
  exact List.mem_of_find?_eq_some h

theorem selectByPolicy_mem
    (h : (r.selectByPolicy first rest activityName options).1 = some worker) :
    worker ∈ first :: rest := by
  rw [selectByPolicy] at h
  split at h
  · exact List.mem_of_getElem? h
  · exact pickFairShare_mem h
  · cases h
    exact pickLeastLoaded_mem first rest

theorem findWorker_mem (h : (r.findWorker activityName options).1 = some worker) :
    worker ∈ r.eligibleWorkers activityName options := by
  simp only [findWorker] at h
  split at h
  · rename_i stickyCandidate hsticky
    cases h
    exact (List.mem_filter.1 (List.mem_of_getLast? hsticky)).1
  · split at h
    · cases h
    · rename_i first rest heligible
      rw [heligible]
      exact selectByPolicy_mem h

/-- A selection moves at most a cursor. -/
theorem findWorker_registry (r : WorkerRegistry ι κ φ) (activityName : String)
    (options : RoutingOptions ι φ) : ∃ cursor,
      (r.findWorker activityName options).2 = { r with roundRobinCursor := cursor } := by
  simp only [findWorker]
  split
  · exact ⟨r.roundRobinCursor, rfl⟩
  · split
    · exact ⟨r.roundRobinCursor, rfl⟩
    · rw [selectByPolicy]
      split
      · exact ⟨_, rfl⟩
      · exact ⟨r.roundRobinCursor, rfl⟩
      · exact ⟨r.roundRobinCursor, rfl⟩

end WorkerRegistry

end Policies

end Weft.Registry
