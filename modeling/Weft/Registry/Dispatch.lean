import Weft.Registry.Accounting

/-! Dispatches that run side by side. A dispatch validates its task and selects a worker in one
turn, waits for the task's queued record, and only then records the assignment; one that finds
no worker waits in the same way before it enters the long-poll queue. -/

namespace Weft.Registry

open Weft.Lib

universe u v w

variable {ι : Type u} {κ : Type v} {φ : Type w}

structure TaskDispatch (κ : Type v) (φ : Type w) where
  operationId : κ
  activityName : String
  queue : Option String
  attempt : Nat
  visibilityTimeout : Nat
  fairShareKey : Option φ

/-- A dispatch that has selected a worker and has not recorded the assignment yet. -/
structure Reservation (ι : Type u) (κ : Type v) (φ : Type w) where
  task : TaskDispatch κ φ
  workerId : ι

inductive Channel where
  | socket
  | longPoll
deriving DecidableEq, Repr

/-- An assignment that has not ended. -/
structure Assignment (ι : Type u) (κ : Type v) where
  operationId : κ
  attempt : Nat
  workerId : ι
  channel : Channel
  attemptToken : String
deriving DecidableEq, Repr

structure Server (ι : Type u) (κ : Type v) (φ : Type w) where
  registry : WorkerRegistry ι κ φ
  workerSockets : List ι
  pendingWorkerRequeues : List ι
  reserving : List (Reservation ι κ φ)
  /-- Dispatches on their way into the long-poll queue. -/
  queueing : List (TaskDispatch κ φ)
  /-- The long-poll queue's tasks that no poll has taken. -/
  pending : List (TaskDispatch κ φ)
  /-- The ids that the long-poll queue tracks. -/
  dispatched : List κ
  /-- Which assignments were made and have not ended; the code keeps no such list. -/
  assigned : List (Assignment ι κ)

inductive Event (ι : Type u) (κ : Type v) (φ : Type w) where
  | register (info : WorkerRegistrationInfo ι)
  /-- The socket of a worker closes; its tasks are held for the grace period. -/
  | close (workerId : ι)
  /-- The grace period is over: the worker's tasks are given up and it is unregistered. -/
  | disconnect (workerId : ι)
  /-- A dispatch up to its first wait; `sticky` is what the affinity map has for the task. -/
  | dispatch (task : TaskDispatch κ φ) (sticky : Option ι)
  /-- The queued record of a reservation was read. -/
  | reserve (index : Nat) (now : Nat) (attemptToken : String)
  /-- The read of a reservation failed and with it the dispatch. -/
  | abandon (index : Nat)
  /-- The read or the write of a dispatch on its way into the queue failed. -/
  | abandonQueueing (index : Nat)
  /-- A dispatch enters the queue, and a waiting poll of `waiter` may take its task at once. -/
  | enqueue (index : Nat) (waiter : Option ι)
  /-- A poll takes a pending task. -/
  | poll (workerId : ι) (index : Nat)
  /-- The assignment to a connected worker ends, by a result or by its deadline. -/
  | completeTask (operationId : κ)
  /-- `TaskQueue.complete`: the queue forgets the id. -/
  | completeQueued (operationId : κ)

namespace Server

def new (policy : RoutingPolicy) : Server ι κ φ where
  registry := .new policy
  workerSockets := []
  pendingWorkerRequeues := []
  reserving := []
  queueing := []
  pending := []
  dispatched := []
  assigned := []

variable [LinearOrder ι] [DecidableEq κ] [DecidableEq φ]

def validateTaskEnvelope (s : Server ι κ φ) (task : TaskDispatch κ φ) : Bool :=
  !s.registry.isAssigned task.operationId && !s.dispatched.contains task.operationId

def buildRoutingOptions (s : Server ι κ φ) (task : TaskDispatch κ φ) (sticky : Option ι) :
    RoutingOptions ι φ where
  queue := some (task.queue.getD "default")
  sticky := sticky
  fairShareKey := task.fairShareKey
  excludeWorkerIds := s.pendingWorkerRequeues

/-- The worker that a dispatch would get, where it has a socket. -/
def selectWorker (s : Server ι κ φ) (task : TaskDispatch κ φ) (sticky : Option ι) :
    Option (WorkerInfo ι) :=
  (s.registry.findWorker task.activityName (s.buildRoutingOptions task sticky)).1.filter
    fun worker => s.workerSockets.any (· = worker.id)

def dispatchTask (s : Server ι κ φ) (task : TaskDispatch κ φ) (sticky : Option ι) :
    Server ι κ φ :=
  if s.validateTaskEnvelope task then
    let registry :=
      (s.registry.findWorker task.activityName (s.buildRoutingOptions task sticky)).2
    match s.selectWorker task sticky with
    | some worker =>
        { s with registry, reserving := s.reserving ++ [⟨task, worker.id⟩] }
    | none => { s with registry, queueing := s.queueing ++ [task] }
  else s

def reserve (s : Server ι κ φ) (index now : Nat) (attemptToken : String) : Server ι κ φ :=
  match s.reserving[index]? with
  | none => s
  | some reservation =>
      let task := reservation.task
      { s with
        reserving := s.reserving.eraseIdx index
        registry := s.registry.assignTask reservation.workerId task.operationId now
          task.visibilityTimeout task.fairShareKey attemptToken
        assigned := s.assigned ++
          [⟨task.operationId, task.attempt, reservation.workerId, .socket, attemptToken⟩] }

def enqueue (s : Server ι κ φ) (index : Nat) (waiter : Option ι) : Server ι κ φ :=
  match s.queueing[index]? with
  | none => s
  | some task =>
      let left := { s with queueing := s.queueing.eraseIdx index }
      if task.operationId ∈ s.dispatched then left
      else
        let tracked := { left with dispatched := task.operationId :: s.dispatched }
        match waiter with
        | none => { tracked with pending := s.pending ++ [task] }
        | some workerId => { tracked with assigned := s.assigned ++
            [⟨task.operationId, task.attempt, workerId, .longPoll, ""⟩] }

def poll (s : Server ι κ φ) (workerId : ι) (index : Nat) : Server ι κ φ :=
  match s.pending[index]? with
  | none => s
  | some task =>
      { s with
        pending := s.pending.eraseIdx index
        assigned := s.assigned ++
          [⟨task.operationId, task.attempt, workerId, .longPoll, ""⟩] }

/-- Which assignment is the one that the registry has for the operation. -/
def isCurrent (s : Server ι κ φ) (operationId : κ) (a : Assignment ι κ) : Bool :=
  a.channel = .socket && a.operationId = operationId &&
    (s.registry.getTask operationId).any fun task => task.attemptToken = a.attemptToken

def completeTask (s : Server ι κ φ) (operationId : κ) : Server ι κ φ := { s with
  registry := s.registry.completeTask operationId
  assigned := s.assigned.filter fun a => !s.isCurrent operationId a }

def completeQueued (s : Server ι κ φ) (operationId : κ) : Server ι κ φ := { s with
  dispatched := s.dispatched.filter (· ≠ operationId)
  assigned := s.assigned.filter fun a =>
    !(a.channel = .longPoll && a.operationId = operationId) }

def disconnect (s : Server ι κ φ) (workerId : ι) : Server ι κ φ :=
  let given := (s.registry.getWorkerTasks workerId).foldl
    (fun registry task => registry.completeTask task.operationId) s.registry
  { s with
    registry := given.unregister workerId
    workerSockets := s.workerSockets.filter (· ≠ workerId)
    pendingWorkerRequeues := s.pendingWorkerRequeues.filter (· ≠ workerId)
    assigned := s.assigned.filter fun a => !(a.channel = .socket && a.workerId = workerId) }

def handle (s : Server ι κ φ) : Event ι κ φ → Server ι κ φ
  | .register info =>
      { s with
        registry := s.registry.register info
        workerSockets := info.id :: s.workerSockets
        pendingWorkerRequeues := s.pendingWorkerRequeues.filter (· ≠ info.id) }
  | .close workerId => { s with pendingWorkerRequeues := workerId :: s.pendingWorkerRequeues }
  | .disconnect workerId => s.disconnect workerId
  | .dispatch task sticky => s.dispatchTask task sticky
  | .reserve index now attemptToken => s.reserve index now attemptToken
  | .abandon index => { s with reserving := s.reserving.eraseIdx index }
  | .abandonQueueing index => { s with queueing := s.queueing.eraseIdx index }
  | .enqueue index waiter => s.enqueue index waiter
  | .poll workerId index => s.poll workerId index
  | .completeTask operationId => s.completeTask operationId
  | .completeQueued operationId => s.completeQueued operationId

/-! What must not happen, and when it does not. -/

def reservedFor (workerId : ι) (s : Server ι κ φ) : Nat :=
  s.reserving.countP fun reservation => reservation.workerId = workerId

/-- No two assignments of one attempt are in force at different workers. -/
def SingleHolder (s : Server ι κ φ) : Prop :=
  ∀ a ∈ s.assigned, ∀ b ∈ s.assigned,
    a.operationId = b.operationId → a.attempt = b.attempt → a.workerId = b.workerId

/-- An assignment leaves its worker with no more tasks than the worker declared. -/
def WithinCapacity (s : Server ι κ φ) : Event ι κ φ → Prop
  | .reserve index now attemptToken => ∀ reservation ∈ s.reserving[index]?,
      ∀ info ∈ s.registry.workers.get reservation.workerId,
        (s.reserve index now attemptToken).registry.inFlightTasks.count
          (ofWorker reservation.workerId) ≤ info.concurrency
  | _ => True

/-- No dispatch of the operation is under way. -/
def NotUnderWay (s : Server ι κ φ) (operationId : κ) : Prop :=
  (∀ reservation ∈ s.reserving, reservation.task.operationId ≠ operationId) ∧
  ∀ task ∈ s.queueing, task.operationId ≠ operationId

/-- The dispatches that run at one time are of different operations and take different slots,
and no id that is still pending is completed. -/
def Apart (s : Server ι κ φ) : Event ι κ φ → Prop
  | .dispatch task sticky => s.NotUnderWay task.operationId ∧
      ∀ worker ∈ s.selectWorker task sticky,
        worker.inFlight + s.reservedFor worker.id < worker.concurrency
  | .register info => s.reservedFor info.id = 0 ∨
      s.registry.inFlightTasks.count (ofWorker info.id) + s.reservedFor info.id ≤
        info.concurrency
  | .completeQueued operationId => ∀ task ∈ s.pending, task.operationId ≠ operationId
  | _ => True

/-- The operations that are under way, pending or assigned. -/
def live (s : Server ι κ φ) : List κ :=
  s.reserving.map (fun reservation => reservation.task.operationId) ++
    (s.queueing.map TaskDispatch.operationId ++
      (s.pending.map TaskDispatch.operationId ++ s.assigned.map Assignment.operationId))

/-- What holds between the registry, the queue and the dispatches under way. -/
structure Orderly (s : Server ι κ φ) : Prop where
  keyed : s.registry.Keyed
  accounted : s.registry.Accounted
  ids : ∀ v info, s.registry.workers.get v = some info → info.id = v
  /-- The slots of a worker hold its tasks and its reservations. -/
  capacity : ∀ v info, s.registry.workers.get v = some info → s.reservedFor v = 0 ∨
    s.registry.inFlightTasks.count (ofWorker v) + s.reservedFor v ≤ info.concurrency
  distinct : s.live.Nodup
  socket : ∀ a ∈ s.assigned, a.channel = .socket →
    ∃ task, s.registry.inFlightTasks.get a.operationId = some task ∧
      task.workerId = a.workerId ∧ task.attemptToken = a.attemptToken
  tasks : ∀ operationId task, s.registry.inFlightTasks.get operationId = some task →
    ∃ a ∈ s.assigned, a.operationId = operationId ∧ a.channel = .socket
  longPoll : ∀ a ∈ s.assigned, a.channel = .longPoll → a.operationId ∈ s.dispatched
  tracked : ∀ task ∈ s.pending, task.operationId ∈ s.dispatched

variable {s : Server ι κ φ}

theorem Orderly.singleHolder (h : s.Orderly) : s.SingleHolder := by
  intro a ha b hb hop _
  have hassigned : (s.assigned.map Assignment.operationId).Nodup := by
    have hdistinct := h.distinct
    simp only [live, List.nodup_append] at hdistinct
    exact hdistinct.2.1.2.1.2.1
  rw [List.inj_on_of_nodup_map hassigned ha hb hop]

theorem orderly_new (policy : RoutingPolicy) : (new policy : Server ι κ φ).Orderly where
  keyed := WorkerRegistry.keyed_new policy
  accounted := WorkerRegistry.accounted_new policy
  ids _ _ hget := by cases hget
  capacity _ _ hget := by cases hget
  distinct := List.nodup_nil
  socket _ ha := by cases ha
  tasks _ _ hget := by cases hget
  longPoll _ ha := by cases ha
  tracked _ htask := by cases htask

/-! Taking one place out of a list. -/

theorem countP_eraseIdx {α : Type*} {l : List α} {i : Nat} {x : α} (h : l[i]? = some x)
    (p : α → Bool) : l.countP p = (l.eraseIdx i).countP p + if p x then 1 else 0 := by
  obtain ⟨hi, rfl⟩ := List.getElem?_eq_some_iff.1 h
  rw [← (List.getElem_cons_eraseIdx_perm hi).countP_eq, List.countP_cons]

theorem map_eraseIdx_perm {α β : Type*} {l : List α} {i : Nat} {x : α} (h : l[i]? = some x)
    (f : α → β) : (l.map f).Perm (f x :: (l.eraseIdx i).map f) := by
  obtain ⟨hi, rfl⟩ := List.getElem?_eq_some_iff.1 h
  exact ((List.getElem_cons_eraseIdx_perm hi).map f).symm

/-! One event at a time. -/

theorem Orderly.register (h : s.Orderly) (info : WorkerRegistrationInfo ι)
    (hapart : s.Apart (.register info)) : (s.handle (.register info)).Orderly where
  keyed := h.keyed
  accounted := h.accounted.register info
  ids v found hfound := by
    simp only [handle, WorkerRegistry.register, InsertionMap.get_set] at hfound
    split_ifs at hfound with hv
    · cases hfound
      exact hv.symm
    · exact h.ids v found hfound
  capacity v found hfound := by
    simp only [handle, WorkerRegistry.register, InsertionMap.get_set] at hfound
    split_ifs at hfound with hv
    · cases hfound
      subst hv
      exact hapart
    · exact h.capacity v found hfound
  distinct := h.distinct
  socket := h.socket
  tasks := h.tasks
  longPoll := h.longPoll
  tracked := h.tracked

theorem Orderly.dispatch (h : s.Orderly) (task : TaskDispatch κ φ) (sticky : Option ι)
    (hapart : s.Apart (.dispatch task sticky)) : (s.handle (.dispatch task sticky)).Orderly := by
  rw [handle, dispatchTask]
  split_ifs with hvalid
  · obtain ⟨cursor, hcursor⟩ :=
      s.registry.findWorker_registry task.activityName (s.buildRoutingOptions task sticky)
    obtain ⟨⟨hreserving, hqueueing⟩, hslots⟩ := hapart
    simp only [validateTaskEnvelope, WorkerRegistry.isAssigned, InsertionMap.has, Bool.and_eq_true,
      Bool.not_eq_true', Option.isSome_eq_false_iff, Option.isNone_iff_eq_none,
      List.contains_eq_mem, decide_eq_false_iff_not] at hvalid
    obtain ⟨hunassigned, huntracked⟩ := hvalid
    have hfresh : task.operationId ∉ s.live := by
      simp only [live, List.mem_append, List.mem_map, not_or, not_exists, not_and]
      refine ⟨hreserving, hqueueing, fun other hother heq => ?_, fun a ha heq => ?_⟩
      · exact huntracked (heq ▸ h.tracked other hother)
      · cases hchannel : a.channel with
        | socket =>
          obtain ⟨found, hfound, -⟩ := h.socket a ha hchannel
          rw [heq, hunassigned] at hfound
          cases hfound
        | longPoll => exact huntracked (heq ▸ h.longPoll a ha hchannel)
    rw [hcursor]
    have haccounted : ({ s.registry with roundRobinCursor := cursor } :
        WorkerRegistry ι κ φ).Accounted := ⟨h.accounted.inFlight, h.accounted.load⟩
    have hdistinct : (task.operationId :: s.live).Nodup := List.nodup_cons.2 ⟨hfresh, h.distinct⟩
    cases hselect : s.selectWorker task sticky with
    | none =>
      refine { h with accounted := haccounted, distinct := ?_ }
      refine List.Perm.nodup (List.Perm.symm ?_) hdistinct
      simp only [live, List.map_append, List.map_cons, List.map_nil, List.append_assoc,
        List.singleton_append]
      rw [← List.append_assoc, ← List.append_assoc (s.reserving.map _)]
      exact List.perm_middle
    | some worker =>
      refine { h with accounted := haccounted, capacity := ?_, distinct := ?_ }
      · intro v info hinfo
        have hcount : reservedFor v { s with reserving := s.reserving ++ [⟨task, worker.id⟩] } =
            s.reservedFor v + if worker.id = v then 1 else 0 := by
          simp [reservedFor, List.countP_append, List.countP_cons]
        change reservedFor v { s with reserving := s.reserving ++ [⟨task, worker.id⟩] } = 0 ∨
          s.registry.inFlightTasks.count (ofWorker v) +
            reservedFor v { s with reserving := s.reserving ++ [⟨task, worker.id⟩] } ≤ _
        rw [hcount]
        split_ifs with hv
        · -- the selected worker is registered under its own id, and a slot is left
          obtain ⟨k, hk⟩ := InsertionMap.mem_values_iff.1
            (WorkerRegistry.mem_eligibleWorkers
              (WorkerRegistry.findWorker_mem (Option.filter_eq_some_iff.1 hselect).1)).1
          have hworker : s.registry.workers.get v = some worker := by
            rw [← hv, h.ids k worker hk]
            exact hk
          have hsame : info = worker := Option.some.inj (hinfo.symm.trans hworker)
          have hslot := hslots worker hselect
          have hinFlight := h.accounted.inFlight v worker hworker
          rw [hsame]
          rw [hv] at hslot
          omega
        · exact h.capacity v info hinfo
      · refine List.Perm.nodup (List.Perm.symm ?_) hdistinct
        simp only [live, List.map_append, List.map_cons, List.map_nil, List.append_assoc,
          List.singleton_append]
        exact List.perm_middle
  · exact h

variable {reservation : Reservation ι κ φ}

omit [DecidableEq κ] [DecidableEq φ] in
theorem reservedFor_eraseIdx {index : Nat} (hres : s.reserving[index]? = some reservation) (v : ι) :
    s.reservedFor v = (s.reserving.eraseIdx index).countP (fun other => other.workerId = v) +
        if reservation.workerId = v then 1 else 0 := by
  rw [reservedFor, countP_eraseIdx hres]
  simp only [decide_eq_true_eq]

/-- The operation of a reservation has no assignment. -/
theorem Orderly.not_assigned (h : s.Orderly) (hres : reservation ∈ s.reserving) :
    ∀ a ∈ s.assigned, a.operationId ≠ reservation.task.operationId := by
  intro a ha heq
  have hdistinct := h.distinct
  rw [live, List.nodup_append] at hdistinct
  refine hdistinct.2.2 reservation.task.operationId (List.mem_map_of_mem hres) a.operationId ?_
    heq.symm
  simp only [List.mem_append]
  exact .inr (.inr (List.mem_map_of_mem ha))

theorem Orderly.unassigned (h : s.Orderly) (hres : reservation ∈ s.reserving) :
    s.registry.inFlightTasks.get reservation.task.operationId = none := by
  cases hget : s.registry.inFlightTasks.get reservation.task.operationId with
  | none => rfl
  | some task =>
    obtain ⟨a, ha, hop, -⟩ := h.tasks _ task hget
    exact (h.not_assigned hres a ha hop).elim

variable {r : WorkerRegistry ι κ φ}

/-- A task that is assigned anew is one more of its worker. -/
theorem count_assignTask_fresh {operationId : κ} (hfresh : r.inFlightTasks.get operationId = none)
    (workerId : ι) (now timeout : Nat) (key : Option φ) (token : String) (v : ι) :
    (r.assignTask workerId operationId now timeout key token).inFlightTasks.count (ofWorker v) =
      r.inFlightTasks.count (ofWorker v) + if workerId = v then 1 else 0 := by
  have hcount := r.count_assignTask workerId operationId now timeout key token (ofWorker v)
  rw [hfresh, Option.any_none, if_neg Bool.false_ne_true, Nat.add_zero] at hcount
  rw [hcount]
  by_cases hv : workerId = v
  · simp [ofWorker, WorkerRegistry.assignedTask, hv]
  · simp [ofWorker, WorkerRegistry.assignedTask, hv]

theorem get_inFlightTasks_assignTask (r : WorkerRegistry ι κ φ) (workerId : ι)
    (operationId other : κ) (now timeout : Nat) (key : Option φ) (token : String) :
    (r.assignTask workerId operationId now timeout key token).inFlightTasks.get other =
      if other = operationId then
        some (WorkerRegistry.assignedTask workerId operationId now timeout key token)
      else r.inFlightTasks.get other := by
  simp only [WorkerRegistry.assignTask, WorkerRegistry.taskAssigned,
    WorkerRegistry.inFlightTasks_updateWorker, WorkerRegistry.inFlightTasks_countFairShare,
    InsertionMap.get_set]

theorem Orderly.reserve_some (h : s.Orderly) {index : Nat}
    (hres : s.reserving[index]? = some reservation) (now : Nat) (attemptToken : String) :
    (s.reserve index now attemptToken).Orderly := by
  have hmem := List.mem_of_getElem? hres
  have hfresh := h.unassigned hmem
  have hothers := h.not_assigned hmem
  rw [Server.reserve, hres]
  constructor
  case keyed =>
    exact h.keyed.apply (.assignTask reservation.workerId reservation.task.operationId now
      reservation.task.visibilityTimeout reservation.task.fairShareKey attemptToken)
  case accounted =>
    refine (WorkerRegistry.accounted_assignTask_iff h.accounted _ _ _ _ _ _).2 fun old hold => ?_
    rw [hfresh] at hold
    cases hold
  case ids =>
    intro v info hinfo
    rw [WorkerRegistry.get_workers_assignTask] at hinfo
    split_ifs at hinfo
    · obtain ⟨before, hbefore, rfl⟩ := Option.map_eq_some_iff.1 hinfo
      exact h.ids v before hbefore
    · exact h.ids v info hinfo
  case capacity =>
    intro v info hinfo
    rw [WorkerRegistry.get_workers_assignTask] at hinfo
    obtain ⟨before, hbefore, hsame⟩ : ∃ before, s.registry.workers.get v = some before ∧
        before.concurrency = info.concurrency := by
      split_ifs at hinfo
      · obtain ⟨before, hbefore, rfl⟩ := Option.map_eq_some_iff.1 hinfo
        exact ⟨before, hbefore, rfl⟩
      · exact ⟨info, hinfo, rfl⟩
    have hroom := h.capacity v before hbefore
    have hleft := reservedFor_eraseIdx hres v
    rw [count_assignTask_fresh hfresh, ← hsame]
    simp only [reservedFor] at hleft hroom ⊢
    omega
  case distinct =>
    refine List.Perm.nodup ?_ h.distinct
    simp only [live, List.map_append, List.map_cons, List.map_nil, ← List.append_assoc]
    refine List.Perm.trans ?_ (List.perm_append_singleton _ _).symm
    simp only [List.append_assoc]
    exact (map_eraseIdx_perm hres fun other => other.task.operationId).append_right _
  case socket =>
    intro a ha hchannel
    rw [get_inFlightTasks_assignTask]
    obtain hold | hnew := List.mem_append.1 ha
    · rw [if_neg (hothers a hold)]
      exact h.socket a hold hchannel
    · obtain rfl := List.mem_singleton.1 hnew
      rw [if_pos rfl]
      exact ⟨_, rfl, rfl, rfl⟩
  case tasks =>
    intro operationId task htask
    rw [get_inFlightTasks_assignTask] at htask
    split_ifs at htask with heq
    · exact ⟨_, List.mem_append_right _ (List.mem_singleton.2 rfl), heq.symm, rfl⟩
    · obtain ⟨a, ha, hrest⟩ := h.tasks operationId task htask
      exact ⟨a, List.mem_append_left _ ha, hrest⟩
  case longPoll =>
    intro a ha hchannel
    obtain hold | hnew := List.mem_append.1 ha
    · exact h.longPoll a hold hchannel
    · obtain rfl := List.mem_singleton.1 hnew
      cases hchannel
  case tracked => exact h.tracked

theorem Orderly.reserve (h : s.Orderly) (index now : Nat) (attemptToken : String) :
    (s.handle (.reserve index now attemptToken)).Orderly := by
  cases hres : s.reserving[index]? with
  | none =>
    rw [handle, Server.reserve, hres]
    exact h
  | some reservation => exact h.reserve_some hres now attemptToken

/-- The slot that a reservation holds is there for its task. -/
theorem Orderly.withinCapacity (h : s.Orderly) (event : Event ι κ φ) : s.WithinCapacity event := by
  cases event with
  | reserve index now attemptToken =>
    intro reservation hres info hinfo
    have hres : s.reserving[index]? = some reservation := hres
    have hfresh := h.unassigned (List.mem_of_getElem? hres)
    have hroom := h.capacity reservation.workerId info hinfo
    have hone := reservedFor_eraseIdx hres reservation.workerId
    rw [if_pos rfl] at hone
    rw [Server.reserve, hres]
    simp only [count_assignTask_fresh hfresh, if_true]
    omega
  | _ => trivial

/-! What ends an assignment only takes from the registry. -/

structure Shrinks (r r' : WorkerRegistry ι κ φ) : Prop where
  workers : ∀ v info, r'.workers.get v = some info → ∃ before, r.workers.get v = some before ∧
    before.id = info.id ∧ before.concurrency = info.concurrency
  tasks : ∀ operationId task, r'.inFlightTasks.get operationId = some task →
    r.inFlightTasks.get operationId = some task
  count : ∀ v, r'.inFlightTasks.count (ofWorker v) ≤ r.inFlightTasks.count (ofWorker v)

omit [DecidableEq φ] in
theorem Shrinks.refl (r : WorkerRegistry ι κ φ) : Shrinks r r :=
  ⟨fun _ info hinfo => ⟨info, hinfo, rfl, rfl⟩, fun _ _ htask => htask, fun _ => le_rfl⟩

omit [DecidableEq φ] in
theorem Shrinks.trans {r r' r'' : WorkerRegistry ι κ φ} (h : Shrinks r r') (h' : Shrinks r' r'') :
    Shrinks r r'' where
  workers v info hinfo := by
    obtain ⟨middle, hmiddle, hid, hconcurrency⟩ := h'.workers v info hinfo
    obtain ⟨before, hbefore, hid', hconcurrency'⟩ := h.workers v middle hmiddle
    exact ⟨before, hbefore, hid'.trans hid, hconcurrency'.trans hconcurrency⟩
  tasks operationId task htask := h.tasks operationId task (h'.tasks operationId task htask)
  count v := (h'.count v).trans (h.count v)

theorem get_inFlightTasks_completeTask (r : WorkerRegistry ι κ φ) (operationId other : κ) :
    (r.completeTask operationId).inFlightTasks.get other =
      if other = operationId then none else r.inFlightTasks.get other := by
  rw [WorkerRegistry.completeTask]
  cases htask : r.inFlightTasks.get operationId with
  | none =>
    split_ifs with heq
    · rw [heq, htask]
    · rfl
  | some task =>
    simp only [WorkerRegistry.inFlightTasks_releaseFairShare, WorkerRegistry.taskCompleted,
      WorkerRegistry.inFlightTasks_updateWorker, InsertionMap.get_delete]

theorem shrinks_completeTask (r : WorkerRegistry ι κ φ) (operationId : κ) :
    Shrinks r (r.completeTask operationId) where
  workers v info hinfo := by
    rw [WorkerRegistry.completeTask] at hinfo
    split at hinfo
    · exact ⟨info, hinfo, rfl, rfl⟩
    · rw [WorkerRegistry.workers_releaseFairShare, WorkerRegistry.taskCompleted,
        WorkerRegistry.get_workers_updateWorker] at hinfo
      split_ifs at hinfo
      · obtain ⟨before, hbefore, rfl⟩ := Option.map_eq_some_iff.1 hinfo
        exact ⟨before, hbefore, rfl, rfl⟩
      · exact ⟨info, hinfo, rfl, rfl⟩
  tasks other task htask := by
    rw [get_inFlightTasks_completeTask] at htask
    split_ifs at htask
    exact htask
  count v := by
    rw [WorkerRegistry.completeTask]
    cases htask : r.inFlightTasks.get operationId with
    | none => exact le_rfl
    | some task =>
      simp only [WorkerRegistry.inFlightTasks_releaseFairShare, WorkerRegistry.taskCompleted,
        WorkerRegistry.inFlightTasks_updateWorker]
      rw [InsertionMap.count_delete htask]
      exact Nat.le_add_right _ _

omit [DecidableEq φ] in
theorem shrinks_unregister (r : WorkerRegistry ι κ φ) (workerId : ι) :
    Shrinks r (r.unregister workerId) := by
  rw [WorkerRegistry.unregister]
  split
  · exact Shrinks.refl r
  · refine ⟨fun v info hinfo => ?_, fun operationId task htask => ?_, fun v => ?_⟩
    · simp only [InsertionMap.get_delete] at hinfo
      split_ifs at hinfo
      exact ⟨info, hinfo, rfl, rfl⟩
    · exact (InsertionMap.get_deleteWhere_eq_some_iff.1 htask).1
    · simp only [InsertionMap.count_deleteWhere]
      refine List.countP_mono_left fun task _ hboth => ?_
      exact (Bool.and_eq_true_iff.1 hboth).1

/-- A server whose registry shrank and which dropped assignments is orderly where the tasks and
the assignments that are left still go together. -/
theorem Orderly.shrink (h : s.Orderly) (kept : Assignment ι κ → Bool)
    (hshrinks : Shrinks s.registry r) (haccounted : r.Accounted)
    (hsocket : ∀ a ∈ s.assigned, kept a = true → a.channel = .socket →
      ∀ task, s.registry.inFlightTasks.get a.operationId = some task →
      task.workerId = a.workerId → task.attemptToken = a.attemptToken →
      r.inFlightTasks.get a.operationId = some task)
    (htasks : ∀ operationId task, r.inFlightTasks.get operationId = some task →
      ∀ a ∈ s.assigned, a.operationId = operationId → a.channel = .socket → kept a = true)
    (sockets requeues : List ι) :
    ({ s with registry := r, workerSockets := sockets, pendingWorkerRequeues := requeues,
              assigned := s.assigned.filter kept } : Server ι κ φ).Orderly where
  keyed operationId task htask := h.keyed operationId task (hshrinks.tasks operationId task htask)
  accounted := haccounted
  ids v info hinfo := by
    obtain ⟨before, hbefore, hid, -⟩ := hshrinks.workers v info hinfo
    rw [← hid]
    exact h.ids v before hbefore
  capacity v info hinfo := by
    obtain ⟨before, hbefore, -, hconcurrency⟩ := hshrinks.workers v info hinfo
    have hcount := hshrinks.count v
    have hroom := h.capacity v before hbefore
    rw [← hconcurrency]
    simp only [reservedFor] at hroom ⊢
    omega
  distinct := by
    refine h.distinct.sublist ?_
    simp only [live]
    exact ((List.filter_sublist.map _).append_left _ |>.append_left _).append_left _
  socket a ha hchannel := by
    obtain ⟨hmem, hkept⟩ := List.mem_filter.1 ha
    obtain ⟨task, htask, hworker, htoken⟩ := h.socket a hmem hchannel
    exact ⟨task, hsocket a hmem hkept hchannel task htask hworker htoken, hworker, htoken⟩
  tasks operationId task htask := by
    obtain ⟨a, ha, hop, hchannel⟩ := h.tasks operationId task (hshrinks.tasks _ task htask)
    exact ⟨a, List.mem_filter.2 ⟨ha, htasks operationId task htask a ha hop hchannel⟩, hop,
      hchannel⟩
  longPoll a ha hchannel := h.longPoll a (List.mem_filter.1 ha).1 hchannel
  tracked := h.tracked

theorem Orderly.completeTask (h : s.Orderly) (operationId : κ) :
    (s.handle (.completeTask operationId)).Orderly := by
  refine h.shrink _ (shrinks_completeTask s.registry operationId)
    (h.accounted.completeTask operationId) ?_ ?_ _ _
  · intro a ha hkept hchannel task htask hworker htoken
    rw [get_inFlightTasks_completeTask, if_neg]
    · exact htask
    · rintro rfl
      have hget : s.registry.getTask a.operationId = some task := htask
      simp [isCurrent, hchannel, hget, htoken] at hkept
  · intro other task htask a ha hop hchannel
    rw [get_inFlightTasks_completeTask] at htask
    split_ifs at htask with hother
    simp [isCurrent, hop, hother]

/-- Giving up tasks one after the other takes their operations' entries and no others. -/
theorem get_inFlightTasks_giveUp (tasks : List (InFlightTask ι κ φ)) (r : WorkerRegistry ι κ φ)
    (operationId : κ) : (tasks.foldl (fun registry task => registry.completeTask task.operationId)
      r).inFlightTasks.get operationId =
        if operationId ∈ tasks.map InFlightTask.operationId then none
        else r.inFlightTasks.get operationId := by
  induction tasks generalizing r with
  | nil => rfl
  | cons task tasks ih =>
    rw [List.foldl_cons, ih, get_inFlightTasks_completeTask]
    by_cases hhead : operationId = task.operationId
    · simp [hhead]
    · simp [hhead]

theorem giveUp_keeps (tasks : List (InFlightTask ι κ φ)) (h : r.Accounted) :
    (tasks.foldl (fun registry task => registry.completeTask task.operationId) r).Accounted ∧
      Shrinks r (tasks.foldl (fun registry task => registry.completeTask task.operationId) r) := by
  induction tasks generalizing r with
  | nil => exact ⟨h, Shrinks.refl r⟩
  | cons task tasks ih =>
    obtain ⟨haccounted, hshrinks⟩ := ih (h.completeTask task.operationId)
    exact ⟨haccounted, (shrinks_completeTask r task.operationId).trans hshrinks⟩

section

variable (h : s.Orderly)

include h

theorem Orderly.disconnect (workerId : ι) : (s.handle (.disconnect workerId)).Orderly := by
  obtain ⟨haccounted, hshrinks⟩ := giveUp_keeps (s.registry.getWorkerTasks workerId) h.accounted
  have hgiven : ∀ operationId task, s.registry.inFlightTasks.get operationId = some task →
      (operationId ∈ (s.registry.getWorkerTasks workerId).map InFlightTask.operationId ↔
        task.workerId = workerId) := by
    intro operationId task htask
    constructor
    · intro hmem
      obtain ⟨given, hgiven, hop⟩ := List.mem_map.1 hmem
      obtain ⟨hvalue, hof⟩ := List.mem_filter.1 hgiven
      obtain ⟨k, hk⟩ := InsertionMap.mem_values_iff.1 hvalue
      have hkey := h.keyed k given hk
      rw [← hkey, hop, htask] at hk
      cases hk
      exact of_decide_eq_true hof
    · intro hworker
      rw [← h.keyed operationId task htask]
      refine List.mem_map_of_mem (List.mem_filter.2 ⟨?_, decide_eq_true hworker⟩)
      exact InsertionMap.mem_values_iff.2 ⟨operationId, htask⟩
  refine h.shrink _ (hshrinks.trans (shrinks_unregister _ workerId))
    (haccounted.unregister workerId) ?_ ?_ _ _
  · intro a ha hkept hchannel task htask hworker _
    have hother : a.workerId ≠ workerId := by simpa [hchannel] using hkept
    have hstays : task.workerId ≠ workerId := fun heq => hother (hworker.symm.trans heq)
    have hget := get_inFlightTasks_giveUp (s.registry.getWorkerTasks workerId) s.registry
      a.operationId
    rw [if_neg fun hmem => hstays ((hgiven _ task htask).1 hmem), htask] at hget
    rw [WorkerRegistry.unregister]
    split
    · exact hget
    · exact InsertionMap.get_deleteWhere_eq_some_iff.2 ⟨hget, decide_eq_false hstays⟩
  · intro operationId task htask a ha hop hchannel
    have hleft := (shrinks_unregister _ workerId).tasks operationId task htask
    rw [get_inFlightTasks_giveUp] at hleft
    split_ifs at hleft with hmem
    obtain ⟨found, hfound, hworker, -⟩ := h.socket a ha hchannel
    rw [hop, hleft] at hfound
    cases hfound
    have hother : a.workerId ≠ workerId := by
      intro heq
      exact hmem ((hgiven operationId task hleft).2 (hworker.trans heq))
    simp [hchannel, hother]

theorem Orderly.completeQueued (operationId : κ) (hapart : s.Apart (.completeQueued operationId)) :
    (s.handle (.completeQueued operationId)).Orderly := by
  have hkeeps := h.shrink (fun a => !(a.channel = .longPoll && a.operationId = operationId))
    (Shrinks.refl s.registry) h.accounted (fun _ _ _ _ _ htask _ _ => htask)
    (fun _ _ _ a _ _ hchannel => by simp [hchannel]) s.workerSockets s.pendingWorkerRequeues
  refine { hkeeps with longPoll := ?_, tracked := ?_ }
  · intro a ha hchannel
    obtain ⟨hmem, hkept⟩ := List.mem_filter.1 ha
    refine List.mem_filter.2 ⟨h.longPoll a hmem hchannel, ?_⟩
    simpa [hchannel] using hkept
  · intro task htask
    exact List.mem_filter.2 ⟨h.tracked task htask, decide_eq_true (hapart task htask)⟩

/-! The queue. -/

theorem Orderly.abandon (index : Nat) : (s.handle (.abandon index)).Orderly := by
  refine { h with capacity := ?_, distinct := ?_ }
  · intro v info hinfo
    have hfewer : reservedFor v (s.handle (.abandon index)) ≤ s.reservedFor v :=
      (List.eraseIdx_sublist s.reserving index).countP_le
    have hroom := h.capacity v info hinfo
    simp only [handle] at hfewer ⊢
    omega
  · refine h.distinct.sublist ?_
    simp only [live]
    exact ((List.eraseIdx_sublist s.reserving index).map _).append_right _

theorem Orderly.abandonQueueing (index : Nat) : (s.handle (.abandonQueueing index)).Orderly := by
  refine { h with distinct := ?_ }
  refine h.distinct.sublist ?_
  simp only [live]
  exact (((List.eraseIdx_sublist s.queueing index).map _).append_right _).append_left _

/-- A task that a poll gets is assigned. -/
theorem Orderly.poll (workerId : ι) (index : Nat) : (s.handle (.poll workerId index)).Orderly := by
  rw [handle, Server.poll]
  cases htask : s.pending[index]? with
  | none => exact h
  | some task =>
    have hmem := List.mem_of_getElem? htask
    constructor
    case keyed => exact h.keyed
    case accounted => exact h.accounted
    case ids => exact h.ids
    case capacity => exact h.capacity
    case distinct =>
      refine List.Perm.nodup ?_ h.distinct
      simp only [live, List.map_append, List.map_cons, List.map_nil]
      refine ((List.Perm.append_left _ ?_)).append_left _
      rw [← List.append_assoc]
      refine List.Perm.trans ?_ (List.perm_append_singleton _ _).symm
      exact (map_eraseIdx_perm htask TaskDispatch.operationId).append_right _
    case socket =>
      intro a ha hchannel
      obtain hold | hnew := List.mem_append.1 ha
      · exact h.socket a hold hchannel
      · obtain rfl := List.mem_singleton.1 hnew
        cases hchannel
    case tasks =>
      intro operationId found hfound
      obtain ⟨a, ha, hrest⟩ := h.tasks operationId found hfound
      exact ⟨a, List.mem_append_left _ ha, hrest⟩
    case longPoll =>
      intro a ha hchannel
      obtain hold | hnew := List.mem_append.1 ha
      · exact h.longPoll a hold hchannel
      · obtain rfl := List.mem_singleton.1 hnew
        exact h.tracked task hmem
    case tracked =>
      intro other hother
      exact h.tracked other ((List.eraseIdx_sublist s.pending index).subset hother)

theorem Orderly.enqueue (index : Nat) (waiter : Option ι) :
    (s.handle (.enqueue index waiter)).Orderly := by
  rw [handle, Server.enqueue]
  cases htask : s.queueing[index]? with
  | none => exact h
  | some task =>
    have hmoved := map_eraseIdx_perm htask TaskDispatch.operationId
    simp only
    split_ifs with hdispatched
    · -- a tracked id is not queued again
      refine { h with distinct := ?_ }
      refine h.distinct.sublist ?_
      simp only [live]
      exact (((List.eraseIdx_sublist s.queueing index).map _).append_right _).append_left _
    · cases waiter with
      | none =>
        refine { h with distinct := ?_, longPoll := ?_, tracked := ?_ }
        · refine List.Perm.nodup ?_ h.distinct
          simp only [live, List.map_append, List.map_cons, List.map_nil]
          refine List.Perm.append_left _ ?_
          refine (hmoved.append_right _).trans ?_
          rw [List.append_assoc (s.pending.map _), List.singleton_append, List.cons_append,
            ← List.append_assoc, ← List.append_assoc]
          exact List.perm_middle.symm
        · exact fun a ha hchannel => List.mem_cons_of_mem _ (h.longPoll a ha hchannel)
        · intro other hother
          obtain hold | hnew := List.mem_append.1 hother
          · exact List.mem_cons_of_mem _ (h.tracked other hold)
          · obtain rfl := List.mem_singleton.1 hnew
            exact List.mem_cons_self
      | some workerId =>
        refine { h with distinct := ?_, socket := ?_, tasks := ?_, longPoll := ?_, tracked := ?_ }
        · refine List.Perm.nodup ?_ h.distinct
          simp only [live, List.map_append, List.map_cons, List.map_nil]
          refine List.Perm.append_left _ ?_
          refine (hmoved.append_right _).trans ?_
          rw [List.cons_append, ← List.append_assoc, ← List.append_assoc]
          exact (List.perm_append_singleton _ _).symm.trans (List.Perm.of_eq (by simp))
        · intro a ha hchannel
          obtain hold | hnew := List.mem_append.1 ha
          · exact h.socket a hold hchannel
          · obtain rfl := List.mem_singleton.1 hnew
            cases hchannel
        · intro operationId found hfound
          obtain ⟨a, ha, hrest⟩ := h.tasks operationId found hfound
          exact ⟨a, List.mem_append_left _ ha, hrest⟩
        · intro a ha hchannel
          obtain hold | hnew := List.mem_append.1 ha
          · exact List.mem_cons_of_mem _ (h.longPoll a hold hchannel)
          · obtain rfl := List.mem_singleton.1 hnew
            exact List.mem_cons_self
        · exact fun other hother => List.mem_cons_of_mem _ (h.tracked other hother)

theorem Orderly.handle (event : Event ι κ φ) (hapart : s.Apart event) :
    (s.handle event).Orderly := by
  cases event with
  | register info => exact h.register info hapart
  | close workerId => exact { h with }
  | disconnect workerId => exact h.disconnect workerId
  | dispatch task sticky => exact h.dispatch task sticky hapart
  | reserve index now attemptToken => exact h.reserve index now attemptToken
  | abandon index => exact h.abandon index
  | abandonQueueing index => exact h.abandonQueueing index
  | enqueue index waiter => exact h.enqueue index waiter
  | poll workerId index => exact h.poll workerId index
  | completeTask operationId => exact h.completeTask operationId
  | completeQueued operationId => exact h.completeQueued operationId hapart

end

end Server

open Server

section Runs

variable [LinearOrder ι] [DecidableEq κ] [DecidableEq φ]

def server : Machine (Server ι κ φ) (Event ι κ φ) where
  step s event := some (s.handle event)

/-- Where concurrent dispatches keep apart, no assignment goes over a worker's capacity and no
attempt is held by two workers, in any order of the events. -/
theorem dispatches_apart (policy : RoutingPolicy) (events : List (Event ι κ φ))
    (h : server.EveryStep Apart (.new policy) events) :
    server.EveryStep WithinCapacity (.new policy) events ∧
      server.EveryState SingleHolder (.new policy) events := by
  have hstep : ∀ (s : Server ι κ φ) (event : Event ι κ φ) (s' : Server ι κ φ), s.Orderly →
      s.Apart event → server.step s event = some s' → s'.Orderly ∧ s.WithinCapacity event := by
    intro s event s' hs hapart hs'
    obtain rfl := Option.some.inj hs'
    exact ⟨hs.handle event hapart, hs.withinCapacity event⟩
  refine ⟨Machine.everyStep_of_invariant hstep (orderly_new policy) h, ?_⟩
  have hinvariant : server.EveryState Orderly (.new policy) events :=
    Machine.everyState_of_invariant (fun s event s' hs hapart hs' =>
      (hstep s event s' hs hapart hs').1) (orderly_new policy) h
  exact hinvariant.mono fun s hs => hs.singleHolder

instance decidableNotUnderWay (s : Server ι κ φ) (operationId : κ) :
    Decidable (s.NotUnderWay operationId) :=
  inferInstanceAs (Decidable (_ ∧ _))

instance decidableApart (s : Server ι κ φ) : (event : Event ι κ φ) → Decidable (s.Apart event)
  | .dispatch task sticky =>
      inferInstanceAs (Decidable (s.NotUnderWay task.operationId ∧
        ∀ worker ∈ s.selectWorker task sticky,
          worker.inFlight + s.reservedFor worker.id < worker.concurrency))
  | .register info =>
      inferInstanceAs (Decidable (s.reservedFor info.id = 0 ∨
        s.registry.inFlightTasks.count (ofWorker info.id) + s.reservedFor info.id ≤
          info.concurrency))
  | .completeQueued operationId =>
      inferInstanceAs (Decidable (∀ task ∈ s.pending, task.operationId ≠ operationId))
  | .close _ => isTrue trivial
  | .disconnect _ => isTrue trivial
  | .reserve _ _ _ => isTrue trivial
  | .abandon _ => isTrue trivial
  | .abandonQueueing _ => isTrue trivial
  | .enqueue _ _ => isTrue trivial
  | .poll _ _ => isTrue trivial
  | .completeTask _ => isTrue trivial

instance decidableWithinCapacity (s : Server ι κ φ) :
    (event : Event ι κ φ) → Decidable (s.WithinCapacity event)
  | .reserve index now attemptToken =>
      inferInstanceAs (Decidable (∀ reservation ∈ s.reserving[index]?,
        ∀ info ∈ s.registry.workers.get reservation.workerId,
          (s.reserve index now attemptToken).registry.inFlightTasks.count
            (ofWorker reservation.workerId) ≤ info.concurrency))
  | .register _ => isTrue trivial
  | .close _ => isTrue trivial
  | .disconnect _ => isTrue trivial
  | .dispatch _ _ => isTrue trivial
  | .abandon _ => isTrue trivial
  | .abandonQueueing _ => isTrue trivial
  | .enqueue _ _ => isTrue trivial
  | .poll _ _ => isTrue trivial
  | .completeTask _ => isTrue trivial
  | .completeQueued _ => isTrue trivial

instance decidableSingleHolder (s : Server ι κ φ) : Decidable s.SingleHolder :=
  inferInstanceAs (Decidable (∀ a ∈ s.assigned, ∀ b ∈ s.assigned,
    a.operationId = b.operationId → a.attempt = b.attempt → a.workerId = b.workerId))

end Runs

/-! Workers with few slots, and two dispatches at a time. -/

def slots (id concurrency : Nat) : WorkerRegistrationInfo Nat :=
  ⟨id, "default", ["charge"], concurrency, none⟩

def oneSlot (id : Nat) : WorkerRegistrationInfo Nat := slots id 1

def charge (operationId : Nat) : TaskDispatch Nat Nat :=
  ⟨operationId, "charge", none, 1, 30000, none⟩

/-- Two dispatches take the two slots of a worker side by side. Two more find none: the one fails on
its way into the queue, and the other one is polled. -/
def sideBySide : List (Event Nat Nat Nat) :=
  [.register (slots 1 2), .dispatch (charge 7) none, .dispatch (charge 8) none, .reserve 1 0 "b",
    .reserve 0 0 "a", .dispatch (charge 9) none, .dispatch (charge 10) none, .abandonQueueing 0,
    .enqueue 0 none, .poll 3 0, .completeTask 7, .completeQueued 10, .dispatch (charge 9) none,
    .reserve 0 0 "c"]

theorem dispatches_apart_in_turn :
    (server.EveryStep WithinCapacity (.new .leastLoaded) sideBySide ∧
        server.EveryState SingleHolder (.new .leastLoaded) sideBySide) ∧
      (server.final (.new .leastLoaded) sideBySide).assigned =
        [⟨8, 1, 1, .socket, "b"⟩, ⟨9, 1, 1, .socket, "c"⟩] :=
  ⟨dispatches_apart .leastLoaded sideBySide (by decide +kernel), by decide +kernel⟩

/-- Two dispatches select the one slot of a worker before either takes it; and two dispatches of
one operation select a worker each, the first being about to leave at the second selection. -/
theorem one_slot_taken_twice :
    ¬ server.EveryStep WithinCapacity (.new .leastLoaded)
        [.register (oneSlot 1), .dispatch (charge 7) none, .dispatch (charge 8) none,
          .reserve 0 0 "a", .reserve 0 0 "b"] ∧
      ¬ server.EveryState SingleHolder (.new .leastLoaded)
        [.register (oneSlot 1), .register (oneSlot 2), .dispatch (charge 7) none, .close 1,
          .dispatch (charge 7) none, .reserve 0 0 "a", .reserve 0 0 "b"] := by
  constructor
  · decide +kernel
  · decide +kernel

end Weft.Registry
