import Weft.Lib.InsertionMap
import Weft.Lib.Machine

/-! The in-memory task queue of the long-poll workers: pending tasks and parked polls by queue, the
expiration timers, and the scan for stale tasks, which calls back into user code as it goes. -/

namespace Weft.Queue

open Weft.Lib

universe u v

structure PendingTask (ι : Type v) where
  operationId : ι
  activityName : String
  priority : Option Int
  enqueuedAt : Option Int
deriving DecidableEq

/-- A task that was enqueued. `ticket` counts the accepted enqueues; the code keeps no number. -/
structure Entry (ι : Type v) where
  ticket : Nat
  task : PendingTask ι
deriving DecidableEq

def Entry.operationId {ι : Type v} (entry : Entry ι) : ι := entry.task.operationId

def Entry.priority {ι : Type v} (entry : Entry ι) : Int := entry.task.priority.getD 0

inductive SchedulingPolicy where
  | fifo
  | lifo
  | priority
deriving DecidableEq

/-- A parked poll, by its number. -/
structure Waiter where
  poll : Nat
  activities : List String
deriving DecidableEq

def Waiter.accepts {ι : Type v} (waiter : Waiter) (entry : Entry ι) : Bool :=
  waiter.activities.contains entry.task.activityName

/-- A running `removeStale`. `position` is that of the iteration over the queues and `index` that of
the one over the tasks of `current`; both iterate over what is there when they come to it. -/
structure Scan (κ : Type u) (ι : Type v) where
  cutoff : Int
  position : Nat := 0
  current : Option κ := none
  index : Nat := 0
  remaining : List (Entry ι) := []
  stale : List (Entry ι) := []
  inCallback : Bool := false

/-- What became of tickets and of operation ids, in the order in which it did. -/
inductive Outcome (ι : Type v) where
  | handed (poll ticket : Nat)
  | expired (ticket : Nat)
  | removed (ticket : Nat)
  /-- `tickets` is how many there were. -/
  | completed (operationId : ι) (tickets : Nat)
deriving DecidableEq

/-- `issued`, `requests` and `history` record the accepted enqueues, the polls and the outcomes; the
code keeps none of them. -/
structure TaskQueue (κ : Type u) (ι : Type v) where
  schedulingPolicy : SchedulingPolicy
  /-- `none` is an infinite time. -/
  pendingTaskTimeToLive : Option Int
  now : Int := 0
  pending : InsertionMap κ (List (Entry ι)) := .empty
  waiters : InsertionMap κ (List Waiter) := .empty
  completionCallbacks : Finset ι := ∅
  dispatched : Finset ι := ∅
  /-- For each pending task that expires, its queue and when. -/
  expirationTimers : InsertionMap ι (κ × Int) := .empty
  scan : Option (Scan κ ι) := none
  issued : List (PendingTask ι) := []
  requests : List (κ × List String) := []
  history : List (Outcome ι) := []

inductive Event (κ : Type u) (ι : Type v) where
  | tick (delay : Nat)
  | enqueue (queue : κ) (task : PendingTask ι) (onComplete : Bool)
  | poll (queue : κ) (activities : List String) (aborted : Bool)
  /-- The timeout of a parked poll is over, or its signal aborts. -/
  | giveUp (queue : κ) (poll : Nat)
  | complete (operationId : ι)
  | expire (operationId : ι)
  | removeStale (maxAge : Int)
  /-- The iteration of `removeStale` goes on by one element. -/
  | scanNext
  | callbackReturns
  | callbackThrows

variable {κ : Type u} {ι : Type v}

/-- Where `insertByPolicy` puts a task. -/
def insertIndex (tasks : List (Entry ι)) (entry : Entry ι) : SchedulingPolicy → Nat
  | .fifo => tasks.length
  | .lifo => 0
  | .priority => tasks.findIdx fun existing => existing.priority < entry.priority

def insertByPolicy (tasks : List (Entry ι)) (entry : Entry ι) (policy : SchedulingPolicy) :
    List (Entry ι) :=
  match policy with
  | .fifo => tasks ++ [entry]
  | .lifo => entry :: tasks
  | .priority =>
    match tasks.findIdx? fun existing => existing.priority < entry.priority with
    | none => tasks ++ [entry]
    | some insertAt => tasks.take insertAt ++ entry :: tasks.drop insertAt

namespace TaskQueue

variable [DecidableEq κ] [DecidableEq ι]

/-- The poll of a waiter is answered and leaves its queue. -/
def dropWaiter (s : TaskQueue κ ι) (queue : κ) (poll : Nat) : TaskQueue κ ι :=
  let left := (s.waiters.listAt queue).eraseP fun waiter => waiter.poll = poll
  { s with waiters := s.waiters.putList queue left }

def scheduleExpiration (s : TaskQueue κ ι) (queue : κ) (operationId : ι) : TaskQueue κ ι :=
  match s.pendingTaskTimeToLive with
  | none => s
  | some ttl =>
    if ttl ≤ 0 then s
    else { s with expirationTimers := s.expirationTimers.set operationId (queue, s.now + ttl) }

def cancelExpiration (s : TaskQueue κ ι) (operationId : ι) : TaskQueue κ ι :=
  { s with expirationTimers := s.expirationTimers.delete operationId }

/-- An enqueue that is not rejected, with the number of its ticket. -/
def accept (s : TaskQueue κ ι) (task : PendingTask ι) (onComplete : Bool) :
    TaskQueue κ ι × Entry ι :=
  let stamped := { task with enqueuedAt := some (task.enqueuedAt.getD s.now) }
  ({ s with
      dispatched := insert task.operationId s.dispatched
      completionCallbacks :=
        if onComplete then insert task.operationId s.completionCallbacks
        else s.completionCallbacks
      issued := s.issued ++ [stamped] },
    ⟨s.issued.length, stamped⟩)

/-- The first parked poll of the queue that accepts the task. -/
def findWaiter (s : TaskQueue κ ι) (queue : κ) (entry : Entry ι) : Option Waiter :=
  (s.waiters.listAt queue).find? fun waiter => waiter.accepts entry

def enqueue (s : TaskQueue κ ι) (queue : κ) (task : PendingTask ι) (onComplete : Bool) :
    TaskQueue κ ι :=
  if task.operationId ∈ s.dispatched then s
  else
    let (accepted, entry) := s.accept task onComplete
    match accepted.findWaiter queue entry with
    | some waiter =>
      let answered := accepted.dropWaiter queue waiter.poll
      { answered with history := s.history ++ [.handed waiter.poll entry.ticket] }
    | none =>
      let tasks := insertByPolicy (s.pending.listAt queue) entry s.schedulingPolicy
      let queued := { accepted with pending := s.pending.set queue tasks }
      queued.scheduleExpiration queue task.operationId

def poll (s : TaskQueue κ ι) (queue : κ) (activities : List String) (aborted : Bool) :
    TaskQueue κ ι :=
  let number := s.requests.length
  let waiter : Waiter := ⟨number, activities⟩
  let requested := { s with requests := s.requests ++ [(queue, activities)] }
  if aborted then requested
  else
    match (s.pending.listAt queue).find? waiter.accepts with
    | some entry =>
      let left := (s.pending.listAt queue).eraseP waiter.accepts
      let taken := { requested with
        pending := s.pending.putList queue left
        history := s.history ++ [Outcome.handed number entry.ticket] }
      taken.cancelExpiration entry.operationId
    | none =>
      let parked := s.waiters.listAt queue ++ [waiter]
      { requested with waiters := s.waiters.set queue parked }

/-- A completion or expiration callback is taken off; it runs when all else is done. -/
def complete (s : TaskQueue κ ι) (operationId : ι) : TaskQueue κ ι :=
  { s.cancelExpiration operationId with
    dispatched := s.dispatched.erase operationId
    completionCallbacks := s.completionCallbacks.erase operationId
    history := s.history ++ [.completed operationId s.issued.length] }

def expireTask (s : TaskQueue κ ι) (queue : κ) (operationId : ι) : TaskQueue κ ι :=
  let isTask : Entry ι → Bool := fun entry => entry.operationId = operationId
  let tasks := s.pending.listAt queue
  { s.cancelExpiration operationId with
    pending := s.pending.putList queue (tasks.eraseP isTask)
    dispatched := s.dispatched.erase operationId
    completionCallbacks := s.completionCallbacks.erase operationId
    history := s.history ++ (tasks.find? isTask).toList.map fun entry => .expired entry.ticket }

def isStale (cutoff : Int) (entry : Entry ι) : Bool := entry.task.enqueuedAt.getD 0 < cutoff

/-- The scan has a stale task: it is dropped, and its callback is called. -/
def removeTask (s : TaskQueue κ ι) (scan : Scan κ ι) (entry : Entry ι) : TaskQueue κ ι :=
  { s.cancelExpiration entry.operationId with
    dispatched := s.dispatched.erase entry.operationId
    completionCallbacks := s.completionCallbacks.erase entry.operationId
    history := s.history ++ [.removed entry.ticket]
    scan := some { scan with
      index := scan.index + 1
      stale := scan.stale ++ [entry]
      inCallback := entry.operationId ∈ s.completionCallbacks } }

/-- The scan is through with a queue, and what remains takes the place of its tasks. -/
def finishQueue (s : TaskQueue κ ι) (scan : Scan κ ι) (queue : κ) : TaskQueue κ ι := { s with
  pending := s.pending.putList queue scan.remaining
  scan := some { scan with
    position := if scan.remaining.isEmpty then scan.position else scan.position + 1
    current := none } }

def scanNext (s : TaskQueue κ ι) (scan : Scan κ ι) : TaskQueue κ ι :=
  match scan.current with
  | none =>
    match s.pending.entries[scan.position]? with
    | none => { s with scan := none }
    | some (queue, _) =>
      { s with scan := some { scan with
        current := some queue
        index := 0
        remaining := [] } }
  | some queue =>
    match (s.pending.listAt queue)[scan.index]? with
    | none => s.finishQueue scan queue
    | some entry =>
      if isStale scan.cutoff entry then s.removeTask scan entry
      else { s with scan := some { scan with
        index := scan.index + 1
        remaining := scan.remaining ++ [entry] } }

end TaskQueue

variable [DecidableEq κ] [DecidableEq ι]

/-- While `removeStale` runs nothing else does, but its callbacks may enqueue. -/
def taskQueue : Machine (TaskQueue κ ι) (Event κ ι) where
  step s event :=
    match event, s.scan with
    | .tick delay, _ => some { s with now := s.now + delay }
    | .enqueue queue task onComplete, none => some (s.enqueue queue task onComplete)
    | .enqueue queue task onComplete, some scan =>
      if scan.inCallback then some (s.enqueue queue task onComplete) else none
    | .poll queue activities aborted, none => some (s.poll queue activities aborted)
    | .giveUp queue poll, none => some (s.dropWaiter queue poll)
    | .complete operationId, none => some (s.complete operationId)
    | .expire operationId, none =>
      (s.expirationTimers.get operationId).bind fun timer =>
        if timer.2 ≤ s.now then some (s.expireTask timer.1 operationId) else none
    | .removeStale maxAge, none =>
      -- a negative age is an error
      if maxAge < 0 then some s else some { s with scan := some { cutoff := s.now - maxAge } }
    | .scanNext, some scan => if scan.inCallback then none else some (s.scanNext scan)
    | .callbackReturns, some scan =>
      if scan.inCallback then some { s with scan := some { scan with inCallback := false } }
      else none
    | .callbackThrows, some scan =>
      if scan.inCallback then some { s with scan := none } else none
    | _, _ => none

end Weft.Queue
