import Weft.Lib.Machine

/-! The remote task of one operation: its durable records, what the server has about it in memory,
and the handlers that move it. A handler is cut at each `await`: it reads or writes the store while
others run, and goes on with what it got. -/

namespace Weft.Tasks
open Weft.Lib

/-- A task as it is dispatched, which is also what its queued record has. -/
structure TaskDispatch where
  attempt : Nat
  /-- `maxAttempts` of the retry policy, if there is one. -/
  retryPolicy : Option Nat
  visibilityTimeout : Nat
deriving DecidableEq

structure InflightRecord where
  workerId : Nat
  deadline : Nat
  task : TaskDispatch
  attemptToken : Nat
deriving DecidableEq

inductive TaskStatus where
  | completed
  | failed
deriving DecidableEq

inductive TaskResolutionReason where
  | completed
  | failed
  | maxAttemptsExceeded
deriving DecidableEq

structure ResolvedRecord where
  status : TaskStatus
  resolutionReason : TaskResolutionReason
deriving DecidableEq

/-- The keys of the operation. `resolutions` counts how often it was resolved. -/
structure Store where
  queued : Option TaskDispatch := none
  inflight : Option InflightRecord := none
  resolved : Option ResolvedRecord := none
  deadLettered : Bool := false
  resolutions : Nat := 0
deriving DecidableEq

def markQueued (s : Store) (record : TaskDispatch) : Store :=
  { s with queued := some record }

def transitionQueuedToInflight (s : Store) (record : InflightRecord) : Store :=
  { s with queued := none, inflight := some record }

def transitionInflightToResolved (s : Store) (record : ResolvedRecord) : Store :=
  { s with inflight := none, resolved := some record, resolutions := s.resolutions + 1 }

def transitionInflightToQueued (s : Store) (record : TaskDispatch) : Store :=
  { s with inflight := none, queued := some record }

/-- Which handler gives a task back. -/
inductive Source where
  | scanner (deadline : Nat)
  | reconciliation
  | disconnect
deriving DecidableEq

/-- A handler by what it waits for. -/
inductive Call where
  /-- `selectAndReserveWorker` reads the queued record. -/
  | reserving (task : TaskDispatch) (workerId : Nat) (calledAt : Nat)
  | claiming (record : InflightRecord)
  /-- `enqueueTaskForLongPoll` reads the queued record and writes its own. -/
  | marking (task : TaskDispatch)
  | enqueueing (task : TaskDispatch)
  /-- `handleTaskResultRequest` reads the record in flight. -/
  | reporting (workerId attemptToken : Nat) (status : TaskStatus)
  /-- `onTaskResultMessage` has taken the result and reads the record in flight. -/
  | accepted (status : TaskStatus)
  | resolving (record : ResolvedRecord) (tries : Nat)
  | burying (tries : Nat)
  | drained (deadline scanAt : Nat)
  | scanning (deadline scanAt : Nat)
  | scanned (deadline scanAt : Nat) (record : InflightRecord)
  | listed (scanAt : Nat) (record : InflightRecord)
  | disconnecting
  | requeueing (record : InflightRecord) (source : Source)
  | expiring (record : InflightRecord) (source : Source)
  | requeued (task : TaskDispatch) (source : Source)
  | clearing
  | beating (workerId deadline tries : Nat)
  | beaten (record : InflightRecord) (workerId deadline tries : Nat)
  | done
deriving DecidableEq

structure Assignment where
  workerId : Nat
  attemptToken : Nat
  visibilityTimeout : Nat
deriving DecidableEq

/-- `registry`, `deadlineTracker`, `dispatched` and `pending` are what the worker registry, the
deadline heap and the task queue have of the operation, `timers` its delayed dispatches. -/
structure World where
  now : Nat := 0
  store : Store := {}
  registry : Option Assignment := none
  deadlineTracker : Option Nat := none
  dispatched : Bool := false
  pending : List TaskDispatch := []
  expirationTimer : Bool := false
  timers : List TaskDispatch := []
  processing : Bool := false
  scanRunning : Bool := false
  reconciliationRunning : Bool := false
  /-- How many attempt tokens were drawn. -/
  tokens : Nat := 0
  calls : List Call := []
deriving DecidableEq

inductive Event where
  | tick (delay : Nat)
  /-- `worker` is the connected worker that `findWorker` gives, if there is one. -/
  | dispatch (task : TaskDispatch) (worker : Option Nat)
  /-- A delayed dispatch fires. -/
  | fire (place : Nat) (worker : Option Nat)
  /-- A poll takes a pending task. -/
  | poll (place : Nat) (workerId : Nat)
  | expireTask (place : Nat)
  | removeStale (place : Nat)
  | report (workerId attemptToken : Nat) (status : TaskStatus)
  | taskResult (workerId attemptToken : Nat) (status : TaskStatus)
  | disconnect (workerId : Nat)
  | heartbeat (workerId : Nat)
  | scanExpiredTasks
  | reconcileOrphanedRecords
  | clearDeadLetter
  /-- What a handler waits for is there, or has failed. `worker` is a connected worker, and `poller`
  the worker of a poll that waits for the task. -/
  | proceed (place : Nat) (ok : Bool) (worker poller : Option Nat)
deriving DecidableEq

/-- What the handler writes when its write takes effect. -/
def Call.commit : Call → Store → Store
  | .claiming record, s => transitionQueuedToInflight s record
  | .marking task, s => markQueued s task
  | .resolving record _, s => transitionInflightToResolved s record
  | .burying _, s => { s with deadLettered := true }
  | .requeueing record _, s =>
    transitionInflightToQueued s { record.task with attempt := record.task.attempt + 1 }
  | .expiring _ _, s => transitionInflightToResolved s ⟨.failed, .maxAttemptsExceeded⟩
  | .clearing, s => { s with inflight := none }
  | .beaten record _ _ _, s => { s with inflight := some record }
  | _, s => s

/-- Each operation is given to one worker only. -/
def validateTaskEnvelope (w : World) : Bool := w.registry.isNone && !w.dispatched

/-- `dispatchTaskImpl` until its first `await`. -/
def dispatchTaskImpl (w : World) (task : TaskDispatch) (worker : Option Nat) : Call :=
  if validateTaskEnvelope w then
    match worker with
    | some workerId => .reserving task workerId w.now
    | none => .marking task
  else .done

/-- A poll has the task, and claims it under an id and a token of its own. -/
def createLongPollInflightRecord (w : World) (task : TaskDispatch) (workerId : Nat) :
    InflightRecord :=
  ⟨workerId, w.now + task.visibilityTimeout, task, w.tokens⟩

def claimByPoll (w : World) (task : TaskDispatch) (workerId : Nat) : World × Call :=
  let record := createLongPollInflightRecord w task workerId
  ({ w with deadlineTracker := some record.deadline, tokens := w.tokens + 1 }, .claiming record)

/-- `TaskQueue.enqueue`, where `poller` waits for the task. -/
def enqueue (w : World) (task : TaskDispatch) (poller : Option Nat) : World × Call :=
  if w.dispatched then (w, .done)
  else
    match poller with
    | some workerId => claimByPoll { w with dispatched := true } task workerId
    | none =>
      ({ w with dispatched := true, pending := w.pending ++ [task], expirationTimer := true },
        .done)

/-- `reassignOrExpireTask` until its first `await`. -/
def reassignOrExpireTask (record : InflightRecord) (source : Source) : Call :=
  if record.task.retryPolicy.any (· < record.task.attempt + 1) then .expiring record source
  else .requeueing record source

/-- The `finally` of the handler that gives the task back. -/
def release (w : World) : Source → World
  | .scanner _ => { w with processing := false, scanRunning := false }
  | .reconciliation => { w with processing := false, reconciliationRunning := false }
  | .disconnect => w

/-- Its `catch`, where the scanner puts the deadline back. -/
def giveUp (w : World) : Source → World
  | .scanner deadline => release { w with deadlineTracker := some deadline } (.scanner deadline)
  | source => release w source

def scheduleTaskRedispatch (w : World) (task : TaskDispatch) (worker : Option Nat) : World × Call :=
  if task.retryPolicy.isSome then ({ w with timers := w.timers ++ [task] }, .done)
  else (w, dispatchTaskImpl w task worker)

/-- How the handler goes on when what it waited for failed. -/
def fail (w : World) : Call → World × Call
  | .resolving record tries => (w, if tries ≤ 1 then .burying 2 else .resolving record (tries - 1))
  | .burying tries => (w, if tries ≤ 1 then .done else .burying (tries - 1))
  | .drained deadline scanAt => (w, .drained deadline scanAt)
  | .scanning deadline _ => (giveUp w (.scanner deadline), .done)
  | .scanned deadline _ _ => (giveUp w (.scanner deadline), .done)
  | .listed _ _ => ({ w with reconciliationRunning := false }, .done)
  | .requeueing _ source => (giveUp w source, .done)
  | .expiring _ source => (giveUp w source, .done)
  | .beating workerId deadline tries =>
    (w, if tries ≤ 1 ∨ w.registry.all (·.workerId ≠ workerId) then .done
      else .beating workerId deadline (tries - 1))
  | .beaten _ workerId deadline tries =>
    (w, if tries ≤ 1 ∨ w.registry.all (·.workerId ≠ workerId) then .done
      else .beating workerId deadline (tries - 1))
  | _ => (w, .done)

/-- How it goes on after its read or write took effect. -/
def resume (w : World) (worker poller : Option Nat) : Call → World × Call
  | .reserving task workerId calledAt =>
    let record : InflightRecord := ⟨workerId, calledAt + task.visibilityTimeout, task, w.tokens⟩
    ({ w with
        registry := some ⟨workerId, w.tokens, task.visibilityTimeout⟩
        deadlineTracker := some record.deadline
        tokens := w.tokens + 1 }, .claiming record)
  | .marking task => (w, .enqueueing task)
  | .enqueueing task => enqueue w task poller
  | .reporting workerId attemptToken status =>
    -- without a record in flight there is no owner to match
    if w.store.inflight.all fun r => r.workerId = workerId ∧ r.attemptToken = attemptToken then
      ({ w with dispatched := false, expirationTimer := false, deadlineTracker := none },
        .resolving ⟨status, if status = .failed then .failed else .completed⟩ 2)
    else (w, .done)
  | .accepted status =>
    (w, .resolving ⟨status, if status = .failed then .failed else .completed⟩ 2)
  | .drained deadline scanAt =>
    if w.processing then
      ({ w with deadlineTracker := some deadline, scanRunning := false }, .done)
    else ({ w with processing := true }, .scanning deadline scanAt)
  | .scanning deadline scanAt =>
    match w.store.inflight with
    | none => (release w (.scanner deadline), .done)
    | some record => (w, .scanned deadline scanAt record)
  | .scanned deadline scanAt record =>
    if w.store.deadLettered then (release w (.scanner deadline), .done)
    else if scanAt < record.deadline then
      (release { w with deadlineTracker := some record.deadline } (.scanner deadline), .done)
    else ({ w with registry := none }, reassignOrExpireTask record (.scanner deadline))
  | .listed scanAt record =>
    if w.store.deadLettered ∨ w.processing then ({ w with reconciliationRunning := false }, .done)
    else if scanAt < record.deadline then
      ({ w with deadlineTracker := some record.deadline, reconciliationRunning := false }, .done)
    else ({ w with processing := true, deadlineTracker := none, registry := none },
      reassignOrExpireTask record .reconciliation)
  | .disconnecting =>
    match w.store.inflight with
    | some record => (w, reassignOrExpireTask record .disconnect)
    | none => (w, .clearing)
  | .requeueing record source =>
    (w, .requeued { record.task with attempt := record.task.attempt + 1 } source)
  | .requeued task source => scheduleTaskRedispatch (release w source) task worker
  | .expiring _ source => (release w source, .done)
  | .beating workerId deadline tries =>
    match w.store.inflight with
    | some record => (w, .beaten { record with deadline := deadline } workerId deadline tries)
    | none => (w, .done)
  | _ => (w, .done)

/-- A stage of a handler that waits for nothing cannot fail. -/
def Call.waits : Call → Bool
  | .enqueueing _ => false
  | .drained _ _ => false
  | .requeued _ _ => false
  | _ => true

def begin (w : World) (call : Call) : World := { w with calls := w.calls ++ [call] }

def goOn (place : Nat) (next : World × Call) : World :=
  { next.1 with calls := next.1.calls.set place next.2 }

def taskMachine : Machine World Event where
  step := fun w event =>
    match event with
    | .tick delay => some { w with now := w.now + delay }
    | .dispatch task worker => some (begin w (dispatchTaskImpl w task worker))
    | .fire place worker => (w.timers[place]?).map fun task =>
      begin { w with timers := w.timers.eraseIdx place } (dispatchTaskImpl w task worker)
    | .poll place workerId => (w.pending[place]?).map fun task =>
      let next := claimByPoll
        { w with pending := w.pending.eraseIdx place, expirationTimer := false } task workerId
      begin next.1 next.2
    | .expireTask place =>
      if w.expirationTimer ∧ place < w.pending.length then
        some { w with
          pending := w.pending.eraseIdx place
          dispatched := false
          expirationTimer := false }
      else none
    | .removeStale place =>
      if place < w.pending.length then
        some { w with
          pending := w.pending.eraseIdx place
          dispatched := false
          expirationTimer := false }
      else none
    | .report workerId attemptToken status =>
      some (begin w (.reporting workerId attemptToken status))
    | .taskResult workerId attemptToken status =>
      if w.registry.any fun a => a.workerId = workerId ∧ a.attemptToken = attemptToken then
        some (begin { w with registry := none, deadlineTracker := none } (.accepted status))
      else some w
    | .disconnect workerId =>
      if w.registry.any (·.workerId = workerId) then
        some (begin { w with registry := none, deadlineTracker := none } .disconnecting)
      else some w
    | .heartbeat workerId =>
      match w.registry with
      | some a =>
        if a.workerId = workerId then
          some (begin { w with deadlineTracker := some (w.now + a.visibilityTimeout) }
            (.beating workerId (w.now + a.visibilityTimeout) 2))
        else some w
      | none => some w
    | .scanExpiredTasks =>
      match w.deadlineTracker with
      | some deadline =>
        if deadline ≤ w.now ∧ ¬ w.scanRunning then
          some (begin { w with deadlineTracker := none, scanRunning := true }
            (.drained deadline w.now))
        else some w
      | none => some w
    | .reconcileOrphanedRecords =>
      match w.store.inflight with
      | some record =>
        if w.reconciliationRunning then some w
        else some (begin { w with reconciliationRunning := true } (.listed w.now record))
      | none => some w
    | .clearDeadLetter => some { w with store := { w.store with deadLettered := false } }
    | .proceed place ok worker poller => (w.calls[place]?).bind fun call =>
      if call = .done then none
      else if ok then
        some (goOn place (resume { w with store := call.commit w.store } worker poller call))
      else if call.waits then some (goOn place (fail w call))
      else none

section memory

/-! What a handler does between two waits is in memory only. -/

variable (w : World)

@[simp] theorem release_store (source : Source) : (release w source).store = w.store := by
  cases source <;> rfl

@[simp] theorem giveUp_store (source : Source) : (giveUp w source).store = w.store := by
  cases source <;> rfl

@[simp] theorem enqueue_store (task : TaskDispatch) (poller : Option Nat) :
    (enqueue w task poller).1.store = w.store := by
  unfold enqueue
  split
  · rfl
  · cases poller <;> rfl

@[simp] theorem scheduleTaskRedispatch_store (task : TaskDispatch) (worker : Option Nat) :
    (scheduleTaskRedispatch w task worker).1.store = w.store := by
  unfold scheduleTaskRedispatch
  split <;> rfl

theorem fail_store (call : Call) : (fail w call).1.store = w.store := by
  cases call <;> simp [fail]

theorem resume_store (worker poller : Option Nat) (call : Call) :
    (resume w worker poller call).1.store = w.store := by
  cases call with
  | enqueueing task => exact enqueue_store w task poller
  | requeued task source =>
    exact (scheduleTaskRedispatch_store _ task worker).trans (release_store w source)
  | expiring record source => exact release_store w source
  | reporting workerId attemptToken status =>
    simp only [resume]
    split <;> rfl
  | drained deadline scanAt =>
    simp only [resume]
    split <;> rfl
  | scanning deadline scanAt =>
    simp only [resume]
    split <;> rfl
  | scanned deadline scanAt record =>
    simp only [resume]
    split
    · rfl
    · split <;> rfl
  | listed scanAt record =>
    simp only [resume]
    split
    · rfl
    · split <;> rfl
  | disconnecting =>
    simp only [resume]
    split <;> rfl
  | beating workerId deadline tries =>
    simp only [resume]
    split <;> rfl
  | _ => rfl

/-- The parts of the memory that link a queued record. -/
structure SameLinks (v w : World) : Prop where
  pending : v.pending = w.pending
  timers : v.timers = w.timers
  calls : v.calls = w.calls

theorem release_links (source : Source) : SameLinks (release w source) w := by
  cases source <;> exact ⟨rfl, rfl, rfl⟩

theorem giveUp_links (source : Source) : SameLinks (giveUp w source) w := by
  cases source <;> exact ⟨rfl, rfl, rfl⟩

theorem fail_links (call : Call) : SameLinks (fail w call).1 w := by
  cases call with
  | scanning deadline scanAt => exact giveUp_links w (.scanner deadline)
  | scanned deadline scanAt record => exact giveUp_links w (.scanner deadline)
  | requeueing record source => exact giveUp_links w source
  | expiring record source => exact giveUp_links w source
  | _ => exact ⟨rfl, rfl, rfl⟩

end memory

/-- The store changes by what a handler writes, or when an operator clears the dead letter. -/
theorem step_store {w w' : World} {event : Event} (hstep : taskMachine.step w event = some w') :
    (∀ place worker poller, event ≠ .proceed place true worker poller) ∧ w'.store = w.store ∨
      event = .clearDeadLetter ∧ w'.store = { w.store with deadLettered := false } ∨
      ∃ place worker poller call, event = .proceed place true worker poller ∧
        w.calls[place]? = some call ∧ w'.store = call.commit w.store := by
  cases event with
  | clearDeadLetter =>
    cases hstep
    exact .inr (.inl ⟨rfl, rfl⟩)
  | proceed place ok worker poller =>
    obtain ⟨call, hcall, hnext⟩ := Option.bind_eq_some_iff.1 hstep
    split at hnext
    · cases hnext
    · split at hnext
      · rename_i hok
        subst hok
        cases hnext
        exact .inr (.inr ⟨place, worker, poller, call, rfl, hcall, resume_store _ _ _ call⟩)
      · rename_i hok
        split at hnext
        · cases hnext
          refine .inl ⟨fun place' worker' poller' hevent => ?_, fail_store w call⟩
          cases hevent
          exact hok rfl
        · cases hnext
  | fire place worker =>
    obtain ⟨task, -, rfl⟩ := Option.map_eq_some_iff.1 hstep
    exact .inl ⟨nofun, rfl⟩
  | poll place workerId =>
    obtain ⟨task, -, rfl⟩ := Option.map_eq_some_iff.1 hstep
    exact .inl ⟨nofun, rfl⟩
  | heartbeat workerId =>
    simp only [taskMachine] at hstep
    split at hstep
    · split at hstep
      all_goals
        cases hstep
        exact .inl ⟨nofun, rfl⟩
    · cases hstep
      exact .inl ⟨nofun, rfl⟩
  | scanExpiredTasks =>
    simp only [taskMachine] at hstep
    split at hstep
    · split at hstep
      all_goals
        cases hstep
        exact .inl ⟨nofun, rfl⟩
    · cases hstep
      exact .inl ⟨nofun, rfl⟩
  | reconcileOrphanedRecords =>
    simp only [taskMachine] at hstep
    split at hstep
    · split at hstep
      all_goals
        cases hstep
        exact .inl ⟨nofun, rfl⟩
    · cases hstep
      exact .inl ⟨nofun, rfl⟩
  | tick delay =>
    cases hstep
    exact .inl ⟨nofun, rfl⟩
  | dispatch task worker =>
    cases hstep
    exact .inl ⟨nofun, rfl⟩
  | report workerId attemptToken status =>
    cases hstep
    exact .inl ⟨nofun, rfl⟩
  | expireTask place =>
    simp only [taskMachine] at hstep
    split at hstep
    · cases hstep
      exact .inl ⟨nofun, rfl⟩
    · cases hstep
  | removeStale place =>
    simp only [taskMachine] at hstep
    split at hstep
    · cases hstep
      exact .inl ⟨nofun, rfl⟩
    · cases hstep
  | taskResult workerId attemptToken status =>
    simp only [taskMachine] at hstep
    split at hstep
    all_goals
      cases hstep
      exact .inl ⟨nofun, rfl⟩
  | disconnect workerId =>
    simp only [taskMachine] at hstep
    split at hstep
    all_goals
      cases hstep
      exact .inl ⟨nofun, rfl⟩

section calls

variable (w : World)

@[simp] theorem release_calls (source : Source) : (release w source).calls = w.calls := by
  cases source <;> rfl

@[simp] theorem giveUp_calls (source : Source) : (giveUp w source).calls = w.calls := by
  cases source <;> rfl

theorem fail_calls (call : Call) : (fail w call).1.calls = w.calls := by
  cases call <;> simp [fail]

@[simp] theorem enqueue_calls (task : TaskDispatch) (poller : Option Nat) :
    (enqueue w task poller).1.calls = w.calls := by
  unfold enqueue
  split
  · rfl
  · cases poller <;> rfl

@[simp] theorem scheduleTaskRedispatch_calls (task : TaskDispatch) (worker : Option Nat) :
    (scheduleTaskRedispatch w task worker).1.calls = w.calls := by
  unfold scheduleTaskRedispatch
  split <;> rfl

theorem resume_calls (worker poller : Option Nat) (call : Call) :
    (resume w worker poller call).1.calls = w.calls := by
  cases call <;> simp only [resume] <;> repeat' split
  all_goals simp

/-- Only a handler that goes on changes its own place, and every other event adds handlers at
most. -/
theorem step_calls {w w' : World} {event : Event} (hstep : taskMachine.step w event = some w')
    (hevent : ¬ ∃ place ok worker poller, event = .proceed place ok worker poller) :
    ∃ more, w'.calls = w.calls ++ more := by
  cases event with
  | proceed place ok worker poller => exact (hevent ⟨place, ok, worker, poller, rfl⟩).elim
  | fire place worker =>
    obtain ⟨task, -, rfl⟩ := Option.map_eq_some_iff.1 hstep
    exact ⟨[_], rfl⟩
  | poll place workerId =>
    obtain ⟨task, -, rfl⟩ := Option.map_eq_some_iff.1 hstep
    exact ⟨[_], rfl⟩
  | dispatch task worker =>
    cases hstep
    exact ⟨[_], rfl⟩
  | report workerId attemptToken status =>
    cases hstep
    exact ⟨[_], rfl⟩
  | tick delay =>
    cases hstep
    exact ⟨[], (List.append_nil _).symm⟩
  | clearDeadLetter =>
    cases hstep
    exact ⟨[], (List.append_nil _).symm⟩
  | _ =>
    simp only [taskMachine] at hstep
    repeat' split at hstep
    all_goals
      cases hstep
      try exact ⟨[_], rfl⟩
      try exact ⟨[], (List.append_nil _).symm⟩

end calls

variable {worker poller : Option Nat} {place : Nat} {ok : Bool}

/-- What a handler does that goes on, whether or not the store answers. -/
theorem step_proceed {w w' : World}
    (hstep : taskMachine.step w (.proceed place ok worker poller) = some w') :
    ∃ call, w.calls[place]? = some call ∧ call ≠ .done ∧ (ok = true ∧
          w' = goOn place (resume { w with store := call.commit w.store } worker poller call) ∨
        ok = false ∧ w' = goOn place (fail w call)) := by
  obtain ⟨call, hcall, hnext⟩ := Option.bind_eq_some_iff.1 hstep
  refine ⟨call, hcall, ?_⟩
  split at hnext
  · cases hnext
  · rename_i hdone
    refine ⟨hdone, ?_⟩
    cases ok with
    | true => exact .inl ⟨rfl, (Option.some.inj hnext).symm⟩
    | false =>
      simp only [Bool.false_eq_true, ↓reduceIte] at hnext
      split at hnext
      · exact .inr ⟨rfl, (Option.some.inj hnext).symm⟩
      · cases hnext

theorem goOn_calls {w : World} {next : World × Call} (h : next.1.calls = w.calls) :
    (goOn place next).calls = w.calls.set place next.2 := by
  unfold goOn
  rw [h]

/-- The place of a handler that goes on gets its next stage, and the other places stay. -/
theorem proceed_calls {w w' : World}
    (hstep : taskMachine.step w (.proceed place ok worker poller) = some w') :
    ∃ next, w'.calls = w.calls.set place next := by
  obtain ⟨call, -, -, ⟨-, rfl⟩ | ⟨-, rfl⟩⟩ := step_proceed hstep
  · exact ⟨_, goOn_calls (resume_calls _ worker poller call)⟩
  · exact ⟨_, goOn_calls (fail_calls w call)⟩

end Weft.Tasks
