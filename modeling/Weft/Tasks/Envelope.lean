import Weft.Js.Number

/-! What a task carries from one worker to the next. Four records are copied field by field from one
another: the task as it is dispatched, its durable queued record, the entry of the long-poll queue,
and the durable record in flight. -/

namespace Weft.Tasks.Envelope
open Weft.Js

variable {ι β : Type}

structure RetryPolicy (β : Type) where
  maxAttempts : Nat
  backoff : β

/-- A visibility timeout that is not finite is `none`, as one that is left out. -/
structure TaskDispatch (ι β : Type) where
  operationId : JsString
  activityName : JsString
  input : ι
  attempt : Option Nat := none
  queue : Option JsString := none
  workflowId : Option JsString := none
  workflowExecutionToken : Option JsString := none
  sticky : Option Bool := none
  visibilityTimeout : Option ℚ := none
  retryPolicy : Option (RetryPolicy β) := none
  headers : Option (List (JsString × JsString)) := none
  priority : Option ℚ := none
  fairShareKey : Option JsString := none

inductive TaskRequeueReason where
  | visibilityTimeout
  | workerDisconnect

structure TaskLifecycleFields where
  firstQueuedAt : Option Nat := none
  lastQueuedAt : Option Nat := none
  lastDispatchedAt : Option Nat := none
  startedAt : Option Nat := none
  retryCount : Option Nat := none
  requeueCount : Option Nat := none
  lastRequeueReason : Option TaskRequeueReason := none

structure QueuedRecord (ι β : Type) extends TaskLifecycleFields where
  operationId : JsString
  activityName : JsString
  input : ι
  queue : JsString
  attempt : Nat
  visibilityTimeout : ℚ
  retryPolicy : Option (RetryPolicy β)
  queuedAt : Nat
  workflowId : Option JsString
  workflowExecutionToken : Option JsString := none

structure InflightRecord (ι β : Type) extends TaskLifecycleFields where
  operationId : JsString
  workerId : JsString
  deadline : ℚ
  activityName : JsString
  queue : JsString
  input : ι
  attempt : Nat
  visibilityTimeout : ℚ
  retryPolicy : Option (RetryPolicy β)
  workflowId : Option JsString
  workflowExecutionToken : Option JsString
  attemptToken : JsString

structure PendingTask (ι β : Type) extends TaskLifecycleFields where
  operationId : JsString
  activityName : JsString
  input : ι
  attempt : Option Nat
  retryPolicy : Option (RetryPolicy β)
  visibilityTimeout : Option ℚ
  enqueuedAt : Option Nat
  headers : Option (List (JsString × JsString))
  workflowId : Option JsString
  workflowExecutionToken : Option JsString
  priority : Option ℚ

/-! ## Lifecycle -/

/-- `??=` on the fields that a record takes over from the one before it. -/
def applyPreviousLifecycleFields (record : TaskLifecycleFields)
    (previous : Option TaskLifecycleFields) : TaskLifecycleFields := { record with
  lastDispatchedAt := record.lastDispatchedAt <|> previous.bind (·.lastDispatchedAt)
  startedAt := record.startedAt <|> previous.bind (·.startedAt)
  lastRequeueReason := record.lastRequeueReason <|> previous.bind (·.lastRequeueReason) }

def resolveRetryCount (record : TaskLifecycleFields) (attempt : Nat)
    (previous : Option TaskLifecycleFields) : Nat :=
  (record.retryCount <|> previous.bind (·.retryCount)).getD (attempt - 1)

def normalizeQueuedRecordLifecycle (record : QueuedRecord ι β)
    (previous : Option (InflightRecord ι β)) : QueuedRecord ι β :=
  let before := previous.map (·.toTaskLifecycleFields)
  { record with
    toTaskLifecycleFields := applyPreviousLifecycleFields
      { record.toTaskLifecycleFields with
        firstQueuedAt := (record.firstQueuedAt <|> before.bind (·.firstQueuedAt) <|>
          before.bind (·.lastQueuedAt) <|> some record.queuedAt)
        lastQueuedAt := record.lastQueuedAt <|> some record.queuedAt
        retryCount := resolveRetryCount record.toTaskLifecycleFields record.attempt before
        requeueCount := (record.requeueCount <|> before.bind (·.requeueCount)).getD 0 } before }

def normalizeInflightRecordLifecycle (record : InflightRecord ι β)
    (previous : Option (QueuedRecord ι β)) (now : Nat) : InflightRecord ι β :=
  let before := previous.map (·.toTaskLifecycleFields)
  let queuedAt := previous.map (·.queuedAt)
  let lastDispatchedAt := record.lastDispatchedAt.getD now
  let firstQueuedAt := (record.firstQueuedAt <|> before.bind (·.firstQueuedAt) <|>
    before.bind (·.lastQueuedAt) <|> queuedAt).getD lastDispatchedAt
  { record with
    toTaskLifecycleFields := applyPreviousLifecycleFields
      { record.toTaskLifecycleFields with
        firstQueuedAt := some firstQueuedAt
        lastQueuedAt := (record.lastQueuedAt <|> before.bind (·.lastQueuedAt) <|>
          queuedAt).getD firstQueuedAt
        lastDispatchedAt := some lastDispatchedAt
        startedAt := record.startedAt.getD lastDispatchedAt
        retryCount := resolveRetryCount record.toTaskLifecycleFields record.attempt before
        requeueCount := (record.requeueCount <|> before.bind (·.requeueCount)).getD 0 } before }

def mergeQueuedRecordLifecycle (fresh : QueuedRecord ι β) (existing : Option (QueuedRecord ι β)) :
    QueuedRecord ι β := { fresh with
  firstQueuedAt := (existing.bind (·.firstQueuedAt)).getD fresh.queuedAt
  lastQueuedAt := some fresh.queuedAt
  lastDispatchedAt := existing.bind (·.lastDispatchedAt)
  startedAt := existing.bind (·.startedAt)
  retryCount := existing.bind (·.retryCount) <|> fresh.retryCount
  requeueCount := existing.bind (·.requeueCount) <|> fresh.requeueCount
  lastRequeueReason := existing.bind (·.lastRequeueReason) }

/-! ## Conversions -/

def DEFAULT_VISIBILITY_TIMEOUT : ℚ := 30000

def MIN_VISIBILITY_TIMEOUT : ℚ := 10

def MAX_VISIBILITY_TIMEOUT : ℚ := 3600000

def clampVisibilityTimeout (value : Option ℚ) : ℚ :=
  match value with
  | none => DEFAULT_VISIBILITY_TIMEOUT
  | some value => min (max value MIN_VISIBILITY_TIMEOUT) MAX_VISIBILITY_TIMEOUT

def dispatchQueue (task : TaskDispatch ι β) : JsString := task.queue.getD (js "default")

/-- The record that `selectAndReserveWorker` puts in flight. -/
def selectAndReserveWorker (task : TaskDispatch ι β) (workerId attemptToken : JsString)
    (now : Nat) :
    InflightRecord ι β where
  operationId := task.operationId
  workerId := workerId
  deadline := now + clampVisibilityTimeout task.visibilityTimeout
  activityName := task.activityName
  queue := dispatchQueue task
  input := task.input
  attempt := task.attempt.getD 1
  visibilityTimeout := clampVisibilityTimeout task.visibilityTimeout
  retryPolicy := task.retryPolicy
  workflowId := task.workflowId
  workflowExecutionToken := task.workflowExecutionToken
  attemptToken := attemptToken

/-- The durable record that `enqueueTaskForLongPoll` writes. -/
def queuedForLongPoll (task : TaskDispatch ι β) (existing : Option (QueuedRecord ι β)) (now : Nat) :
    QueuedRecord ι β :=
  let fresh : QueuedRecord ι β :=
    { operationId := task.operationId
      activityName := task.activityName
      input := task.input
      queue := dispatchQueue task
      attempt := task.attempt.getD 1
      visibilityTimeout := clampVisibilityTimeout task.visibilityTimeout
      retryPolicy := task.retryPolicy
      queuedAt := now
      workflowId := task.workflowId
      workflowExecutionToken := task.workflowExecutionToken
      retryCount := some (task.attempt.getD 1 - 1)
      requeueCount := some 0 }
  normalizeQueuedRecordLifecycle (mergeQueuedRecordLifecycle fresh existing) none

/-- The entry that it puts in the long-poll queue. -/
def enqueueTaskForLongPoll (task : TaskDispatch ι β) (queued : QueuedRecord ι β) (now : Nat) :
    PendingTask ι β where
  toTaskLifecycleFields := queued.toTaskLifecycleFields
  operationId := task.operationId
  activityName := task.activityName
  input := task.input
  attempt := some (task.attempt.getD 1)
  retryPolicy := task.retryPolicy
  visibilityTimeout := some (clampVisibilityTimeout task.visibilityTimeout)
  enqueuedAt := some now
  headers := task.headers
  workflowId := task.workflowId
  workflowExecutionToken := task.workflowExecutionToken
  priority := task.priority

def createLongPollInflightRecord (queue : JsString) (task : PendingTask ι β)
    (workerId attemptToken : JsString) (now : Nat) : InflightRecord ι β where
  operationId := task.operationId
  workerId := workerId
  deadline := now + task.visibilityTimeout.getD DEFAULT_VISIBILITY_TIMEOUT
  activityName := task.activityName
  queue := queue
  input := task.input
  attempt := task.attempt.getD 1
  visibilityTimeout := task.visibilityTimeout.getD DEFAULT_VISIBILITY_TIMEOUT
  retryPolicy := task.retryPolicy
  workflowId := task.workflowId
  workflowExecutionToken := task.workflowExecutionToken
  attemptToken := attemptToken
  firstQueuedAt := (task.firstQueuedAt <|> task.enqueuedAt).getD now
  lastQueuedAt := (task.lastQueuedAt <|> task.enqueuedAt).getD now
  lastDispatchedAt := some now
  startedAt := some now
  retryCount := task.retryCount.getD (task.attempt.getD 1 - 1)
  requeueCount := task.requeueCount.getD 0
  lastRequeueReason := task.lastRequeueReason

def hasExceededMaxAttempts (policy : Option (RetryPolicy β)) (nextAttempt : Nat) : Prop :=
  ∃ p ∈ policy, p.maxAttempts < nextAttempt

instance decidableHasExceededMaxAttempts (policy : Option (RetryPolicy β)) (nextAttempt : Nat) :
    Decidable (hasExceededMaxAttempts policy nextAttempt) :=
  match policy with
  | none => isFalse (by rintro ⟨p, hp, -⟩; cases hp)
  | some p => decidable_of_iff (p.maxAttempts < nextAttempt) (by simp [hasExceededMaxAttempts])

def createRequeuedRecord (record : InflightRecord ι β) (nextAttempt nextRetryCount : Nat)
    (reason : TaskRequeueReason) (now : Nat) : QueuedRecord ι β where
  operationId := record.operationId
  activityName := record.activityName
  input := record.input
  queue := record.queue
  attempt := nextAttempt
  visibilityTimeout := record.visibilityTimeout
  retryPolicy := record.retryPolicy
  queuedAt := now
  workflowId := record.workflowId
  firstQueuedAt := record.firstQueuedAt
  lastDispatchedAt := record.lastDispatchedAt
  startedAt := record.startedAt
  retryCount := some nextRetryCount
  requeueCount := some (record.requeueCount.getD 0 + 1)
  lastRequeueReason := some reason

def createRequeuedTaskDispatch (record : InflightRecord ι β) (nextAttempt : Nat) :
    TaskDispatch ι β where
  operationId := record.operationId
  activityName := record.activityName
  input := record.input
  queue := some record.queue
  attempt := some nextAttempt
  visibilityTimeout := some record.visibilityTimeout
  workflowId := record.workflowId
  workflowExecutionToken := record.workflowExecutionToken
  retryPolicy := record.retryPolicy

/-! ## Cycles -/

/-- Where a task is, with the durable record it has there. -/
inductive TaskState (ι β : Type) where
  | dispatched (task : TaskDispatch ι β) (queued : Option (QueuedRecord ι β))
  | pending (queue : JsString) (task : PendingTask ι β) (queued : QueuedRecord ι β)
  | inflight (record : InflightRecord ι β)
  | failed

inductive Event where
  | websocket (workerId attemptToken : JsString) (now : Nat)
  | longPoll (now : Nat)
  | claim (workerId attemptToken : JsString) (now : Nat)
  | requeue (reason : TaskRequeueReason) (now : Nat)

def reassignOrExpireTask (record : InflightRecord ι β) (reason : TaskRequeueReason) (now : Nat) :
    TaskState ι β :=
  let nextAttempt := record.attempt + 1
  let nextRetryCount := max (record.retryCount.getD 0) (nextAttempt - 1)
  if hasExceededMaxAttempts record.retryPolicy nextAttempt then .failed
  else .dispatched (createRequeuedTaskDispatch record nextAttempt)
    (normalizeQueuedRecordLifecycle
      (createRequeuedRecord record nextAttempt nextRetryCount reason now) record)

def step : TaskState ι β → Event → Option (TaskState ι β)
  | .dispatched task queued, .websocket workerId attemptToken now =>
    some (.inflight (normalizeInflightRecordLifecycle
      (selectAndReserveWorker task workerId attemptToken now) queued now))
  | .dispatched task queued, .longPoll now =>
    let record := queuedForLongPoll task queued now
    some (.pending (dispatchQueue task) (enqueueTaskForLongPoll task record now) record)
  | .pending queue task queued, .claim workerId attemptToken now =>
    some (.inflight (normalizeInflightRecordLifecycle
      (createLongPollInflightRecord queue task workerId attemptToken now) queued now))
  | .inflight record, .requeue reason now => some (reassignOrExpireTask record reason now)
  | _, _ => none

/-- What is left of a task without its attempt, its counters and its times. -/
@[ext]
structure TaskEnvelope (ι β : Type) where
  operationId : JsString
  activityName : JsString
  input : ι
  queue : JsString
  visibilityTimeout : ℚ
  retryPolicy : Option (RetryPolicy β)
  workflowId : Option JsString
  workflowExecutionToken : Option JsString
  headers : Option (List (JsString × JsString)) := none
  priority : ℚ := 0
  fairShareKey : Option JsString := none
  sticky : Bool := false

def TaskDispatch.envelope (task : TaskDispatch ι β) : TaskEnvelope ι β := { task with
  queue := dispatchQueue task
  visibilityTimeout := clampVisibilityTimeout task.visibilityTimeout
  priority := task.priority.getD 0
  sticky := task.sticky.getD false }

def QueuedRecord.envelope (record : QueuedRecord ι β) : TaskEnvelope ι β := { record with }

def PendingTask.envelope (task : PendingTask ι β) (queue : JsString) : TaskEnvelope ι β :=
  { task with
    queue := queue
    visibilityTimeout := task.visibilityTimeout.getD DEFAULT_VISIBILITY_TIMEOUT
    priority := task.priority.getD 0 }

def InflightRecord.envelope (record : InflightRecord ι β) : TaskEnvelope ι β := { record with }

/-- The task that is offered next and its durable queued record carry this envelope. -/
def Carries (envelope : TaskEnvelope ι β) : TaskState ι β → Prop
  | .dispatched task queued =>
    task.envelope = envelope ∧ ∀ record ∈ queued, record.envelope = envelope
  | .pending queue task queued => task.envelope queue = envelope ∧ queued.envelope = envelope
  | .inflight _ | .failed => True

def Event.IsRequeue : Event → Prop
  | .requeue _ _ => True
  | _ => False

/-- Whatever the path, the envelope after any number of cycles is that of the original dispatch. -/
def RequeuePreserves (original : TaskDispatch ι β) : Prop :=
  ∀ (events : List Event) (s : TaskState ι β), (∃ e ∈ events, Event.IsRequeue e) →
    events.foldlM step (.dispatched original none) = some s → Carries original.envelope s

/-- An envelope of which every conversion keeps every field. -/
structure TaskEnvelope.Plain (envelope : TaskEnvelope ι β) : Prop where
  workflowExecutionToken : envelope.workflowExecutionToken = none
  headers : envelope.headers = none
  priority : envelope.priority = 0
  fairShareKey : envelope.fairShareKey = none
  sticky : envelope.sticky = false

theorem clampVisibilityTimeout_clamp (value : Option ℚ) :
    clampVisibilityTimeout (some (clampVisibilityTimeout value)) = clampVisibilityTimeout
      value := by
  have hbounds : MIN_VISIBILITY_TIMEOUT ≤ clampVisibilityTimeout value ∧
      clampVisibilityTimeout value ≤ MAX_VISIBILITY_TIMEOUT := by
    cases value with
    | none => norm_num [clampVisibilityTimeout, DEFAULT_VISIBILITY_TIMEOUT, MIN_VISIBILITY_TIMEOUT,
        MAX_VISIBILITY_TIMEOUT]
    | some value =>
      exact ⟨le_min (le_max_right _ _)
        (by norm_num [MIN_VISIBILITY_TIMEOUT, MAX_VISIBILITY_TIMEOUT]),
        min_le_right _ _⟩
  exact (min_eq_left (max_le hbounds.2 (hbounds.1.trans hbounds.2))).trans (max_eq_left hbounds.1)

variable {events : List Event} {s t : TaskState ι β}

/-- A run with a step of a kind has the step somewhere, and runs before and after it. -/
theorem run_split (h : ∃ e ∈ events, Event.IsRequeue e) (hrun : events.foldlM step s = some t) :
    ∃ (before : List Event) (e : Event) (after : List Event) (u v : TaskState ι β),
      Event.IsRequeue e ∧ before.foldlM step s = some u ∧ step u e = some v ∧
        after.foldlM step v = some t := by
  obtain ⟨e, hmem, he⟩ := h
  obtain ⟨before, after, rfl⟩ := List.append_of_mem hmem
  rw [List.foldlM_append] at hrun
  obtain ⟨u, hu, hrest⟩ := Option.bind_eq_some_iff.1 hrun
  obtain ⟨v, hv, hafter⟩ := Option.bind_eq_some_iff.1 hrest
  exact ⟨before, e, after, u, v, he, hu, hv, hafter⟩

/-- What every step keeps is kept by a run. -/
theorem run_keeps {P : TaskState ι β → Prop} (h : ∀ s e t, P s → step s e = some t → P t)
    (hs : P s) (hrun : events.foldlM step s = some t) : P t := by
  induction events generalizing s with
  | nil =>
    cases hrun
    exact hs
  | cons e events ih =>
    obtain ⟨u, hu, hrest⟩ := Option.bind_eq_some_iff.1 hrun
    exact ih (h s e u hs hu) hrest

/-! ## Plain envelopes -/

/-- Where the record in flight carries it as well. -/
def CarriesAll (envelope : TaskEnvelope ι β) : TaskState ι β → Prop
  | .inflight record => record.envelope = envelope
  | s => Carries envelope s

namespace TaskEnvelope.Plain

variable {task : TaskDispatch ι β}

theorem envelope_reserved (h : task.envelope.Plain) (workerId attemptToken : JsString) (now : Nat) :
    (selectAndReserveWorker task workerId attemptToken now).envelope = task.envelope := by
  ext1
  case headers => exact h.headers.symm
  case priority => exact h.priority.symm
  case fairShareKey => exact h.fairShareKey.symm
  case sticky => exact h.sticky.symm
  all_goals rfl

theorem envelope_queued (h : task.envelope.Plain) (existing : Option (QueuedRecord ι β))
    (now : Nat) : (queuedForLongPoll task existing now).envelope = task.envelope :=
  h.envelope_reserved [] [] now

theorem envelope_pending (h : task.envelope.Plain) (queued : QueuedRecord ι β) (now : Nat) :
    (enqueueTaskForLongPoll task queued now).envelope (dispatchQueue task) = task.envelope := by
  ext1
  case fairShareKey => exact h.fairShareKey.symm
  case sticky => exact h.sticky.symm
  all_goals rfl

theorem envelope_claimed {task : PendingTask ι β} {queue : JsString}
    (h : (task.envelope queue).Plain) (workerId attemptToken : JsString) (now : Nat) :
    (createLongPollInflightRecord queue task workerId attemptToken now).envelope =
      task.envelope queue := by
  ext1
  case headers => exact h.headers.symm
  case priority => exact h.priority.symm
  all_goals rfl

theorem envelope_requeued {record : InflightRecord ι β} (h : record.envelope.Plain)
    (nextAttempt nextRetryCount : Nat) (reason : TaskRequeueReason) (now : Nat) :
    (createRequeuedRecord record nextAttempt nextRetryCount reason now).envelope =
      record.envelope := by
  ext1
  case workflowExecutionToken => exact h.workflowExecutionToken.symm
  all_goals rfl

end TaskEnvelope.Plain

theorem envelope_redispatched {record : InflightRecord ι β}
    (h : clampVisibilityTimeout (some record.visibilityTimeout) = record.visibilityTimeout)
    (nextAttempt : Nat) :
    (createRequeuedTaskDispatch record nextAttempt).envelope = record.envelope := by
  ext1
  case visibilityTimeout => exact h
  all_goals rfl

variable {envelope : TaskEnvelope ι β}

theorem carriesAll_step (hplain : envelope.Plain)
    (hclamp : clampVisibilityTimeout (some envelope.visibilityTimeout) = envelope.visibilityTimeout)
    (s : TaskState ι β) (e : Event) (t : TaskState ι β) (h : CarriesAll envelope s)
    (hstep : step s e = some t) : CarriesAll envelope t := by
  unfold step at hstep
  split at hstep
  · cases hstep
    obtain ⟨rfl, -⟩ := h
    exact hplain.envelope_reserved [] [] 0
  · rename_i task queued now
    cases hstep
    obtain ⟨rfl, -⟩ := h
    exact ⟨hplain.envelope_pending (queuedForLongPoll task queued now) now,
      hplain.envelope_queued queued now⟩
  · cases hstep
    obtain ⟨rfl, -⟩ := h
    exact hplain.envelope_claimed [] [] 0
  · cases hstep
    obtain rfl := show _ = envelope from h
    unfold reassignOrExpireTask
    dsimp only
    split
    · trivial
    · refine ⟨envelope_redispatched hclamp _, fun record hrecord => ?_⟩
      cases hrecord
      exact hplain.envelope_requeued 0 0 .visibilityTimeout 0
  · cases hstep

theorem CarriesAll.carries {s : TaskState ι β} (h : CarriesAll envelope s) :
    Carries envelope s := by
  cases s with
  | inflight record => trivial
  | _ => exact h

/-! ## Tasks that are tried once -/

/-- A task that was not given back is at its first attempt. -/
def FirstAttempt (attempt : Nat) (policy : Option (RetryPolicy β)) : TaskState ι β → Prop
  | .dispatched task _ => task.attempt.getD 1 = attempt ∧ task.retryPolicy = policy
  | .pending _ task _ => task.attempt.getD 1 = attempt ∧ task.retryPolicy = policy
  | .inflight record => record.attempt = attempt ∧ record.retryPolicy = policy
  | .failed => True

/-- A requeue of a task without further attempts fails it. -/
theorem firstAttempt_step {attempt : Nat} {policy : Option (RetryPolicy β)}
    (hexceeded : hasExceededMaxAttempts policy (attempt + 1)) (s : TaskState ι β) (e : Event)
    (t : TaskState ι β) (h : FirstAttempt attempt policy s) (hstep : step s e = some t) :
    FirstAttempt attempt policy t ∧ (e.IsRequeue → t = .failed) := by
  unfold step at hstep
  split at hstep
  · cases hstep
    exact ⟨h, False.elim⟩
  · cases hstep
    exact ⟨h, False.elim⟩
  · cases hstep
    exact ⟨h, False.elim⟩
  · cases hstep
    obtain ⟨rfl, rfl⟩ := h
    rw [reassignOrExpireTask, if_pos hexceeded]
    exact ⟨trivial, fun _ => rfl⟩
  · cases hstep

/-! ## Exactly when -/

/-- Over the websocket once, and back. -/
theorem requeuePreserves_plain {original : TaskDispatch ι β} (h : RequeuePreserves original)
    (hmore : ¬ hasExceededMaxAttempts original.retryPolicy (original.attempt.getD 1 + 1)) :
    original.envelope.Plain := by
  have hrun := h [.websocket [] [] 0, .requeue .visibilityTimeout 0] _
    ⟨.requeue .visibilityTimeout 0, by simp, trivial⟩ rfl
  unfold reassignOrExpireTask at hrun
  dsimp only at hrun
  split at hrun
  · exact absurd ‹_› hmore
  · obtain ⟨htask, hrecord⟩ := hrun
    have hqueued := hrecord _ rfl
    exact ⟨(congrArg TaskEnvelope.workflowExecutionToken hqueued).symm,
      (congrArg TaskEnvelope.headers htask).symm, (congrArg TaskEnvelope.priority htask).symm,
      (congrArg TaskEnvelope.fairShareKey htask).symm, (congrArg TaskEnvelope.sticky htask).symm⟩

/-- The envelope is preserved exactly where no cycle can follow the original dispatch, or where it
has no execution token, no headers, no priority, no fair-share key and is not sticky. -/
theorem requeue_preserves_envelope (original : TaskDispatch ι β) :
    RequeuePreserves original ↔
      hasExceededMaxAttempts original.retryPolicy (original.attempt.getD 1 + 1) ∨
        original.envelope.Plain := by
  constructor
  · intro h
    by_cases hexceeded : hasExceededMaxAttempts original.retryPolicy (original.attempt.getD 1 + 1)
    · exact .inl hexceeded
    · exact .inr (requeuePreserves_plain h hexceeded)
  · rintro (hexceeded | hplain) events s hrequeue hrun
    · obtain ⟨before, e, after, u, v, he, hu, hv, hafter⟩ := run_split hrequeue hrun
      have hfirst := run_keeps (fun s e t hs hstep =>
        (firstAttempt_step hexceeded s e t hs hstep).1)
        (show FirstAttempt _ _ (.dispatched original none) from ⟨rfl, rfl⟩) hu
      obtain rfl := (firstAttempt_step hexceeded u e v hfirst hv).2 he
      cases after with
      | nil =>
        cases hafter
        trivial
      | cons e after => cases hafter
    · have hstart : CarriesAll original.envelope (.dispatched original none) :=
        ⟨rfl, fun _ hrecord => by cases hrecord⟩
      exact (run_keeps (carriesAll_step hplain (clampVisibilityTimeout_clamp _)) hstart
        hrun).carries

/-- `traceparent: 1` -/
def taskWithHeaders : TaskDispatch Unit Unit where
  operationId := js "op"
  activityName := js "charge"
  input := ()
  headers := some [(js "traceparent", js "1")]

theorem requeue_drops_headers : ¬ RequeuePreserves taskWithHeaders := by
  intro h
  have hplain := requeuePreserves_plain h (by decide)
  cases hplain.headers

end Weft.Tasks.Envelope
