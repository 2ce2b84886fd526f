import Weft.Context.Model

/-! The operations of a context that do not run other operations. The engine's answers are a
script: an operation takes what it needs from it, or stops where the script ends. -/

namespace Weft.Context
open Weft.Js Weft.Lib

universe u

/-! ## Calls, requests and answers -/

structure RetryPolicy where
  maxAttempts : Int
  /-- `calculateBackoff`, by attempt -/
  backoff : Nat → Int
  nonRetryableErrors : List JsString

structure ActivityCall (α : Type u) where
  activityName : JsString
  input : Value α
  retryPolicy : Option RetryPolicy
  /-- in milliseconds -/
  scheduleToCloseTimeout : Option Int

/-- A request to the engine. The times of sleeps and waits are in the events. -/
inductive Request (α : Type u) where
  | activity (activityName : JsString) (input : Value α) (step attempt : Nat)
  | sleep (step : Nat) (duration : Int)
  | waitSignal (signalName : JsString)
  | memo (key : JsString) (step : Nat)
  | waitCondition (step : Nat) (timeout : Option Int)
  | getVersion (changeId : JsString) (minSupported maxSupported version : Int)
  | parallel (operations : List (Request α)) (step : Nat)
  | race (operations : List (Request α)) (branchNames : Option (List JsString))
  | runAll (branches : List (JsString × JsString)) (step : Nat)
  | speculate

variable {α : Type u}

/-- An answer of the engine, with the time at which it arrives. -/
inductive Response (α : Type u) where
  | settled (now : Int) (outcome : Except Thrown (Value α))
  /-- a parallel operation some of whose branches failed -/
  | branchesFailed (now : Int) (slots : List (ParallelBranchSlot (Value α))) (error : Thrown)
  /-- a speculation, with the answers to its own operations -/
  | speculated (now : Int) (script : List (Response α))

structure Timer where
  step : Nat
  duration : Int
  fireAt : Int
  /-- when it was reached -/
  now : Int
deriving DecidableEq, Repr

/-- What a run leaves a trace of. -/
inductive Event where
  | slept (timer : Timer)
  | waited (timer : Timer)
  /-- a request for an attempt of an activity, with the anchor of its budget -/
  | attempted (step attempt : Nat) (dispatchedAt : Option Int)
  | settled
  /-- a failed attempt after which the activity is tried again -/
  | retried (step attempt : Nat)
  /-- an operation that failed by an answer of the engine -/
  | failed
  /-- a budget that was found exhausted before an attempt -/
  | exhausted (now : Int)
  /-- a parallel operation that was recorded, with the steps that its branches took -/
  | parallel (variant : ParallelVariant) (branches subOperationCount steps : Nat)
  | speculated (steps : Nat)
deriving DecidableEq, Repr

/-- What becomes of an operation: it waits for the engine, or it returns or throws. -/
inductive Progress (α : Type u) where
  | stop (ctx : ContextInternals α) (events : List Event) (request : Request α)
  | go (ctx : ContextInternals α) (events : List Event) (outcome : Outcome α)
      (rest : List (Response α))

/-- A request is answered with a value that `accepts` takes, or with an error. -/
def awaitAnswer (ctx : ContextInternals α) (events : List Event) (request : Request α)
    (accepts : Value α → Bool) (resume : ContextInternals α → Value α → ContextInternals α)
    (script : List (Response α)) : Progress α :=
  match script with
  | .settled now (.ok value) :: rest =>
    if accepts value then
      .go (resume (ctx.tick now) value) (events ++ [.settled]) (.ok value) rest
    else .stop ctx events request
  | .settled now (.error error) :: rest =>
    .go (ctx.tick now) (events ++ [.settled, .failed]) (.error (.thrown error)) rest
  | _ => .stop ctx events request

/-! ## Sleeps, waits, memos and versions -/

/-- The time that a new timer counts from: that of the checkpoint the context was made from,
once. -/
def takeReferenceTime (ctx : ContextInternals α) : Int × ContextInternals α :=
  (ctx.sleepReferenceTime.getD ctx.now, { ctx with sleepReferenceTime := none })

def sleepTimer (ctx : ContextInternals α) (step : Nat) (duration : Int) : Timer :=
  ⟨step, duration, (takeReferenceTime ctx).1 + duration, ctx.now⟩

def isUndefined : Value α → Bool
  | .undefined => true
  | _ => false

def sleep (ctx : ContextInternals α) (duration : Int) (script : List (Response α)) : Progress α :=
  let step := ctx.stepIndex
  let ctx := ctx.takeStep
  match ctx.accumulatedResults.get step with
  | some _ => .go ctx [] (.ok .undefined) script
  | none => awaitAnswer (takeReferenceTime ctx).2 [.slept (sleepTimer ctx step duration)]
      (.sleep step duration) isUndefined (fun ctx _ => ctx.record step .undefined) script

def waitForSignal (ctx : ContextInternals α) (name : JsString) (script : List (Response α)) :
    Progress α :=
  let step := ctx.stepIndex
  let ctx := ctx.takeStep
  match ctx.accumulatedResults.get step with
  | some cached => .go ctx [] (.ok cached) script
  | none => awaitAnswer ctx [] (.waitSignal name) (fun _ => true)
      (fun ctx value => ctx.record step value) script

def memo (ctx : ContextInternals α) (key : JsString) (script : List (Response α)) : Progress α :=
  let step := ctx.stepIndex
  let ctx := ctx.takeStep
  match ctx.memoCache.get key with
  | some cached => .go ctx [] (.ok cached) script
  | none =>
    match ctx.accumulatedResults.get step with
    | some cached => .go (ctx.memoize key cached) [] (.ok cached) script
    | none => awaitAnswer ctx [] (.memo key step) (fun _ => true)
        (fun ctx value => (ctx.memoize key value).record step value) script

/-- The timer of a wait that has a timeout and no deadline yet. -/
def readOrInitConditionDeadline (ctx : ContextInternals α) (step : Nat) (timeout : Option Int) :
    ContextInternals α × List Event :=
  match timeout with
  | none => (ctx, [])
  | some milliseconds =>
    match ctx.checkpointLocals.conditionDeadlines.get step with
    | some _ => (ctx, [])
    | none =>
      let timer := sleepTimer ctx step milliseconds
      let ctx := (takeReferenceTime ctx).2
      let locals := ctx.checkpointLocals
      ({ ctx with checkpointLocals :=
          { locals with conditionDeadlines := locals.conditionDeadlines.put step timer.fireAt } },
        [.waited timer])

def waitUntil (ctx : ContextInternals α) (timeout : Option Int) (script : List (Response α)) :
    Progress α :=
  let step := ctx.stepIndex
  let ctx := ctx.takeStep
  match ctx.accumulatedResults.get step with
  | some cached => .go ctx [] (.ok cached) script
  | none =>
    let prepared := readOrInitConditionDeadline ctx step timeout
    awaitAnswer prepared.1 prepared.2 (.waitCondition step timeout) (fun _ => true)
      (fun ctx value => ctx.record step value) script

/-- A pinned version, or `maxSupported`, which is pinned then. -/
def resolveWorkflowVersionPatch (ctx : ContextInternals α) (changeId : JsString)
    (minSupported maxSupported : Int) : Except Failure (Int × Bool × ContextInternals α) :=
  if changeId = [] then .error .emptyChangeId
  else if maxSupported < minSupported then .error .unorderedVersions
  else match ctx.checkpointLocals.versions.get changeId with
    | none =>
      let locals := ctx.checkpointLocals
      .ok (maxSupported, true, { ctx with checkpointLocals :=
        { locals with versions := locals.versions.put changeId maxSupported } })
    | some version =>
      if version < minSupported then .error (.pinnedBelow changeId version minSupported)
      else if maxSupported < version then .error (.pinnedAbove changeId version maxSupported)
      else .ok (version, false, ctx)

def isVersion (version : Int) : Value α → Bool
  | .number n => n = version
  | _ => false

def getVersion (ctx : ContextInternals α) (changeId : JsString) (minSupported maxSupported : Int)
    (script : List (Response α)) : Progress α :=
  let step := ctx.stepIndex
  let ctx := ctx.takeStep
  match resolveWorkflowVersionPatch ctx changeId minSupported maxSupported with
  | .error failure => .go ctx [] (.error failure) script
  | .ok (version, newlyPinned, ctx) =>
    if !newlyPinned then .go ctx [] (.ok (.number version)) script
    else match ctx.accumulatedResults.get step with
      | some cached =>
        if isVersion version cached then .go ctx [] (.ok (.number version)) script
        else .go ctx [] (.error (.replayedVersion changeId version)) script
      | none => awaitAnswer ctx [] (.getVersion changeId minSupported maxSupported version)
          (isVersion version) (fun ctx _ => ctx) script

/-! ## Activities -/

def isNonRetryableActivityError (error : Thrown) (policy : RetryPolicy) : Bool :=
  match error with
  | .error name message => policy.nonRetryableErrors.contains name ||
      policy.nonRetryableErrors.contains message
  | .other text => policy.nonRetryableErrors.contains text

/-- The policy under which a failed attempt is tried again. -/
def shouldRetryActivityError (error : Thrown) (policy : Option RetryPolicy) (attempt : Nat) :
    Option RetryPolicy :=
  policy.filter fun policy =>
    attempt < policy.maxAttempts && !isNonRetryableActivityError error policy

structure ScheduleToCloseBudget where
  budgetMs : Int
  dispatchedAt : Int

def resolveScheduleToCloseBudget (ctx : ContextInternals α) (step : Nat) (call : ActivityCall α) :
    Option ScheduleToCloseBudget × ContextInternals α :=
  match call.retryPolicy, call.scheduleToCloseTimeout with
  | some _, some budgetMs =>
    let anchored := readOrInitActivityDispatchedAt ctx step
    (some ⟨budgetMs, anchored.1⟩, anchored.2)
  | _, _ => (none, ctx)

def isScheduleToCloseBudgetExhausted (budget : ScheduleToCloseBudget) (now : Int) : Bool :=
  budget.budgetMs ≤ now - budget.dispatchedAt

/-- The failure by which the budget bars an attempt. -/
def assertScheduleToCloseBudgetNotExhausted (budget : Option ScheduleToCloseBudget)
    (activityName : JsString) (now : Int) (projectedNextDispatchClock : Option Int) :
    Option Failure :=
  budget.bind fun budget =>
    if isScheduleToCloseBudgetExhausted budget (projectedNextDispatchClock.getD now) then
      some (.scheduleToClose activityName (now - budget.dispatchedAt) budget.budgetMs
        (projectedNextDispatchClock.bind fun clock =>
          if now - budget.dispatchedAt < budget.budgetMs then some (clock - budget.dispatchedAt)
          else none))
    else none

/-- A failed attempt: the backoff before the next one and the context that it is written to, or
the failure that is thrown. -/
def prepareRetry (ctx : ContextInternals α) (call : ActivityCall α) (step : Nat)
    (budget : Option ScheduleToCloseBudget) (error : Thrown) (attempt : Nat) :
    Except Failure (Int × ContextInternals α) :=
  match shouldRetryActivityError error call.retryPolicy attempt with
  | none => .error (.thrown error)
  | some policy =>
    match assertScheduleToCloseBudgetNotExhausted budget call.activityName ctx.now
        (some (ctx.now + policy.backoff attempt)) with
    | some failure => .error failure
    | none => (writeActivityRetryAttempt ctx step (attempt + 1)).map fun ctx =>
        (policy.backoff attempt, ctx)

/-- The budget bars an attempt other than the first. -/
def barredAttempt (ctx : ContextInternals α) (call : ActivityCall α)
    (budget : Option ScheduleToCloseBudget) (attempt : Nat) : Option Failure :=
  if 1 < attempt then
    assertScheduleToCloseBudgetNotExhausted budget call.activityName ctx.now none
  else none

def completeAttempt (ctx : ContextInternals α) (step attempt : Nat) (value : Value α) :
    ContextInternals α :=
  completeActivityRetryAttempt (ctx.record step value) step (attempt - 1)

def attemptedEvent (step attempt : Nat) (budget : Option ScheduleToCloseBudget) : Event :=
  .attempted step attempt (budget.map (·.dispatchedAt))

/-- The loop over the attempts. Each takes the answer to its request, and each backoff the answer
to its sleep, unless the sleep is recorded. -/
def attemptLoop (call : ActivityCall α) (step : Nat) (budget : Option ScheduleToCloseBudget)
    (script : List (Response α)) (attempt : Nat) (ctx : ContextInternals α) (events : List Event) :
    Progress α :=
  match barredAttempt ctx call budget attempt with
  | some failure => .go ctx (events ++ [.exhausted ctx.now]) (.error failure) script
  | none =>
    let events := events ++ [attemptedEvent step attempt budget]
    match script with
    | .settled now (.ok value) :: rest =>
      .go (completeAttempt (ctx.tick now) step attempt value) (events ++ [.settled])
        (.ok value) rest
    | .settled now (.error error) :: rest =>
      match prepareRetry (ctx.tick now) call step budget error attempt with
      | .error failure => .go (ctx.tick now) (events ++ [.settled, .failed]) (.error failure) rest
      | .ok (backoff, ctx) =>
        let events := events ++ [.settled, .retried step attempt]
        let sleepStep := ctx.stepIndex
        let ctx := ctx.takeStep
        match ctx.accumulatedResults.get sleepStep with
        | some _ => attemptLoop call step budget rest (attempt + 1) ctx events
        | none =>
          let events := events ++ [.slept (sleepTimer ctx sleepStep backoff)]
          let ctx := (takeReferenceTime ctx).2
          match rest with
          | .settled now (.ok .undefined) :: rest =>
            attemptLoop call step budget rest (attempt + 1)
              ((ctx.tick now).record sleepStep .undefined) (events ++ [.settled])
          | .settled now (.error error) :: rest =>
            .go (ctx.tick now) (events ++ [.settled, .failed]) (.error (.thrown error)) rest
          | _ => .stop ctx events (.sleep sleepStep backoff)
    | _ => .stop ctx events (.activity call.activityName call.input step attempt)

/-- An operation goes on with the attempts after a sleep. -/
def Progress.thenAttempt (progress : Progress α)
    (attempts : List (Response α) → ContextInternals α → List Event → Progress α) : Progress α :=
  match progress with
  | .stop ctx events request => .stop ctx events request
  | .go ctx events (.ok _) rest => attempts rest ctx events
  | .go ctx events (.error failure) rest => .go ctx events (.error failure) rest

/-- A context that finds a retry attempt has the steps of the sleeps before it behind it, and
sleeps the last of them, or finds that recorded. -/
def runActivity (ctx : ContextInternals α) (call : ActivityCall α) (script : List (Response α)) :
    Progress α :=
  let step := ctx.stepIndex
  let ctx := ctx.takeStep
  match ctx.accumulatedResults.get step with
  | some cached => .go (ctx.skip (readCompletedRetrySleepCount ctx step)) [] (.ok cached) script
  | none =>
    match readActivityRetryAttempt ctx step with
    | .error failure => .go ctx [] (.error failure) script
    | .ok none =>
      let budgeted := resolveScheduleToCloseBudget ctx step call
      attemptLoop call step budgeted.1 script 1 budgeted.2 []
    | .ok (some attempt) =>
      let budgeted := resolveScheduleToCloseBudget (ctx.skip (attempt - 2)) step call
      match call.retryPolicy with
      | none => .go budgeted.2 [] (.error (.missingRetryPolicy attempt)) script
      | some policy => (sleep budgeted.2 (policy.backoff (attempt - 1)) script).thenAttempt
          fun rest ctx events => attemptLoop call step budgeted.1 rest attempt ctx events

/-! ## Named branches -/

/-- A parallel operation is answered with one value for each branch, or with what became of them. -/
def awaitBranches (ctx : ContextInternals α) (events : List Event) (request : Request α)
    (step : Nat)
    (entry : List (ParallelBranchSlot (Value α)) → Value α) (count : Nat)
    (values : Value α → Option (List (Value α))) (taken : List Event)
    (script : List (Response α)) : Progress α :=
  match script with
  | .settled now (.ok value) :: rest =>
    match values value with
    | some items =>
      if items.length = count then
        .go ((ctx.tick now).record step (entry (items.map .fulfilled)))
          (events ++ .settled :: taken) (.ok value) rest
      else .stop ctx events request
    | none => .stop ctx events request
  | .settled now (.error error) :: rest =>
    .go (ctx.tick now) (events ++ [.settled, .failed]) (.error (.thrown error)) rest
  | .branchesFailed now slots error :: rest =>
    if slots.length = count then
      .go ((ctx.tick now).record step (entry slots)) (events ++ [.settled, .failed])
        (.error (.thrown error)) rest
    else .stop ctx events request
  | _ => .stop ctx events request

def runAllEntry (branchNames : List JsString) (slots : List (ParallelBranchSlot (Value α))) :
    Value α :=
  .cacheEntry .runAll slots (some branchNames) branchNames.length

/-- The values of a record with these names, in their order. -/
def recordValues (branchNames : List JsString) : Value α → Option (List (Value α))
  | .record fields =>
    if fields.map Prod.fst = branchNames then some (fields.map Prod.snd) else none
  | _ => none

/-- The first name that differs, with its index. -/
def firstMoved (cachedNames branchNames : List JsString) : Option TopologyChange :=
  ((cachedNames.zip branchNames).zipIdx.find? fun entry => entry.1.1 ≠ entry.1.2).map fun entry =>
    .branchOrder entry.1.1 entry.1.2 entry.2

def validateRunAllTopology (variant : ParallelVariant) (cachedNames branchNames : List JsString)
    (step : Nat) : Option TopologyChange :=
  if variant ≠ .runAll then some (.variant variant step)
  else if cachedNames.length ≠ branchNames.length then
    some (.branchCount cachedNames.length branchNames.length)
  else firstMoved cachedNames branchNames

def runAll (ctx : ContextInternals α) (branches : List (JsString × JsString))
    (script : List (Response α)) : Progress α :=
  let step := ctx.stepIndex
  let ctx := ctx.takeStep
  let branchNames := branches.map Prod.fst
  let yielded := awaitBranches ctx [] (.runAll branches step) step (runAllEntry branchNames)
    branchNames.length (recordValues branchNames) [] script
  match ctx.accumulatedResults.get step with
  | none => yielded
  | some (.cacheEntry variant slots names count) =>
    if hasValidBranchTopology variant slots count names then
      match validateRunAllTopology variant (names.getD []) branchNames step with
      | some change => .go ctx [] (.error (.branchTopologyChanged change)) script
      | none =>
        if slots.all (·.isFulfilled) then
          .go ctx [] (.ok (.record (branchNames.zip (slots.filterMap (·.value?))))) script
        else yielded
    else .go ctx [] (.error (.branchTopologyChanged .malformed)) script
  | some cached => .go ctx [] (.ok cached) script

/-! ## Operations -/

inductive Operation (α : Type u) where
  | run (call : ActivityCall α)
  | sleep (duration : Int)
  | waitForSignal (name : JsString)
  | memo (key : JsString)
  | waitUntil (timeout : Option Int)
  | getVersion (changeId : JsString) (minSupported maxSupported : Int)
  /-- activities by branch name -/
  | runAll (branches : List (JsString × JsString))

def Operation.perform (operation : Operation α) (ctx : ContextInternals α)
    (script : List (Response α)) : Progress α :=
  match operation with
  | .run call => runActivity ctx call script
  | .sleep duration => Context.sleep ctx duration script
  | .waitForSignal name => Context.waitForSignal ctx name script
  | .memo key => Context.memo ctx key script
  | .waitUntil timeout => Context.waitUntil ctx timeout script
  | .getVersion changeId minSupported maxSupported =>
    Context.getVersion ctx changeId minSupported maxSupported script
  | .runAll branches => Context.runAll ctx branches script

end Weft.Context
