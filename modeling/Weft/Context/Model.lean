import Weft.Js.Text
import Weft.Lib.Entries

/-! The execution context of an inline workflow. Every operation takes the next step index; an
operation whose step has a recorded result returns it, and any other is handed to the engine. -/

namespace Weft.Context
open Weft.Js Weft.Lib

universe u

/-! ## Values -/

inductive ParallelBranchSlot (β : Type u) where
  | pending
  | fulfilled (value : β)
  | rejected (name message : JsString)
  | aborted

inductive ParallelVariant where
  | all
  | race
  | runAll
deriving DecidableEq, Repr

/-- A value of a workflow, as far as operations tell values apart: `{ key, value }` is `keyed`, and
`cacheEntry` is a `ParallelOperationCacheEntry`. -/
inductive Value (α : Type u) where
  | undefined
  | number (n : Int)
  | plain (a : α)
  | array (items : List (Value α))
  | keyed (key : JsString) (value : Value α)
  | record (fields : List (JsString × Value α))
  | cacheEntry (variant : ParallelVariant) (branches : List (ParallelBranchSlot (Value α)))
      (branchNames : Option (List JsString)) (subOperationCount : Nat)

variable {α : Type u}

def ParallelBranchSlot.value? {β : Type u} : ParallelBranchSlot β → Option β
  | .fulfilled value => some value
  | .pending | .rejected _ _ | .aborted => none

def ParallelBranchSlot.isFulfilled {β : Type u} (slot : ParallelBranchSlot β) : Bool :=
  slot.value?.isSome

def hasValidRaceTopology (branches : List (ParallelBranchSlot (Value α))) (subOperationCount : Nat)
    (branchNames : Option (List JsString)) : Bool :=
  match branches with
  | [winner] => decide (1 ≤ subOperationCount) && winner.isFulfilled &&
      branchNames.all fun names => names.length = subOperationCount
  | _ => false

def hasValidBranchTopology (variant : ParallelVariant)
    (branches : List (ParallelBranchSlot (Value α))) (subOperationCount : Nat)
    (branchNames : Option (List JsString)) : Bool :=
  match variant with
  | .race => hasValidRaceTopology branches subOperationCount branchNames
  | .runAll => decide (branches.length = subOperationCount) &&
      branchNames.any fun names => names.length = subOperationCount
  | .all => decide (branches.length = subOperationCount) && branchNames.isNone

/-! ## Failures -/

/-- What the engine throws into a generator: an `Error`, or any other value by its text. -/
inductive Thrown where
  | error (name message : JsString)
  | other (text : JsString)
deriving DecidableEq, Repr

/-- The cases of a `BranchTopologyChangedError`. -/
inductive TopologyChange where
  | malformed
  | variant (found : ParallelVariant) (step : Nat)
  | branchCount (expected got : Nat)
  | branchNames (expected got : Option (List JsString))
  | rawKeyedRace (step : Nat)
  | branchOrder (expected got : JsString) (index : Nat)
deriving DecidableEq, Repr

inductive Failure where
  | thrown (error : Thrown)
  /-- `ActivityScheduleToCloseTimeoutError` -/
  | scheduleToClose (activityName : JsString) (elapsed budget : Int)
      (projectedNextDispatchElapsed : Option Int)
  | branchTopologyChanged (change : TopologyChange)
  | invalidRetryAttempt (attempt step : Nat)
  | missingRetryPolicy (attempt : Nat)
  | emptyKeyedRace
  | emptyChangeId
  | unorderedVersions
  | pinnedBelow (changeId : JsString) (version minSupported : Int)
  | pinnedAbove (changeId : JsString) (version maxSupported : Int)
  | replayedVersion (changeId : JsString) (version : Int)
deriving DecidableEq, Repr

abbrev Outcome (α : Type u) := Except Failure (Value α)

/-! ## Checkpoint locals -/

/-- The retry bookkeeping of `ctx.run`, by step. A slot whose maps are all empty is absent. -/
structure ActivityRetryState where
  attempts : OrderedStore Nat Nat
  completedRetrySleeps : OrderedStore Nat Nat
  dispatchedAt : OrderedStore Nat Int

def ActivityRetryState.empty : ActivityRetryState :=
  ⟨OrderedStore.empty, OrderedStore.empty, OrderedStore.empty⟩

/-- The locals of a checkpoint, by the families of their keys. -/
structure CheckpointLocals (α : Type u) where
  retryState : ActivityRetryState
  /-- `__weftConditionDeadline:` -/
  conditionDeadlines : OrderedStore Nat Int
  /-- `version:` -/
  versions : OrderedStore JsString Int
  stateSession : Option (OrderedStore JsString (Value α))
  /-- the key `sessionState`, which is retired -/
  retiredSessionState : Option (Value α)
  others : OrderedStore JsString (Value α)

def CheckpointLocals.empty : CheckpointLocals α where
  retryState := .empty
  conditionDeadlines := OrderedStore.empty
  versions := OrderedStore.empty
  stateSession := none
  retiredSessionState := none
  others := OrderedStore.empty

/-- A session store without entries is no store. -/
def normalizeSessionStateLocals (locals : Option (CheckpointLocals α)) :
    Option (OrderedStore JsString (Value α)) :=
  (locals.bind (·.stateSession)).filter fun store => !store.entries.isEmpty

def createCheckpointLocals (stateSessionStore : Option (OrderedStore JsString (Value α)))
    (existingLocals : Option (CheckpointLocals α)) : CheckpointLocals α :=
  { existingLocals.getD .empty with
    stateSession := stateSessionStore
    retiredSessionState := none }

/-! ## The context -/

structure ContextInternals (α : Type u) where
  stepIndex : Nat
  accumulatedResults : OrderedStore Nat (Value α)
  checkpointLocals : CheckpointLocals α
  memoCache : OrderedStore JsString (Value α)
  sleepReferenceTime : Option Int
  /-- what `getNow` reads until the engine answers again -/
  now : Int

structure ContextOptions (α : Type u) where
  initialStep : Option Nat
  accumulatedResults : Option (OrderedStore Nat (Value α))
  locals : Option (CheckpointLocals α)
  sleepReferenceTime : Option Int

def initializeInternals (options : ContextOptions α) (now : Int) : ContextInternals α where
  stepIndex := options.initialStep.getD 0
  accumulatedResults := options.accumulatedResults.getD OrderedStore.empty
  checkpointLocals := createCheckpointLocals (normalizeSessionStateLocals options.locals)
    options.locals
  memoCache := OrderedStore.empty
  sleepReferenceTime := options.sleepReferenceTime
  now := now

namespace ContextInternals

def takeStep (ctx : ContextInternals α) : ContextInternals α :=
  { ctx with stepIndex := ctx.stepIndex + 1 }

def skip (ctx : ContextInternals α) (steps : Nat) : ContextInternals α :=
  { ctx with stepIndex := ctx.stepIndex + steps }

def record (ctx : ContextInternals α) (step : Nat) (value : Value α) : ContextInternals α :=
  { ctx with accumulatedResults := ctx.accumulatedResults.put step value }

def tick (ctx : ContextInternals α) (now : Int) : ContextInternals α := { ctx with now := now }

def memoize (ctx : ContextInternals α) (key : JsString) (value : Value α) : ContextInternals α :=
  { ctx with memoCache := ctx.memoCache.put key value }

def setRetryState (ctx : ContextInternals α) (retryState : ActivityRetryState) :
    ContextInternals α :=
  { ctx with checkpointLocals := { ctx.checkpointLocals with retryState := retryState } }

end ContextInternals

/-! ## Retry state -/

def MAX_CHECKPOINTED_RETRY_ATTEMPT : Nat := 10000

def validRetryAttempt (attempt : Nat) : Bool :=
  1 < attempt && attempt ≤ MAX_CHECKPOINTED_RETRY_ATTEMPT

def readActivityRetryAttempt (ctx : ContextInternals α) (key : Nat) :
    Except Failure (Option Nat) :=
  match ctx.checkpointLocals.retryState.attempts.get key with
  | none => .ok none
  | some attempt =>
    if validRetryAttempt attempt then .ok (some attempt)
    else .error (.invalidRetryAttempt attempt key)

def readCompletedRetrySleepCount (ctx : ContextInternals α) (key : Nat) : Nat :=
  (ctx.checkpointLocals.retryState.completedRetrySleeps.get key).getD 0

def writeActivityRetryAttempt (ctx : ContextInternals α) (key attempt : Nat) :
    Except Failure (ContextInternals α) :=
  if validRetryAttempt attempt then
    let state := ctx.checkpointLocals.retryState
    .ok (ctx.setRetryState { state with attempts := state.attempts.put key attempt })
  else .error (.invalidRetryAttempt attempt key)

def completeActivityRetryAttempt (ctx : ContextInternals α) (key completedRetrySleepCount : Nat) :
    ContextInternals α :=
  let state := ctx.checkpointLocals.retryState
  ctx.setRetryState
    { state with
      attempts := state.attempts.delete key
      completedRetrySleeps :=
        if completedRetrySleepCount = 0 then state.completedRetrySleeps
        else state.completedRetrySleeps.put key completedRetrySleepCount }

def readOrInitActivityDispatchedAt (ctx : ContextInternals α) (key : Nat) :
    Int × ContextInternals α :=
  let state := ctx.checkpointLocals.retryState
  match state.dispatchedAt.get key with
  | some existing => (existing, ctx)
  | none => (ctx.now,
      ctx.setRetryState { state with dispatchedAt := state.dispatchedAt.put key ctx.now })

end Weft.Context
