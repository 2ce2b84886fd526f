import Weft.Lib.Machine

/-! The queue of inline launches. A started execution is put into the queue when its creation is
committed; a flush takes the whole queue and goes through it, with a load of the workflow's state
before each launch. A step of the machine is what happens between two awaits. -/

namespace Weft.Launch
open Weft.Lib

universe u

variable {ι τ π : Type u}

/-- `payload` is what the launch hands on: type, input, checkpoint, nesting depth, deadline and
owner of the execution state. -/
structure QueuedInlineWorkflowExecutionStart (ι τ π : Type u) where
  workflowId : ι
  workflowExecutionToken : τ
  payload : π
deriving DecidableEq

/-- What of the stored state is read here. -/
structure WorkflowState (τ : Type u) where
  workflowExecutionToken : τ
  running : Bool
deriving DecidableEq

/-- Where `startQueuedInlineWorkflowExecution` stands. -/
inductive Stage (τ : Type u) where
  | loading
  | loaded (state : Option (WorkflowState τ))
  | launched
deriving DecidableEq

/-- A flush under way: the start it is at, and those after it. -/
structure Flush (ι τ π : Type u) where
  current : Option (QueuedInlineWorkflowExecutionStart ι τ π × Stage τ) := none
  pendingStarts : List (QueuedInlineWorkflowExecutionStart ι τ π)

inductive Entry (τ π : Type u) where
  | launched (workflowExecutionToken : τ) (payload : π)
  | cancelled (workflowExecutionToken : τ)
deriving DecidableEq

/-- `creating` are the executions that are committed and not yet queued. `started`, `queued`,
`calls` and `log` record what happened: the executions, the starts that were queued, those whose
`onStarted` was called, and launches and cancellations with the last first. -/
structure World (ι τ π : Type u) where
  store : ι → Option (WorkflowState τ) := fun _ => none
  creating : List (QueuedInlineWorkflowExecutionStart ι τ π) := []
  queuedInlineWorkflowStarts : List (QueuedInlineWorkflowExecutionStart ι τ π) := []
  queuedInlineWorkflowStartIds : List ι := []
  queuedOrLaunchingInlineWorkflowStartIds : List ι := []
  queuedInlineWorkflowStartFlushScheduled : Bool := false
  aborted : Bool := false
  flushes : List (Flush ι τ π) := []
  started : List (QueuedInlineWorkflowExecutionStart ι τ π) := []
  queued : List τ := []
  calls : List τ := []
  log : List (Entry τ π) := []

inductive Event (ι τ π : Type u) where
  /-- `start`, also as a restart of an id whose run has ended, is committed. -/
  | create (workflowId : ι) (workflowExecutionToken : τ) (payload : π)
  /-- The execution in this place of `creating` goes on to be queued. -/
  | queue (place : Nat)
  /-- A cancellation drops what is queued, and later commits. -/
  | drop (workflowId : ι)
  | cancel (workflowId : ι)
  /-- The run of a workflow ends by itself. -/
  | finish (workflowId : ι)
  /-- A scheduled flush, a direct one, or one of a drain. -/
  | flush
  /-- The flush in this place goes on; `ok` says whether the load fails. -/
  | advance (place : Nat) (ok : Bool)
  | abort
  | dispose

section

variable [DecidableEq ι] [DecidableEq τ]

def queueInlineWorkflowExecutionStart (w : World ι τ π)
    (start : QueuedInlineWorkflowExecutionStart ι τ π) : World ι τ π := { w with
  queuedInlineWorkflowStartIds := start.workflowId :: w.queuedInlineWorkflowStartIds
  queuedOrLaunchingInlineWorkflowStartIds :=
    start.workflowId :: w.queuedOrLaunchingInlineWorkflowStartIds
  queuedInlineWorkflowStarts := w.queuedInlineWorkflowStarts ++ [start]
  queuedInlineWorkflowStartFlushScheduled := true
  queued := w.queued ++ [start.workflowExecutionToken] }

/-- Both index entries go and `onStarted` is called. -/
def settle (w : World ι τ π) (start : QueuedInlineWorkflowExecutionStart ι τ π) : World ι τ π :=
  { w with
    queuedInlineWorkflowStartIds := w.queuedInlineWorkflowStartIds.filter (· ≠ start.workflowId)
    queuedOrLaunchingInlineWorkflowStartIds :=
      w.queuedOrLaunchingInlineWorkflowStartIds.filter (· ≠ start.workflowId)
    calls := w.calls ++ [start.workflowExecutionToken] }

def settleDiscardedInlineStarts (w : World ι τ π)
    (discarded : List (QueuedInlineWorkflowExecutionStart ι τ π)) : World ι τ π :=
  discarded.foldl settle w

def flushQueuedInlineWorkflowStarts (w : World ι τ π) : World ι τ π :=
  let w := { w with queuedInlineWorkflowStartFlushScheduled := false }
  if w.aborted then
    settleDiscardedInlineStarts { w with queuedInlineWorkflowStarts := [] }
      w.queuedInlineWorkflowStarts
  else if w.queuedInlineWorkflowStarts.length = 0 then w
  else { w with
    queuedInlineWorkflowStarts := []
    flushes := w.flushes ++ [⟨none, w.queuedInlineWorkflowStarts⟩] }

/-- One step of a flush. The launch takes the token from the loaded state and all else from the
start. -/
def startQueuedInlineWorkflowExecution (w : World ι τ π) (flush : Flush ι τ π) (ok : Bool) :
    Option (World ι τ π × Flush ι τ π) :=
  match flush.current, flush.pendingStarts with
  | none, [] => none
  | none, start :: pendingStarts => some (w, ⟨some (start, .loading), pendingStarts⟩)
  | some (start, .loading), pendingStarts =>
    if ok then some (w, ⟨some (start, .loaded (w.store start.workflowId)), pendingStarts⟩)
    else some (settle w start, ⟨none, pendingStarts⟩)
  | some (start, .loaded state), pendingStarts =>
    match state with
    | some ⟨workflowExecutionToken, true⟩ =>
      some ({ w with
          queuedInlineWorkflowStartIds :=
            w.queuedInlineWorkflowStartIds.filter (· ≠ start.workflowId)
          log := .launched workflowExecutionToken start.payload :: w.log },
        ⟨some (start, .launched), pendingStarts⟩)
    | _ => some (settle w start, ⟨none, pendingStarts⟩)
  | some (start, .launched), pendingStarts => some (settle w start, ⟨none, pendingStarts⟩)

def dropQueuedInlineWorkflowStart (w : World ι τ π) (workflowId : ι) : World ι τ π :=
  settleDiscardedInlineStarts
    { w with
      queuedInlineWorkflowStarts :=
        w.queuedInlineWorkflowStarts.filter (·.workflowId ≠ workflowId) }
    (w.queuedInlineWorkflowStarts.filter (·.workflowId = workflowId))

def disposeQueuedInlineWorkflowStarts (w : World ι τ π) : World ι τ π :=
  { settleDiscardedInlineStarts { w with queuedInlineWorkflowStarts := [] }
      w.queuedInlineWorkflowStarts with
    queuedInlineWorkflowStartFlushScheduled := false
    queuedInlineWorkflowStartIds := []
    queuedOrLaunchingInlineWorkflowStartIds := [] }

/-- The stored run of a workflow ends. -/
def endRun (w : World ι τ π) (workflowId : ι) (entry : τ → List (Entry τ π)) :
    Option (World ι τ π) :=
  match w.store workflowId with
  | some ⟨workflowExecutionToken, true⟩ =>
    some { w with
      store := Function.update w.store workflowId (some ⟨workflowExecutionToken, false⟩)
      log := entry workflowExecutionToken ++ w.log }
  | _ => none

/-- Tokens are drawn at random, so a new one is new. -/
def launchMachine : Machine (World ι τ π) (Event ι τ π) where
  step := fun w event =>
    match event with
    | .create workflowId workflowExecutionToken payload =>
      let start : QueuedInlineWorkflowExecutionStart ι τ π :=
        ⟨workflowId, workflowExecutionToken, payload⟩
      if workflowExecutionToken ∈ w.started.map (·.workflowExecutionToken) ∨
          (w.store workflowId).any (·.running) then none
      else some { w with
        store := Function.update w.store workflowId (some ⟨workflowExecutionToken, true⟩)
        creating := w.creating ++ [start]
        started := w.started ++ [start] }
    | .queue place => do
      let start ← w.creating[place]?
      return queueInlineWorkflowExecutionStart { w with creating := w.creating.eraseIdx place }
        start
    | .drop workflowId => some (dropQueuedInlineWorkflowStart w workflowId)
    | .cancel workflowId => endRun w workflowId fun token => [.cancelled token]
    | .finish workflowId => endRun w workflowId fun _ => []
    | .flush => some (flushQueuedInlineWorkflowStarts w)
    | .advance place ok => do
      let flush ← w.flushes[place]?
      let (w', flush') ← startQueuedInlineWorkflowExecution w flush ok
      return { w' with flushes := w.flushes.set place flush' }
    | .abort => some { w with aborted := true }
    | .dispose => some (disposeQueuedInlineWorkflowStarts w)

end

end Weft.Launch
