import Weft.Lib.Machine

/-! Waiting for a signal. A wait checks the buffer, registers its waiter and checks again; a
workflow without handlers parks instead, with a check before and after; a delivery commits its
signals and then wakes the waiter under their key or resumes the parked workflow. A step of the
machine is what happens between two awaits. -/

namespace Weft.Signals.Wakeup
open Weft.Lib

instance signalLawfulBEq : LawfulBEq (String × String) := inferInstance

def waiterKey (workflowId signalName : String) : String := workflowId ++ ":" ++ signalName

/-- `peeking` to `resuming` are `parkInlineWorkflowAfterCheckpoint` and
`resumeParkedInlineWorkflow`, the others `processWaitSignalOperation` and
`executeWaitSignalSubOperation`. -/
inductive Phase where
  | peeking
  | publishing
  | published
  | parked
  | resuming
  | checking
  | registered
  | awaiting
  | done
deriving DecidableEq

/-- `branch` tells a wait of `ctx.race` or `ctx.all` from one of `ctx.waitForSignal`, and `woken`
says that the promise is resolved. -/
structure Wait where
  workflowId : String
  signalName : String
  branch : Bool
  phase : Phase
  woken : Bool := false
deriving DecidableEq

def Wait.pair (x : Wait) : String × String := (x.workflowId, x.signalName)

def Wait.key (x : Wait) : String := waiterKey x.workflowId x.signalName

/-- The waiter is registered and was not called. -/
def Wait.listening (x : Wait) : Bool :=
  (x.phase = .registered ∨ x.phase = .awaiting) ∧ x.woken = false

/-- The marker of the parked workflow is published. -/
def Wait.isParked (x : Wait) : Bool := x.phase = .published ∨ x.phase = .parked

/-- A delivery between its commit and the wakeup. -/
structure Delivery where
  workflowId : String
  signalNames : List String
deriving DecidableEq

/-- `buffer` has the stored signals by workflow and name. -/
structure World where
  buffer : List (String × String) := []
  signalWaiters : String → Option Nat := fun _ => none
  parkedInlineWorkflows : List String := []
  waits : List Wait := []
  deliveries : List Delivery := []

inductive Event where
  /-- A workflow comes to a wait; `parks` says whether it may be parked. -/
  | wait (workflowId signalName : String) (branch parks : Bool)
  /-- The wait in this place goes on; `ok` says whether the marker may be published, and whether
  a resume succeeds. -/
  | advance (place : Nat) (ok : Bool)
  /-- The race is lost or the engine stops. -/
  | abort (place : Nat)
  | bufferSignalPayloads (workflowId : String) (signalNames : List String)
  | deliverBufferedSignals (place : Nat)
  /-- A checkpoint deletes a signal that was consumed. -/
  | consume (workflowId signalName : String)
  | resume (workflowId : String)
  | terminate (workflowId : String)
deriving DecidableEq

def Wait.wake (x : Wait) : Wait := { x with woken := true }

def Wait.resumed (workflowId : String) (x : Wait) : Wait :=
  if x.workflowId = workflowId ∧ x.isParked then { x with phase := .resuming } else x

def resumeParkedInlineWorkflow (w : World) (workflowId : String) : World :=
  if workflowId ∈ w.parkedInlineWorkflows then
    { w with
      parkedInlineWorkflows := w.parkedInlineWorkflows.filter (· ≠ workflowId)
      waits := w.waits.map (Wait.resumed workflowId) }
  else w

def releaseSignalWaiter (w : World) (key : String) (place : Nat) : World :=
  if w.signalWaiters key = some place then
    { w with signalWaiters := Function.update w.signalWaiters key none }
  else w

/-- The loop of `deliverBufferedSignals`: a waiter is taken out and called. The last component says
whether a signal found no waiter. -/
def wakeWaiters (workflowId : String) (signalWaiters : String → Option Nat) (waits : List Wait) :
    List String → (String → Option Nat) × List Wait × Bool
  | [] => (signalWaiters, waits, false)
  | signalName :: signalNames =>
    match signalWaiters (waiterKey workflowId signalName) with
    | some place => wakeWaiters workflowId
        (Function.update signalWaiters (waiterKey workflowId signalName) none)
        (waits.modify place Wait.wake) signalNames
    | none =>
      let rest := wakeWaiters workflowId signalWaiters waits signalNames
      (rest.1, rest.2.1, true)

def deliverBufferedSignals (w : World) (delivery : Delivery) : World :=
  let woken := wakeWaiters delivery.workflowId w.signalWaiters w.waits delivery.signalNames
  let w' := { w with signalWaiters := woken.1, waits := woken.2.1 }
  if woken.2.2 then resumeParkedInlineWorkflow w' delivery.workflowId else w'

/-- One step of a wait. -/
def advance (w : World) (place : Nat) (x : Wait) (ok : Bool) : Option World :=
  match x.phase with
  | .peeking =>
    if x.pair ∈ w.buffer then
      some { w with waits := w.waits.set place { x with phase := .checking } }
    else some { w with waits := w.waits.set place { x with phase := .publishing } }
  | .publishing =>
    if ok then some { w with
      parkedInlineWorkflows := x.workflowId :: w.parkedInlineWorkflows
      waits := w.waits.set place { x with phase := .published } }
    else some { w with waits := w.waits.set place { x with phase := .checking } }
  | .published =>
    if x.pair ∈ w.buffer then some (resumeParkedInlineWorkflow w x.workflowId)
    else some { w with waits := w.waits.set place { x with phase := .parked } }
  | .parked => none
  | .resuming =>
    if ok then some { w with waits := w.waits.set place { x with phase := .peeking } }
    else some { w with
      parkedInlineWorkflows := x.workflowId :: w.parkedInlineWorkflows
      waits := w.waits.set place { x with phase := .parked } }
  | .checking =>
    if x.pair ∈ w.buffer then
      some { w with waits := w.waits.set place { x with phase := .done } }
    else some { w with
      signalWaiters := Function.update w.signalWaiters x.key (some place)
      waits := w.waits.set place { x with phase := .registered, woken := false } }
  | .registered =>
    if x.pair ∈ w.buffer then
      some (releaseSignalWaiter
        { w with waits := w.waits.set place { x with phase := .done } } x.key place)
    else some { w with waits := w.waits.set place { x with phase := .awaiting } }
  | .awaiting =>
    if x.woken then
      if x.branch then some { w with waits := w.waits.set place { x with phase := .done } }
      else some { w with waits := w.waits.set place { x with phase := .checking } }
    else none
  | .done => none

/-- The waiters of the workflow are dropped by their keys. -/
def terminate (w : World) (workflowId : String) : World := { w with
  signalWaiters := fun key =>
    if ∃ x ∈ w.waits, x.workflowId = workflowId ∧ x.listening = true ∧ x.key = key then none
    else w.signalWaiters key
  parkedInlineWorkflows := w.parkedInlineWorkflows.filter (· ≠ workflowId)
  waits := w.waits.map fun x =>
    if x.workflowId = workflowId then { x with phase := .done } else x }

def wakeupMachine : Machine World Event where
  step := fun w event =>
    match event with
    | .wait workflowId signalName branch parks => some { w with
        waits := w.waits ++
          [⟨workflowId, signalName, branch, if parks then .peeking else .checking, false⟩] }
    | .advance place ok => do
      let x ← w.waits[place]?
      advance w place x ok
    | .abort place => do
      let x ← w.waits[place]?
      return releaseSignalWaiter
        { w with waits := w.waits.set place { x with phase := .done } } x.key place
    | .bufferSignalPayloads workflowId signalNames => some { w with
        buffer := w.buffer ++ signalNames.map fun signalName => (workflowId, signalName)
        deliveries := w.deliveries ++ [⟨workflowId, signalNames⟩] }
    | .deliverBufferedSignals place => do
      let delivery ← w.deliveries[place]?
      return deliverBufferedSignals { w with deliveries := w.deliveries.eraseIdx place } delivery
    | .consume workflowId signalName =>
      some { w with buffer := w.buffer.erase (workflowId, signalName) }
    | .resume workflowId => some (resumeParkedInlineWorkflow w workflowId)
    | .terminate workflowId => some (terminate w workflowId)

/-- Nothing is under way: every wait is over, parked, or awaits its promise. -/
def Quiescent (w : World) : Prop :=
  w.deliveries = [] ∧ ∀ x ∈ w.waits,
    x.phase = .done ∨ x.phase = .parked ∨ (x.phase = .awaiting ∧ x.woken = false)

/-- No quiescent state has a wait with a matching signal in the buffer. -/
def NoLostWakeup (w : World) : Prop :=
  Quiescent w → ∀ x ∈ w.waits, x.phase ≠ .done → x.pair ∉ w.buffer

/-- A delivery calls only waiters of its own workflow and of a name it delivers, and resumes only
its own workflow. -/
def WakesOwn (w : World) (event : Event) : Prop :=
  ∀ place delivery w', event = .deliverBufferedSignals place →
    w.deliveries[place]? = some delivery → wakeupMachine.step w event = some w' →
    ∀ (i : Nat) (x x' : Wait), w.waits[i]? = some x → w'.waits[i]? = some x' → x' ≠ x →
      x.workflowId = delivery.workflowId ∧ (x.isParked = true ∨ x.signalName ∈ delivery.signalNames)

end Weft.Signals.Wakeup
