import Weft.Lib.Machine

/-! `ctx.waitUntil`: the processor of a wait-condition operation, cut at its awaits, beside the
generator that it feeds. A generator takes what it is fed in order, one piece for each of its
yields. -/

namespace Weft.Conditions
open Weft.Lib

/-- What a yield receives: a value (`undefined`, `true` or `false`), or an error that is thrown
there. -/
inductive Outcome where
  | completed (value : Option Bool)
  | failed
deriving DecidableEq

/-- `predicate` is what the predicate of the operation gave at that instant. -/
structure Delivery where
  operation : Nat
  outcome : Outcome
  predicate : Option Bool
deriving DecidableEq

/-- How the inner `try` was left. -/
inductive Exit where
  | completed
  | stopped
  | threw
deriving DecidableEq

/-- Where the processor of an operation stands. `other` is an operation that is no wait-condition,
and `parked` tells whether the waiter has been resolved. -/
inductive Phase where
  | absent
  | other
  | requested
  | arming
  | parked (woken : Bool)
  | checking
  | cancelling (exit : Exit)
  | returned
deriving DecidableEq

/-- One run of a workflow. The operations are numbered as they are yielded; `deliveries` is what the
generator was fed. A predicate gives `none` where it throws. -/
structure World where
  yields : Nat := 0
  deadline : Nat → Option Int := fun _ => none
  phase : Nat → Phase := fun _ => .absent
  predicate : Nat → Option Bool := fun _ => none
  now : Int := 0
  /-- `conditionWaiters`, the operation whose resolver is registered. -/
  waiter : Option Nat := none
  deliveries : List Delivery := []
  /-- `#generators` has the workflow. -/
  generator : Bool := true
  /-- The status of the workflow is `running`. -/
  running : Bool := true
  /-- The abort signal of the engine. -/
  aborted : Bool := false

def World.setPhase (w : World) (operation : Nat) (phase : Phase) : World :=
  { w with phase := Function.update w.phase operation phase }

def releaseConditionWaiter (w : World) : World := { w with waiter := none }

/-- `continueWorkflow` and `throwIntoWorkflow` do nothing where the generator is gone. -/
def feedOperationResult (w : World) (operation : Nat) (outcome : Outcome) : World :=
  if w.generator then
    { w with deliveries := w.deliveries ++ [⟨operation, outcome, w.predicate operation⟩] }
  else w

def completeOperation (w : World) (operation : Nat) (value : Option Bool) : World :=
  feedOperationResult w operation (.completed value)

def failOperation (w : World) (operation : Nat) : World :=
  feedOperationResult w operation .failed

/-! ## The processor -/

/-- `none` where the wait goes on; the predicate comes first. -/
def evaluateConditionOutcome (predicate : Option Bool) (deadline : Option Int) (now : Int) :
    Except Unit (Option (Option Bool)) :=
  match predicate with
  | none => .error ()
  | some true => .ok (some (if deadline.isNone then none else some true))
  | some false =>
    match deadline with
    | none => .ok none
    | some deadline => .ok (if deadline ≤ now then some (some false) else none)

def World.evaluate (w : World) (operation : Nat) : Except Unit (Option (Option Bool)) :=
  evaluateConditionOutcome (w.predicate operation) (w.deadline operation) w.now

/-- What follows the inner `try` and its `finally`. -/
def finish (w : World) (operation : Nat) (exit : Exit) : World :=
  match exit with
  | .threw => (failOperation w operation).setPhase operation .returned
  | _ => w.setPhase operation .returned

/-- The inner `finally`, up to its await. -/
def leave (w : World) (operation : Nat) (exit : Exit) : World :=
  let w := releaseConditionWaiter w
  match w.deadline operation with
  | some _ => w.setPhase operation (.cancelling exit)
  | none => finish w operation exit

/-- One iteration of the wait loop, up to its first await. -/
def runConditionWaitStep (w : World) (operation : Nat) : World :=
  if w.aborted then leave w operation .stopped
  else
    let w := { w with waiter := some operation }
    match w.evaluate operation with
    | .error _ => leave w operation .threw
    | .ok (some value) =>
      leave (completeOperation (releaseConditionWaiter w) operation value) operation .completed
    | .ok none => w.setPhase operation (.parked false)

/-- From the call to its first await. -/
def processWaitConditionOperation (w : World) (operation : Nat) : World :=
  if w.aborted then w.setPhase operation .returned
  else
    match w.evaluate operation with
    | .error _ => (failOperation w operation).setPhase operation .returned
    | .ok (some value) => (completeOperation w operation value).setPhase operation .returned
    | .ok none =>
      match w.deadline operation with
      | some _ => w.setPhase operation .arming
      | none => runConditionWaitStep w operation

/-- `scheduleConditionDeadline` has settled. -/
def armed (w : World) (operation : Nat) (ok : Bool) : World :=
  if ok then runConditionWaitStep w operation
  else (failOperation w operation).setPhase operation .returned

/-- The waiter was resolved. -/
def wake (w : World) (operation : Nat) : World :=
  if w.aborted then leave w operation .stopped else w.setPhase operation .checking

/-- `isWorkflowRunning` has settled, `none` where it throws. -/
def checked (w : World) (operation : Nat) (answer : Option Bool) : World :=
  match answer with
  | none => leave w operation .threw
  | some false => leave w operation .stopped
  | some true => runConditionWaitStep w operation

/-- `cancelConditionDeadline` has settled. -/
def cancelled (w : World) (operation : Nat) (exit : Exit) (ok : Bool) : World :=
  if ok then finish w operation exit
  else (failOperation w operation).setPhase operation .returned

/-- Resolves the registered waiter: an update handler ran, or a deadline timer fired. -/
def notifyConditionWaiters (w : World) : World :=
  match w.waiter with
  | none => w
  | some operation =>
    match w.phase operation with
    | .parked _ => w.setPhase operation (.parked true)
    | _ => w

/-! ## Steps -/

inductive Label where
  | yieldWait (deadline : Option Int) (predicate : Option Bool)
  | yieldOther
  | settleOther (outcome : Outcome)
  | process (operation : Nat)
  | armed (operation : Nat) (ok : Bool)
  | wake (operation : Nat)
  | checked (operation : Nat) (answer : Option Bool)
  | cancelled (operation : Nat) (ok : Bool)
  | notify
  | setPredicate (operation : Nat) (predicate : Option Bool)
  | tick (now : Int)
  | endRun
  | dropGenerator
  | cleanupConditionWaiters
  | dispose

/-- The generator has been fed for each of its yields, and has not ended. -/
def World.runs (w : World) : Bool := w.generator && w.yields ≤ w.deliveries.length

def yieldOperation (w : World) (phase : Phase) (deadline : Option Int) (predicate : Option Bool) :
    World := { w with
  yields := w.yields + 1
  deadline := Function.update w.deadline w.yields deadline
  predicate := Function.update w.predicate w.yields predicate
  phase := Function.update w.phase w.yields phase }

/-- `isWorkflowRunning` is false only of a workflow that has ended, which stays so. -/
def step (w : World) : Label → Option World
  | .yieldWait deadline predicate =>
    if w.runs then some (yieldOperation w .requested deadline predicate) else none
  | .yieldOther => if w.runs then some (yieldOperation w .other none none) else none
  | .settleOther outcome =>
    if w.phase w.deliveries.length = .other then
      some (feedOperationResult w w.deliveries.length outcome)
    else none
  | .process operation =>
    if w.phase operation = .requested then some (processWaitConditionOperation w operation)
      else none
  | .armed operation ok =>
    if w.phase operation = .arming then some (armed w operation ok) else none
  | .wake operation =>
    if w.phase operation = .parked true then some (wake w operation) else none
  | .checked operation answer =>
    if w.phase operation = .checking ∧ (answer = some false → w.running = false) then
      some (checked w operation answer)
    else none
  | .cancelled operation ok =>
    match w.phase operation with
    | .cancelling exit => some (cancelled w operation exit ok)
    | _ => none
  | .notify => some (notifyConditionWaiters w)
  | .setPredicate operation predicate =>
    some { w with predicate := Function.update w.predicate operation predicate }
  | .tick now => some { w with now := now }
  | .endRun => some { w with running := false }
  | .dropGenerator => some { w with generator := false }
  | .cleanupConditionWaiters => some (releaseConditionWaiter (notifyConditionWaiters w))
  | .dispose =>
    some (releaseConditionWaiter
      (notifyConditionWaiters { w with aborted := true, generator := false }))

def waitMachine : Machine World Label := ⟨step⟩

end Weft.Conditions
