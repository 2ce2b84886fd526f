import Weft.Lib.Machine
import Weft.Lib.Lists
import Weft.Js.Text

/-! Starts of workflows, from outside and by a parent. What a parent hands to the start of its child
stands for a while in fields of the engine that all starts share. A step is what happens between two
awaits of one call. -/

namespace Weft.Children
open Weft.Lib Weft.Js

universe u v

variable {ι τ : Type u}

abbrev Headers := List (JsString × JsString)

/-- A `Map` of headers; every new one is another object. -/
structure HeaderMap where
  object : Nat
  entries : Headers
deriving DecidableEq

inductive Status where
  /-- A delayed start that is not due. -/
  | pending
  | running
  | ended
deriving DecidableEq

/-- What is stored of a workflow, with the start headers that stand under a key of their own. -/
structure WorkflowState (ι τ : Type u) where
  status : Status
  workflowExecutionToken : τ
  executionStateOwnerId : Option ι
  parentWorkflowId : Option ι
  parentWorkflowExecutionToken : Option τ
  workflowStartHeaders : Option Headers

/-- `pendingExecutionStateOwnerId` is `none` for null. -/
structure PendingChildExecutionContext (ι τ : Type u) where
  pendingNestingDepth : Nat
  pendingParentHeaders : Option HeaderMap
  pendingExecutionStateOwnerId : Option ι
  pendingParentWorkflowId : ι
  pendingParentWorkflowExecutionToken : Option τ

/-- A run that the strategy drives, with the nesting depth of its context. -/
structure Execution (τ : Type u) where
  workflowExecutionToken : τ
  nestingDepth : Nat

structure QueuedInlineWorkflowExecutionStart (ι τ : Type u) where
  workflowId : ι
  workflowExecutionToken : τ
  nestingDepth : Nat

/-- The fields of the engine that the starts read and write. `pendingExecutionStateOwnerId` is
`some none` for null. -/
structure EngineInternals (ι τ : Type u) where
  pendingNestingDepth : Option Nat := none
  pendingParentHeaders : Option HeaderMap := none
  pendingExecutionStateOwnerId : Option (Option ι) := none
  pendingParentWorkflowId : Option ι := none
  pendingParentWorkflowExecutionToken : Option τ := none
  workflowHeaders : ι → Option HeaderMap := fun _ => none
  workflowNestingDepths : ι → Option Nat := fun _ => none
  pendingStarts : List ι := []
  queuedInlineWorkflowStarts : List (QueuedInlineWorkflowExecutionStart ι τ) := []
  executing : ι → Option (Execution τ) := fun _ => none
  /-- The number of the next `Map`. -/
  nextObject : Nat := 0

structure Options (ι : Type u) where
  inline : Bool
  maxNestingDepth : Nat
  /-- The interceptor of starts, with the headers that it goes on with; it may not go on. -/
  workflowStart : Option (ι → Headers → Option Headers)

/-! ## What is recorded of a run -/

/-- The run that started a child, how, and the headers it then had. -/
structure Origin (τ : Type u) where
  run : τ
  abandoned : Bool
  headers : Option Headers

/-- `headers` are those the engine was last told to hold for the run. -/
structure Run (ι τ : Type u) where
  workflowId : ι
  origin : Option (Origin τ)
  executionStateOwnerId : Option ι
  headers : Option Headers

/-! ## Calls under way -/

/-- A `child-workflow` operation of a run. -/
structure ChildRequest (ι τ : Type u) where
  run : τ
  workflowId : ι
  childWorkflowId : ι
  abandon : Bool

/-- A call of `start`, by a parent where there is a `context`. -/
structure Start (ι τ : Type u) where
  workflowId : ι
  startNew : Bool
  delayed : Bool
  context : Option (PendingChildExecutionContext ι τ)
  origin : Option (Origin τ)

structure StartWorkflowPreparation (ι τ : Type u) where
  parentHeaders : Option HeaderMap
  executionStateOwnerId : Option ι
  parentWorkflowId : Option ι
  parentWorkflowExecutionToken : Option τ

/-- Where a call stands. -/
inductive Call (ι τ : Type u) where
  /-- The depth is checked, and the state of the parent is being loaded. -/
  | loading (request : ChildRequest ι τ) (currentDepth : Nat)
  | loaded (request : ChildRequest ι τ) (currentDepth : Nat)
      (parentState : Option (WorkflowState ι τ))
  | prepared (start : Start ι τ) (preparation : StartWorkflowPreparation ι τ)
  /-- The new run is stored, and not begun. -/
  | committed (start : Start ι τ) (workflowExecutionToken : τ)
  /-- The start of a child is over, and its pending context is to be cleared. -/
  | leaving (context : PendingChildExecutionContext ι τ)

structure World (ι τ : Type u) where
  records : ι → Option (WorkflowState ι τ) := fun _ => none
  internals : EngineInternals ι τ := {}
  calls : Nat → Option (Call ι τ) := fun _ => none
  runs : τ → Option (Run ι τ) := fun _ => none

/-- `call` is the number of a call under way, or a new one. -/
inductive Event (ι τ : Type u) where
  /-- A start from outside; without `ok` it throws after its preparation. -/
  | start (call : Nat) (workflowId : ι) (startNew delayed ok : Bool)
  | request (call : Nat) (request : ChildRequest ι τ)
  | load (call : Nat)
  /-- The parent calls `start`, which may throw before its preparation (`refused`) or after. -/
  | dispatch (call : Nat) (refused ok : Bool)
  | commit (call : Nat) (workflowExecutionToken : τ)
  | fail (call : Nat)
  | begin (call : Nat)
  | leave (call : Nat)
  /-- The queued start in this place is launched, or dropped. -/
  | launch (place : Nat)
  | drop (place : Nat)
  /-- The timer of a delayed start fires. -/
  | due (call : Nat) (workflowId : ι)
  | finish (workflowId : ι)
  | purge (workflowId : ι)
  | resume (workflowId : ι)
  | crash

/-! ## Headers -/

def PERSISTED_WORKFLOW_START_HEADER_NAMES : List JsString := [js "traceparent", js "tracestate"]

/-- `toLowerCase` of the letters that the persisted names have. -/
def lowerUnit (u : CodeUnit) : CodeUnit := if 65 ≤ u ∧ u ≤ 90 then u + 32 else u

def setHeader (headers : Headers) (header : JsString × JsString) : Headers :=
  upsert (fun a b => a.1 == b.1) (fun _ b => b) headers header

def selectPersistedWorkflowStartHeaders (headers : Option Headers) : Option Headers :=
  let persisted := (headers.getD []).filterMap fun header =>
    let name := header.1.map lowerUnit
    if name ∈ PERSISTED_WORKFLOW_START_HEADER_NAMES then some (name, header.2) else none
  if persisted.isEmpty then none else some (persisted.foldl setHeader [])

variable [DecidableEq ι] [DecidableEq τ] (options : Options ι)

def runWorkflowStartInterceptor (workflowId : ι) (parentHeaders : Option Headers) :
    Option Headers :=
  options.workflowStart.bind fun intercept => intercept workflowId (parentHeaders.getD [])

/-- No headers and no entries are the same to the engine. -/
def someHeaders (headers : Option Headers) : Option Headers := headers.filter (¬ ·.isEmpty)

def setWorkflowStartHeaders (internals : EngineInternals ι τ) (workflowId : ι)
    (headers : Option Headers) : EngineInternals ι τ := { internals with
  workflowHeaders := Function.update internals.workflowHeaders workflowId
    ((someHeaders headers).map fun entries => ⟨internals.nextObject, entries⟩)
  nextObject := internals.nextObject + 1 }

/-! ## The pending context -/

def applyPendingChildExecutionContext (internals : EngineInternals ι τ)
    (context : PendingChildExecutionContext ι τ) : EngineInternals ι τ := { internals with
  pendingNestingDepth := some context.pendingNestingDepth
  pendingParentHeaders := context.pendingParentHeaders
  pendingExecutionStateOwnerId := some context.pendingExecutionStateOwnerId
  pendingParentWorkflowId := some context.pendingParentWorkflowId
  pendingParentWorkflowExecutionToken := context.pendingParentWorkflowExecutionToken }

/-- `undefined` where the field still holds this value. -/
def cleared {α : Type v} [DecidableEq α] (field value : Option α) : Option α :=
  if field = value then none else field

def clearPendingChildExecutionContext (internals : EngineInternals ι τ)
    (context : PendingChildExecutionContext ι τ) : EngineInternals ι τ := { internals with
  pendingNestingDepth :=
    cleared internals.pendingNestingDepth (some context.pendingNestingDepth)
  pendingParentHeaders := cleared internals.pendingParentHeaders context.pendingParentHeaders
  pendingExecutionStateOwnerId :=
    cleared internals.pendingExecutionStateOwnerId (some context.pendingExecutionStateOwnerId)
  pendingParentWorkflowId :=
    cleared internals.pendingParentWorkflowId (some context.pendingParentWorkflowId)
  pendingParentWorkflowExecutionToken :=
    cleared internals.pendingParentWorkflowExecutionToken
      context.pendingParentWorkflowExecutionToken }

def getWorkflowNestingDepth (internals : EngineInternals ι τ) (workflowId : ι) : Nat :=
  let currentContext := if options.inline then internals.executing workflowId else none
  ((currentContext.map Execution.nestingDepth).or (internals.workflowNestingDepths workflowId)).getD
    0

/-! ## The steps of a start -/

/-- The preparation takes four of the pending fields, and leaves them empty. -/
def prepareStartWorkflow (internals : EngineInternals ι τ) (workflowId : ι) :
    StartWorkflowPreparation ι τ × EngineInternals ι τ :=
  ({ parentHeaders := internals.pendingParentHeaders
     executionStateOwnerId :=
      match internals.pendingExecutionStateOwnerId with
      | some none => none
      | some (some ownerId) => some ownerId
      | none => some workflowId
     parentWorkflowId := internals.pendingParentWorkflowId
     parentWorkflowExecutionToken := internals.pendingParentWorkflowExecutionToken },
   { internals with
     pendingParentHeaders := none
     pendingExecutionStateOwnerId := none
     pendingParentWorkflowId := none
     pendingParentWorkflowExecutionToken := none })

/-- What is left of a start that is over. -/
def leave (start : Start ι τ) : Option (Call ι τ) := start.context.map .leaving

def setCall (w : World ι τ) (call : Nat) (next : Option (Call ι τ)) : World ι τ :=
  { w with calls := Function.update w.calls call next }

/-- `startWorkflow` up to its first await. -/
def startWorkflow (w : World ι τ) (call : Nat) (start : Start ι τ) (ok : Bool) : World ι τ :=
  let (preparation, internals) := prepareStartWorkflow w.internals start.workflowId
  if ok ∧ start.workflowId ∉ internals.pendingStarts then
    setCall
      { w with internals :=
        { internals with pendingStarts := start.workflowId :: internals.pendingStarts } }
      call (some (.prepared start preparation))
  else setCall { w with internals } call (leave start)

def childContext (internals : EngineInternals ι τ) (request : ChildRequest ι τ)
    (currentDepth : Nat) (parentState : Option (WorkflowState ι τ)) :
    PendingChildExecutionContext ι τ where
  pendingNestingDepth := currentDepth + 1
  pendingParentHeaders := internals.workflowHeaders request.workflowId
  pendingExecutionStateOwnerId :=
    if request.abandon then none
    else some ((parentState.bind WorkflowState.executionStateOwnerId).getD request.workflowId)
  pendingParentWorkflowId := request.workflowId
  pendingParentWorkflowExecutionToken := parentState.map WorkflowState.workflowExecutionToken

def childStart (w : World ι τ) (request : ChildRequest ι τ)
    (context : PendingChildExecutionContext ι τ) : Start ι τ where
  workflowId := request.childWorkflowId
  startNew := false
  delayed := false
  context := some context
  origin := some ⟨request.run, request.abandon, (w.runs request.run).bind Run.headers⟩

/-- `executeChildWorkflow` where it calls `start`. -/
def dispatchChildWorkflowStart (w : World ι τ) (call : Nat) (request : ChildRequest ι τ)
    (currentDepth : Nat) (parentState : Option (WorkflowState ι τ)) (refused ok : Bool) :
    World ι τ :=
  let context := childContext w.internals request currentDepth parentState
  let w := { w with internals := applyPendingChildExecutionContext w.internals context }
  if refused then setCall w call (some (.leaving context))
  else startWorkflow w call (childStart w request context) ok

/-- The id is free, or its run has ended and may be replaced. -/
def isFree (w : World ι τ) (start : Start ι τ) : Bool :=
  match w.records start.workflowId with
  | none => true
  | some state => start.startNew && state.status = .ended

def initialState (start : Start ι τ) (preparation : StartWorkflowPreparation ι τ) (token : τ) :
    WorkflowState ι τ where
  status := if start.delayed then .pending else .running
  workflowExecutionToken := token
  executionStateOwnerId := preparation.executionStateOwnerId
  parentWorkflowId := preparation.parentWorkflowId
  parentWorkflowExecutionToken := preparation.parentWorkflowExecutionToken
  workflowStartHeaders := selectPersistedWorkflowStartHeaders
    (runWorkflowStartInterceptor options start.workflowId
      (preparation.parentHeaders.map HeaderMap.entries))

def release (internals : EngineInternals ι τ) (workflowId : ι) : EngineInternals ι τ :=
  { internals with pendingStarts := internals.pendingStarts.filter (· ≠ workflowId) }

/-- What the engine holds of an ended run goes when it ends, and when it is replaced. -/
def cleanupWaiters (internals : EngineInternals ι τ) (workflowId : ι) : EngineInternals ι τ :=
  { internals with
    workflowHeaders := Function.update internals.workflowHeaders workflowId none
    workflowNestingDepths := Function.update internals.workflowNestingDepths workflowId none }

/-- What the commit of a start stores; the token is a new one. -/
def storeStart (w : World ι τ) (start : Start ι τ) (preparation : StartWorkflowPreparation ι τ)
    (token : τ) : World ι τ :=
  let state := initialState options start preparation token
  let headers := runWorkflowStartInterceptor options start.workflowId
    (preparation.parentHeaders.map HeaderMap.entries)
  let replaced := (w.records start.workflowId).isSome
  let internals := if replaced then cleanupWaiters w.internals start.workflowId else w.internals
  { w with
    records := Function.update w.records start.workflowId (some state)
    internals := setWorkflowStartHeaders internals start.workflowId headers
    runs := Function.update w.runs token
      (some ⟨start.workflowId, start.origin, state.executionStateOwnerId, someHeaders headers⟩) }

/-- A delayed start is then over. -/
def commitStart (w : World ι τ) (call : Nat) (start : Start ι τ)
    (preparation : StartWorkflowPreparation ι τ) (token : τ) : World ι τ :=
  let w := storeStart options w start preparation token
  if start.delayed then
    setCall { w with internals := release w.internals start.workflowId } call none
  else setCall w call (some (.committed start token))

/-- `rollbackTransientStartState`, also where the id was taken. -/
def failStart (w : World ι τ) (call : Nat) (start : Start ι τ) : World ι τ :=
  let internals := release w.internals start.workflowId
  let internals := { internals with
    workflowHeaders := Function.update internals.workflowHeaders start.workflowId none }
  setCall { w with internals } call (leave start)

def startWorkflowExecution (internals : EngineInternals ι τ) (workflowId : ι) (token : τ)
    (nestingDepth : Nat) : EngineInternals ι τ := { internals with
  workflowNestingDepths :=
    if nestingDepth ≠ 0 then
      Function.update internals.workflowNestingDepths workflowId (some nestingDepth)
    else internals.workflowNestingDepths
  executing := Function.update internals.executing workflowId (some ⟨token, nestingDepth⟩) }

def beginWorkflowExecution (internals : EngineInternals ι τ) (workflowId : ι) (token : τ) :
    EngineInternals ι τ :=
  let nestingDepth := internals.pendingNestingDepth.getD 0
  let internals := { internals with pendingNestingDepth := none }
  if options.inline then
    { internals with queuedInlineWorkflowStarts :=
      internals.queuedInlineWorkflowStarts ++ [⟨workflowId, token, nestingDepth⟩] }
  else startWorkflowExecution internals workflowId token nestingDepth

def beginStart (w : World ι τ) (call : Nat) (start : Start ι τ) (token : τ) : World ι τ :=
  let internals := beginWorkflowExecution options w.internals start.workflowId token
  setCall { w with internals := release internals start.workflowId } call (leave start)

/-- The run whose start is launched is the one that is stored then. -/
def launch (w : World ι τ) (place : Nat) (start : QueuedInlineWorkflowExecutionStart ι τ) :
    World ι τ :=
  let internals := { w.internals with
    queuedInlineWorkflowStarts := w.internals.queuedInlineWorkflowStarts.eraseIdx place }
  match w.records start.workflowId with
  | some state =>
    if state.status = .running then
      let launched := startWorkflowExecution internals start.workflowId
        state.workflowExecutionToken start.nestingDepth
      { w with internals := launched }
    else { w with internals }
  | none => { w with internals }

/-! ## Other steps -/

def setStatus (w : World ι τ) (workflowId : ι) (state : WorkflowState ι τ) (status : Status) :
    World ι τ :=
  { w with records := Function.update w.records workflowId (some { state with status }) }

/-- The headers of the run are read from the store. -/
def loadWorkflowStartHeaders (w : World ι τ) (workflowId : ι) (state : WorkflowState ι τ) :
    World ι τ := { w with
  internals := setWorkflowStartHeaders w.internals workflowId state.workflowStartHeaders
  runs := Function.update w.runs state.workflowExecutionToken
    ((w.runs state.workflowExecutionToken).map fun run =>
      { run with headers := someHeaders state.workflowStartHeaders }) }

def due (w : World ι τ) (call : Nat) (workflowId : ι) (state : WorkflowState ι τ) : World ι τ :=
  setCall (loadWorkflowStartHeaders (setStatus w workflowId state .running) workflowId state) call
    (some (.committed ⟨workflowId, false, true, none, none⟩ state.workflowExecutionToken))

def finish (w : World ι τ) (workflowId : ι) (state : WorkflowState ι τ) : World ι τ :=
  let w := setStatus w workflowId state .ended
  let internals := cleanupWaiters w.internals workflowId
  { w with internals :=
    { internals with executing := Function.update internals.executing workflowId none } }

/-- The context of a resumed inline run is made without a nesting depth. -/
def relaunch (w : World ι τ) (workflowId : ι) (state : WorkflowState ι τ) : World ι τ :=
  let w := loadWorkflowStartHeaders w workflowId state
  let nestingDepth :=
    if options.inline then 0 else (w.internals.workflowNestingDepths workflowId).getD 0
  { w with internals := { w.internals with
      executing := Function.update w.internals.executing workflowId
        (some ⟨state.workflowExecutionToken, nestingDepth⟩) } }

def step (w : World ι τ) : Event ι τ → Option (World ι τ)
  | .start call workflowId startNew delayed ok =>
    match w.calls call with
    | none => some (startWorkflow w call ⟨workflowId, startNew, delayed, none, none⟩ ok)
    | some _ => none
  | .request call request =>
    match w.calls call, w.internals.executing request.workflowId with
    | none, some execution =>
      if execution.workflowExecutionToken = request.run then
        let currentDepth := getWorkflowNestingDepth options w.internals request.workflowId
        if currentDepth + 1 > options.maxNestingDepth then some w
        else some (setCall w call (some (.loading request currentDepth)))
      else none
    | _, _ => none
  | .load call =>
    match w.calls call with
    | some (.loading request currentDepth) =>
      some (setCall w call
        (some (.loaded request currentDepth (w.records request.workflowId))))
    | _ => none
  | .dispatch call refused ok =>
    match w.calls call with
    | some (.loaded request currentDepth parentState) =>
      some (dispatchChildWorkflowStart w call request currentDepth parentState refused ok)
    | _ => none
  | .commit call token =>
    match w.calls call, w.runs token with
    | some (.prepared start preparation), none =>
      if isFree w start then some (commitStart options w call start preparation token) else none
    | _, _ => none
  | .fail call =>
    match w.calls call with
    | some (.prepared start _) => some (failStart w call start)
    | _ => none
  | .begin call =>
    match w.calls call with
    | some (.committed start token) => some (beginStart options w call start token)
    | _ => none
  | .leave call =>
    match w.calls call with
    | some (.leaving context) =>
      some (setCall
        { w with internals := clearPendingChildExecutionContext w.internals context } call none)
    | _ => none
  | .launch place => (w.internals.queuedInlineWorkflowStarts[place]?).map (launch w place)
  | .drop place =>
    some { w with internals := { w.internals with
      queuedInlineWorkflowStarts := w.internals.queuedInlineWorkflowStarts.eraseIdx place } }
  | .due call workflowId =>
    match w.calls call, w.records workflowId with
    | none, some state =>
      if state.status = .pending then some (due w call workflowId state) else none
    | _, _ => none
  | .finish workflowId =>
    match w.records workflowId with
    | some state => if state.status = .ended then none else some (finish w workflowId state)
    | none => none
  | .purge workflowId =>
    match w.records workflowId with
    | some state =>
      if state.status = .ended then
        some { w with records := Function.update w.records workflowId none }
      else none
    | none => none
  | .resume workflowId =>
    match w.records workflowId with
    | some state =>
      if state.status = .running then some (relaunch options w workflowId state) else none
    | none => none
  | .crash => some { w with internals := {}, calls := fun _ => none }

def machine : Machine (World ι τ) (Event ι τ) := ⟨step options⟩

end Weft.Children
