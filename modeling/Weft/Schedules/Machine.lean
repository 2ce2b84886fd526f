import Weft.Schedules.Model
import Weft.Lib.Machine

/-! One schedule, with the operations on it in flight. A step of the machine is one storage step of
one of them, so every interleaving is a run; beside each operation stands what it has learnt. -/

namespace Weft.Schedules
open Weft.Lib

universe u

variable {ι : Type u}

inductive Kind (ι : Type u) where
  | timer (fireAt : Nat)
  | terminal (workflowId : ι)
  | pause
  | resume
  | cancel
deriving DecidableEq

def Kind.isTimer : Kind ι → Bool
  | .timer _ => true
  | _ => false

/-- What an operation knows, as it goes on. Nothing it does depends on it.
* `base`: the record as it last read or wrote it.
* `free`: the run that is current there has ended, or there is none.
* `held`: a run that it started and that is not in the record yet.
* `drawn`: an id that it drew and has not used.
* `begun`: it took an occurrence that `nextFireAt` of the record has not passed.
* `lo`: it has taken no occurrence from here on.
* `failed`: it failed to write. -/
structure Know (ι : Type u) where
  base : ScheduleState ι
  free : Bool
  held : Option ι := none
  drawn : Option ι := none
  begun : Bool := false
  lo : Nat
  failed : Bool := false

section

variable [DecidableEq ι]

def Know.load (kind : Kind ι) (record : ScheduleState ι) : Know ι where
  base := record
  free := match record.currentWorkflowId with
    | none => true
    | some workflowId => decide (kind = .terminal workflowId)
  lo := record.nextFireAt.getD 0

def Know.ended (k : Know ι) (workflowId : ι) : Know ι :=
  { k with free := k.free || decide (k.base.currentWorkflowId = some workflowId) }

def Know.draw (k : Know ι) (workflowId : ι) : Know ι := { k with drawn := some workflowId }

def Know.launch (k : Know ι) (workflowId : ι) (occurrence : Option Nat) : Know ι := { k with
  held := if k.base.overlap = .allow then k.held else some workflowId
  drawn := none
  begun := true
  lo := occurrence.elim k.lo (· + 1) }

def Know.drain (k : Know ι) (state : ScheduleState ι) : Know ι :=
  { k with base := state, free := false }

/-- The runs that a record has in its queue and the one before had not. -/
def newlyQueued (before after : ScheduleState ι) : List (ScheduleQueuedRun ι) :=
  after.queuedRuns.drop before.queuedRuns.length

def Know.write (k : Know ι) (state : ScheduleState ι) : Know ι where
  base := state
  free := state.currentWorkflowId.isNone || k.held.isNone && k.free
  begun := decide (state.nextFireAt = k.base.nextFireAt ∧ state.status = k.base.status) &&
    (k.begun || decide (newlyQueued k.base state ≠ []))
  lo := ((newlyQueued k.base state).filterMap fun run => run.occurrence).foldl
    (fun lo occurrence => max lo (occurrence + 1)) k.lo
  failed := k.failed

def Know.fail (k : Know ι) : Know ι := { k with failed := true }

end

structure Op (ι : Type u) where
  kind : Kind ι
  task : Task ι
  know : Option (Know ι) := none

structure Run (ι : Type u) where
  workflowId : ι
  occurrence : Option Nat
  live : Bool
deriving DecidableEq

/-- What the last control call that has completed asks for. -/
inductive Control where
  | free
  | paused
  | cancelled
deriving DecidableEq

/-- `queued` and `drained` record the ids put into the queue and started from it, `dropped` those
that another operation than `pauseSchedule` and `cancelSchedule` took out of it unstarted. -/
structure World (ι : Type u) where
  record : ScheduleState ι
  now : Nat := 0
  runs : List (Run ι) := []
  scheduleRuns : List ι := []
  used : List ι := []
  ops : List (Op ι) := []
  queued : List ι := []
  drained : List ι := []
  dropped : List ι := []
  ordered : Control := .free

inductive Event (ι : Type u) where
  | tick (now : Nat)
  | call (kind : Kind ι)
  /-- The operation in this place does its next step. `ok` says whether storage fails, `drawn`
  what `randomUUID` gives. -/
  | advance (place : Nat) (ok : Bool) (drawn : ι)
  | finish (workflowId : ι)
  | crash

def Task.isDone : Task ι → Bool
  | .done => true
  | _ => false

section

variable [DecidableEq ι] (spec : ScheduleSpec)

def Kind.task : Kind ι → Task ι
  | .timer fireAt => handleScheduleTimer spec fireAt
  | .terminal workflowId => handleScheduledWorkflowTerminal workflowId
  | .pause => pauseSchedule spec
  | .resume => resumeSchedule spec
  | .cancel => cancelSchedule

def isLive (runs : List (Run ι)) (workflowId : ι) : Bool :=
  runs.any fun run => run.workflowId = workflowId && run.live

def endRun (runs : List (Run ι)) (workflowId : ι) : List (Run ι) :=
  runs.map fun run => if run.workflowId = workflowId then { run with live := false } else run

/-- The record is written; `started` is the run that the same batch starts. -/
def World.write (w : World ι) (kind : Kind ι) (state : ScheduleState ι) (started : Option ι) :
    World ι :=
  let before := w.record.queuedRuns.map fun run => run.workflowId
  let after := state.queuedRuns.map fun run => run.workflowId
  { w with
    record := state
    queued := w.queued ++ after.filter fun workflowId => workflowId ∉ w.queued
    dropped := match kind with
      | .pause | .cancel => w.dropped
      | _ => w.dropped ++ before.filter fun workflowId =>
          workflowId ∉ after ∧ started ≠ some workflowId }

def World.settle (w : World ι) (completedWorkflowId : Option ι) : World ι :=
  { w with scheduleRuns := w.scheduleRuns.filter fun workflowId =>
      completedWorkflowId ≠ some workflowId }

/-- One step of an operation. -/
def perform (w : World ι) (op : Op ι) (ok : Bool) (drawn : ι) : Option (World ι × Op ι) :=
  match op.task with
  | .done => none
  | .load next failed =>
    if ok then some (w, { op with
      task := next w.record
      know := some (Know.load op.kind w.record) })
    else some (w, { op with task := failed })
  | .getNow next => some (w, { op with task := next w.now })
  | .randomUUID next =>
    if drawn ∈ w.used then none
    else some ({ w with used := drawn :: w.used },
      { op with task := next drawn, know := op.know.map fun k => k.draw drawn })
  | .loadWorkflowState workflowId next failed =>
    if ok then
      if isLive w.runs workflowId then some (w, { op with task := next true })
      else some (w, { op with
        task := next false
        know := op.know.map fun k => k.ended workflowId })
    else some (w, { op with task := failed })
  | .getScheduleRun workflowId next failed =>
    some (w, { op with task := if ok then next (decide (workflowId ∈ w.scheduleRuns)) else failed })
  | .deleteScheduleRun workflowId next failed =>
    if ok then some (w.settle (some workflowId), { op with task := next })
    else some (w, { op with task := failed })
  | .cancelTimer next failed => some (w, { op with task := if ok then next else failed })
  | .cancelWorkflow workflowId next failed =>
    if ok then some ({ w with runs := endRun w.runs workflowId },
      { op with task := next, know := op.know.map fun k => k.ended workflowId })
    else some (w, { op with task := failed })
  | .startWorkflow workflowId occurrence scheduleStateAfterStart completedWorkflowId next failed =>
    -- an id that is taken is refused
    if ok ∧ workflowId ∉ w.runs.map Run.workflowId then
      let launched := { w.settle completedWorkflowId with
        runs := w.runs ++ [⟨workflowId, occurrence, true⟩]
        scheduleRuns := workflowId :: (w.settle completedWorkflowId).scheduleRuns }
      match scheduleStateAfterStart with
      | none => some (launched, { op with
          task := next
          know := op.know.map fun k => k.launch workflowId occurrence })
      | some state => some ({ launched.write op.kind state (some workflowId) with
            drained := w.drained ++ [workflowId] },
          { op with task := next, know := op.know.map fun k => k.drain state })
    else some (w, { op with task := failed })
  | .writeScheduleState state completedWorkflowId next failed =>
    if ok then some ((w.settle completedWorkflowId).write op.kind state none,
      { op with task := next, know := op.know.map fun k => k.write state })
    else some (w, { op with task := failed, know := op.know.map Know.fail })

/-- What a step that completes a control call asks for from then on. -/
def Kind.order (kind : Kind ι) (wrote : Bool) (ordered : Control) : Control :=
  match kind, ordered with
  | .pause, .free => .paused
  | .cancel, _ => .cancelled
  | .resume, .paused => if wrote then .free else .paused
  | _, _ => ordered

def Task.writes : Task ι → Bool
  | .writeScheduleState _ _ _ _ => true
  | _ => false

def advance (w : World ι) (place : Nat) (ok : Bool) (drawn : ι) : Option (World ι) := do
  let op ← w.ops[place]?
  let (w', op') ← perform w op ok drawn
  return { w' with
    ops := w.ops.set place op'
    ordered := if ok ∧ op'.task.isDone then op.kind.order op.task.writes w.ordered
      else w.ordered }

/-- Handlers of the timer run one after another. A timer that is delivered is due, a run whose end
is reported has ended. -/
def mayCall (w : World ι) : Kind ι → Bool
  | .timer fireAt => fireAt ≤ w.now && w.ops.all fun op => !op.kind.isTimer || op.task.isDone
  | .terminal workflowId =>
    workflowId ∈ w.runs.map Run.workflowId && !isLive w.runs workflowId
  | _ => true

/-- A crash ends all that is in flight. -/
def scheduleMachine : Machine (World ι) (Event ι) where
  step := fun w event =>
    match event with
    | .tick now => if w.now ≤ now then some { w with now := now } else none
    | .call kind =>
      if mayCall w kind then some { w with ops := w.ops ++ [⟨kind, kind.task spec, none⟩] }
      else none
    | .advance place ok drawn => advance w place ok drawn
    | .finish workflowId => some { w with runs := endRun w.runs workflowId }
    | .crash => some { w with ops := [] }

end

/-- A schedule that was just created. -/
def World.create (overlap : ScheduleOverlapPolicy) (backfill : Bool) (nextFireAt : Nat) :
    World ι where
  record := { status := .active, overlap := overlap, backfill := backfill,
              nextFireAt := some nextFireAt }

/-- The record is as the operation last read or wrote it; for the handler of a timer, the run that
was current there may have ended since and been cleared. -/
def UpToDate [DecidableEq ι] (w : World ι) (op : Op ι) : Prop :=
  ∃ k ∈ op.know, w.record = k.base ∨
    op.kind.isTimer = true ∧ w.record = clearScheduleCurrentWorkflow k.base

instance [DecidableEq ι] (w : World ι) (op : Op ι) : Decidable (UpToDate w op) :=
  match h : op.know with
  | none => isFalse fun ⟨k, hk, _⟩ => (by rw [h] at hk; cases hk)
  | some k => decidable_of_iff (w.record = k.base ∨
      op.kind.isTimer = true ∧ w.record = clearScheduleCurrentWorkflow k.base)
        (by simp [UpToDate, h])

/-- The step starts a run or writes the record. -/
def Task.acts : Task ι → Bool
  | .startWorkflow _ _ _ _ _ _ => true
  | .writeScheduleState _ _ _ _ => true
  | _ => false

/-- No operation starts a run or writes the record on the ground of one that is out of date. -/
def ActsUpToDate [DecidableEq ι] (w : World ι) : Event ι → Prop
  | .advance place ok _ => ∀ op ∈ w.ops[place]?, ok = true → op.task.acts = true → UpToDate w op
  | _ => True

instance [DecidableEq ι] (w : World ι) (event : Event ι) : Decidable (ActsUpToDate w event) :=
  match event with
  | .advance place ok _ => match h : w.ops[place]? with
    | none => isTrue (by simp [ActsUpToDate, h])
    | some op => decidable_of_iff (ok = true → op.task.acts = true → UpToDate w op)
        (by simp [ActsUpToDate, h])
  | .tick _ => isTrue trivial
  | .call _ => isTrue trivial
  | .finish _ => isTrue trivial
  | .crash => isTrue trivial

end Weft.Schedules
