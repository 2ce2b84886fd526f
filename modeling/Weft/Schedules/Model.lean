import Mathlib

/-! Recurring schedules. The handlers are written as tasks: trees of the storage steps they await,
so that the steps of several of them can be interleaved. -/

namespace Weft.Schedules

universe u

/-! ## Cadence -/

/-- The grid of occurrences: the first one after a time. -/
structure Cadence where
  next : Nat → Nat
  advances : ∀ t, t < next t

def getNextIntervalOccurrence (anchor interval after : Nat) : Nat :=
  if after < anchor then anchor + interval
  else anchor + ((after - anchor) / interval + 1) * interval

theorem getNextIntervalOccurrence_advances (anchor after : Nat) {interval : Nat}
    (h : 0 < interval) : after < getNextIntervalOccurrence anchor interval after := by
  unfold getNextIntervalOccurrence
  split_ifs with hlt
  · omega
  · have hdiv := Nat.lt_div_mul_add h (a := after - anchor)
    rw [Nat.add_mul, Nat.one_mul]
    omega

def Cadence.interval (anchor interval : Nat) (h : 0 < interval) : Cadence where
  next := getNextIntervalOccurrence anchor interval
  advances := fun t => getNextIntervalOccurrence_advances anchor t h

/-- What stays the same over the life of a schedule. `hash` is that of its id and a time. -/
structure ScheduleSpec where
  cadence : Cadence
  jitterMs : Nat
  hash : Nat → Nat

def ScheduleSpec.getNextScheduleOccurrence (spec : ScheduleSpec) (after : Nat) : Nat :=
  spec.cadence.next after

def ScheduleSpec.computeScheduleJitterOffset (spec : ScheduleSpec) (nominalFireAt : Nat) : Nat :=
  if spec.jitterMs = 0 then 0 else spec.hash nominalFireAt % spec.jitterMs

def ScheduleSpec.resolveEffectiveScheduleFireAt (spec : ScheduleSpec) (nominalFireAt : Nat) : Nat :=
  nominalFireAt + spec.computeScheduleJitterOffset nominalFireAt

/-- For at most `maxOccurrences` occurrences. -/
def ScheduleSpec.collectDueScheduleOccurrences (spec : ScheduleSpec) (throughTimestamp : Nat) :
    (maxOccurrences nextOccurrence : Nat) → List Nat
  | 0, _ => []
  | max + 1, occurrence =>
    if occurrence ≤ throughTimestamp then
      occurrence :: spec.collectDueScheduleOccurrences throughTimestamp max
        (spec.getNextScheduleOccurrence occurrence)
    else []

/-! ## The record -/

inductive ScheduleStatus where
  | active
  | paused
  | cancelled
deriving DecidableEq

inductive ScheduleOverlapPolicy where
  | allow
  | skip
  | queue
  | cancelRunning
deriving DecidableEq

structure ScheduleQueuedRun (ι : Type u) where
  workflowId : ι
  queuedAt : Nat
  occurrence : Option Nat
deriving DecidableEq

structure ScheduleState (ι : Type u) where
  status : ScheduleStatus
  overlap : ScheduleOverlapPolicy
  backfill : Bool
  nextFireAt : Option Nat
  lastFireAt : Option Nat := none
  lastMissedFireAt : Option Nat := none
  missedFireCount : Nat := 0
  currentWorkflowId : Option ι := none
  queuedRuns : List (ScheduleQueuedRun ι) := []
deriving DecidableEq

variable {ι : Type u}

def clearScheduleCurrentWorkflow (state : ScheduleState ι) : ScheduleState ι :=
  { state with currentWorkflowId := none }

/-! ## Tasks -/

/-- What an operation on a schedule has still to do. Each step that can fail has a task for that
case. -/
inductive Task (ι : Type u) where
  | done
  /-- `loadScheduleState` -/
  | load (next : ScheduleState ι → Task ι) (failed : Task ι)
  | getNow (next : Nat → Task ι)
  | randomUUID (next : ι → Task ι)
  /-- Whether the run is not terminal yet. -/
  | loadWorkflowState (workflowId : ι) (next : Bool → Task ι) (failed : Task ι)
  | getScheduleRun (workflowId : ι) (next : Bool → Task ι) (failed : Task ι)
  | deleteScheduleRun (workflowId : ι) (next failed : Task ι)
  | cancelTimer (next failed : Task ι)
  | cancelWorkflow (workflowId : ι) (next failed : Task ι)
  /-- One batch: the workflow, its metadata, and the record where one is given. -/
  | startWorkflow (workflowId : ι) (occurrence : Option Nat)
      (scheduleStateAfterStart : Option (ScheduleState ι)) (completedWorkflowId : Option ι)
      (next failed : Task ι)
  | writeScheduleState (state : ScheduleState ι) (completedWorkflowId : Option ι)
      (next failed : Task ι)

/-! ## Overlap -/

section

variable (failed : Task ι) (next : ScheduleState ι → Task ι)

/-- `next` gets whether the current run occupies the slot. -/
def refreshScheduledWorkflowState (state : ScheduleState ι)
    (next : ScheduleState ι → Bool → Task ι) : Task ι :=
  match state.currentWorkflowId with
  | none => next state false
  | some workflowId =>
    .loadWorkflowState workflowId (fun occupiesSlot =>
      if occupiesSlot then next state true
      else .deleteScheduleRun workflowId (next (clearScheduleCurrentWorkflow state) false) failed)
      failed

def startScheduleRunInOccupiedSlot (state : ScheduleState ι) (occurrence : Nat) : Task ι :=
  .randomUUID fun workflowId =>
    .startWorkflow workflowId (some occurrence) none none
      (next { state with currentWorkflowId := some workflowId }) failed

def drainQueuedScheduleRun (state : ScheduleState ι) (completedWorkflowId : Option ι) : Task ι :=
  match state.queuedRuns with
  | [] => next state
  | queuedRun :: remainingQueuedRuns =>
    let stateAfterStart := { state with
      currentWorkflowId := some queuedRun.workflowId
      queuedRuns := remainingQueuedRuns }
    .startWorkflow queuedRun.workflowId queuedRun.occurrence (some stateAfterStart)
      completedWorkflowId (next stateAfterStart) failed

def applyBlockedScheduleOccurrence (state : ScheduleState ι) (hasActiveWorkflow : Bool)
    (occurrence : Nat) : Task ι :=
  if hasActiveWorkflow then
    match state.overlap with
    | .cancelRunning =>
      let start := startScheduleRunInOccupiedSlot failed next (clearScheduleCurrentWorkflow state)
        occurrence
      match state.currentWorkflowId with
      | none => start
      | some workflowId => .cancelWorkflow workflowId start failed
    | .queue =>
      .randomUUID fun workflowId => .getNow fun now =>
        next { state with queuedRuns := state.queuedRuns ++ [⟨workflowId, now, some occurrence⟩] }
    | _ => next state
  else startScheduleRunInOccupiedSlot failed next state occurrence

/-- After the queue was looked at. -/
def startOrBlockOccurrence (state : ScheduleState ι) (hasActiveWorkflow : Bool)
    (occurrence : Nat) : Task ι :=
  if state.overlap = .allow then
    .randomUUID fun workflowId =>
      .startWorkflow workflowId (some occurrence) none none (next state) failed
  else applyBlockedScheduleOccurrence failed next state hasActiveWorkflow occurrence

def applyScheduleOccurrence (state : ScheduleState ι) (occurrence : Nat) : Task ι :=
  refreshScheduledWorkflowState failed state fun refreshedState hasActiveWorkflow =>
    if hasActiveWorkflow = false ∧ refreshedState.queuedRuns ≠ [] then
      drainQueuedScheduleRun failed
        (fun drainedState => startOrBlockOccurrence failed next drainedState true occurrence)
        refreshedState none
    else startOrBlockOccurrence failed next refreshedState hasActiveWorkflow occurrence

def settleBackfillScheduleState (state : ScheduleState ι) : Task ι :=
  refreshScheduledWorkflowState failed state fun refreshedState _ => next refreshedState

end

/-! ## The timer -/

section

variable (spec : ScheduleSpec)

def pauseScheduleAfterTimerFailure (state : ScheduleState ι) : Task ι :=
  .getNow fun errorNow =>
    .writeScheduleState { state with
      status := .paused
      nextFireAt := some (spec.getNextScheduleOccurrence errorNow) } none .done .done

/-- A write that fails ends the handler, any other failure pauses the schedule as it was last
processed. -/
def processScheduleTimerOccurrences : ScheduleState ι → List Nat → Task ι
  | _, [] => .done
  | state, occurrence :: rest =>
    applyScheduleOccurrence (pauseScheduleAfterTimerFailure spec state) (fun applied =>
      let nextState := { applied with
        lastFireAt := some occurrence
        nextFireAt := if rest = [] then some (spec.getNextScheduleOccurrence occurrence)
          else applied.nextFireAt }
      .writeScheduleState nextState none
        (if state.backfill ∧ nextState.currentWorkflowId ≠ none then
          settleBackfillScheduleState (pauseScheduleAfterTimerFailure spec nextState)
            (fun settled =>
              if rest = [] then
                .writeScheduleState { settled with
                  nextFireAt := some (spec.getNextScheduleOccurrence occurrence) } none .done .done
              else processScheduleTimerOccurrences settled rest)
            nextState
        else processScheduleTimerOccurrences nextState rest)
        .done)
      state occurrence

def SCHEDULE_LATE_GRACE_MILLISECONDS : Nat := 1000

def MAX_SCHEDULE_BACKFILL_OCCURRENCES_PER_TICK : Nat := 256

def MAX_MISSED_FIRE_COUNT_PER_TICK : Nat := MAX_SCHEDULE_BACKFILL_OCCURRENCES_PER_TICK

inductive ScheduleTimerWork where
  | nothing
  | missed (count lastMissedFireAt : Nat)
  | process (occurrences : List Nat)

/-- The number of occurrences missed so far, the last of them, and the next to look at. -/
def countMissedScheduleOccurrences (throughTimestamp : Nat) :
    Nat → (count lastMissedFireAt occurrence : Nat) → Nat × Nat
  | 0, count, last, _ => (count, last)
  | max + 1, count, last, occurrence =>
    if occurrence ≤ throughTimestamp then
      countMissedScheduleOccurrences throughTimestamp max (count + 1) occurrence
        (spec.getNextScheduleOccurrence occurrence)
    else (count, last)

def planScheduleTimerWork (state : ScheduleState ι) (nextFireAt fireAt now : Nat) :
    ScheduleTimerWork :=
  let dueOccurrences := spec.collectDueScheduleOccurrences (max now fireAt)
    (if state.backfill then MAX_SCHEDULE_BACKFILL_OCCURRENCES_PER_TICK else 2) nextFireAt
  if dueOccurrences = [] then .nothing
  else if state.backfill = false ∧ SCHEDULE_LATE_GRACE_MILLISECONDS < now - fireAt then
    let missed := countMissedScheduleOccurrences spec now MAX_MISSED_FIRE_COUNT_PER_TICK 0
      nextFireAt nextFireAt
    .missed missed.1 missed.2
  else .process (if state.backfill then dueOccurrences else dueOccurrences.take 1)

def handleScheduleTimer (fireAt : Nat) : Task ι :=
  .load (fun state =>
    match state.status, state.nextFireAt with
    | .active, some nextFireAt =>
      if spec.resolveEffectiveScheduleFireAt nextFireAt = fireAt then
        .getNow fun now =>
          match planScheduleTimerWork spec state nextFireAt fireAt now with
          | .nothing => .done
          | .missed count lastMissedFireAt =>
            .writeScheduleState { state with
              nextFireAt := some (spec.getNextScheduleOccurrence lastMissedFireAt)
              lastMissedFireAt := some lastMissedFireAt
              missedFireCount := state.missedFireCount + count } none .done .done
          | .process occurrences => processScheduleTimerOccurrences spec state occurrences
      else .done
    | _, _ => .done) .done

/-! ## Runs that end, and control -/

def handleScheduledWorkflowTerminal [DecidableEq ι] (workflowId : ι) : Task ι :=
  .getScheduleRun workflowId (fun present =>
    if present then
      .load (fun state =>
        if state.currentWorkflowId = some workflowId then
          let clearedState := clearScheduleCurrentWorkflow state
          if clearedState.status = .active ∧ clearedState.queuedRuns ≠ [] then
            drainQueuedScheduleRun .done (fun _ => .done) clearedState (some workflowId)
          else .writeScheduleState clearedState (some workflowId) .done .done
        else .deleteScheduleRun workflowId .done .done) .done
    else .done) .done

def pauseSchedule : Task ι :=
  .load (fun state =>
    if state.status = .active then
      .cancelTimer (.getNow fun now =>
        .writeScheduleState { state with
          status := .paused
          nextFireAt := some (spec.getNextScheduleOccurrence now)
          queuedRuns := [] } none .done .done) .done
    else .done) .done

def resumeSchedule : Task ι :=
  .load (fun state =>
    if state.status = .paused then
      .getNow fun now =>
        .writeScheduleState { state with
          status := .active
          nextFireAt := some (spec.getNextScheduleOccurrence now) } none .done .done
    else .done) .done

def cancelSchedule : Task ι :=
  .load (fun state =>
    let write : Task ι := .writeScheduleState { state with
      status := .cancelled
      nextFireAt := none
      queuedRuns := [] } none .done .done
    if state.status = .active then .cancelTimer write .done else write) .done

end

end Weft.Schedules
