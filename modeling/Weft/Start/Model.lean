import Weft.Lifecycle.Terminal

/-! `startOrSignal` for one workflow id, on a store that earlier runs have left. The create batch
has the deletes of the run it displaces, the record of the new run and the signal, under the
condition that the signal's accepted marker is absent; a condition is checked before any delete of
its batch. -/

namespace Weft.Start
open Weft.Visibility Weft.Lifecycle

structure Signal where
  name : String
  signalId : String
deriving DecidableEq

/-- The keys of the id: the state row, the marker of a teardown that is owed, the buffered signals
and the accepted markers. -/
structure Store where
  state : Option WorkflowStatus := none
  teardownOwed : Bool := false
  signals : List Signal := []
  accepted : List Signal := []
deriving DecidableEq

inductive StartError where
  | workflowAlreadyExists
  | workflowTeardownPending
  | startIdempotencyRaceLost
  | startOrSignalConflict
  /-- Validation, the payload limit or an interceptor turns the start away. -/
  | refused
  | attemptsExhausted
deriving DecidableEq

inductive StartOrSignalOutcome where
  | started
  | signalled
deriving DecidableEq

/-- Whether the start displaces a run. -/
def resolveTerminalConflictForRestart (startNew : Bool) (s : Store) : Except StartError Bool :=
  match s.state with
  | none => .ok false
  | some status =>
    if startNew then
      if isTerminalWorkflowStatus status then
        if s.teardownOwed then .error .workflowTeardownPending else .ok true
      else .error .workflowAlreadyExists
    else .error .workflowAlreadyExists

/-- The deletes for a displaced run: `sig:` and `sigres:` are among its prefixes. -/
def prepareTerminalRunPurge (displaces : Bool) (s : Store) : Store :=
  if displaces then { s with signals := [], accepted := [] } else s

/-- The batch. `signal` is put beside the record if there is one. -/
def buildAndCommitStartBatch (displaces : Bool) (signal : Option Signal) (s : Store) :
    Except StartError Store :=
  let purged := prepareTerminalRunPurge displaces s
  match signal with
  | some signal =>
    if signal ∈ s.accepted then .error .startIdempotencyRaceLost
    else .ok { purged with
      state := some .running
      signals := signal :: purged.signals
      accepted := signal :: purged.accepted }
  | none => .ok { purged with state := some .running }

def startWorkflow (refused startNew : Bool) (signal : Option Signal) (s : Store) :
    Except StartError Store := do
  let displaces ← resolveTerminalConflictForRestart startNew s
  if refused then throw .refused
  buildAndCommitStartBatch displaces signal s

/-- The signal path of a run that is there. -/
def signalExistingWorkflow (signal : Signal) (s : Store) : Store :=
  if signal ∈ s.accepted then s
  else { s with signals := signal :: s.signals, accepted := signal :: s.accepted }

/-- What the loser of a create does with the record of the winner; `none` says to create once
more. -/
def resolveCallerIdWinnerOrRetry (startNew : Bool) (signal : Signal) (s : Store) :
    Except StartError (Option (StartOrSignalOutcome × Store)) :=
  match s.state with
  | none => .ok none
  | some status =>
    if isTerminalWorkflowStatus status then
      if startNew then .ok none else .error .startOrSignalConflict
    else .ok (some (.signalled, signalExistingWorkflow signal s))

/-- The signal is buffered already, so the run is created without it. -/
def plainCreateBufferedSignalOrResolve (refused startNew : Bool) (signal : Signal) (s : Store) :
    Except StartError (Option (StartOrSignalOutcome × Store)) :=
  match startWorkflow refused startNew none s with
  | .ok created => .ok (some (.started, created))
  | .error .workflowAlreadyExists => resolveCallerIdWinnerOrRetry startNew signal s
  | .error error => .error error

def createWithSignalOrFallback (refused startNew : Bool) (signal : Signal) (s : Store) :
    (attempts : Nat) → Except StartError (StartOrSignalOutcome × Store)
  | 0 => .error .attemptsExhausted
  | attempts + 1 =>
    match startWorkflow refused startNew (some signal) s with
    | .ok created => .ok (.started, created)
    | .error error =>
      let fallback := match error with
        | .workflowAlreadyExists => resolveCallerIdWinnerOrRetry startNew signal s
        | .startIdempotencyRaceLost =>
          plainCreateBufferedSignalOrResolve refused startNew signal s
        | error => .error error
      match fallback with
      | .ok (some result) => .ok result
      | .ok none => createWithSignalOrFallback refused startNew signal s attempts
      | .error error => .error error

def CALLER_ID_CREATE_MAX_ATTEMPTS : Nat := 5

def startOrSignal (refused startNew : Bool) (signal : Signal) (s : Store) :
    Except StartError (StartOrSignalOutcome × Store) :=
  match s.state with
  | none => createWithSignalOrFallback refused startNew signal s CALLER_ID_CREATE_MAX_ATTEMPTS
  | some status =>
    if isTerminalWorkflowStatus status then
      if startNew then
        createWithSignalOrFallback refused startNew signal s CALLER_ID_CREATE_MAX_ATTEMPTS
      else .error .startOrSignalConflict
    else .ok (.signalled, signalExistingWorkflow signal s)

/-- The new run has taken some of its buffered signals. -/
structure Driven where
  buffer : List Signal
  consumed : List Signal

def drive (takes : Signal → Bool) (s : Store) : Driven :=
  ⟨s.signals.filter fun x => !takes x, s.signals.filter takes⟩

/-- A run that the call has started has the signal in its buffer or has consumed it. -/
def KeepsSignal (refused : Bool) (signal : Signal) (s : Store) : Prop :=
  ∀ s' takes, startOrSignal refused true signal s = .ok (.started, s') →
    signal ∈ (drive takes s').buffer ∨ signal ∈ (drive takes s').consumed

/-- The signal is not accepted yet; or no run is stored and the signal is buffered for the one to
come; or nothing is started, since a run is there that has not ended or owes its teardown, or since
the start is turned away. -/
def NotYetAccepted (refused : Bool) (signal : Signal) (s : Store) : Prop :=
  signal ∉ s.accepted ∨ refused = true ∨
    match s.state with
    | none => signal ∈ s.signals
    | some status => isTerminalWorkflowStatus status = true → s.teardownOwed = true

theorem mem_drive_iff (takes : Signal → Bool) (signal : Signal) (s : Store) :
    (signal ∈ (drive takes s).buffer ∨ signal ∈ (drive takes s).consumed) ↔ signal ∈ s.signals := by
  unfold drive
  simp only [List.mem_filter]
  cases takes signal <;> simp

section outcome

variable {refused : Bool} {signal : Signal} {s : Store}

/-- What the call starts where a run may be created: the batch with the signal, or, where the marker
is there, the batch without it. -/
theorem createWithSignalOrFallback_eq {displaces : Bool}
    (hcreates : resolveTerminalConflictForRestart true s = .ok displaces) (attempts : Nat) :
    createWithSignalOrFallback false true signal s (attempts + 1) =
      let purged := prepareTerminalRunPurge displaces s
      if signal ∈ s.accepted then .ok (.started, { purged with state := some .running })
      else .ok (.started, { purged with
        state := some .running
        signals := signal :: purged.signals
        accepted := signal :: purged.accepted }) := by
  have hstart : ∀ x, startWorkflow false true x s = buildAndCommitStartBatch displaces x s := by
    intro x
    unfold startWorkflow
    rw [hcreates]
    rfl
  by_cases haccepted : signal ∈ s.accepted
  · have hlost : startWorkflow false true (some signal) s = .error .startIdempotencyRaceLost := by
      rw [hstart]
      simp [buildAndCommitStartBatch, haccepted]
    simp [createWithSignalOrFallback, hlost, plainCreateBufferedSignalOrResolve, hstart,
      buildAndCommitStartBatch, haccepted]
  · simp [createWithSignalOrFallback, hstart, buildAndCommitStartBatch, haccepted]

/-- Nothing is created where the start throws. -/
theorem createWithSignalOrFallback_error (error : StartError)
    (hstart : ∀ x, startWorkflow refused true x s = .error error)
    (hother : error ≠ .workflowAlreadyExists ∧ error ≠ .startIdempotencyRaceLost) (attempts : Nat) :
    createWithSignalOrFallback refused true signal s (attempts + 1) = .error error := by
  cases error with
  | workflowAlreadyExists => exact absurd rfl hother.1
  | startIdempotencyRaceLost => exact absurd rfl hother.2
  | _ => simp [createWithSignalOrFallback, hstart]

/-- Where nothing is started there is nothing to lose. -/
theorem keepsSignal_of_error {error : StartError}
    (hcall : startOrSignal refused true signal s = .error error) : KeepsSignal refused
      signal s := by
  intro s' takes hstarted
  rw [hcall] at hstarted
  cases hstarted

/-- Where a run may be created, the one that is started has the signal exactly if the marker is
absent or no run is displaced and the signal is buffered. -/
theorem keepsSignal_of_creates {displaces : Bool}
    (hcreates : resolveTerminalConflictForRestart true s = .ok displaces)
    (hcall : startOrSignal refused true signal s =
      createWithSignalOrFallback refused true signal s CALLER_ID_CREATE_MAX_ATTEMPTS) :
    KeepsSignal refused signal s ↔
      signal ∉ s.accepted ∨ refused = true ∨ displaces = false ∧ signal ∈ s.signals := by
  cases refused with
  | true =>
    refine iff_of_true ?_ (.inr (.inl rfl))
    apply keepsSignal_of_error
    rw [hcall]
    refine createWithSignalOrFallback_error .refused ?_ ⟨nofun, nofun⟩ _
    intro x
    unfold startWorkflow
    rw [hcreates]
    rfl
  | false =>
    unfold KeepsSignal
    simp only [mem_drive_iff]
    rw [hcall, CALLER_ID_CREATE_MAX_ATTEMPTS, createWithSignalOrFallback_eq hcreates]
    by_cases haccepted : signal ∈ s.accepted
    · cases displaces <;> simp [haccepted, prepareTerminalRunPurge]
    · simp [haccepted]

/-- The run that `startOrSignal` starts in place of an ended one keeps its signal exactly if the
signal was not accepted before, or waits for the first run under the id. -/
theorem started_keeps_signal (refused : Bool) (signal : Signal) (s : Store) :
    KeepsSignal refused signal s ↔ NotYetAccepted refused signal s := by
  unfold NotYetAccepted
  cases hstate : s.state with
  | none =>
    have hcreates : resolveTerminalConflictForRestart true s = .ok false := by
      simp [resolveTerminalConflictForRestart, hstate]
    rw [keepsSignal_of_creates hcreates (by simp [startOrSignal, hstate])]
    simp
  | some status =>
    by_cases hterminal : isTerminalWorkflowStatus status = true
    · have hcall : startOrSignal refused true signal s =
          createWithSignalOrFallback refused true signal s CALLER_ID_CREATE_MAX_ATTEMPTS := by
        simp [startOrSignal, hstate, hterminal]
      by_cases howed : s.teardownOwed = true
      · refine iff_of_true ?_ (.inr (.inr fun _ => howed))
        apply keepsSignal_of_error
        rw [hcall]
        refine createWithSignalOrFallback_error .workflowTeardownPending ?_ ⟨nofun, nofun⟩ _
        intro x
        simp [startWorkflow, resolveTerminalConflictForRestart, hstate, hterminal, howed]
        rfl
      · have hcreates : resolveTerminalConflictForRestart true s = .ok true := by
          simp [resolveTerminalConflictForRestart, hstate, hterminal, howed]
        rw [keepsSignal_of_creates hcreates hcall]
        simp [hterminal, howed]
    · refine iff_of_true ?_ (.inr (.inr fun h => absurd h hterminal))
      intro s' takes hstarted
      simp [startOrSignal, hstate, hterminal] at hstarted

end outcome

/-- The run before has ended and its accepted marker is left. The create that finds the marker goes
on without the signal, and its own batch deletes the marker and what was buffered. -/
theorem started_loses_signal :
    startOrSignal false true ⟨"go", "s1"⟩
        { state := some .completed, accepted := [⟨"go", "s1"⟩] } =
      .ok (.started, { state := some .running }) ∧
    ¬ KeepsSignal false ⟨"go", "s1"⟩ { state := some .completed, accepted := [⟨"go", "s1"⟩] } := by
  have hstarted : startOrSignal false true ⟨"go", "s1"⟩
      { state := some .completed, accepted := [⟨"go", "s1"⟩] } =
        .ok (.started, { state := some .running }) := by
    rfl
  refine ⟨hstarted, fun hkeeps => ?_⟩
  obtain hbuffer | hconsumed := hkeeps _ (fun _ => false) hstarted
  · cases hbuffer
  · cases hconsumed

end Weft.Start

/-! Concurrent `start` and `startOrSignal` calls for one workflow id and for one idempotency key. A
call is the stage it has got to; each stage ends in one storage step, and the steps of the calls
interleave. The id's workflow is at place 0, a workflow with a generated id at a place of its
own. -/

namespace Weft.Start.Convergence
open Weft.Lib

/-- The record of a workflow: which execution it is of, and whether that has ended. -/
structure Row where
  execution : Nat
  terminal : Bool
deriving DecidableEq

/-- The keys of one workflow. `heard` and `displaced` are not stored: the signals that were buffered
for an execution, and the records that a create wrote over. -/
structure Flow where
  state : Option Row := none
  signals : List Signal := []
  accepted : List Signal := []
  heard : List (Nat × Signal) := []
  displaced : List Row := []

/-- `pendingStarts` has the id where some call holds the reservation. -/
structure Store where
  flows : Nat → Flow := fun _ => {}
  mapping : Option Nat := none
  reserved : Option Nat := none
  executions : Nat := 0

/-- `start` has no signal. A request comes with the id or with the idempotency key. -/
structure Request where
  signal : Option Signal
  byKey : Bool
  startNew : Bool
deriving DecidableEq

/-- The key and `start-new` exclude each other. -/
def assertValidOnTerminalConflict (r : Request) : Bool := !(r.byKey && r.startNew)

/-- The keys that a displacing create is to delete. -/
structure Purge where
  signals : List Signal := []
  accepted : List Signal := []
deriving DecidableEq

inductive Stage where
  | resolvingKey
  | readingRecord (flow : Nat)
  | readingTarget (flow : Nat)
  /-- In `bufferSignalPayloads`, for a run that was read live: its own read of the state, the read
  of the accepted marker, the conditional batch. -/
  | signalling (flow execution : Nat)
  | deduping (flow execution : Nat)
  | buffering (flow execution : Nat)
  /-- In `startWorkflow`. -/
  | reserving (withSignal : Bool) (attempt : Nat)
  | deciding (withSignal : Bool) (attempt : Nat)
  | collecting (withSignal : Bool) (attempt : Nat)
  | committing (withSignal : Bool) (attempt : Nat) (purge : Purge)
  | launching (flow execution : Nat)
  /-- After a lost create. -/
  | requiringWinner
  | resolvingWinner (flow attempt : Nat)
  | resolvingCallerId (attempt : Nat)
  | awaitingReservation (seen : Option Row) (waits attempt : Nat)
  | rereading (seen : Option Row) (attempt : Nat)
  | started (flow execution : Nat)
  | joined (flow : Nat)
  | signalled (flow execution : Nat)
  | failed
deriving DecidableEq

structure Call where
  request : Request
  stage : Stage
deriving DecidableEq

structure World where
  store : Store := {}
  calls : List Call := []

def RESERVATION_CLEAR_MAX_ATTEMPTS : Nat := 5

def WINNER_RESOLUTION_MAX_ATTEMPTS : Nat := 5

/-- The batch with the signal and its accepted marker. -/
def Flow.buffer (x : Flow) (signal : Signal) : Flow := { x with
  signals := signal :: x.signals
  accepted := signal :: x.accepted
  heard := x.state.toList.map (fun row => (row.execution, signal)) ++ x.heard }

/-- The create batch: the deletes, the record of the new execution and the signal. -/
def Flow.create (x : Flow) (execution : Nat) (signal : Option Signal) (purge : Purge) : Flow :=
  let signals := signal.toList ++ x.signals.filter (· ∉ purge.signals)
  { state := some ⟨execution, false⟩
    signals := signals
    accepted := signal.toList ++ x.accepted.filter (· ∉ purge.accepted)
    heard := signals.map (fun signal => (execution, signal)) ++ x.heard
    displaced := x.state.toList ++ x.displaced }

def Store.put (s : Store) (f : Nat) (x : Flow) : Store :=
  { s with flows := Function.update s.flows f x }

/-- The `finally` of `startWorkflow`. A generated id is reserved by no one else. -/
def Store.release (s : Store) (r : Request) : Store :=
  if r.byKey then s else { s with reserved := none }

/-- `WorkflowAlreadyExistsError`: `start` throws it, `startOrSignal` looks for the winner. -/
def Request.alreadyExists (r : Request) (attempt : Nat) : Stage :=
  match r.signal with
  | none => .failed
  | some _ => .resolvingCallerId attempt

/-- The loop of `createWithSignalOrFallback`. -/
def retryCreate (attempt : Nat) : Stage :=
  if attempt + 1 < CALLER_ID_CREATE_MAX_ATTEMPTS then .reserving true (attempt + 1) else .failed

/-- `alike` says that the compared fields agree although the runs are two. -/
def isSameTerminalRun (before : Option Row) (after : Row) (alike : Bool) : Bool :=
  match before with
  | none => false
  | some before => before = after || alike

/-- The commit of a create under the id. It has no condition but that of the signal. -/
def commitCallerId (s : Store) (r : Request) (withSignal : Bool) (attempt : Nat) (purge : Purge) :
    Store × Stage :=
  let signal := if withSignal then r.signal else none
  let x := s.flows 0
  if signal.any (· ∈ x.accepted) then (s.release r, .reserving false attempt)
  else
    ({ s.put 0 (x.create s.executions signal purge) with executions := s.executions + 1 },
      .launching 0 s.executions)

/-- The commit of a create under the key: the workflow id is a new one, and the mapping has to be
absent. -/
def commitKeyed (s : Store) (r : Request) (withSignal : Bool) : Store × Stage :=
  let signal := if withSignal then r.signal else none
  let f := s.executions + 1
  match s.mapping with
  | some _ => (s, .requiringWinner)
  | none =>
    ({ s.put f ((s.flows f).create s.executions signal {}) with
        mapping := some f
        executions := s.executions + 1 },
      .launching f s.executions)

/-- One step of the call at `place`. `ok` is an oracle: a step that may throw does so where it is
false. -/
def act (s : Store) (place : Nat) (r : Request) (ok : Bool) : Stage → Option (Store × Stage)
  | .resolvingKey =>
    match s.mapping with
    | none => some (s, .reserving r.signal.isSome 0)
    | some f => some (s, if r.signal.isSome then .readingTarget f else .readingRecord f)
  | .readingRecord f =>
    some (s, if (s.flows f).state.isSome then .joined f else .failed)
  | .readingTarget f =>
    match (s.flows f).state with
    | none => some (s, if r.byKey then .failed else .reserving true 0)
    | some row =>
      if row.terminal then some (s, if r.startNew && !r.byKey then .reserving true 0 else .failed)
      else some (s, .signalling f row.execution)
  | .signalling f e =>
    if (s.flows f).state.any (·.terminal) then some (s, .signalled f e)
    else some (s, if ok then .deduping f e else .failed)
  | .deduping f e =>
    if r.signal.any (· ∈ (s.flows f).accepted) then some (s, .signalled f e)
    else some (s, .buffering f e)
  | .buffering f e =>
    match r.signal with
    | none => none
    | some signal =>
      if ok then
        if signal ∈ (s.flows f).accepted then some (s, .signalled f e)
        else some (s.put f ((s.flows f).buffer signal), .signalled f e)
      else some (s, .failed)
  | .reserving withSignal attempt =>
    if r.byKey then some (s, .committing withSignal attempt {})
    else if s.reserved.isSome then some (s, r.alreadyExists attempt)
    else some ({ s with reserved := some place }, .deciding withSignal attempt)
  | .deciding withSignal attempt =>
    match (s.flows 0).state with
    | none => some (s, .committing withSignal attempt {})
    | some row =>
      if r.startNew && row.terminal then
        -- The marker of a teardown that is owed turns the restart away.
        if ok then some (s, .collecting withSignal attempt) else some (s.release r, .failed)
      else some (s.release r, r.alreadyExists attempt)
  | .collecting withSignal attempt =>
    if ok then
      some (s, .committing withSignal attempt ⟨(s.flows 0).signals, (s.flows 0).accepted⟩)
    else some (s.release r, .failed)
  | .committing withSignal attempt purge =>
    if ok then
      some (if r.byKey then commitKeyed s r withSignal
        else commitCallerId s r withSignal attempt purge)
    else some (s.release r, .failed)
  | .launching f e => some (s.release r, if ok then .started f e else .failed)
  | .requiringWinner =>
    match s.mapping with
    | none => some (s, .failed)
    | some f => some (s, if r.signal.isSome then .resolvingWinner f 0 else .readingRecord f)
  | .resolvingWinner f attempt =>
    match (s.flows f).state with
    | none =>
      some (s, if attempt + 1 < WINNER_RESOLUTION_MAX_ATTEMPTS then .resolvingWinner f (attempt + 1)
        else .failed)
    | some row => some (s, if row.terminal then .failed else .signalling f row.execution)
  | .resolvingCallerId attempt =>
    match (s.flows 0).state with
    | none => some (s, .awaitingReservation none 0 attempt)
    | some row =>
      if row.terminal then
        some (s, if r.startNew then .awaitingReservation (some row) 0 attempt else .failed)
      else some (s, .signalling 0 row.execution)
  | .awaitingReservation seen waits attempt =>
    if s.reserved.isSome && waits < RESERVATION_CLEAR_MAX_ATTEMPTS then
      some (s, .awaitingReservation seen (waits + 1) attempt)
    else some (s, .rereading seen attempt)
  | .rereading seen attempt =>
    match (s.flows 0).state with
    | none => some (s, retryCreate attempt)
    | some row =>
      if row.terminal then
        some (s, if isSameTerminalRun seen row ok then retryCreate attempt else .failed)
      else some (s, .signalling 0 row.execution)
  | .started _ _ | .joined _ | .signalled _ _ | .failed => none

inductive Event where
  | begin (request : Request)
  | proceed (place : Nat) (ok : Bool)
  /-- The run of the workflow ends. -/
  | finish (flow : Nat)
  | consume (flow : Nat) (signal : Signal)
  /-- A signal from elsewhere; its check of the state may be outdated. -/
  | deliver (flow : Nat) (signal : Signal)
  /-- The cleanup of an ended run, where no start of the id is under way. -/
  | cleanup (flow : Nat)
deriving DecidableEq

def Flow.finish (x : Flow) : Option Flow :=
  match x.state with
  | some ⟨execution, false⟩ => some { x with state := some ⟨execution, true⟩ }
  | _ => none

def Flow.consume (x : Flow) (signal : Signal) : Option Flow :=
  match x.state with
  | some ⟨_, false⟩ => some { x with signals := x.signals.erase signal }
  | _ => none

def Flow.cleanup (x : Flow) : Option Flow :=
  match x.state with
  | some ⟨_, true⟩ => some { x with signals := [], accepted := [] }
  | _ => none

def begin (r : Request) : Call :=
  ⟨r, if r.byKey then .resolvingKey
    else if r.signal.isSome then .readingTarget 0 else .reserving false 0⟩

def step (w : World) : Event → Option World
  | .begin r =>
    if assertValidOnTerminalConflict r then some { w with calls := w.calls ++ [begin r] } else none
  | .proceed place ok =>
    w.calls[place]?.bind fun call =>
      (act w.store place call.request ok call.stage).map fun result =>
        ⟨result.1, w.calls.set place { call with stage := result.2 }⟩
  | .finish f => (w.store.flows f).finish.map fun x => { w with store := w.store.put f x }
  | .consume f signal =>
    ((w.store.flows f).consume signal).map fun x => { w with store := w.store.put f x }
  | .deliver f signal =>
    if (f = 0 ∨ (w.store.flows f).state.isSome) ∧ signal ∉ (w.store.flows f).accepted then
      some { w with store := w.store.put f ((w.store.flows f).buffer signal) }
    else none
  | .cleanup f =>
    if w.store.reserved = none then
      (w.store.flows f).cleanup.map fun x => { w with store := w.store.put f x }
    else none

def machine : Machine World Event := ⟨step⟩

/-- The workflow that the request's id or key stands for. -/
def Request.Names (r : Request) (s : Store) (f : Nat) : Prop :=
  if r.byKey then s.mapping = some f else f = 0

/-- What a call that has reported may rely on. A signal is buffered for the execution that was read
live or for one that has displaced it since. -/
def Call.Kept (s : Store) (call : Call) : Prop :=
  match call.stage with
  | .joined f => call.request.Names s f ∧ (s.flows f).state.isSome
  | .started f e =>
    call.request.Names s f ∧ (s.flows f).state.isSome ∧
      ∀ signal ∈ call.request.signal, (e, signal) ∈ (s.flows f).heard
  | .signalled f e =>
    call.request.Names s f ∧ (s.flows f).state.isSome ∧
      ∀ signal ∈ call.request.signal, ∃ e', e ≤ e' ∧ (e', signal) ∈ (s.flows f).heard
  | _ => True

/-- No create has written over a run that had not ended, the key has one workflow with one
execution, and what the calls have reported is so. -/
structure Convergent (w : World) : Prop where
  alone : ∀ f, ∀ row ∈ (w.store.flows f).displaced, row.terminal = true
  keyed : ∀ f, f ≠ 0 → (w.store.flows f).state.isSome →
    w.store.mapping = some f ∧ (w.store.flows f).displaced = []
  kept : ∀ (i : Nat) (call : Call), w.calls[i]? = some call → call.Kept w.store

/-- The call's next step does not reach the two slips: the signal's own read of the state finds the
run not ended, and `startOrSignal` creates without its signal only where there is no run to
displace. -/
def Call.inTime (s : Store) (call : Call) : Bool :=
  match call.stage with
  | .signalling f _ => !(s.flows f).state.any (·.terminal)
  | .committing false _ _ => call.request.signal.isNone || (s.flows 0).state.isNone
  | _ => true

def inTime (w : World) : Event → Bool
  | .proceed place _ => w.calls[place]?.all (·.inTime w.store)
  | _ => true

end Weft.Start.Convergence
