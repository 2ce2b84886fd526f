import Weft.Lib.Lists
import Weft.Lib.Machine

/-! The finalizer of a workflow that was cancelled or timed out. A stored marker says that it is
owed; the drives that the timer rows of its token start read the marker, claim it, run the finalizer
and settle it, all by conditional writes on the bytes they have read or written. A step of the
machine is one storage call of a drive, or what a drive does between two of them with the clock. -/

namespace Weft.Finalizer
open Weft.Lib

def maxTeardownAttempts : Nat := 8

def teardownBackoffSchedule : List Nat := [60000, 300000, 900000, 3600000]

def defaultFinalizerStaleBudget : Nat := 5 * 60000

def teardownStaleMargin : Nat := 30000

def teardownSelfHealDelay : Nat := 30000

/-- The pause after the attempt that failed, counted from 1. -/
def teardownBackoff (failedAttempt : Nat) : Nat :=
  match failedAttempt with
  | 0 => 3600000
  | index + 1 => teardownBackoffSchedule[index]?.getD 3600000

/-- `timeout` is the finalizer's own, where it declares one. -/
def teardownStaleThreshold (timeout : Option Nat) : Nat :=
  timeout.getD defaultFinalizerStaleBudget + teardownStaleMargin

inductive ClaimStatus where
  | owed
  | running
deriving DecidableEq

/-- The tokens are drawn at random for each marker; numbers stand for them. -/
structure TeardownClaim where
  status : ClaimStatus
  attempts : Nat
  token : Nat
  claimedAt : Option Nat
deriving DecidableEq

/-- The bytes of the marker: those of a claim, or any that decode to none. -/
inductive MarkerBytes where
  | claim (claim : TeardownClaim)
  | other (bytes : Nat)
deriving DecidableEq

def owedClaim (attempts token : Nat) : TeardownClaim := ⟨.owed, attempts, token, none⟩

def runningClaim (attempts token claimedAt : Nat) : TeardownClaim :=
  ⟨.running, attempts, token, some claimedAt⟩

def runningClaimIsStale (timeout : Option Nat) (now : Nat) (claim : TeardownClaim) : Bool :=
  match claim.status, claim.claimedAt with
  | .owed, _ => true
  | .running, none => true
  | .running, some claimedAt => claimedAt + teardownStaleThreshold timeout ≤ now

structure TimerRow where
  token : Nat
  fireAt : Nat
deriving DecidableEq

inductive Outcome where
  | completed
  | deadLettered
deriving DecidableEq

/-- How `runFinalizerActivity` ends. -/
inductive AttemptResult where
  | ok
  | abortedByShutdown
  | failed
deriving DecidableEq

/-- How a storage call ends: it answers, it fails, or it fails after its write was applied. -/
inductive Reply where
  | ok
  | lost
  | applied
deriving DecidableEq

/-- Where `runWorkflowFinalizer` stands. -/
inductive DriveStage where
  | readMarker
  | clear (expectedBytes : MarkerBytes)
  | loadWorkflowState (claim : TeardownClaim)
  | resolve (claim : TeardownClaim)
  | readFinalizerState (claim : TeardownClaim)
  | deadLetterMissingState (claim : TeardownClaim)
  | encodeRunning (claim : TeardownClaim)
  | claimMarker (claim running : TeardownClaim)
  | claimed (running : TeardownClaim)
  | attempting (running : TeardownClaim)
  | settleSuccess (running : TeardownClaim)
  | settleAborted (running : TeardownClaim) (fireAt : Nat)
  | settleFailure (running : TeardownClaim) (fireAt : Nat)
  | readForDeadLetter (running : TeardownClaim)
  | deadLetter (running : TeardownClaim)
  | rearm
  | rearming (fireAt : Nat)
  /-- It has returned; the scheduler deletes the row that had fired. -/
  | returned
  | done
deriving DecidableEq

/-- A drive holds the row whose firing has started it. -/
structure Drive where
  row : TimerRow
  stage : DriveStage
deriving DecidableEq

/-- `marker`, `finalizerState` and `timers` are stored; `armed` and `outcomes` record which tokens
there have been and what was written for them. -/
structure World where
  now : Nat := 0
  marker : Option MarkerBytes := none
  finalizerState : Bool := false
  timers : List TimerRow := []
  drives : List Drive := []
  armed : List Nat := []
  outcomes : List (Nat × Outcome) := []

inductive Event where
  | tick (delay : Nat)
  /-- The batch of a cancellation or a timeout that owes a finalizer. -/
  | terminate (token : Nat)
  | loseFinalizerState
  | fire (row : TimerRow)
  /-- A drive goes on. `eligible` says whether the workflow it loads is cancelled or timed out, and
  `registered` whether its type is registered with a finalizer. -/
  | drive (place : Nat) (reply : Reply) (eligible registered : Bool)
  | finish (place : Nat) (result : AttemptResult)
  | crash (place : Nat)
  | deleteFired (place : Nat)

def setDrive (w : World) (place : Nat) (d : Drive) (stage : DriveStage) : World :=
  { w with drives := w.drives.set place { d with stage := stage } }

/-- A batch on the condition that the marker still has the expected bytes. A call that fails leaves
the drive to its catch clause, which arms the timer again. -/
def settleOn (w : World) (place : Nat) (d : Drive) (expectedBytes : MarkerBytes) (reply : Reply)
    (write : World → World) (settled lost : DriveStage) : World :=
  let w' := if reply ≠ .lost ∧ w.marker = some expectedBytes then write w else w
  setDrive w' place d
    (if reply = .ok then if w.marker = some expectedBytes then settled else lost else .rearm)

def clearMarker (w : World) : World := { w with marker := none }

/-- The batches of success and of the dead letter: both active keys go. -/
def writeOutcome (token : Nat) (outcome : Outcome) (w : World) : World := { w with
  marker := none
  finalizerState := false
  outcomes := (token, outcome) :: w.outcomes }

def writeClaim (claim : TeardownClaim) (w : World) : World :=
  { w with marker := some (.claim claim) }

/-- A claim that is owed again, with the timer for it. -/
def writeOwed (attempts : Nat) (row : TimerRow) (w : World) : World := { w with
  marker := some (.claim (owedClaim attempts row.token))
  timers := row :: w.timers }

def driveStep (timeout : Option Nat) (w : World) (place : Nat) (d : Drive) (reply : Reply)
    (eligible registered : Bool) : Option World :=
  match d.stage with
  | .readMarker =>
    if reply ≠ .ok then some (setDrive w place d .rearm)
    else match w.marker with
    | none => some (setDrive w place d .returned)
    | some (.other bytes) => some (setDrive w place d (.clear (.other bytes)))
    | some (.claim claim) =>
      if claim.token = d.row.token then some (setDrive w place d (.loadWorkflowState claim))
      else some (setDrive w place d .returned)
  | .clear expectedBytes =>
    some (settleOn w place d expectedBytes reply clearMarker .returned .rearm)
  | .loadWorkflowState claim =>
    if reply ≠ .ok then some (setDrive w place d .rearm)
    else if eligible then some (setDrive w place d (.resolve claim))
    else some (setDrive w place d (.clear (.claim claim)))
  | .resolve claim =>
    if registered ∧ runningClaimIsStale timeout w.now claim then
      some (setDrive w place d (.readFinalizerState claim))
    else some (setDrive w place d .rearm)
  | .readFinalizerState claim =>
    if reply ≠ .ok then some (setDrive w place d .rearm)
    else if w.finalizerState then some (setDrive w place d (.encodeRunning claim))
    else some (setDrive w place d (.deadLetterMissingState claim))
  | .deadLetterMissingState claim =>
    some (settleOn w place d (.claim claim) reply (writeOutcome claim.token .deadLettered)
      .returned .returned)
  | .encodeRunning claim => some (setDrive w place d
      (.claimMarker claim (runningClaim claim.attempts d.row.token w.now)))
  | .claimMarker claim running =>
    some (settleOn w place d (.claim claim) reply (writeClaim running) (.claimed running) .rearm)
  | .claimed running => some (setDrive w place d (.attempting running))
  | .settleSuccess running =>
    some (settleOn w place d (.claim running) reply (writeOutcome running.token .completed)
      .returned .rearm)
  | .settleAborted running fireAt =>
    some (settleOn w place d (.claim running) reply
      (writeOwed running.attempts ⟨d.row.token, fireAt⟩) .returned .rearm)
  | .settleFailure running fireAt =>
    some (settleOn w place d (.claim running) reply
      (writeOwed (running.attempts + 1) ⟨d.row.token, fireAt⟩) .returned .rearm)
  | .readForDeadLetter running =>
    if reply ≠ .ok then some (setDrive w place d .rearm)
    else some (setDrive w place d (.deadLetter running))
  | .deadLetter running =>
    some (settleOn w place d (.claim running) reply (writeOutcome running.token .deadLettered)
      .returned .rearm)
  | .rearm => some (setDrive w place d (.rearming (w.now + teardownSelfHealDelay)))
  | .rearming fireAt =>
    -- `rearmTeardownTimer` swallows what the write throws
    let w' := if reply ≠ .lost then { w with timers := ⟨d.row.token, fireAt⟩ :: w.timers } else w
    some (setDrive w' place d .returned)
  | _ => none

/-- The attempt ends, and the drive goes on to the batch that settles it. -/
def finishStep (w : World) (place : Nat) (d : Drive) (result : AttemptResult) : Option World :=
  match d.stage with
  | .attempting running =>
    let attempt := running.attempts + 1
    match result with
    | .ok => some (setDrive w place d (.settleSuccess running))
    | .abortedByShutdown =>
      some (setDrive w place d (.settleAborted running (w.now + teardownSelfHealDelay)))
    | .failed =>
      if maxTeardownAttempts ≤ attempt then some (setDrive w place d (.readForDeadLetter running))
      else some (setDrive w place d (.settleFailure running (w.now + teardownBackoff attempt)))
  | _ => none

def finalizerMachine (timeout : Option Nat) : Machine World Event where
  step := fun w event =>
    match event with
    | .tick delay => some { w with now := w.now + delay }
    | .terminate token =>
      if token ∈ w.armed then none
      else some { w with
        marker := some (.claim (owedClaim 0 token))
        finalizerState := true
        timers := ⟨token, w.now⟩ :: w.timers
        armed := token :: w.armed }
    | .loseFinalizerState => some { w with finalizerState := false }
    | .fire row =>
      if row ∈ w.timers ∧ row.fireAt ≤ w.now then
        some { w with drives := w.drives ++ [⟨row, .readMarker⟩] }
      else none
    | .drive place reply eligible registered =>
      (w.drives[place]?).bind fun d => driveStep timeout w place d reply eligible registered
    | .finish place result => (w.drives[place]?).bind fun d => finishStep w place d result
    | .crash place => (w.drives[place]?).map fun d => setDrive w place d .done
    | .deleteFired place => (w.drives[place]?).bind fun d =>
      if d.stage = .returned then some { setDrive w place d .done with
        timers := w.timers.filter (· ≠ d.row) }
      else none

end Weft.Finalizer
