import Weft.Lib.InsertionMap
import Weft.Lib.Machine
import Weft.Replay.Checkpoint

/-! The runner inside a worker: the replay state of a run, which is rebuilt from the checkpoint
of its run message, and what the runner does with an operation that the generator yields. -/

namespace Weft.Runner

open Weft.Js Weft.Lib Weft.Replay

universe u

/-- Results, signatures and failures are by step index. -/
structure WorkerReplayState (α : Type u) where
  checkpoint : Checkpoint α
  accumulatedResults : InsertionMap Nat α
  signatures : InsertionMap Nat α
  failedOutcomes : InsertionMap Nat α
  nextStepIndex : Nat
  pendingStepIndex : Option Nat
  maxProtocolMessageBytes : Option Nat

inductive OperationOutcome (α : Type u) where
  | completed (value : α)
  | failed (failure : α)

/-- What a suspended generator is given: `next` with a value or with none, or `throw`. -/
inductive Resumption (α : Type u) where
  | next (value : Option α)
  | throw (failure : α)

variable {α : Type u}

/-- `new Map(entries)` -/
def mapOfEntries (entries : List (Nat × α)) : InsertionMap Nat α :=
  entries.foldl (fun m entry => m.set entry.1 entry.2) .empty

def createCheckpoint (workflowId version : JsString) (now : Int) : Checkpoint α where
  workflowId := workflowId
  step := 0
  locals := .empty
  entries := fun _ => []
  accumulatedResultReplayWatermark := none
  searchAttributes := .empty
  version := version
  schemaVersion := 2
  createdAt := now
  replayPayload := none

def deserializeWorkerCheckpoint (checkpoint : Checkpoint α) : Checkpoint α :=
  hydrateCheckpointReplayStateFromPayload checkpoint
    (readCheckpointReplayPayload checkpoint.replayPayload)

/-- `checkpoint` is what the bytes of the run message hold, where it has any. -/
def createReplayState (workflowId : JsString) (checkpoint : Option (Checkpoint α))
    (maxProtocolMessageBytes : Option Nat) (now : Int) : WorkerReplayState α :=
  let checkpoint := match checkpoint with
    | some stored => deserializeWorkerCheckpoint stored
    | none => createCheckpoint workflowId (js "worker") now
  { checkpoint
    accumulatedResults := mapOfEntries (checkpoint.entries .accumulatedResults)
    signatures := mapOfEntries (checkpoint.entries .workerReplaySignatures)
    failedOutcomes := mapOfEntries (checkpoint.entries .workerReplayFailures)
    nextStepIndex := 0
    pendingStepIndex := none
    maxProtocolMessageBytes }

/-- The outcome of the pending operation is stored at its step, and the next step follows. -/
def recordOperationOutcome (replayState : WorkerReplayState α) (outcome : OperationOutcome α) :
    WorkerReplayState α :=
  match replayState.pendingStepIndex with
  | none => replayState
  | some step =>
    match outcome with
    | .failed failure =>
      { replayState with
        failedOutcomes := replayState.failedOutcomes.set step failure
        accumulatedResults := replayState.accumulatedResults.delete step
        nextStepIndex := step + 1
        pendingStepIndex := none }
    | .completed value =>
      { replayState with
        accumulatedResults := replayState.accumulatedResults.set step value
        failedOutcomes := replayState.failedOutcomes.delete step
        nextStepIndex := step + 1
        pendingStepIndex := none }

def resumeGeneratorWithOutcome : OperationOutcome α → Resumption α
  | .failed failure => .throw failure
  | .completed value => .next (some value)

def hasCachedWorkerOutcome (replayState : WorkerReplayState α) (stepIndex : Nat) : Bool :=
  replayState.accumulatedResults.has stepIndex || replayState.failedOutcomes.has stepIndex

def replayGeneratorStep (replayState : WorkerReplayState α) (stepIndex : Nat) : Resumption α :=
  match replayState.failedOutcomes.get stepIndex with
  | some failure => .throw failure
  | none => .next (replayState.accumulatedResults.get stepIndex)

/-- What the replay state has for the entries of a checkpoint. -/
def WorkerReplayState.entries (replayState : WorkerReplayState α) : ReplayEntries α
  | .accumulatedResults => replayState.accumulatedResults.entries
  | .workerReplaySignatures => replayState.signatures.entries
  | .workerReplayFailures => replayState.failedOutcomes.entries

/-- How `processGeneratorStep` goes on when it has the signature of an operation. -/
inductive StepDecision (α : Type u) where
  /-- The step is recorded: the generator goes on with its outcome. -/
  | replay (replayState : WorkerReplayState α) (resumption : Resumption α)
  /-- The signature is missing, or differs from the recorded one. -/
  | mismatch
  /-- The operation is pending: the checkpoint is sent with it. -/
  | checkpoint (replayState : WorkerReplayState α)

def processSignedOperation [DecidableEq α] (replayState : WorkerReplayState α) (stepIndex : Nat)
    (signature : α) (now : Int) : StepDecision α :=
  if hasCachedWorkerOutcome replayState stepIndex then
    match replayState.signatures.get stepIndex with
    | none => .mismatch
    | some persisted =>
      if signature ≠ persisted then .mismatch
      else .replay { replayState with nextStepIndex := stepIndex + 1 }
        (replayGeneratorStep replayState stepIndex)
  else
    match replayState.signatures.get stepIndex with
    | some persisted =>
      if signature ≠ persisted then .mismatch
      else
        .checkpoint { replayState with
          checkpoint := pruneWorkerCheckpoint replayState.entries replayState.checkpoint stepIndex
          pendingStepIndex := some stepIndex }
    | none =>
      let signed := { replayState with
        signatures := replayState.signatures.set stepIndex signature }
      .checkpoint { signed with
        checkpoint := advanceWorkerCheckpoint signed.entries signed.checkpoint now stepIndex
        pendingStepIndex := some stepIndex }

end Weft.Runner
