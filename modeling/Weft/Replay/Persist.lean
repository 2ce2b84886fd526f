import Weft.Replay.Checkpoint
import Weft.EventLog.Watermark

/-! Persisting checkpoints. Each is written as the latest one and into the history, and an event
with the entries that were pruned from it is appended to the log of the workflow, which is
compacted in the same batch. -/

namespace Weft.Replay
open Weft.Js Weft.Lib Weft.Storage Weft.EventLog

universe u

/-- How checkpoints and their events are stored. -/
structure CheckpointCodec (V T α : Type u) where
  log : LogCodec V (CheckpointEventPayload α) T (CheckpointReplayPayload α)
  serializeCheckpoint : Checkpoint α → V
  deserializeCheckpoint : V → Option (Checkpoint α)
  deserialize_serialize : ∀ checkpoint,
    deserializeCheckpoint (serializeCheckpoint checkpoint) = some checkpoint
  log_read : ∀ payload, log.readCheckpointReplayPayload payload =
    readCheckpointReplayPayload payload.replayPayload
  log_merge : ∀ left right, log.mergeCheckpointReplayPayloads left right =
    mergeCheckpointReplayPayloads left right

variable {V T α : Type u} (codec : CheckpointCodec V T α)

/-! ## Hydration -/

def readCompactedCheckpointReplayPayload (s : Store V) (workflowId : Component) :
    Option (CheckpointReplayPayload α) :=
  ((s.get (KEYS.eventWatermark workflowId)).bind codec.log.decodeWatermark).bind fun watermark =>
    readCheckpointReplayPayload watermark.checkpointReplay

/-- The events of the log as a scan of its prefix yields them. -/
def scannedEvents (s : Store V) (workflowId : Component) : List (CheckpointEventPayload α) :=
  (scan s (KEYS.eventPrefix workflowId) {}).filterMap fun row =>
    (codec.log.decodeEntry row.2).map (·.payload)

def hydrateCheckpointReplayState (s : Store V) (workflowId : Component)
    (checkpoint : Checkpoint α) : Checkpoint α :=
  hydrateCheckpointReplayStateFromPayloads checkpoint
    ((readCheckpointReplayPayload checkpoint.replayPayload).toList ++
      (readCompactedCheckpointReplayPayload codec s workflowId).toList ++
      replayPayloadsUpTo checkpoint.step (scannedEvents codec s workflowId))

/-- The checkpoint at a key, hydrated; `none` where there is none. -/
def loadCheckpoint (s : Store V) (workflowId : Component) (key : JsString) :
    Option (Checkpoint α) :=
  ((s.get key).bind codec.deserializeCheckpoint).map
    (hydrateCheckpointReplayState codec s workflowId)

/-! ## Persisting -/

inductive ExecutionMode where
  | inline
  | worker
deriving DecidableEq, Repr

/-- What a checkpoint is taken of, and where. The worker's own checkpoint is not advanced when
the pending operation was persisted before. -/
structure CheckpointRequest (T α : Type u) where
  entries : ReplayEntries α
  locals : OrderedStore JsString α
  searchAttributes : List (JsString × α)
  now : Int
  stepIndex : Nat
  operationStep : Option Nat
  advances : Bool
  checkpointHistory : Nat
  retentionWindow : Option Nat
  timestamp : JsNumber
  versionTuple : Option T

/-- The checkpoint of `persistInlineCheckpoint` and its payload. -/
def inlineCheckpoint (current : Checkpoint α) (request : CheckpointRequest T α) :
    Checkpoint α × Option (CheckpointReplayPayload α) :=
  pruneCheckpointReplayState
    (advanceCheckpoint current request.locals (request.entries .accumulatedResults)
      request.searchAttributes request.now)
    (resolvePendingOperationStep request.operationStep request.stepIndex)

/-- The checkpoint that the worker sends. -/
def workerCheckpoint (worker : Checkpoint α) (request : CheckpointRequest T α) : Checkpoint α :=
  let worker := { worker with locals := request.locals }
  if request.advances then
    advanceWorkerCheckpoint request.entries worker request.now request.stepIndex
  else pruneWorkerCheckpoint request.entries worker request.stepIndex

/-- The checkpoint of `persistWorkerCheckpoint` and its payload. -/
def persistedWorkerCheckpoint (checkpoint : Checkpoint α) (request : CheckpointRequest T α) :
    Checkpoint α × Option (CheckpointReplayPayload α) :=
  let workerReplayPayload := readCheckpointReplayPayload checkpoint.replayPayload
  let pruned := pruneCheckpointReplayState checkpoint
    (resolvePendingOperationStep request.operationStep checkpoint.step)
  (pruned.1, mergeCheckpointReplayPayloads workerReplayPayload pruned.2)

def checkpointOperations (workflowId : Component) (checkpoint : Checkpoint α)
    (replayPayload : Option (CheckpointReplayPayload α)) (checkpointHistory : Nat) :
    List (BatchOperation V) :=
  let serialized := codec.serializeCheckpoint
    (attachTransientCheckpointReplayPayload checkpoint replayPayload)
  .put (KEYS.checkpoint workflowId) serialized ::
    if 0 < checkpointHistory then [.put (KEYS.checkpointHistory workflowId checkpoint.step)
      serialized]
    else []

def checkpointCommit (workflowId : Component) (checkpoint : Checkpoint α)
    (replayPayload : Option (CheckpointReplayPayload α)) (request : CheckpointRequest T α) :
    LogCommit (CheckpointEventPayload α) T where
  workflowId := workflowId
  event :=
    { type := js "workflow:checkpoint"
      payload := ⟨checkpoint.step, replayPayload⟩
      timestamp := request.timestamp
      versionTuple := request.versionTuple }
  retentionWindow := request.retentionWindow

def commitCheckpoint (s : Store V) (workflowId : Component) (checkpoint : Checkpoint α)
    (replayPayload : Option (CheckpointReplayPayload α)) (request : CheckpointRequest T α) :
    Option (Store V) :=
  let commit := checkpointCommit workflowId checkpoint replayPayload request
  let head := readEventHead codec.log s workflowId
  if head.sequence + 1 ≤ MAX_SAFE_INTEGER then
    batch s (checkpointOperations codec workflowId checkpoint replayPayload
        request.checkpointHistory ++
      (appendToBatch codec.log workflowId commit.event head ++
        appendCompactionOperations codec.log s workflowId (head.sequence + 1)
          (normalizePositiveCountOrDisabled commit.retentionWindow)))
  else none

/-! ## Runs -/

/-- A workflow with its checkpoints. `held` are the entries that the latest checkpoint would
have if it were not pruned, and `events` the log as it would be if it were not compacted. -/
structure ReplayState (V α : Type u) where
  store : Store V
  current : Checkpoint α
  worker : Checkpoint α
  held : ReplayEntries α
  events : List (CheckpointEventPayload α)

/-- What a checkpoint leaves: the checkpoint itself, its payload, and the worker's own. -/
structure PersistedCheckpoint (α : Type u) where
  checkpoint : Checkpoint α
  replayPayload : Option (CheckpointReplayPayload α)
  worker : Checkpoint α

def ReplayState.persist (mode : ExecutionMode) (state : ReplayState V α)
    (request : CheckpointRequest T α) : PersistedCheckpoint α :=
  match mode with
  | .inline =>
    let persisted := inlineCheckpoint state.current request
    ⟨persisted.1, persisted.2, state.worker⟩
  | .worker =>
    let worker := workerCheckpoint state.worker request
    let persisted := persistedWorkerCheckpoint worker request
    ⟨persisted.1, persisted.2, worker⟩

/-- The entries without pruning; an inline run has results only. -/
def ReplayState.heldAfter (mode : ExecutionMode) (state : ReplayState V α)
    (request : CheckpointRequest T α) : ReplayEntries α :=
  match mode with
  | .inline =>
    Function.update state.held .accumulatedResults (request.entries .accumulatedResults)
  | .worker => request.entries

inductive ReplayStep (T α : Type u) where
  | checkpoint (request : CheckpointRequest T α)
  /-- the workflow is loaded from its latest checkpoint -/
  | resume
  /-- a checkpoint is deleted from the history -/
  | forget (step : Nat)

def replayMachine (mode : ExecutionMode) (workflowId : Component) :
    Machine (ReplayState V α) (ReplayStep T α) where
  step state
    | .checkpoint request =>
      let persisted := state.persist mode request
      (commitCheckpoint codec state.store workflowId persisted.checkpoint persisted.replayPayload
        request).map fun t =>
          { store := t
            current := persisted.checkpoint
            worker := persisted.worker
            held := state.heldAfter mode request
            events := state.events ++ [⟨persisted.checkpoint.step, persisted.replayPayload⟩] }
    | .resume =>
      (loadCheckpoint codec state.store workflowId (KEYS.checkpoint workflowId)).map fun loaded =>
        { state with current := loaded, worker := loaded }
    | .forget step =>
      some { state with store := state.store.delete (KEYS.checkpointHistory workflowId step) }

end Weft.Replay

/-! A codec that keeps checkpoints and events as they are, and a workflow that is stored with it. -/

namespace Weft.Replay
open Weft.Js Weft.Lib Weft.Storage Weft.EventLog

inductive ReplayValue where
  | entry (x : WorkflowLogEntry (CheckpointEventPayload Nat) JsString)
  | head (x : EventHeadRecord)
  | watermark (x : EventLogWatermark (CheckpointReplayPayload Nat))
  | checkpoint (x : Checkpoint Nat)

/-- The number of an entry, after the hash of the one before it. -/
def ReplayValue.text : ReplayValue → JsString
  | .entry x => 2 :: (field x.prevHash ++ integerField x.sequence)
  | .head x => 3 :: integerField x.sequence
  | .watermark x => 4 :: integerField x.sequence
  | .checkpoint x => 5 :: integerField x.step

def plainCheckpointCodec : CheckpointCodec ReplayValue JsString Nat where
  log :=
    { encodeEntry := .entry
      decodeEntry := fun
        | .entry x => some x
        | _ => none
      encodeHead := .head
      decodeHead := fun
        | .head x => some x
        | _ => none
      encodeWatermark := .watermark
      decodeWatermark := fun
        | .watermark x => some x
        | _ => none
      hashBytes := ReplayValue.text
      readCheckpointReplayPayload := fun payload =>
        readCheckpointReplayPayload payload.replayPayload
      mergeCheckpointReplayPayloads := mergeCheckpointReplayPayloads
      decodeEntry_encode := fun _ => rfl
      decodeHead_encode := fun _ => rfl
      decodeWatermark_encode := fun _ => rfl
      decodeEntry_head := fun _ => rfl
      decodeEntry_watermark := fun _ => rfl
      hashBytes_ne_nil := fun v => by cases v <;> exact List.cons_ne_nil _ _ }
  serializeCheckpoint := .checkpoint
  deserializeCheckpoint
    | .checkpoint x => some x
    | _ => none
  deserialize_serialize _ := rfl
  log_read _ := rfl
  log_merge _ _ := rfl

def replayRun : Component := ⟨js "run-1", isSome_encode_run⟩

/-- A checkpoint before the first operation. -/
def firstCheckpoint : Checkpoint Nat where
  workflowId := replayRun.text
  step := 0
  locals := OrderedStore.empty
  entries := fun _ => []
  accumulatedResultReplayWatermark := none
  searchAttributes := OrderedStore.empty
  version := js "1"
  schemaVersion := 1
  createdAt := 0
  replayPayload := none

def startedRun : ReplayState ReplayValue Nat where
  store := OrderedStore.empty.put (KEYS.checkpoint replayRun) (.checkpoint firstCheckpoint)
  current := firstCheckpoint
  worker := firstCheckpoint
  held := fun _ => []
  events := []

/-- A checkpoint of an inline run with these results, before the operation at a step, or with
a number of steps taken. -/
def resultsAt (results : List (Nat × Nat)) (stepIndex : Nat) (operationStep : Option Nat)
    (retentionWindow : Option Nat) : CheckpointRequest JsString Nat where
  entries := Function.update (fun _ => []) .accumulatedResults results
  locals := OrderedStore.empty
  searchAttributes := []
  now := 0
  stepIndex := stepIndex
  operationStep := operationStep
  advances := true
  checkpointHistory := 10
  retentionWindow := retentionWindow
  timestamp := ⟨16, 2, canonical_1600⟩
  versionTuple := none

end Weft.Replay
