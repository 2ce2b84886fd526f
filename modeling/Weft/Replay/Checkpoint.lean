import Weft.Js.Text
import Weft.Lib.Entries

/-! The replay entries of a checkpoint: results, signatures and failures by step. What lies
before the pending operation is moved from the checkpoint to the payload of its event, and
hydration puts it back. -/

namespace Weft.Replay
open Weft.Js Weft.Lib

universe u

inductive ReplayKind where
  | accumulatedResults
  | workerReplaySignatures
  | workerReplayFailures
deriving DecidableEq, Repr

instance : Fintype ReplayKind where
  elems := {.accumulatedResults, .workerReplaySignatures, .workerReplayFailures}
  complete kind := by cases kind <;> decide

/-- Entries by kind. A kind that is absent has none. -/
abbrev ReplayEntries (α : Type u) := ReplayKind → List (Nat × α)

abbrev CheckpointReplayPayload (α : Type u) := ReplayEntries α

structure Checkpoint (α : Type u) where
  workflowId : JsString
  step : Nat
  locals : OrderedStore JsString α
  entries : ReplayEntries α
  accumulatedResultReplayWatermark : Option Nat
  searchAttributes : OrderedStore JsString α
  version : JsString
  schemaVersion : Nat
  createdAt : Int
  /-- `__weftCheckpointReplay`, which only a stored checkpoint carries -/
  replayPayload : Option (CheckpointReplayPayload α)

/-- The payload of a `workflow:checkpoint` event. -/
structure CheckpointEventPayload (α : Type u) where
  step : Nat
  replayPayload : Option (CheckpointReplayPayload α)

variable {α : Type u}

/-! ## Payloads -/

def buildReplayPayload (payload : ReplayEntries α) : Option (CheckpointReplayPayload α) :=
  if (payload .accumulatedResults).isEmpty && (payload .workerReplaySignatures).isEmpty &&
    (payload .workerReplayFailures).isEmpty then none else some payload

def mergeCheckpointReplayPayloads (left right : Option (CheckpointReplayPayload α)) :
    Option (CheckpointReplayPayload α) :=
  match left, right with
  | none, right => right
  | left, none => left
  | some left, some right => buildReplayPayload fun kind => left kind ++ right kind

/-- Payloads are checked as they are read; one without entries is none. -/
def readCheckpointReplayPayload (payload : Option (CheckpointReplayPayload α)) :
    Option (CheckpointReplayPayload α) :=
  payload.bind buildReplayPayload

/-! ## Pruning -/

def NO_REPLAY_WATERMARK : Int := -1

def entriesBeforeStep (entries : List (Nat × α)) (step : Nat) : List (Nat × α) :=
  entries.filter fun entry => entry.1 < step

def entriesAtOrAfterStep (entries : List (Nat × α)) (step : Nat) : List (Nat × α) :=
  entries.filter fun entry => step ≤ entry.1

def entriesAfterWatermark (entries : List (Nat × α)) (watermark : Int) : List (Nat × α) :=
  entries.filter fun entry => watermark < entry.1

def resolveNextReplayWatermark (previousWatermark : Int)
    (replayPayload : Option (CheckpointReplayPayload α)) : Int :=
  match replayPayload with
  | none => previousWatermark
  | some payload =>
    (payload .accumulatedResults ++ payload .workerReplaySignatures ++
      payload .workerReplayFailures).foldl (fun watermark entry => max watermark entry.1)
        previousWatermark

def Checkpoint.previousWatermark (checkpoint : Checkpoint α) : Int :=
  (checkpoint.accumulatedResultReplayWatermark.map fun watermark => (watermark : Int)).getD
    NO_REPLAY_WATERMARK

def pruneCheckpointReplayState (checkpoint : Checkpoint α) (pendingOperationStep : Nat) :
    Checkpoint α × Option (CheckpointReplayPayload α) :=
  let previousWatermark := checkpoint.previousWatermark
  let replayPayload := buildReplayPayload fun kind => entriesAfterWatermark
    (entriesBeforeStep (checkpoint.entries kind) pendingOperationStep) previousWatermark
  let nextWatermark := resolveNextReplayWatermark previousWatermark replayPayload
  ({ checkpoint with
      entries := fun kind => entriesAtOrAfterStep (checkpoint.entries kind) pendingOperationStep
      accumulatedResultReplayWatermark :=
        if nextWatermark = NO_REPLAY_WATERMARK then none else some nextWatermark.toNat
      replayPayload := none },
    replayPayload)

def attachTransientCheckpointReplayPayload (checkpoint : Checkpoint α)
    (replayPayload : Option (CheckpointReplayPayload α)) : Checkpoint α :=
  match replayPayload with
  | none => checkpoint
  | some payload => { checkpoint with replayPayload := some payload }

/-! ## Hydration -/

def mergeReplayPayload (target : ReplayKind → OrderedStore Nat α)
    (replayPayload : CheckpointReplayPayload α) : ReplayKind → OrderedStore Nat α :=
  fun kind => (target kind).putAll (replayPayload kind)

def hydrateCheckpointReplayStateFromPayloads (checkpoint : Checkpoint α)
    (replayPayloads : List (CheckpointReplayPayload α)) : Checkpoint α :=
  let merged := replayPayloads.foldl mergeReplayPayload fun _ => OrderedStore.empty
  { checkpoint with
    entries := fun kind => (mergeReplayPayload merged checkpoint.entries kind).entries
    replayPayload := none }

def hydrateCheckpointReplayStateFromPayload (checkpoint : Checkpoint α)
    (replayPayload : Option (CheckpointReplayPayload α)) : Checkpoint α :=
  hydrateCheckpointReplayStateFromPayloads checkpoint replayPayload.toList

/-- The payloads of the events of a log up to the first one of a later checkpoint. -/
def replayPayloadsUpTo (checkpointStep : Nat) :
    List (CheckpointEventPayload α) → List (CheckpointReplayPayload α)
  | [] => []
  | event :: events =>
    if checkpointStep < event.step then []
    else (readCheckpointReplayPayload event.replayPayload).toList ++
      replayPayloadsUpTo checkpointStep events

/-! ## Advancing -/

def advanceCheckpoint (checkpoint : Checkpoint α) (locals : OrderedStore JsString α)
    (accumulatedResults : List (Nat × α)) (searchAttributes : List (JsString × α)) (now : Int) :
    Checkpoint α := { checkpoint with
  step := checkpoint.step + 1
  locals := locals
  entries := Function.update checkpoint.entries .accumulatedResults accumulatedResults
  searchAttributes := checkpoint.searchAttributes.putAll searchAttributes
  createdAt := now
  replayPayload := none }

/-- `entries` are the results, signatures and failures that the worker holds. -/
def pruneWorkerCheckpoint (entries : ReplayEntries α) (checkpoint : Checkpoint α)
    (pendingOperationStep : Nat) : Checkpoint α :=
  let pruned := pruneCheckpointReplayState { checkpoint with entries := entries }
    pendingOperationStep
  attachTransientCheckpointReplayPayload pruned.1 pruned.2

def advanceWorkerCheckpoint (entries : ReplayEntries α) (checkpoint : Checkpoint α) (now : Int)
    (pendingOperationStep : Nat) : Checkpoint α :=
  pruneWorkerCheckpoint entries
    (advanceCheckpoint checkpoint checkpoint.locals (entries .accumulatedResults) [] now)
    pendingOperationStep

def resolvePendingOperationStep (operationStep : Option Nat) (fallbackStepIndex : Nat) : Nat :=
  operationStep.getD (fallbackStepIndex - 1)

/-! ## What they do to the entries -/

/-- The entries of a payload that may be absent. -/
def payloadEntries (payload : Option (CheckpointReplayPayload α)) : ReplayEntries α :=
  payload.getD fun _ => []

/-- The entries of the payloads of events, in the order of the events. -/
def eventEntries (kind : ReplayKind) (events : List (CheckpointEventPayload α)) : List (Nat × α) :=
  events.flatMap fun event => payloadEntries event.replayPayload kind

theorem eventEntries_append (kind : ReplayKind) (a b : List (CheckpointEventPayload α)) :
    eventEntries kind (a ++ b) = eventEntries kind a ++ eventEntries kind b :=
  List.flatMap_append

theorem payloadEntries_build (payload : ReplayEntries α) :
    payloadEntries (buildReplayPayload payload) = payload := by
  rw [buildReplayPayload]
  split_ifs with hempty
  · simp only [Bool.and_eq_true, List.isEmpty_iff] at hempty
    obtain ⟨⟨hresults, hsignatures⟩, hfailures⟩ := hempty
    funext kind
    cases kind with
    | accumulatedResults => exact hresults.symm
    | workerReplaySignatures => exact hsignatures.symm
    | workerReplayFailures => exact hfailures.symm
  · rfl

theorem payloadEntries_read (payload : Option (CheckpointReplayPayload α)) :
    payloadEntries (readCheckpointReplayPayload payload) = payloadEntries payload := by
  cases payload with
  | none => rfl
  | some payload => exact payloadEntries_build payload

theorem payloadEntries_merge (left right : Option (CheckpointReplayPayload α)) (kind : ReplayKind) :
    payloadEntries (mergeCheckpointReplayPayloads left right) kind =
      payloadEntries left kind ++ payloadEntries right kind := by
  cases left with
  | none => rfl
  | some left =>
    cases right with
    | none => exact (List.append_nil _).symm
    | some right =>
      exact congrFun (payloadEntries_build fun kind => left kind ++ right kind) kind

theorem payloadEntries_toList (payload : Option (CheckpointReplayPayload α)) (kind : ReplayKind) :
    payload.toList.flatMap (· kind) = payloadEntries payload kind := by
  cases payload with
  | none => rfl
  | some payload => exact List.append_nil _

theorem replayPayloadsUpTo_entries (checkpointStep : Nat)
    (events : List (CheckpointEventPayload α)) (kind : ReplayKind) :
    (replayPayloadsUpTo checkpointStep events).flatMap (· kind) =
      eventEntries kind (events.takeWhile fun event => event.step ≤ checkpointStep) := by
  induction events with
  | nil => rfl
  | cons event events ih =>
    rw [replayPayloadsUpTo]
    split_ifs with hlater
    · rw [List.takeWhile_cons_of_neg (by simpa using hlater)]
      rfl
    · rw [List.takeWhile_cons_of_pos (by simpa using hlater), List.flatMap_append, ih,
        payloadEntries_toList, payloadEntries_read]
      rfl

theorem get_mergePayloads (payloads : List (CheckpointReplayPayload α))
    (target : ReplayKind → OrderedStore Nat α) (kind : ReplayKind) (step : Nat) :
    (payloads.foldl mergeReplayPayload target kind).get step =
      (lastOf (payloads.flatMap (· kind)) step).or ((target kind).get step) := by
  induction payloads generalizing target with
  | nil => rfl
  | cons payload payloads ih =>
    rw [List.foldl_cons, ih, List.flatMap_cons, lastOf_append, mergeReplayPayload,
      OrderedStore.get_putAll, Option.or_assoc]

/-- What the checkpoint has itself counts, then the last payload that has it. -/
theorem lastOf_hydrated (checkpoint : Checkpoint α)
    (replayPayloads : List (CheckpointReplayPayload α)) (kind : ReplayKind) (step : Nat) :
    lastOf ((hydrateCheckpointReplayStateFromPayloads checkpoint replayPayloads).entries kind)
      step =
      (lastOf (checkpoint.entries kind) step).or
        (lastOf (replayPayloads.flatMap (· kind)) step) := by
  show lastOf (mergeReplayPayload _ checkpoint.entries kind).entries step = _
  rw [lastOf_entries, mergeReplayPayload, OrderedStore.get_putAll, get_mergePayloads,
    OrderedStore.get_empty, Option.or_none]

theorem lastOf_pruned_entries (checkpoint : Checkpoint α) (pendingOperationStep : Nat)
    (kind : ReplayKind) (step : Nat) :
    lastOf ((pruneCheckpointReplayState checkpoint pendingOperationStep).1.entries kind) step =
      if pendingOperationStep ≤ step then lastOf (checkpoint.entries kind) step else none := by
  show lastOf (entriesAtOrAfterStep (checkpoint.entries kind) pendingOperationStep) step = _
  rw [entriesAtOrAfterStep, lastOf_filter (fun step => decide (pendingOperationStep ≤ step))]
  simp only [decide_eq_true_eq]

theorem lastOf_pruned_payload (checkpoint : Checkpoint α) (pendingOperationStep : Nat)
    (kind : ReplayKind) (step : Nat) :
    lastOf (payloadEntries (pruneCheckpointReplayState checkpoint pendingOperationStep).2 kind)
      step =
      if step < pendingOperationStep ∧ checkpoint.previousWatermark < step then
        lastOf (checkpoint.entries kind) step else none := by
  simp only [pruneCheckpointReplayState]
  rw [payloadEntries_build, entriesAfterWatermark,
    lastOf_filter (fun step : Nat => decide (checkpoint.previousWatermark < step)),
      entriesBeforeStep,
    lastOf_filter (fun step => decide (step < pendingOperationStep))]
  by_cases hbefore : step < pendingOperationStep <;>
    by_cases hafter : checkpoint.previousWatermark < (step : Int) <;> simp [hbefore, hafter]

theorem lt_foldl_max {entries : List (Nat × α)} {watermark : Int} {step : Nat} :
    entries.foldl (fun watermark entry => max watermark (entry.1 : Int)) watermark < step ↔
      watermark < step ∧ ∀ entry ∈ entries, entry.1 < step := by
  induction entries generalizing watermark with
  | nil => simp
  | cons entry entries ih =>
    rw [List.foldl_cons, ih, max_lt_iff, List.forall_mem_cons, Int.ofNat_lt, and_assoc]

theorem resolveNextReplayWatermark_lt (watermark : Int)
    (replayPayload : Option (CheckpointReplayPayload α)) (step : Nat) :
    resolveNextReplayWatermark watermark replayPayload < step ↔
      watermark < step ∧ ∀ kind, ∀ entry ∈ payloadEntries replayPayload kind, entry.1 < step := by
  cases replayPayload with
  | none => simp [resolveNextReplayWatermark, payloadEntries]
  | some payload =>
    rw [resolveNextReplayWatermark, lt_foldl_max]
    refine and_congr_right fun _ => ⟨fun hall kind entry hentry => hall entry ?_,
      fun hall entry hentry => ?_⟩
    · rw [List.mem_append, List.mem_append]
      cases kind with
      | accumulatedResults => exact .inl (.inl hentry)
      | workerReplaySignatures => exact .inl (.inr hentry)
      | workerReplayFailures => exact .inr hentry
    · rw [List.mem_append, List.mem_append] at hentry
      rcases hentry with (hentry | hentry) | hentry
      · exact hall .accumulatedResults entry hentry
      · exact hall .workerReplaySignatures entry hentry
      · exact hall .workerReplayFailures entry hentry

theorem le_resolveNextReplayWatermark (watermark : Int)
    (replayPayload : Option (CheckpointReplayPayload α)) :
    watermark ≤ resolveNextReplayWatermark watermark replayPayload := by
  cases replayPayload with
  | none => exact le_refl _
  | some payload =>
    rw [resolveNextReplayWatermark]
    generalize payload .accumulatedResults ++ _ ++ _ = entries
    induction entries generalizing watermark with
    | nil => exact le_refl _
    | cons entry entries ih => exact (le_max_left _ _).trans (ih (max watermark entry.1))

theorem previousWatermark_ge (checkpoint : Checkpoint α) :
    NO_REPLAY_WATERMARK ≤ checkpoint.previousWatermark := by
  rw [Checkpoint.previousWatermark, NO_REPLAY_WATERMARK]
  cases checkpoint.accumulatedResultReplayWatermark with
  | none => exact le_refl _
  | some watermark =>
    show -1 ≤ (watermark : Int)
    omega

theorem previousWatermark_pruned (checkpoint : Checkpoint α) (pendingOperationStep : Nat) :
    (pruneCheckpointReplayState checkpoint pendingOperationStep).1.previousWatermark =
      resolveNextReplayWatermark checkpoint.previousWatermark
        (pruneCheckpointReplayState checkpoint pendingOperationStep).2 := by
  simp only [pruneCheckpointReplayState]
  generalize hpayload : buildReplayPayload _ = payload
  generalize hnext : resolveNextReplayWatermark checkpoint.previousWatermark payload = next
  have hlow : NO_REPLAY_WATERMARK ≤ next :=
    hnext ▸ (previousWatermark_ge checkpoint).trans (le_resolveNextReplayWatermark _ _)
  show ((if next = NO_REPLAY_WATERMARK then none else some next.toNat).map
    fun watermark => (watermark : Int)).getD NO_REPLAY_WATERMARK = next
  split_ifs with hnone
  · exact hnone.symm
  · rw [NO_REPLAY_WATERMARK] at hlow hnone
    show (next.toNat : Int) = next
    omega

/-- From the pending operation on, the watermark separates as it did before. -/
theorem previousWatermark_pruned_lt (checkpoint : Checkpoint α) (pendingOperationStep : Nat)
    {step : Nat} (hstep : pendingOperationStep ≤ step) :
    (pruneCheckpointReplayState checkpoint pendingOperationStep).1.previousWatermark < step ↔
      checkpoint.previousWatermark < step := by
  rw [previousWatermark_pruned, resolveNextReplayWatermark_lt]
  refine and_iff_left fun kind entry hentry => ?_
  simp only [pruneCheckpointReplayState, payloadEntries_build] at hentry
  have hbefore := (List.mem_filter.1 (List.mem_filter.1 hentry).1).2
  exact (of_decide_eq_true hbefore).trans_le hstep

end Weft.Replay
