import Weft.Lib.Machine

/-! The feed of a workflow's events, seen by one subscriber: the log with its commits and
compactions, the replay of what was committed up to a snapshot, and the switch to the live
notifications that were buffered since the subscription. -/

namespace Weft.Feed

open Weft.Lib

inductive EventRecord where
  | event (sequence : Nat)
  /-- `COMPACTION_BOUNDARY_KIND`: the events from `requestedFrom` below `compactedBefore` are
  gone. -/
  | boundary (requestedFrom compactedBefore : Nat)
deriving DecidableEq, Repr

/-- Where the subscriber's generator stands. -/
inductive Phase where
  | subscribed
  | snapshotted (snapshot : Int)
  /-- `position` is the next key that the scan asks the storage for, `batch` what it has read and
  not yielded. -/
  | scanning (snapshot : Int) (position : Nat) (batch : List Nat) (replayCount : Nat)
  | draining (watermark : Int) (batch : List Nat)
  | ended
deriving DecidableEq, Repr

/-- The log holds the rows `[floor, committed)`. The first `announced` events have been notified
to the listeners, and the in-memory head is the last of them: since the next event is built from
that head, at most one event is committed and not announced. -/
structure Log where
  committed : Nat
  announced : Nat
  floor : Nat
  announced_le : announced ≤ committed
  committed_le : committed ≤ announced + 1
  floor_le : floor ≤ announced

namespace Log

/-- The next event and a compaction up to `floor`, in one batch; the new event is kept. -/
def commit (log : Log) (floor : Nat) : Option Log :=
  if h : log.announced = log.committed ∧ log.floor ≤ floor ∧ floor ≤ log.committed then
    some { committed := log.committed + 1, announced := log.announced, floor
           announced_le := by omega, committed_le := by omega, floor_le := by omega }
  else none

def announce (log : Log) : Option Log :=
  if h : log.announced < log.committed then
    some { committed := log.committed, announced := log.announced + 1, floor := log.floor
           announced_le := h, committed_le := log.committed_le.trans (Nat.le_succ _)
           floor_le := log.floor_le.trans (Nat.le_succ _) }
  else none

/-- The rows that are in the storage from a key on. -/
def rowsFrom (log : Log) (position : Nat) : List Nat :=
  List.range' (max position log.floor) (log.committed - max position log.floor)

end Log

structure Subscription where
  log : Log
  afterSequence : Int
  bufferSize : Nat
  replayLimit : Option Nat
  buffer : List Nat
  overflowed : Bool
  phase : Phase
  received : List EventRecord

inductive Step where
  /-- The next event and a compaction up to `floor`, in one batch. -/
  | commit (floor : Nat)
  /-- The in-memory head moves and the listeners are notified. -/
  | announce
  /-- `snapshotTailSequence`, from the in-memory head or from the stored one. -/
  | snapshot (fromStorage : Bool)
  | readWatermark
  /-- The scan gets its next rows. -/
  | fetch (rows : Nat)
  | yieldRow
  | flush
  | yieldLive
  | abort
deriving DecidableEq, Repr

def fromSequence (afterSequence : Int) : Nat :=
  if afterSequence < 0 then 0 else (afterSequence + 1).toNat

/-- A new subscription over a log. -/
def subscribe (log : Log) (afterSequence : Int) (bufferSize : Nat) (replayLimit : Option Nat) :
    Subscription where
  log := log
  afterSequence := afterSequence
  bufferSize := bufferSize
  replayLimit := replayLimit
  buffer := []
  overflowed := false
  phase := .subscribed
  received := []

/-- The batch to yield and the new watermark. -/
def flushPendingBuffer : List Nat → Int → List Nat × Int
  | [], watermark => ([], watermark)
  | head :: buffer, watermark =>
      if (head : Int) > watermark then
        let rest := flushPendingBuffer buffer head
        (head :: rest.1, rest.2)
      else flushPendingBuffer buffer watermark

namespace Subscription

/-- The listener of the subscription; an ended one is unsubscribed. -/
def notify (s : Subscription) (sequence : Nat) : Subscription :=
  match s.phase with
  | .ended => s
  | _ =>
      if s.bufferSize ≤ s.buffer.length then { s with overflowed := true }
      else { s with buffer := s.buffer ++ [sequence] }

/-- One round of the loop of `replayUpTo`: a record past the snapshot ends the replay, a record
over the limit the subscription. -/
def replayRecord (s : Subscription) (snapshot : Int) (replayCount sequence : Nat)
    (record : EventRecord) (next : Phase) : Subscription :=
  if (sequence : Int) > snapshot then { s with phase := .draining snapshot [] }
  else if s.replayLimit.any fun limit => limit < replayCount + 1 then { s with phase := .ended }
  else { s with phase := next, received := s.received ++ [record] }

def snapshotTailSequence (s : Subscription) (fromStorage : Bool) : Int :=
  (if fromStorage then s.log.committed else s.log.announced : Nat) - 1

def readWatermark (s : Subscription) (snapshot : Int) : Subscription :=
  let requestedFrom := fromSequence s.afterSequence
  if requestedFrom < s.log.floor then
    s.replayRecord snapshot 0 (s.log.floor - 1) (.boundary requestedFrom s.log.floor)
      (.scanning snapshot s.log.floor [] 1)
  else { s with phase := .scanning snapshot requestedFrom [] 0 }

def fetch (s : Subscription) (snapshot : Int) (position replayCount rows : Nat) : Subscription :=
  match s.log.rowsFrom position with
  | [] => { s with phase := .draining snapshot [] }
  | row :: rest =>
      let batch := row :: rest.take rows
      { s with phase := .scanning snapshot (row + batch.length) batch replayCount }

def flush (s : Subscription) (watermark : Int) : Subscription :=
  if s.overflowed then { s with phase := .ended }
  else
    let flushed := flushPendingBuffer s.buffer watermark
    { s with buffer := [], phase := .draining flushed.2 flushed.1 }

def yieldLive (s : Subscription) (watermark : Int) (head : Nat) (batch : List Nat) :
    Subscription :=
  if s.overflowed then { s with phase := .ended }
  else { s with phase := .draining watermark batch, received := s.received ++ [.event head] }

def step (s : Subscription) : Step → Option Subscription
  | .commit floor => (s.log.commit floor).map fun log => { s with log }
  | .announce => s.log.announce.map fun log => { s.notify s.log.announced with log }
  | .snapshot fromStorage =>
      match s.phase with
      | .subscribed => some { s with phase := .snapshotted (s.snapshotTailSequence fromStorage) }
      | _ => none
  | .readWatermark =>
      match s.phase with
      | .snapshotted snapshot => some (s.readWatermark snapshot)
      | _ => none
  | .fetch rows =>
      match s.phase with
      | .scanning snapshot position [] replayCount =>
          some (s.fetch snapshot position replayCount rows)
      | _ => none
  | .yieldRow =>
      match s.phase with
      | .scanning snapshot position (row :: batch) replayCount =>
          some (s.replayRecord snapshot replayCount row (.event row)
            (.scanning snapshot position batch (replayCount + 1)))
      | _ => none
  | .flush =>
      match s.phase with
      | .draining watermark [] => some (s.flush watermark)
      | _ => none
  | .yieldLive =>
      match s.phase with
      | .draining watermark (head :: batch) => some (s.yieldLive watermark head batch)
      | _ => none
  | .abort => some { s with phase := .ended }

end Subscription

def machine : Machine Subscription Step := ⟨Subscription.step⟩

/-! What a subscriber may receive. -/

/-- The records go through all sequences from the first one up to below the second, one record
after the other. -/
def Covers : Nat → List EventRecord → Nat → Prop
  | p, [], q => p = q
  | p, .event sequence :: records, q => sequence = p ∧ Covers (p + 1) records q
  | p, .boundary requestedFrom compactedBefore :: records, q =>
      requestedFrom = p ∧ p < compactedBefore ∧ Covers compactedBefore records q

/-- What was received is a prefix of the events after the cursor, where a boundary stands for
truncated events only. -/
structure Exact (s : Subscription) : Prop where
  covers : ∃ q, Covers (fromSequence s.afterSequence) s.received q
  events : ∀ sequence, .event sequence ∈ s.received → sequence < s.log.committed
  boundaries : ∀ requestedFrom compactedBefore,
    .boundary requestedFrom compactedBefore ∈ s.received → compactedBefore ≤ s.log.floor

/-- A compaction up to `floor` takes no event that a subscriber in the phase has still to replay
and that the watermark it reads would not announce. -/
def Untouched (s : Subscription) (floor : Nat) : Phase → Prop
  | .snapshotted snapshot =>
      (floor : Int) ≤ snapshot + 1 ∨ snapshot < (fromSequence s.afterSequence : Int)
  | .scanning snapshot position _ _ => floor ≤ position ∨ snapshot < (position : Int)
  | _ => True

/-- The cursor is not ahead of the snapshot, and no compaction takes events up to the snapshot
that are neither announced by the watermark that was read nor read themselves. -/
def Steady (s : Subscription) : Step → Prop
  | .commit floor => Untouched s floor s.phase
  | .snapshot fromStorage =>
      (fromSequence s.afterSequence : Int) ≤ s.snapshotTailSequence fromStorage + 1
  | _ => True

instance decidableUntouched (s : Subscription) (floor : Nat) :
    (phase : Phase) → Decidable (Untouched s floor phase)
  | .snapshotted snapshot =>
      inferInstanceAs (Decidable
        ((floor : Int) ≤ snapshot + 1 ∨ snapshot < (fromSequence s.afterSequence : Int)))
  | .scanning snapshot position _ _ =>
      inferInstanceAs (Decidable (floor ≤ position ∨ snapshot < (position : Int)))
  | .subscribed => isTrue trivial
  | .draining _ _ => isTrue trivial
  | .ended => isTrue trivial

instance decidableSteady (s : Subscription) : (event : Step) → Decidable (Steady s event)
  | .commit floor => decidableUntouched s floor s.phase
  | .snapshot fromStorage =>
      inferInstanceAs (Decidable ((fromSequence s.afterSequence : Int) ≤
        s.snapshotTailSequence fromStorage + 1))
  | .announce => isTrue trivial
  | .readWatermark => isTrue trivial
  | .fetch _ => isTrue trivial
  | .yieldRow => isTrue trivial
  | .flush => isTrue trivial
  | .yieldLive => isTrue trivial
  | .abort => isTrue trivial

end Weft.Feed
