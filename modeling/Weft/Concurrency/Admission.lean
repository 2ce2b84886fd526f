import Weft.AtomicState.History
import Weft.Lock.Record
import Weft.Storage.Keys

/-! Admission of workflows to the slots of one workflow type and partition key. A start reads the
slot record, adds its workflow and writes the record in the batch that creates the run, on the
condition that the record's version has not moved; a release takes the workflow out again by an
`AtomicState` update, between reading and deleting the workflow's holder marker. Each get, each
batch and each delete is one step of its call. -/

namespace Weft.Concurrency
open Weft.Js Weft.Storage Weft.Lib Weft.Lock Weft.AtomicState

universe v

/-- `NON_EXPIRING_WORKFLOW_CONCURRENCY_LEASE`, the largest safe integer. -/
def nonExpiringLease : Int := 9007199254740991

/-- The largest time value of a `Date`. -/
def maxTime : Int := 8640000000000000

def lockClock : Clock Int := ⟨fun x y => x + y, 30000⟩

structure WorkflowConcurrencyHolderRecord where
  workflowType : JsString
  partitionKey : JsString
deriving DecidableEq

/-- How the records of this module are stored; `decodeHolderRecord` answers `none` for anything
that is no holder record of the current version. -/
structure SlotCodec (V : Type v) where
  slot : AtomicState.Codec (StoredRecord Int) V
  encodeHolderRecord : WorkflowConcurrencyHolderRecord → V
  decodeHolderRecord : V → Option WorkflowConcurrencyHolderRecord
  /-- The empty array. -/
  emptyBytes : V
  decodeHolderRecord_encode : ∀ record, decodeHolderRecord (encodeHolderRecord record) = some record

/-! ## The slot record -/

/-- The holders of the normalized record; its waiters are not used. -/
def normalizeLockRecord (record : Option (StoredRecord Int)) : List (LockHolder Int) :=
  (record.bind (·.holders)).getD []

def liveWorkflowConcurrencyHolders (holders : List (LockHolder Int)) (now : Int) :
    List (LockHolder Int) :=
  holders.filter fun holder => now < holder.leaseExpiresAt

def acquireWorkflowConcurrencySlot (current : Option (StoredRecord Int)) (workflowId : JsString)
    (now : Int) (limit : Nat) : Bool × LockRecord Int :=
  let holders := liveWorkflowConcurrencyHolders (normalizeLockRecord current) now
  if holders.any fun holder => holder.holderId = workflowId then
    (true, ⟨holders.map fun holder =>
      if holder.holderId = workflowId then ⟨workflowId, nonExpiringLease⟩ else holder, []⟩)
  else if limit ≤ holders.length then (false, ⟨holders, []⟩)
  else (true, ⟨holders ++ [⟨workflowId, nonExpiringLease⟩], []⟩)

/-! ## Calls -/

/-- A start that displaces a terminal run of its id deletes the old marker in the same batch. A
release remembers how many admissions its workflow had when it was called. -/
inductive Task where
  | admission (restart : Bool)
  | release (run : Nat)
deriving DecidableEq

inductive Outcome where
  | admitted
  | limitExceeded
  | released
  | conflict
  | failed
deriving DecidableEq

inductive Phase (V : Type v) where
  | marker
  | reading (rawValue rawVersion : Option (Option V))
  | committing (snapshot : AtomicStateSnapshot (StoredRecord Int)) (record : LockRecord Int)
  | sleeping
  | unmarking
  | ended (outcome : Outcome)

structure Call (V : Type v) where
  workflowId : Component
  task : Task
  attempt : Nat := 0
  phase : Phase V

/-- `admissions` and `live` record, for each committed admission and release, whose it was: `live`
are the workflows whose latest admission no release of theirs has undone. -/
structure State (V : Type v) where
  store : Store V
  calls : List (Call V) := []
  admissions : List Component := []
  live : List Component := []

variable {V : Type v}

def State.setCall (s : State V) (i : Nat) (c : Call V) : State V :=
  { s with calls := s.calls.set i c }

/-- `WORKFLOW_CONCURRENCY_ADMISSION_MAX_ATTEMPTS`, which retries of failed workflows share, and the
retries of an `AtomicState`. -/
def Task.maxAttempts : Task → Nat
  | .admission _ => 5
  | .release _ => 10

/-- The slots of one workflow type and partition key. -/
structure Slots (V : Type v) where
  codec : SlotCodec V
  workflowType : Component
  partitionKey : Component
  max : Nat

section

variable (slots : Slots V)

def Slots.stateKey : JsString := KEYS.workflowConcurrency slots.workflowType slots.partitionKey

def Slots.holderRecord : WorkflowConcurrencyHolderRecord :=
  ⟨slots.workflowType.text, slots.partitionKey.text⟩

/-- The record that a task writes over a snapshot, `none` where the limit is reached. -/
def Task.next (task : Task) (workflowId : JsString) (now : Int)
    (snapshot : AtomicStateSnapshot (StoredRecord Int)) : Option (LockRecord Int) :=
  match task with
  | .admission _ =>
    match acquireWorkflowConcurrencySlot snapshot.value workflowId now slots.max with
    | (true, record) => some record
    | (false, _) => none
  | .release _ => some (reduceRelease lockClock snapshot.value workflowId now none)

/-- Both gets of the snapshot are back. -/
def Call.afterReads (c : Call V) (now : Int) (rawValue rawVersion : Option V) : Call V :=
  match readAtomicStateSnapshot slots.codec.slot (some initialLockRecord.stored) rawValue
      rawVersion with
  | none => { c with phase := .ended .failed }
  | some snapshot =>
    match c.task.next slots c.workflowId.text now snapshot with
    | none => { c with phase := .ended .limitExceeded }
    | some record => { c with phase := .committing snapshot record }

def Call.afterConflict (c : Call V) : Call V :=
  if c.attempt + 1 < c.task.maxAttempts then
    match c.task with
    | .admission _ => { c with attempt := c.attempt + 1, phase := .reading none none }
    | .release _ => { c with attempt := c.attempt + 1, phase := .sleeping }
  else { c with phase := .ended .conflict }

def Call.operations (c : Call V) (version : Nat) (record : LockRecord Int) :
    List (BatchOperation V) :=
  match c.task with
  | .admission restart =>
    (if restart then [.delete (KEYS.workflowConcurrencyHolder c.workflowId)] else []) ++
      commitOperations slots.codec.slot slots.stateKey version (some record.stored) ++
      [.put (KEYS.workflowConcurrencyHolder c.workflowId)
          (slots.codec.encodeHolderRecord slots.holderRecord),
        .put (KEYS.terminalCleanupNeeded c.workflowId) slots.codec.emptyBytes]
  | .release _ => commitOperations slots.codec.slot slots.stateKey version (some record.stored)

def Call.committed (c : Call V) (answerLost : Bool) : Call V :=
  if answerLost then { c with phase := .ended .failed }
  else match c.task with
    | .admission _ => { c with phase := .ended .admitted }
    | .release _ => { c with phase := .unmarking }

/-- Who is admitted and not released after a commit. A release that was called before the latest
admission of its workflow is no release of that admission. -/
def State.account (s : State V) (c : Call V) : State V :=
  match c.task with
  | .admission _ =>
    { s with
      admissions := c.workflowId :: s.admissions
      live := if c.workflowId ∈ s.live then s.live else s.live ++ [c.workflowId] }
  | .release run =>
    if run = s.admissions.count c.workflowId then
      { s with live := s.live.filter fun workflowId => workflowId ≠ c.workflowId }
    else s

/-! ## Steps -/

inductive Label where
  | start (workflowId : Component) (restart : Bool)
  | release (workflowId : Component)
  | readMarker (call : Nat)
  | readValue (call : Nat) (now : Int)
  | readVersion (call : Nat) (now : Int)
  | commit (call : Nat) (answerLost : Bool)
  | wake (call : Nat)
  | unmark (call : Nat)
  | fail (call : Nat)
deriving DecidableEq

/-- A missing marker ends the call, and one that cannot be read is only deleted. A marker of
another slot leads to steps outside this model. -/
def Call.afterMarker (c : Call V) (raw : Option V) : Option (Call V) :=
  match raw with
  | none => some { c with phase := .ended .released }
  | some raw =>
    match slots.codec.decodeHolderRecord raw with
    | none => some { c with phase := .unmarking }
    | some record =>
      if record = slots.holderRecord then some { c with phase := .reading none none } else none

def commitStep [DecidableEq V] (s : State V) (i : Nat) (c : Call V)
    (snapshot : AtomicStateSnapshot (StoredRecord Int)) (record : LockRecord Int)
    (answerLost : Bool) : Option (State V) :=
  match conditionalBatch s.store [versionCondition slots.codec.slot slots.stateKey snapshot.version]
      (c.operations slots snapshot.version record) with
  | none => none
  | some (true, store) =>
    some { ((s.account c).setCall i (c.committed answerLost)) with store := store }
  | some (false, _) =>
    some (s.setCall i (if answerLost then { c with phase := .ended .failed } else c.afterConflict))

/-- The step of the call `i`; a release may be called whenever its caller likes, and a start of
any id may be under way at any time. -/
def step [DecidableEq V] (s : State V) : Label → Option (State V)
  | .start workflowId restart =>
    some { s with calls := s.calls ++
      [{ workflowId := workflowId, task := .admission restart, phase := .reading none none }] }
  | .release workflowId =>
    some { s with calls := s.calls ++
      [{ workflowId := workflowId, task := .release (s.admissions.count workflowId),
          phase := .marker }] }
  | .readMarker i =>
    match s.calls[i]? with
    | some c =>
      match c.phase with
      | .marker =>
        (c.afterMarker slots (s.store.get (KEYS.workflowConcurrencyHolder c.workflowId))).map
          (s.setCall i)
      | _ => none
    | none => none
  | .readValue i now =>
    match s.calls[i]? with
    | some c =>
      match c.phase with
      | .reading none rawVersion =>
        let rawValue := s.store.get slots.stateKey
        match rawVersion with
        | none => some (s.setCall i { c with phase := .reading (some rawValue) none })
        | some rawVersion =>
          if now ≤ maxTime then some (s.setCall i (c.afterReads slots now rawValue rawVersion))
          else none
      | _ => none
    | none => none
  | .readVersion i now =>
    match s.calls[i]? with
    | some c =>
      match c.phase with
      | .reading rawValue none =>
        let rawVersion := s.store.get (atomicStateVersionKey slots.stateKey)
        match rawValue with
        | none => some (s.setCall i { c with phase := .reading none (some rawVersion) })
        | some rawValue =>
          if now ≤ maxTime then some (s.setCall i (c.afterReads slots now rawValue rawVersion))
          else none
      | _ => none
    | none => none
  | .commit i answerLost =>
    match s.calls[i]? with
    | some c =>
      match c.phase with
      | .committing snapshot record => commitStep slots s i c snapshot record answerLost
      | _ => none
    | none => none
  | .wake i =>
    match s.calls[i]? with
    | some c =>
      match c.phase with
      | .sleeping => some (s.setCall i { c with phase := .reading none none })
      | _ => none
    | none => none
  | .unmark i =>
    match s.calls[i]? with
    | some c =>
      match c.phase with
      | .unmarking =>
        some { (s.setCall i { c with phase := .ended .released }) with
          store := s.store.delete (KEYS.workflowConcurrencyHolder c.workflowId) }
      | _ => none
    | none => none
  | .fail i =>
    match s.calls[i]? with
    | some c =>
      match c.phase with
      | .ended _ => none
      | _ => some (s.setCall i { c with phase := .ended .failed })
    | none => none

def concurrencyMachine [DecidableEq V] : Machine (State V) Label := ⟨step slots⟩

end

end Weft.Concurrency
