import Weft.Js.Text
import Weft.Lib.Lists

/-! The durable lock record and its reducers. Times are finite numbers, of which only the order
is used; `add` is their sum. -/

namespace Weft.Lock
open Weft.Js Weft.Lib

universe u

structure LockHolder (Time : Type u) where
  holderId : JsString
  leaseExpiresAt : Time
deriving DecidableEq

structure LockWaiter (Time : Type u) where
  holderId : JsString
  expiresAt : Time
deriving DecidableEq

structure LockRecord (Time : Type u) where
  holders : List (LockHolder Time)
  waiters : List (LockWaiter Time)
deriving DecidableEq

/-- An entry of `waiters` as it may be stored: a bare id, an object whose expiry may be no
finite number, or anything else. -/
inductive StoredWaiter (Time : Type u) where
  | bare (holderId : JsString)
  | entry (holderId : JsString) (expiresAt : Option Time)
  | other
deriving DecidableEq

/-- A record as it may be stored; `none` stands for what is no array. -/
structure StoredRecord (Time : Type u) where
  holders : Option (List (LockHolder Time))
  waiters : Option (List (StoredWaiter Time))
deriving DecidableEq

structure AcquireAttempt where
  acquired : Bool
  position : Int
deriving DecidableEq, Repr

variable {Time : Type u}

def initialLockRecord : LockRecord Time := ⟨[], []⟩

/-- A record as the reducers write it. -/
def LockRecord.stored (record : LockRecord Time) : StoredRecord Time where
  holders := some record.holders
  waiters := some (record.waiters.map fun waiter => .entry waiter.holderId (some waiter.expiresAt))

def normalizeWaiter (fallbackExpiresAt : Time) : StoredWaiter Time → Option (LockWaiter Time)
  | .bare holderId => some ⟨holderId, fallbackExpiresAt⟩
  | .entry holderId expiresAt => some ⟨holderId, expiresAt.getD fallbackExpiresAt⟩
  | .other => none

def normalizeRecord (record : Option (StoredRecord Time)) (fallbackExpiresAt : Time) :
    LockRecord Time :=
  match record with
  | none => initialLockRecord
  | some record =>
    { holders := record.holders.getD []
      waiters := (record.waiters.getD []).filterMap (normalizeWaiter fallbackExpiresAt) }

variable [LinearOrder Time]

def dropExpiredHolders (holders : List (LockHolder Time)) (now : Time) : List (LockHolder Time) :=
  holders.filter fun holder => now < holder.leaseExpiresAt

def dropExpiredWaiters (waiters : List (LockWaiter Time)) (now : Time) : List (LockWaiter Time) :=
  waiters.filter fun waiter => now < waiter.expiresAt

/-- What the reducers take from their caller. -/
structure Clock (Time : Type u) where
  add : Time → Time → Time
  /-- `MIN_LOCK_WAITER_TTL_MS` -/
  minWaiterTtl : Time

/-- The caller's entry is refreshed where it stands, or a new one is added at the end. -/
def registerWaiter (waiters : List (LockWaiter Time)) (entry : LockWaiter Time) :
    List (LockWaiter Time) :=
  (replaceFirst (fun waiter => waiter.holderId = entry.holderId) entry waiters).getD
    (waiters ++ [entry])

variable (clock : Clock Time)

def reduceAcquire (current : Option (StoredRecord Time)) (holderId : JsString)
    (now leaseMs : Time) (permits : Nat) (waiterTtlMs : Option Time) :
    LockRecord Time × AcquireAttempt :=
  let waiterTtl := waiterTtlMs.getD (max clock.minWaiterTtl leaseMs)
  let record := normalizeRecord current (clock.add now waiterTtl)
  let liveHolders := dropExpiredHolders record.holders now
  let liveWaiters := dropExpiredWaiters record.waiters now
  let holder : LockHolder Time := ⟨holderId, clock.add now leaseMs⟩
  match replaceFirst (fun holder => holder.holderId = holderId) holder liveHolders with
  | some renewed =>
    (⟨renewed, liveWaiters.filter fun waiter => waiter.holderId ≠ holderId⟩, ⟨true, -1⟩)
  | none =>
    let waiters := registerWaiter liveWaiters ⟨holderId, clock.add now waiterTtl⟩
    let freePermits : Int := permits - liveHolders.length
    let isNextInLine : Bool := waiters.head?.map (·.holderId) = some holderId
    if 0 < freePermits ∧ isNextInLine then
      (⟨liveHolders ++ [holder], waiters.tail⟩, ⟨true, -1⟩)
    else
      (⟨liveHolders, waiters⟩,
        ⟨false, waiters.findIdx fun waiter => waiter.holderId = holderId⟩)

def reduceRelease (current : Option (StoredRecord Time)) (holderId : JsString) (now : Time)
    (waiterTtlMs : Option Time) : LockRecord Time :=
  let record := normalizeRecord current (clock.add now (waiterTtlMs.getD clock.minWaiterTtl))
  { holders := (dropExpiredHolders record.holders now).filter fun holder =>
      holder.holderId ≠ holderId
    waiters := (dropExpiredWaiters record.waiters now).filter fun waiter =>
      waiter.holderId ≠ holderId }

def reduceRenew (current : Option (StoredRecord Time)) (holderId : JsString)
    (now leaseMs : Time) (waiterTtlMs : Option Time) : LockRecord Time × Bool :=
  let waiterTtl := waiterTtlMs.getD (max clock.minWaiterTtl leaseMs)
  let record := normalizeRecord current (clock.add now waiterTtl)
  let liveHolders := dropExpiredHolders record.holders now
  (⟨liveHolders.map fun holder =>
      if holder.holderId = holderId then ⟨holderId, clock.add now leaseMs⟩ else holder,
    record.waiters⟩,
    liveHolders.any fun holder => holder.holderId = holderId)

end Weft.Lock
