import Weft.Js.Text
import Weft.Lib.Lists

/-! The durable rate-limit record and its reducers: a token bucket that accrues one token every
`refillIntervalMs`, counted from a stored anchor, and a queue of contenders. Times are whole
milliseconds, supplied by the caller. -/

namespace Weft.RateLimit
open Weft.Js Weft.Lib

structure RateWaiter where
  holderId : JsString
  expiresAt : Int
deriving DecidableEq

structure RateLimitRecord where
  tokens : Int
  refillAnchorAt : Int
  waiters : List RateWaiter
deriving DecidableEq

/-- A record as it may be stored; `none` stands for a count that is no number, an anchor that is
no finite number and waiters that are no array. -/
structure StoredRecord where
  tokens : Option Int
  refillAnchorAt : Option Int
  waiters : Option (List RateWaiter)
deriving DecidableEq

structure RateGrantAttempt where
  granted : Bool
  position : Int
  retryAfterMs : Int
deriving DecidableEq

/-- A record as the reducers write it. -/
def RateLimitRecord.stored (record : RateLimitRecord) : StoredRecord :=
  ⟨some record.tokens, some record.refillAnchorAt, some record.waiters⟩

/-! ## The limiter -/

/-- The three settings of a `DurableRateLimiter`, as its constructor lets them pass. -/
structure DurableRateLimiter where
  capacity : Int
  refillIntervalMs : Int
  waiterTtlMs : Int
  capacity_pos : 0 < capacity
  refillIntervalMs_pos : 0 < refillIntervalMs
  waiterTtlMs_pos : 0 < waiterTtlMs

/-- `MIN_WAITER_TTL_MS` -/
def minWaiterTtlMs : Int := 30000

def assertPositiveInteger (value : Int) (label : String) : Except String (PLift (0 < value)) :=
  if h : 0 < value then .ok ⟨h⟩
  else .error (label ++ " must be a positive integer (got " ++ toString value ++ ")")

def DurableRateLimiter.create (capacity : Option Int) (refillIntervalMs : Int)
    (waiterTtlMs : Option Int) : Except String DurableRateLimiter := do
  let capacity := capacity.getD 1
  let hcapacity ← assertPositiveInteger capacity "capacity"
  let hinterval ← assertPositiveInteger refillIntervalMs "refillIntervalMs"
  let waiterTtlMs := waiterTtlMs.getD (max minWaiterTtlMs (4 * refillIntervalMs))
  let httl ← assertPositiveInteger waiterTtlMs "waiterTtlMs"
  return ⟨capacity, refillIntervalMs, waiterTtlMs, hcapacity.down, hinterval.down, httl.down⟩

/-! ## The reducers -/

def initialRateLimitRecord (capacity now : Int) : RateLimitRecord := ⟨capacity, now, []⟩

def normalizeRecord (record : Option StoredRecord) (capacity now : Int) : RateLimitRecord :=
  match record with
  | none => initialRateLimitRecord capacity now
  | some record =>
    { tokens := (record.tokens.filter (0 ≤ ·)).getD 0
      refillAnchorAt := (record.refillAnchorAt.filter (0 ≤ ·)).getD now
      waiters := record.waiters.getD [] }

/-- Whole tokens accrue from the anchor, which moves on by the intervals they took; a bucket that
is full, or becomes so, is anchored at `now`. -/
def refill (record : RateLimitRecord) (capacity refillIntervalMs now : Int) : RateLimitRecord :=
  let elapsed := now - record.refillAnchorAt
  if capacity ≤ record.tokens then
    { record with tokens := capacity, refillAnchorAt := now }
  else if elapsed < refillIntervalMs then record
  else
    let minted := elapsed / refillIntervalMs
    let tokens := min capacity (record.tokens + minted)
    let refillAnchorAt :=
      if capacity ≤ tokens then now else record.refillAnchorAt + minted * refillIntervalMs
    { record with tokens := tokens, refillAnchorAt := refillAnchorAt }

def dropExpiredWaiters (waiters : List RateWaiter) (now : Int) : List RateWaiter :=
  waiters.filter fun waiter => now < waiter.expiresAt

/-- The caller's entry is refreshed where it stands, or a new one is added at the end. -/
def registerWaiter (waiters : List RateWaiter) (entry : RateWaiter) : List RateWaiter :=
  (replaceFirst (fun waiter => waiter.holderId = entry.holderId) entry waiters).getD
    (waiters ++ [entry])

variable (limiter : DurableRateLimiter)

def reduceRateAcquire (current : Option StoredRecord) (holderId : JsString) (now : Int) :
    RateLimitRecord × RateGrantAttempt :=
  let refilled := refill (normalizeRecord current limiter.capacity now) limiter.capacity
    limiter.refillIntervalMs now
  let liveWaiters := dropExpiredWaiters refilled.waiters now
  let waiters := registerWaiter liveWaiters ⟨holderId, now + limiter.waiterTtlMs⟩
  let position : Int := waiters.findIdx fun waiter => waiter.holderId = holderId
  if position = 0 ∧ 1 ≤ refilled.tokens then
    (⟨refilled.tokens - 1, refilled.refillAnchorAt, waiters.tail⟩, ⟨true, -1, -1⟩)
  else
    let needed := position + 1 - refilled.tokens
    let accruedMs := now - refilled.refillAnchorAt
    let retryAfterMs := max 1 (needed * limiter.refillIntervalMs - accruedMs)
    (⟨refilled.tokens, refilled.refillAnchorAt, waiters⟩, ⟨false, position, retryAfterMs⟩)

def reduceRateWithdraw (current : Option StoredRecord) (holderId : JsString) (now : Int) :
    RateLimitRecord :=
  let record := normalizeRecord current 0 now
  { record with
    waiters := (dropExpiredWaiters record.waiters now).filter fun waiter =>
      waiter.holderId ≠ holderId }

end Weft.RateLimit
