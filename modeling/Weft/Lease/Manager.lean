import Weft.Storage.Interface
import Weft.Lib.Machine

/-! The two lease keys and the codec of the fencing epoch. -/

namespace Weft.Lease
open Weft.Js Weft.Storage

abbrev Bytes := List UInt8

namespace KEYS

def leaseEpoch : JsString := js "lease:epoch"

def leaseHolder : JsString := js "lease:holder"

theorem leaseHolder_ne_leaseEpoch : leaseHolder ≠ leaseEpoch := by decide

end KEYS

def MAX_SAFE_INTEGER : Nat := 2 ^ 53 - 1

structure LeaseHolderRecord where
  holderId : JsString
  expiresAt : Int
  epoch : Nat
deriving DecidableEq, Repr

/-- The JSON codec of the holder record. Nothing below depends on what it does. -/
structure HolderCodec where
  encodeHolder : LeaseHolderRecord → Bytes
  decodeHolder : Bytes → Option LeaseHolderRecord

/-- The 8-byte big-endian encoding that `setBigUint64` writes. -/
def encodeEpoch (epoch : Nat) : Bytes :=
  [7, 6, 5, 4, 3, 2, 1, 0].map fun i => UInt8.ofNat (epoch / 256 ^ i)

def getBigUint64 (raw : Bytes) : Nat := raw.foldl (fun n b => n * 256 + b.toNat) 0

def decodeEpoch (raw : Bytes) : Option Nat :=
  if raw.length ≠ 8 then none
  else if 1 ≤ getBigUint64 raw ∧ getBigUint64 raw < MAX_SAFE_INTEGER then some (getBigUint64 raw)
  else none

theorem getBigUint64_encodeEpoch {n : Nat} (h : n < 2 ^ 64) :
    getBigUint64 (encodeEpoch n) = n := by
  have htop : 0 * 256 + n / 256 ^ 7 % 256 = n / 256 ^ 7 := by omega
  have hdigit : ∀ i, n / 256 ^ (i + 1) * 256 + n / 256 ^ i % 256 = n / 256 ^ i := by
    intro i
    rw [Nat.pow_succ, ← Nat.div_div_eq_div_mul]
    exact Nat.div_add_mod' _ 256
  simp only [getBigUint64, encodeEpoch, List.map_cons, List.map_nil, List.foldl_cons,
    List.foldl_nil, UInt8.toNat_ofNat']
  rw [htop, hdigit 6, hdigit 5, hdigit 4, hdigit 3, hdigit 2, hdigit 1, hdigit 0, Nat.pow_zero,
    Nat.div_one]

theorem decodeEpoch_encodeEpoch {n : Nat} (h1 : 1 ≤ n) (h2 : n < MAX_SAFE_INTEGER) :
    decodeEpoch (encodeEpoch n) = some n := by
  have hlt : n < 2 ^ 64 := by
    unfold MAX_SAFE_INTEGER at h2
    omega
  have hlen : (encodeEpoch n).length = 8 := rfl
  simp [decodeEpoch, hlen, getBigUint64_encodeEpoch hlt, h1, h2]

theorem decodeEpoch_eq_some {raw : Bytes} {n : Nat} (h : decodeEpoch raw = some n) :
    getBigUint64 raw = n ∧ 1 ≤ n ∧ n < MAX_SAFE_INTEGER := by
  unfold decodeEpoch at h
  split_ifs at h with h1 h2
  obtain rfl := Option.some.inj h
  exact ⟨rfl, h2⟩

theorem encodeEpoch_injective {m n : Nat} (hm : m < MAX_SAFE_INTEGER) (hn : n < MAX_SAFE_INTEGER)
    (h : encodeEpoch m = encodeEpoch n) : m = n := by
  unfold MAX_SAFE_INTEGER at hm hn
  rw [← getBigUint64_encodeEpoch (n := m) (by omega), h, getBigUint64_encodeEpoch (by omega)]

end Weft.Lease

/-! The lease manager and the fenced commit of an engine, cut at their awaits. A `Task` is
an async call suspended on one storage request with the locals it still needs; `resume` is
the code that runs from the answer to the next request. -/

namespace Weft.Lease
open Weft.Js Weft.Storage

inductive LeaseLostReason where
  | deposed
  | renewalUnconfirmable
deriving DecidableEq, Repr

inductive OwnershipMode where
  | none
  | lease
deriving DecidableEq, Repr

structure LeaseManagerOptions where
  holderId : JsString
  ttlMs : Int
  waitTimeoutMs : Int

structure EngineOptions extends LeaseManagerOptions where
  ownershipMode : OwnershipMode

structure LeaseManager where
  stopped : Bool := false
  heldEpoch : Option Nat := none
  heldEpochBytes : Option Bytes := none
  lastHolderBytes : Option Bytes := none
  leaseLost : Bool := false
  leaseLostReason : Option LeaseLostReason := none
  heldSince : Option Int := none
  lastRenewedAt : Option Int := none
  inFlightRenewal : Option Nat := none

/-- The part of an engine that fencing reads. A crashed engine runs no more code, but what
it sent to the store may still land. -/
structure Engine where
  leaseManager : LeaseManager := {}
  deposed : Bool := false
  inFlightLeaseAcquire : Option Nat := none
  crashed : Bool := false

/-! ## Suspended calls -/

structure AcquireLocals where
  startedAt : Int
  deadline : Int
  lastHolderId : Option JsString
  firstAttempt : Bool

inductive Outcome where
  | acquired
  | stoppedWithoutLease
  | acquisitionTimeout (waitedMs : Int) (heldBy : Option JsString)
  | leaseCorrupted (detail : String)
  | storageError
  | renewalSettled
  | released (deleted : Bool)
  | committed
  | lostRace
  | engineDeposed

inductive Task where
  | readHolder (l : AcquireLocals)
  | readEpoch (l : AcquireLocals) (holderRaw : Option Bytes)
  | takeOwnership (l : AcquireLocals) (expectedEpoch expectedHolder : Option Bytes)
      (nextEpoch : Nat) (acquiredAt : Int) (holderBytes : Bytes)
  | readWaitedOn (l : AcquireLocals)
  | delay (l : AcquireLocals)
  | renewHolder (prior : Bytes) (renewedAt : Int) (holderBytes : Bytes)
  | awaitRenewal (renewal : Nat)
  | deleteHolder (prior : Bytes)
  | fencedBatch (epochBytes : Option Bytes) (operations : List (BatchOperation Bytes))
      (baseConditions : List (ConditionalBatchCondition Bytes))
  | rereadEpoch (epochBytes : Bytes)
  | settled (outcome : Outcome)

inductive Request where
  | get (key : JsString)
  | batch (operations : List (BatchOperation Bytes))
  | conditionalBatch (conditions : List (ConditionalBatchCondition Bytes))
      (operations : List (BatchOperation Bytes))
  | wait

inductive Response where
  | value (raw : Option Bytes)
  | committed (b : Bool)
  | done
  | error
deriving DecidableEq, Repr

def fenceConditions (epochBytes : Bytes)
    (baseConditions : List (ConditionalBatchCondition Bytes)) :
    List (ConditionalBatchCondition Bytes) :=
  baseConditions ++ [⟨KEYS.leaseEpoch, some epochBytes⟩]

/-- What a suspended call asks of the store. -/
def Task.request : Task → Request
  | .readHolder _ => .get KEYS.leaseHolder
  | .readEpoch _ _ => .get KEYS.leaseEpoch
  | .takeOwnership _ expectedEpoch expectedHolder nextEpoch _ holderBytes =>
      .conditionalBatch
        [⟨KEYS.leaseEpoch, expectedEpoch⟩, ⟨KEYS.leaseHolder, expectedHolder⟩]
        [.put KEYS.leaseEpoch (encodeEpoch nextEpoch), .put KEYS.leaseHolder holderBytes]
  | .readWaitedOn _ => .get KEYS.leaseHolder
  | .delay _ => .wait
  | .renewHolder prior _ holderBytes =>
      .conditionalBatch [⟨KEYS.leaseHolder, some prior⟩] [.put KEYS.leaseHolder holderBytes]
  | .awaitRenewal _ => .wait
  | .deleteHolder prior =>
      .conditionalBatch [⟨KEYS.leaseHolder, some prior⟩] [.delete KEYS.leaseHolder]
  | .fencedBatch none operations [] => .batch operations
  | .fencedBatch none operations baseConditions => .conditionalBatch baseConditions operations
  | .fencedBatch (some epochBytes) operations baseConditions =>
      .conditionalBatch (fenceConditions epochBytes baseConditions) operations
  | .rereadEpoch _ => .get KEYS.leaseEpoch
  | .settled _ => .wait

/-- `release` waits for the renewal in flight; a settled call asks for nothing more. -/
def Task.ready (m : LeaseManager) : Task → Bool
  | .awaitRenewal renewal => m.inFlightRenewal ≠ some renewal
  | .settled _ => false
  | _ => true

def Task.isAcquire : Task → Bool
  | .readHolder _ | .readEpoch _ _ | .takeOwnership .. | .readWaitedOn _ | .delay _ => true
  | _ => false

/-! ## Lease manager -/

section Manager

variable (codec : HolderCodec) (options : LeaseManagerOptions)

def LeaseManager.reportLeaseLost (m : LeaseManager) (reason : LeaseLostReason) : LeaseManager :=
  if m.leaseLost then m else { m with leaseLost := true, leaseLostReason := some reason }

/-- The head of the wait loop of `acquire`. -/
def acquireLoop (m : LeaseManager) (l : AcquireLocals) (clock : Nat → Int) : Task :=
  if m.stopped then .settled .stoppedWithoutLease
  else if l.firstAttempt = false ∧ clock 0 ≥ l.deadline then
    .settled (.acquisitionTimeout (clock 1 - l.startedAt) l.lastHolderId)
  else .readHolder { l with firstAttempt := false }

def acquire (m : LeaseManager) (clock : Nat → Int) : Task :=
  acquireLoop m ⟨clock 0, clock 0 + options.waitTimeoutMs, none, true⟩ fun n => clock (n + 1)

def takeOwnership (l : AcquireLocals) (expectedEpoch expectedHolder : Option Bytes)
    (nextEpoch : Nat) (acquiredAt : Int) : Task :=
  .takeOwnership l expectedEpoch expectedHolder nextEpoch acquiredAt
    (codec.encodeHolder ⟨options.holderId, acquiredAt + options.ttlMs, nextEpoch⟩)

/-- `tryAcquireOnce` from the moment both keys have been read. -/
def tryAcquireOnce (l : AcquireLocals) (epochRaw holderRaw : Option Bytes)
    (clock : Nat → Int) : Task :=
  let epoch := epochRaw.bind decodeEpoch
  let holder := holderRaw.bind codec.decodeHolder
  if epochRaw ≠ none ∧ epoch = none then
    .settled (.leaseCorrupted
      "the \"lease:epoch\" high-water mark is present but does not decode to a valid epoch")
  else if epochRaw = none ∧ holderRaw ≠ none then
    .settled (.leaseCorrupted
      "a \"lease:holder\" record exists with no \"lease:epoch\" key (the lease protocol never deletes the epoch)")
  else if holder.any fun h => clock 0 < h.expiresAt then .readWaitedOn l
  else
    let nextEpoch := epoch.getD 0 + 1
    if nextEpoch ≥ MAX_SAFE_INTEGER then
      .settled (.leaseCorrupted
        s!"the next ownership epoch ({nextEpoch}) is at or above the safe-integer ceiling and cannot be minted without bricking future boots")
    else takeOwnership codec options l epochRaw holderRaw nextEpoch (clock 1)

/-- The wait loop after the holder waited on has been read. -/
def waitForHandoff (l : AcquireLocals) (holderRaw : Option Bytes) (clock : Nat → Int) : Task :=
  let l := { l with lastHolderId := (holderRaw.bind codec.decodeHolder).map (·.holderId) }
  if clock 0 ≥ l.deadline then
    .settled (.acquisitionTimeout (clock 1 - l.startedAt) l.lastHolderId)
  else .delay l

/-- `none` where `renewOnce` returns at once. -/
def renewOnce (m : LeaseManager) (clock : Nat → Int) : Option Task :=
  if m.stopped ∨ m.leaseLost then none
  else match m.heldEpoch, m.lastHolderBytes with
    | some epoch, some prior =>
      some (.renewHolder prior (clock 0)
        (codec.encodeHolder ⟨options.holderId, clock 0 + options.ttlMs, epoch⟩))
    | _, _ => none

def renewFailed (m : LeaseManager) (clock : Nat → Int) : LeaseManager :=
  let priorExpiry := ((m.lastHolderBytes.bind codec.decodeHolder).map (·.expiresAt)).getD 0
  if clock 0 ≥ priorExpiry then m.reportLeaseLost .renewalUnconfirmable else m

/-- `release` once no renewal is in flight. -/
def releaseHolder (m : LeaseManager) : Task :=
  match m.lastHolderBytes with
  | none => .settled (.released true)
  | some prior => .deleteHolder prior

def release (m : LeaseManager) : LeaseManager × Task :=
  let m := { m with stopped := true }
  match m.inFlightRenewal with
  | some renewal => (m, .awaitRenewal renewal)
  | none => (m, releaseHolder m)

def LeaseManager.stop (m : LeaseManager) : LeaseManager := { m with stopped := true }

def LeaseManager.currentEpochBytes (m : LeaseManager) : Option Bytes := m.heldEpochBytes

end Manager

/-! ## Fenced writes -/

def handleDeposition (e : Engine) : Engine := { e with deposed := true }

/-- `.inl` is the thrown `EngineDeposedError`, after deposition has been handled. -/
def resolveFenceEpochOrHalt (mode : OwnershipMode) (e : Engine) : Engine ⊕ Option Bytes :=
  if e.deposed then .inl e
  else match mode with
    | .none => .inr none
    | .lease =>
      match e.leaseManager.currentEpochBytes with
      | none => .inl (handleDeposition e)
      | some bytes => .inr (some bytes)

def fencedCommit (mode : OwnershipMode) (e : Engine) (operations : List (BatchOperation Bytes))
    (baseConditions : List (ConditionalBatchCondition Bytes)) : Engine × Task :=
  match resolveFenceEpochOrHalt mode e with
  | .inl e' => (e', .settled .engineDeposed)
  | .inr epochBytes => (e, .fencedBatch epochBytes operations baseConditions)

def isDeposed (heldEpochBytes : Bytes) : Response → Bool
  | .value (some currentEpochRaw) =>
      (decodeEpoch currentEpochRaw).isNone || heldEpochBytes ≠ currentEpochRaw
  | _ => true

/-! ## Continuations -/

section Resume

variable (codec : HolderCodec) (options : LeaseManagerOptions)

/-- `onLeaseLost` halts the engine on `deposed` and only warns otherwise. -/
def renewSettled (flight : Nat) (e : Engine) (renewedAt : Int) (holderBytes : Bytes)
    (clock : Nat → Int) (r : Response) : Engine :=
  let e' := match r with
    | .committed true =>
        { e with leaseManager := { e.leaseManager with
          lastHolderBytes := some holderBytes
          lastRenewedAt := some renewedAt } }
    | .committed false =>
        let reported := { e with leaseManager := e.leaseManager.reportLeaseLost .deposed }
        if e.leaseManager.leaseLost then reported else handleDeposition reported
    | _ => { e with leaseManager := renewFailed codec e.leaseManager clock }
  if e'.leaseManager.inFlightRenewal = some flight then
    { e' with leaseManager := { e'.leaseManager with inFlightRenewal := none } }
  else e'

def recordOwnership (m : LeaseManager) (nextEpoch : Nat) (acquiredAt : Int)
    (holderBytes : Bytes) : LeaseManager := { m with
  heldEpoch := some nextEpoch
  heldEpochBytes := some (encodeEpoch nextEpoch)
  lastHolderBytes := some holderBytes
  heldSince := some acquiredAt
  lastRenewedAt := some acquiredAt }

/-- The code of call `flight` from the answer `r` to its next request. -/
def resume (flight : Nat) (e : Engine) (t : Task) (r : Response) (clock : Nat → Int) :
    Engine × Task :=
  match t, r with
  | .readHolder l, .value holderRaw => (e, .readEpoch l holderRaw)
  | .readEpoch l holderRaw, .value epochRaw =>
      (e, tryAcquireOnce codec options l epochRaw holderRaw clock)
  | .takeOwnership _ _ _ nextEpoch acquiredAt holderBytes, .committed true =>
      ({ e with leaseManager := recordOwnership e.leaseManager nextEpoch acquiredAt holderBytes },
        .settled .acquired)
  | .takeOwnership l .., .committed false => (e, .readWaitedOn l)
  | .readWaitedOn l, .value holderRaw => (e, waitForHandoff codec l holderRaw clock)
  | .delay l, _ => (e, acquireLoop e.leaseManager l clock)
  | .renewHolder _ renewedAt holderBytes, r =>
      (renewSettled codec flight e renewedAt holderBytes clock r, .settled .renewalSettled)
  | .awaitRenewal _, _ => (e, releaseHolder e.leaseManager)
  | .deleteHolder _, .committed true =>
      ({ e with leaseManager := { e.leaseManager with lastHolderBytes := none } },
        .settled (.released true))
  | .deleteHolder _, _ => (e, .settled (.released false))
  | .fencedBatch none _ _, .done => (e, .settled .committed)
  | .fencedBatch _ _ _, .committed true => (e, .settled .committed)
  | .fencedBatch none _ _, .committed false => (e, .settled .lostRace)
  | .fencedBatch (some epochBytes) _ _, .committed false => (e, .rereadEpoch epochBytes)
  | .rereadEpoch epochBytes, r =>
      if isDeposed epochBytes r then (handleDeposition e, .settled .engineDeposed)
      else (e, .settled .lostRace)
  | .settled o, _ => (e, .settled o)
  | _, _ => (e, .settled .storageError)

end Resume

end Weft.Lease

/-! Engines that share one store. Each call of an engine is a flight: the store serves its
pending request at one instant, and the engine resumes the call at a later one. -/

namespace Weft.Lease
open Weft.Js Weft.Storage Weft.Lib

structure Flight where
  engine : Nat
  task : Task
  /-- `none` while the request is on its way. -/
  response : Option Response

/-- `wins` records every epoch committed by `takeOwnership` with the engine that asked. -/
structure System where
  store : Store Bytes
  engines : Nat → Engine
  flights : Nat → Option Flight
  wins : List (Nat × Nat) := []

/-- A request may be served, be lost, or be served with its answer lost. -/
inductive Delivery where
  | served
  | lost
  | answerLost
deriving DecidableEq, Repr

inductive Label where
  | acquire (flight engine : Nat) (clock : Nat → Int)
  | renewOnce (flight engine : Nat) (clock : Nat → Int)
  | renewUnderGuard (flight engine : Nat) (clock : Nat → Int)
  | release (flight engine : Nat)
  | stop (engine : Nat)
  | fencedCommit (flight engine : Nat) (operations : List (BatchOperation Bytes))
      (baseConditions : List (ConditionalBatchCondition Bytes))
  | deliver (flight : Nat) (delivery : Delivery)
  | resume (flight : Nat) (clock : Nat → Int)
  | crash (engine : Nat)

def Request.operations : Request → List (BatchOperation Bytes)
  | .batch operations => operations
  | .conditionalBatch _ operations => operations
  | _ => []

def serve (s : Store Bytes) : Request → Response × Store Bytes
  | .get key => (.value (s.get key), s)
  | .batch operations =>
      match batch s operations with
      | some s' => (.done, s')
      | none => (.error, s)
  | .conditionalBatch conditions operations =>
      match conditionalBatch s conditions operations with
      | some (committed, s') => (.committed committed, s')
      | none => (.error, s)
  | .wait => (.done, s)

def Delivery.answer (s : Store Bytes) (r : Request) : Delivery → Response
  | .served => (serve s r).1
  | _ => .error

def Delivery.effect (s : Store Bytes) (r : Request) : Delivery → Store Bytes
  | .lost => s
  | _ => (serve s r).2

/-- The request reached the store and its conditional batch was applied. -/
def Commits (s : Store Bytes) (t : Task) (d : Delivery) : Prop :=
  d ≠ .lost ∧ (serve s t.request).1 = .committed true

/-- The request reached the store and its writes were applied, conditional or not. -/
def Lands (s : Store Bytes) (t : Task) (d : Delivery) : Prop :=
  d ≠ .lost ∧ ((serve s t.request).1 = .committed true ∨ (serve s t.request).1 = .done)

instance (s : Store Bytes) (t : Task) (d : Delivery) : Decidable (Commits s t d) :=
  inferInstanceAs (Decidable (_ ∧ _))

def recordWin (s : System) (engine : Nat) (t : Task) (d : Delivery) : List (Nat × Nat) :=
  match t with
  | .takeOwnership _ _ _ nextEpoch _ _ =>
      if Commits s.store t d then (nextEpoch, engine) :: s.wins else s.wins
  | _ => s.wins

namespace System

def setEngine (s : System) (i : Nat) (e : Engine) : System :=
  { s with engines := fun j => if j = i then e else s.engines j }

def setFlight (s : System) (f : Nat) (fl : Flight) : System :=
  { s with flights := fun g => if g = f then some fl else s.flights g }

/-- Starts call `f` of engine `i`, which leaves the engine as `e` and is suspended at `t`. -/
def call (s : System) (f i : Nat) (e : Engine) (t : Task) : Option System :=
  if (s.flights f).isNone ∧ (s.engines i).crashed = false then
    some ((s.setEngine i e).setFlight f ⟨i, t, none⟩)
  else none

end System

def avoidsLeaseKeys (operations : List (BatchOperation Bytes)) : Bool :=
  operations.all fun op => op.key ≠ KEYS.leaseEpoch ∧ op.key ≠ KEYS.leaseHolder

/-- The engine keeps the acquire in flight until it settles, and starts no second one. -/
def trackAcquire (e : Engine) (f : Nat) (before after : Task) : Engine :=
  if after.isAcquire then { e with inFlightLeaseAcquire := some f }
  else if before.isAcquire then { e with inFlightLeaseAcquire := none }
  else e

section

variable (codec : HolderCodec) (options : Nat → EngineOptions)

def step (s : System) : Label → Option System
  | .acquire f i clock =>
      if (s.engines i).inFlightLeaseAcquire.isSome then none
      else
        let t := acquire (options i).toLeaseManagerOptions (s.engines i).leaseManager clock
        s.call f i (trackAcquire (s.engines i) f t t) t
  | .renewOnce f i clock =>
      (renewOnce codec (options i).toLeaseManagerOptions (s.engines i).leaseManager clock).bind
        fun t =>
        s.call f i (s.engines i) t
  | .renewUnderGuard f i clock =>
      if (s.engines i).leaseManager.inFlightRenewal.isSome then none
      else (renewOnce codec (options i).toLeaseManagerOptions (s.engines i).leaseManager clock).bind
        fun t =>
        s.call f i { s.engines i with
          leaseManager := { (s.engines i).leaseManager with inFlightRenewal := some f } } t
  | .release f i =>
      let (m, t) := release (s.engines i).leaseManager
      s.call f i { s.engines i with leaseManager := m } t
  | .stop i =>
      some (s.setEngine i { s.engines i with leaseManager := (s.engines i).leaseManager.stop })
  | .fencedCommit f i operations baseConditions =>
      if avoidsLeaseKeys operations then
        let (e, t) := fencedCommit (options i).ownershipMode (s.engines i) operations baseConditions
        s.call f i e t
      else none
  | .deliver f d =>
      match s.flights f with
      | some ⟨i, t, none⟩ =>
          if t.ready (s.engines i).leaseManager then
            some { (s.setFlight f ⟨i, t, some (d.answer s.store t.request)⟩) with
              store := d.effect s.store t.request
              wins := recordWin s i t d }
          else none
      | _ => none
  | .resume f clock =>
      match s.flights f with
      | some ⟨i, t, some r⟩ =>
          if (s.engines i).crashed then none
          else
            let (e, t') := resume codec (options i).toLeaseManagerOptions f (s.engines i) t r clock
            some ((s.setEngine i (trackAcquire e f t t')).setFlight f ⟨i, t', none⟩)
      | _ => none
  | .crash i => some (s.setEngine i { s.engines i with crashed := true })

def leaseSystem : Machine System Label := ⟨step codec options⟩

end

end Weft.Lease
