import Weft.Lib.Machine

/-! Updates of one workflow. A coordinated update is stored as a request, which a drain hands to the
workflow's handler or a wait takes for itself; the answer is committed with the removal of the
request, and the caller polls for it. A step of the machine is what happens between two awaits. -/

namespace Weft.Updates
open Weft.Lib

universe u

variable {ν κ π ρ : Type u}

/-- The update ids are drawn at random; numbers stand for them. -/
structure UpdateRequest (ν κ π : Type u) where
  updateId : Nat
  createdAt : Nat
  name : ν
  payload : π
  idempotencyKey : Option κ
deriving DecidableEq

structure UpdateResponse (ρ : Type u) where
  result : Option ρ
  error : Option String
deriving DecidableEq

/-- Where a call of `submitCoordinatedUpdate` or `update` stands. -/
inductive CallStage (ν κ π ρ : Type u) where
  | checkIdempotency
  | getResponse (updateId : Nat)
  /-- `tryWaitingUpdateHandler` with the waiter it has found, and then with whether its scan has
  found a request. -/
  | tryWaiting (waiter : Nat)
  | triedWaiting (waiter : Nat) (existingPendingUpdate : Bool)
  | createRequest
  | guardTerminal (request : UpdateRequest ν κ π)
  | deleteIfUnconsumed (request : UpdateRequest ν κ π)
  | deletedUnconsumed (request : UpdateRequest ν κ π)
  | deliver (request : UpdateRequest ν κ π)
  | findPending (request : UpdateRequest ν κ π) (waiter : Nat)
  | foundPending (request : UpdateRequest ν κ π) (waiter : Nat)
      (oldestPendingUpdate : Option (UpdateRequest ν κ π))
  | deletedForWaiter (request : UpdateRequest ν κ π) (waiter : Nat)
  | waitForResponse (request : UpdateRequest ν κ π)
  | returned (updateId : Nat) (response : UpdateResponse ρ)
  /-- `update` has given its payload to a waiter itself. -/
  | handedOver
  | failed
deriving DecidableEq

structure Call (ν κ π ρ : Type u) where
  name : ν
  payload : π
  idempotencyKey : Option κ
  stage : CallStage ν κ π ρ
deriving DecidableEq

/-- Where `processWaitUpdateOperation` stands, and the responder after it. -/
inductive WaitStage (ν κ π ρ : Type u) where
  | findPending
  | foundPending (matchingUpdate : Option (UpdateRequest ν κ π))
  | deleted (request : UpdateRequest ν κ π)
  | registered
  | foundRegistered (pendingUpdate : Option (UpdateRequest ν κ π))
  | awaiting
  | completed (request : UpdateRequest ν κ π)
  | responding (request : UpdateRequest ν κ π) (value : Option ρ)
  | done
deriving DecidableEq

/-- `promise` is what the waiter was called with, `some none` for a payload without a request. -/
structure Wait (ν κ π ρ : Type u) where
  name : ν
  stage : WaitStage ν κ π ρ
  promise : Option (Option (UpdateRequest ν κ π)) := none
deriving DecidableEq

/-- Where `processPendingUpdatesForHandlers` stands, with the requests that are left of its scan. -/
inductive DrainStage (ν κ π ρ : Type u) where
  | scan
  | next (rest : List (UpdateRequest ν κ π))
  | claimed (request : UpdateRequest ν κ π) (rest : List (UpdateRequest ν κ π))
  | respond (request : UpdateRequest ν κ π) (response : UpdateResponse ρ)
      (rest : List (UpdateRequest ν κ π))
  | done
deriving DecidableEq

/-- Who a request was handed to. -/
inductive Taker where
  | drain (place : Nat)
  | wait (place : Nat)
deriving DecidableEq

/-- `pending`, `responses` and `mapping` are stored. `issued`, `withdrawn`, `taken`, `runs` and
`answers` record what happened: the requests, those deleted because the workflow is terminal, to
whom they were handed, those a handler or a wait has seen, and the responses that were committed. -/
structure World (ν κ π ρ : Type u) where
  pending : List (UpdateRequest ν κ π) := []
  responses : Nat → Option (UpdateResponse ρ) := fun _ => none
  mapping : κ → Option Nat := fun _ => none
  deliveredPendingUpdateIds : List Nat := []
  updateWaiters : ν → Option Nat := fun _ => none
  calls : List (Call ν κ π ρ) := []
  waits : List (Wait ν κ π ρ) := []
  drains : List (DrainStage ν κ π ρ) := []
  issued : List (UpdateRequest ν κ π) := []
  withdrawn : List Nat := []
  taken : List (Nat × Taker) := []
  runs : List (UpdateRequest ν κ π) := []
  answers : List (Nat × UpdateResponse ρ) := []

inductive Event (ν κ π ρ : Type u) where
  | submitCoordinatedUpdate (name : ν) (payload : π) (idempotencyKey : Option κ)
  | update (name : ν) (payload : π)
  /-- The call goes on; `ok` says whether its guards pass and its poll is in time. -/
  | call (place : Nat) (ok : Bool) (updateId createdAt : Nat)
  | processWaitUpdateOperation (name : ν)
  | wait (place : Nat) (ok : Bool)
  | respond (place : Nat) (value : Option ρ)
  | drain
  /-- The drain goes on; `ok` says whether there is a handler, whether the validator accepts, and
  whether the commit succeeds, and `response` is what the handler does. -/
  | drainStep (place : Nat) (ok : Bool) (response : UpdateResponse ρ)
  | cleanupExpiredResponses (updateIds : List Nat)

section

variable [DecidableEq ν] [DecidableEq κ]

/-- The requests by their time and id. -/
def getPendingUpdates (w : World ν κ π ρ) : List (UpdateRequest ν κ π) :=
  w.pending.insertionSort fun a b =>
    a.createdAt < b.createdAt ∨ (a.createdAt = b.createdAt ∧ a.updateId ≤ b.updateId)

def findPendingUpdateByName (w : World ν κ π ρ) (name : ν) : Option (UpdateRequest ν κ π) :=
  (getPendingUpdates w).find? (·.name = name)

def deleteRequest (w : World ν κ π ρ) (updateId : Nat) : World ν κ π ρ :=
  { w with pending := w.pending.filter (·.updateId ≠ updateId) }

/-- The batch of `buildResponseOperations`. -/
def commitResponse (w : World ν κ π ρ) (request : UpdateRequest ν κ π)
    (response : UpdateResponse ρ) : World ν κ π ρ := { w with
  pending := w.pending.filter (·.updateId ≠ request.updateId)
  responses := Function.update w.responses request.updateId (some response)
  mapping := match request.idempotencyKey with
    | some idempotencyKey =>
      Function.update w.mapping idempotencyKey (some request.updateId)
    | none => w.mapping
  answers := (request.updateId, response) :: w.answers }

/-- A promise is resolved once. -/
def resolveWaiter (w : World ν κ π ρ) (waiter : Nat)
    (value : Option (UpdateRequest ν κ π)) : World ν κ π ρ := { w with
  waits := w.waits.modify waiter fun x =>
    if x.promise.isNone then { x with promise := some value } else x }

def setCall (w : World ν κ π ρ) (place : Nat) (c : Call ν κ π ρ)
    (stage : CallStage ν κ π ρ) : World ν κ π ρ :=
  { w with calls := w.calls.set place { c with stage := stage } }

/-- One step of a call. The path of a stored response does not pass its error on. -/
def callStep (w : World ν κ π ρ) (place : Nat) (c : Call ν κ π ρ) (ok : Bool)
    (updateId createdAt : Nat) : Option (World ν κ π ρ) :=
  match c.stage with
  | .checkIdempotency =>
    match c.idempotencyKey.bind w.mapping with
    | some updateId => some (setCall w place c (.getResponse updateId))
    | none => some (setCall w place c .createRequest)
  | .getResponse updateId =>
    match w.responses updateId with
    | some existing => some (setCall w place c (.returned updateId ⟨existing.result, none⟩))
    | none => some (setCall w place c .createRequest)
  | .tryWaiting waiter =>
    some (setCall w place c (.triedWaiting waiter (findPendingUpdateByName w c.name).isSome))
  | .triedWaiting waiter existingPendingUpdate =>
    if w.updateWaiters c.name ≠ some waiter ∨ existingPendingUpdate then
      some (setCall w place c .createRequest)
    else some (resolveWaiter
      { setCall w place c .handedOver with
        updateWaiters := Function.update w.updateWaiters c.name none } waiter none)
  | .createRequest =>
    if ok then
      if updateId ∈ w.issued.map UpdateRequest.updateId then none
      else
        let request : UpdateRequest ν κ π :=
          ⟨updateId, createdAt, c.name, c.payload, c.idempotencyKey⟩
        some { setCall w place c (.guardTerminal request) with
          pending := w.pending ++ [request]
          issued := w.issued ++ [request] }
    else some (setCall w place c .failed)
  | .guardTerminal request =>
    if ok ∨ (w.responses request.updateId).isSome ∨
        request.updateId ∉ w.pending.map UpdateRequest.updateId then
      some (setCall w place c (.deliver request))
    else some (setCall w place c (.deleteIfUnconsumed request))
  | .deleteIfUnconsumed request =>
    if (w.responses request.updateId).isSome then some (setCall w place c (.deliver request))
    else some { deleteRequest (setCall w place c (.deletedUnconsumed request)) request.updateId with
      withdrawn := request.updateId :: w.withdrawn }
  | .deletedUnconsumed request =>
    if (w.responses request.updateId).isSome then some (setCall w place c (.deliver request))
    else some (setCall w place c .failed)
  | .deliver request =>
    match w.updateWaiters request.name with
    | some waiter => some (setCall w place c (.findPending request waiter))
    | none => some (setCall w place c (.waitForResponse request))
  | .findPending request waiter => some (setCall w place c
      (.foundPending request waiter (findPendingUpdateByName w request.name)))
  | .foundPending request waiter oldestPendingUpdate =>
    match oldestPendingUpdate with
    | some oldest =>
      if oldest.updateId = request.updateId then
        some (deleteRequest (setCall w place c (.deletedForWaiter request waiter))
          request.updateId)
      else some (setCall w place c (.waitForResponse request))
    | none => some (setCall w place c (.waitForResponse request))
  | .deletedForWaiter request waiter =>
    some (resolveWaiter
      { setCall w place c (.waitForResponse request) with
        updateWaiters := Function.update w.updateWaiters request.name none } waiter (some request))
  | .waitForResponse request =>
    if ok then
      match w.responses request.updateId with
      | some response => some (setCall w place c (.returned request.updateId response))
      | none => some w
    else some (setCall w place c .failed)
  | _ => none

def setWait (w : World ν κ π ρ) (place : Nat) (x : Wait ν κ π ρ)
    (stage : WaitStage ν κ π ρ) : World ν κ π ρ :=
  { w with waits := w.waits.set place { x with stage := stage } }

/-- The wait's operation is completed with a request. -/
def completeOperation (w : World ν κ π ρ) (place : Nat) (x : Wait ν κ π ρ)
    (request : UpdateRequest ν κ π) : World ν κ π ρ := { setWait w place x (.completed request) with
  taken := (request.updateId, .wait place) :: w.taken
  runs := w.runs ++ [request] }

/-- One step of a wait; `ok` says whether the commit of its answer succeeds. -/
def waitStep (w : World ν κ π ρ) (place : Nat) (x : Wait ν κ π ρ) (ok : Bool) :
    Option (World ν κ π ρ) :=
  match x.stage with
  | .findPending => some (setWait w place x (.foundPending (findPendingUpdateByName w x.name)))
  | .foundPending matchingUpdate =>
    match matchingUpdate with
    | some request => some (deleteRequest (setWait w place x (.deleted request)) request.updateId)
    | none => some { setWait w place x .registered with
        updateWaiters := Function.update w.updateWaiters x.name (some place) }
  | .deleted request => some (completeOperation w place x request)
  | .registered =>
    some (setWait w place x (.foundRegistered (findPendingUpdateByName w x.name)))
  | .foundRegistered pendingUpdate =>
    match pendingUpdate with
    | some request =>
      let w' := if w.updateWaiters x.name = some place then
        { w with updateWaiters := Function.update w.updateWaiters x.name none } else w
      some (deleteRequest (setWait w' place x (.deleted request)) request.updateId)
    | none => some (setWait w place x .awaiting)
  | .awaiting =>
    match x.promise with
    | some (some request) => some (completeOperation w place x request)
    | some none => some (setWait w place x .done)
    | none => none
  | .responding request value =>
    if ok then some (setWait (commitResponse w request ⟨value, none⟩) place x .done)
    else some (setWait w place x .done)
  | _ => none

/-- One step of a drain. -/
def drainStep (w : World ν κ π ρ) (place : Nat) (stage : DrainStage ν κ π ρ) (ok : Bool)
    (response : UpdateResponse ρ) : Option (World ν κ π ρ) :=
  match stage with
  | .scan => some { w with drains := w.drains.set place (.next (getPendingUpdates w)) }
  | .next [] => some { w with drains := w.drains.set place .done }
  | .next (request :: rest) =>
    if ok ∧ request.updateId ∉ w.deliveredPendingUpdateIds then some { w with
      deliveredPendingUpdateIds := request.updateId :: w.deliveredPendingUpdateIds
      taken := (request.updateId, .drain place) :: w.taken
      drains := w.drains.set place (.claimed request rest) }
    else some { w with drains := w.drains.set place (.next rest) }
  | .claimed request rest =>
    if ok then some { w with
      runs := w.runs ++ [request]
      drains := w.drains.set place (.respond request response rest) }
    else some { w with
      drains := w.drains.set place (.respond request ⟨none, some (response.error.getD "")⟩ rest) }
  | .respond request answer rest =>
    if ok then some { commitResponse w request answer with
      drains := w.drains.set place (.next rest) }
    else some { w with drains := w.drains.set place .done }
  | .done => none

def updateMachine : Machine (World ν κ π ρ) (Event ν κ π ρ) where
  step := fun w event =>
    match event with
    | .submitCoordinatedUpdate name payload idempotencyKey => some { w with
        calls := w.calls ++ [⟨name, payload, idempotencyKey,
          if idempotencyKey.isSome then .checkIdempotency else .createRequest⟩] }
    | .update name payload => some { w with
        calls := w.calls ++ [⟨name, payload, none,
          match w.updateWaiters name with
          | some waiter => .tryWaiting waiter
          | none => .createRequest⟩] }
    | .call place ok updateId createdAt =>
      (w.calls[place]?).bind fun c => callStep w place c ok updateId createdAt
    | .processWaitUpdateOperation name => some { w with
        waits := w.waits ++ [⟨name, .findPending, none⟩] }
    | .wait place ok => (w.waits[place]?).bind fun x => waitStep w place x ok
    | .respond place value => (w.waits[place]?).bind fun x =>
      match x.stage with
      | .completed request => some (setWait w place x (.responding request value))
      | _ => none
    | .drain => some { w with drains := w.drains ++ [.scan] }
    | .drainStep place ok response =>
      (w.drains[place]?).bind fun stage => drainStep w place stage ok response
    | .cleanupExpiredResponses updateIds => some { w with
        responses := fun updateId => if updateId ∈ updateIds then none else w.responses updateId
        mapping := fun idempotencyKey =>
          if (w.mapping idempotencyKey).any (· ∈ updateIds) then none
          else w.mapping idempotencyKey }

end

end Weft.Updates
