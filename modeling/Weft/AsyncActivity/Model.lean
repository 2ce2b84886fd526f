import Weft.Lib.Machine

/-! Out-of-band completion of the activities of one workflow. An activity that defers is parked
under a token; an acknowledgement claims the token in memory, commits the outcome, and then feeds
it to the workflow. A step of the machine is what happens between two awaits. -/

namespace Weft.AsyncActivity
open Weft.Lib

universe u

variable {ρ : Type u}

inductive OperationOutcome (ρ : Type u) where
  | completed (value : ρ)
  | failed (error : String)
deriving DecidableEq

/-- The activity dispatches of the workflow are numbered in their order. `deriveAsyncActivityToken`
makes the token from workflow, step and attempt, so that the number stands for it. -/
structure Resolution (ρ : Type u) where
  token : Nat
  outcome : OperationOutcome ρ
deriving DecidableEq

/-- A call of `completeAsyncActivity` or `failAsyncActivity` that has claimed its token. -/
structure Acknowledgement (ρ : Type u) where
  token : Nat
  outcome : OperationOutcome ρ
  committed : Bool := false
deriving DecidableEq

def Acknowledgement.resolution (call : Acknowledgement ρ) : Resolution ρ :=
  ⟨call.token, call.outcome⟩

/-- A generator in memory. `results` are what its dispatches were fed, with `none` for what the
activity returned itself; `due` says that the last of them is not in a checkpoint yet. -/
structure Generator (ρ : Type u) where
  results : List (Option (Resolution ρ))
  due : Bool := false
deriving DecidableEq

/-- `checkpoint`, `records` and `resolutions` are stored. `bodies` are the dispatches whose activity
is running, `registering` those whose token record is being written, and `accepted` are the
acknowledgements that were committed. -/
structure World (ρ : Type u) where
  checkpoint : List (Option (Resolution ρ)) := []
  records : List Nat := []
  resolutions : List (Resolution ρ) := []
  recovered : Bool := true
  pendingAsyncActivities : List Nat := []
  pendingAsyncActivityResolutions : List (Resolution ρ) := []
  generator : Option (Generator ρ) := none
  bodies : List Nat := []
  registering : List Nat := []
  staged : List Nat := []
  calls : List (Acknowledgement ρ) := []
  accepted : List (Resolution ρ) := []
deriving DecidableEq

inductive Event (ρ : Type u) where
  /-- `fits` says whether the payload is within the limit. -/
  | acknowledge (token : Nat) (outcome : OperationOutcome ρ) (fits : Bool)
  | commit (place : Nat) (ok : Bool)
  | resolve (place : Nat)
  /-- The workflow is loaded from its checkpoint and runs its activity again. -/
  | adopt
  /-- The generator is dropped from memory, as by `suspend`. -/
  | release
  /-- A running activity throws the deferral. -/
  | defer (token : Nat)
  | register (place : Nat) (ok : Bool)
  /-- A running activity ends without deferring. -/
  | finish (token : Nat)
  | persistCheckpoint
  | crash
  | recoverPendingAsyncActivities
deriving DecidableEq

/-- The generator goes on with a result, whatever operation it is at. -/
def feedOperationResult (w : World ρ) (result : Option (Resolution ρ)) : World ρ :=
  match w.generator with
  | none => w
  | some g => { w with generator := some ⟨g.results ++ [result], true⟩ }

def deliverPendingAsyncActivityResolution (w : World ρ) (resolution : Resolution ρ) : World ρ :=
  feedOperationResult { w with staged := w.staged ++ [resolution.token] } (some resolution)

/-- The claim is synchronous; an unknown token is refused. -/
def consumePendingAsyncActivity (w : World ρ) (token : Nat) (outcome : OperationOutcome ρ) :
    World ρ :=
  if token ∈ w.pendingAsyncActivities then
    { w with
      pendingAsyncActivities := w.pendingAsyncActivities.erase token
      calls := w.calls ++ [⟨token, outcome, false⟩] }
  else w

/-- The batch of an acknowledgement: the token record goes and the resolution record comes. -/
def commitAcknowledgement (w : World ρ) (place : Nat) (call : Acknowledgement ρ) : World ρ :=
  { w with
    records := w.records.filter (· ≠ call.token)
    resolutions := w.resolutions.filter (·.token ≠ call.token) ++ [call.resolution]
    accepted := w.accepted ++ [call.resolution]
    calls := w.calls.set place { call with committed := true } }

/-- The claim is restored and the call throws. -/
def restoreClaim (w : World ρ) (place : Nat) (call : Acknowledgement ρ) : World ρ := { w with
  pendingAsyncActivities := w.pendingAsyncActivities.insert call.token
  calls := w.calls.eraseIdx place }

def resolvePendingAsyncActivity (w : World ρ) (place : Nat) (call : Acknowledgement ρ) : World ρ :=
  let w := { w with calls := w.calls.eraseIdx place }
  if w.generator.isNone then
    { w with
      pendingAsyncActivityResolutions := w.pendingAsyncActivityResolutions ++ [call.resolution] }
  else deliverPendingAsyncActivityResolution w call.resolution

def parkDeferredAsyncActivity (w : World ρ) (token : Nat) : World ρ :=
  match w.pendingAsyncActivityResolutions.find? (·.token = token) with
  | some resolution =>
    deliverPendingAsyncActivityResolution
      { w with
        pendingAsyncActivityResolutions :=
          w.pendingAsyncActivityResolutions.eraseP (·.token = token) }
      resolution
  | none =>
    { w with
      pendingAsyncActivities := w.pendingAsyncActivities.insert token
      registering := w.registering ++ [token] }

/-- Only what is stored stays. -/
def World.restarted (w : World ρ) : World ρ :=
  { checkpoint := w.checkpoint
    records := w.records
    resolutions := w.resolutions
    recovered := false
    accepted := w.accepted }

def recoverPendingAsyncActivities (w : World ρ) : World ρ := { w with
  recovered := true
  pendingAsyncActivities := w.records.foldl (fun pending token => pending.insert token)
    w.pendingAsyncActivities
  pendingAsyncActivityResolutions := w.pendingAsyncActivityResolutions ++ w.resolutions }

/-- A registration whose write fails throws, and the throw is fed as the activity's failure; the
token stays in memory. -/
def asyncActivityMachine : Machine (World ρ) (Event ρ) where
  step := fun w event =>
    match event with
    | .acknowledge token outcome fits =>
      some (if fits then consumePendingAsyncActivity w token outcome else w)
    | .commit place ok =>
      match w.calls[place]? with
      | some call =>
        if call.committed then none
        else some (if ok then commitAcknowledgement w place call else restoreClaim w place call)
      | none => none
    | .resolve place =>
      match w.calls[place]? with
      | some call => if call.committed then some (resolvePendingAsyncActivity w place call)
          else none
      | none => none
    | .adopt =>
      match w.generator with
      | none => some { w with
          generator := some ⟨w.checkpoint, false⟩
          bodies := w.bodies ++ [w.checkpoint.length] }
      | some _ => none
    | .release => some { w with generator := none }
    | .defer token =>
      if token ∈ w.bodies then
        some (parkDeferredAsyncActivity { w with bodies := w.bodies.erase token } token)
      else none
    | .register place ok =>
      match w.registering[place]? with
      | some token =>
        let w := { w with registering := w.registering.eraseIdx place }
        some (if ok then { w with records := w.records.insert token }
          else feedOperationResult w none)
      | none => none
    | .finish token =>
      if token ∈ w.bodies then
        some (feedOperationResult { w with bodies := w.bodies.erase token } none)
      else none
    | .persistCheckpoint =>
      match w.generator with
      | some ⟨results, true⟩ => some { w with
          checkpoint := results
          resolutions := w.resolutions.filter (·.token ∉ w.staged)
          staged := []
          generator := some ⟨results, false⟩
          bodies := w.bodies ++ [results.length] }
      | _ => none
    | .crash => some w.restarted
    | .recoverPendingAsyncActivities => some (AsyncActivity.recoverPendingAsyncActivities w)

end Weft.AsyncActivity
