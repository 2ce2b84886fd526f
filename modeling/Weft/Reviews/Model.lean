import Weft.Lib.Machine

/-! Human reviews of one workflow. `ctx.review` stores a request, schedules the timers and then
registers its waiter; a submission looks the request up, commits the completed record and resolves
the waiter; a timer removes the waiter before it commits. A step of the machine is what happens
between two awaits. -/

namespace Weft.Reviews
open Weft.Lib

universe u

variable {ι δ : Type u}

/-- Where `processReviewOperation` stands: its request is stored, its waiter is registered, or its
promise is resolved, with `none` for a timeout. -/
inductive Stage (δ : Type u) where
  | created
  | waiting
  | resolved (outcome : Option δ)
deriving DecidableEq

/-- The handler of the review's timers is registered with the waiter. -/
def Stage.registered : Stage δ → Bool
  | .created => false
  | _ => true

inductive SubmitStage where
  | found
  | committed
  | returned
  | failed
deriving DecidableEq

/-- A call of `submitReview` that has found its request. -/
structure Submit (ι δ : Type u) where
  reviewId : ι
  decision : δ
  stage : SubmitStage := .found
deriving DecidableEq

inductive HandlerStage where
  | claimed
  | committed
  | settled
deriving DecidableEq

/-- A call of `handleReviewEscalationTimer` that decides: by an automatic decision, or with `none`
by the timeout. -/
structure Handler (ι δ : Type u) where
  reviewId : ι
  outcome : Option δ
  stage : HandlerStage := .claimed
deriving DecidableEq

/-- `stored` are the keys of the pending requests and `completed` the completed records. `results`
are what `ctx.review` returned, `checkpoint` those that are in the checkpoint, and `decided` are the
decisions that were committed. -/
structure World (ι δ : Type u) where
  stored : List ι := []
  completed : ι → Option δ := fun _ => none
  terminal : Bool := false
  checkpoint : List (ι × δ) := []
  operation : Option (ι × Stage δ) := none
  reviewWaiters : List ι := []
  submits : List (Submit ι δ) := []
  handlers : List (Handler ι δ) := []
  results : List (ι × δ) := []
  issued : List ι := []
  decided : List (ι × Option δ) := []

inductive TimerAction (δ : Type u) where
  | escalate
  | decide (result : δ)
  | timeout
deriving DecidableEq

inductive Event (ι δ : Type u) where
  | createReview (reviewId : ι)
  | createReviewWaiter
  | submitReview (reviewId : ι) (decision : δ)
  | commitSubmit (place : Nat) (ok : Bool)
  | resolveWaitingReview (place : Nat)
  /-- A timer of the review fires while its handler is registered. -/
  | timer (reviewId : ι) (action : TimerAction δ)
  | commitHandler (place : Nat) (ok : Bool)
  | settleHandler (place : Nat)
  /-- The operation goes on after its promise and feeds the decision. -/
  | feedOperationResult
  | persistCheckpoint
  /-- The workflow ends otherwise, and its reviews are cleaned up. -/
  | terminate
  | crash
deriving DecidableEq

section

variable [DecidableEq ι]

/-- A promise is resolved once. -/
def resolve (w : World ι δ) (reviewId : ι) (outcome : Option δ) : World ι δ :=
  match w.operation with
  | some (current, .waiting) =>
    if current = reviewId then { w with operation := some (current, .resolved outcome) } else w
  | _ => w

def resolveWaitingReview (w : World ι δ) (reviewId : ι) (decisionResult : δ) : World ι δ :=
  if reviewId ∈ w.reviewWaiters then
    resolve { w with reviewWaiters := w.reviewWaiters.filter (· ≠ reviewId) } reviewId
      (some decisionResult)
  else w

/-- The batch has no condition: the record is put and the request deleted in any case. -/
def persistCompletedReviewRecord (w : World ι δ) (reviewId : ι) (decisionResult : δ) :
    World ι δ := { w with
  completed := Function.update w.completed reviewId (some decisionResult)
  stored := w.stored.filter (· ≠ reviewId)
  decided := (reviewId, some decisionResult) :: w.decided }

/-- The request goes with the commit that fails the workflow. -/
def failWorkflow (w : World ι δ) (reviewId : ι) : World ι δ := { w with
  terminal := true
  stored := w.stored.filter (· ≠ reviewId)
  decided := (reviewId, none) :: w.decided }

def commitHandler (w : World ι δ) (handler : Handler ι δ) : World ι δ :=
  match handler.outcome with
  | some autoResult => persistCompletedReviewRecord w handler.reviewId autoResult
  | none => failWorkflow w handler.reviewId

def handleReviewEscalationTimer (w : World ι δ) (reviewId : ι) (outcome : Option δ) :
    World ι δ := { w with
  reviewWaiters := w.reviewWaiters.filter (· ≠ reviewId)
  handlers := w.handlers ++ [⟨reviewId, outcome, .claimed⟩] }

/-- Only what is stored stays; calls under way are lost. -/
def World.restarted (w : World ι δ) : World ι δ := { w with
  operation := none
  reviewWaiters := []
  submits := w.submits.map fun submit =>
    if submit.stage = .returned then submit else { submit with stage := .failed }
  handlers := []
  results := w.checkpoint }

/-- Review ids are drawn at random, so a new one is new. A replay that finds no result draws a new
one too. -/
def reviewMachine : Machine (World ι δ) (Event ι δ) where
  step := fun w event =>
    match event with
    | .createReview reviewId =>
      if reviewId ∈ w.issued ∨ w.operation.isSome ∨ w.terminal then none
      else some { w with
        operation := some (reviewId, .created)
        stored := w.stored ++ [reviewId]
        issued := w.issued ++ [reviewId] }
    | .createReviewWaiter =>
      match w.operation with
      | some (reviewId, .created) => some { w with
          operation := some (reviewId, .waiting)
          reviewWaiters := reviewId :: w.reviewWaiters }
      | _ => none
    | .submitReview reviewId decision =>
      if reviewId ∈ w.stored then
        some { w with submits := w.submits ++ [⟨reviewId, decision, .found⟩] }
      else some w
    | .commitSubmit place ok =>
      match w.submits[place]? with
      | some ⟨reviewId, decision, .found⟩ =>
        if ok then some
          { persistCompletedReviewRecord w reviewId decision with
            submits := w.submits.set place ⟨reviewId, decision, .committed⟩ }
        else some { w with submits := w.submits.set place ⟨reviewId, decision, .failed⟩ }
      | _ => none
    | .resolveWaitingReview place =>
      match w.submits[place]? with
      | some ⟨reviewId, decision, .committed⟩ => some
          { resolveWaitingReview w reviewId decision with
            submits := w.submits.set place ⟨reviewId, decision, .returned⟩ }
      | _ => none
    | .timer reviewId action =>
      match w.operation with
      | some (current, stage) =>
        if current = reviewId ∧ stage.registered then
          match action with
          | .escalate => some w
          | .decide result => some (handleReviewEscalationTimer w reviewId (some result))
          | .timeout => some (handleReviewEscalationTimer w reviewId none)
        else none
      | none => none
    | .commitHandler place ok =>
      match w.handlers[place]? with
      | some ⟨reviewId, outcome, .claimed⟩ =>
        if ok then some
          { commitHandler w ⟨reviewId, outcome, .claimed⟩ with
            handlers := w.handlers.set place ⟨reviewId, outcome, .committed⟩ }
        else some { w with handlers := w.handlers.set place ⟨reviewId, outcome, .settled⟩ }
      | _ => none
    | .settleHandler place =>
      match w.handlers[place]? with
      | some ⟨reviewId, outcome, .committed⟩ => some
          { resolve w reviewId outcome with
            handlers := w.handlers.set place ⟨reviewId, outcome, .settled⟩ }
      | _ => none
    | .feedOperationResult =>
      match w.operation with
      | some (reviewId, .resolved (some decision)) => some { w with
          operation := none
          results := w.results ++ [(reviewId, decision)] }
      | some (_, .resolved none) => some { w with operation := none }
      | _ => none
    | .persistCheckpoint => some { w with checkpoint := w.results }
    | .terminate => some { w with
        terminal := true
        operation := none
        reviewWaiters := []
        stored := []
        completed := fun _ => none }
    | .crash => some w.restarted

end

end Weft.Reviews
