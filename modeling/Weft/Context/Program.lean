import Weft.Context.Operations

/-! Workflow programs. A program is what a workflow function does with a context: it goes on
with the outcome of each operation. The branches of a parallel operation are programs too, of
which only the beginning runs, up to their first request; a speculation runs a program in a copy
of the context. -/

namespace Weft.Context
open Weft.Js Weft.Lib

universe u

/-- A parallel operation over `n` branches. The names of a keyed race are its keys. -/
inductive ParallelOperation (n : Nat) where
  | all
  | race
  | raceKeyed (names : Fin n → JsString)

inductive Program (α : Type u) where
  | done (outcome : Outcome α)
  | operation (operation : Operation α) (next : Outcome α → Program α)
  | parallel (n : Nat) (operation : ParallelOperation n) (branches : Fin n → Program α)
      (next : Outcome α → Program α)
  | speculate (body : Program α) (next : Outcome α → Program α)

variable {α : Type u}

inductive Status (α : Type u) where
  | finished (outcome : Outcome α)
  | pending (request : Request α)

/-- How far a program gets: the outcomes that its operations handed it, and what it waits for. -/
structure Execution (α : Type u) where
  context : ContextInternals α
  handed : List (Outcome α)
  events : List Event
  status : Status α

/-! ## Priming -/

/-- The branches that were started: the requests of those that wait for the engine, and the values
of those that returned. -/
structure Primed (α : Type u) where
  context : ContextInternals α
  events : List Event
  subOperations : List (Request α)
  returned : List (Nat × Value α)
  failure : Option Failure

/-- The branches are started one after another, until one throws. -/
def primeParallelOperations {n : Nat} (start : Fin n → ContextInternals α → Execution α) :
    List (Fin n) → ContextInternals α → Primed α
  | [], ctx => ⟨ctx, [], [], [], none⟩
  | i :: is, ctx =>
    let started := start i ctx
    let primed := primeParallelOperations start is started.context
    match started.status with
    | .pending request =>
      { primed with
        events := started.events ++ primed.events
        subOperations := request :: primed.subOperations }
    | .finished (.ok value) =>
      { primed with
        events := started.events ++ primed.events
        returned := (i.val, value) :: primed.returned }
    | .finished (.error failure) => ⟨started.context, started.events, [], [], some failure⟩

/-! ## Parallel operations -/

namespace ParallelOperation

variable {n : Nat}

def variant : ParallelOperation n → ParallelVariant
  | .all => .all
  | .race | .raceKeyed _ => .race

def branchNames : ParallelOperation n → Option (List JsString)
  | .all | .race => none
  | .raceKeyed names => some (List.ofFn names)

def request (operation : ParallelOperation n) (subOperations : List (Request α)) (step : Nat) :
    Request α :=
  match operation with
  | .all => .parallel subOperations step
  | .race | .raceKeyed _ => .race subOperations operation.branchNames

/-- The entry of the winner of a race. -/
def winnerEntry (operation : ParallelOperation n) (winner : Value α) (subOperationCount : Nat) :
    Value α :=
  .cacheEntry .race [.fulfilled winner] operation.branchNames subOperationCount

def allEntry (slots : List (ParallelBranchSlot (Value α))) (subOperationCount : Nat) : Value α :=
  .cacheEntry .all slots none subOperationCount

end ParallelOperation

def arrayItems : Value α → Option (List (Value α))
  | .array items => some items
  | _ => none

variable {n : Nat}

/-- The branches of a parallel operation are started, and the engine runs their requests. -/
def yieldParallel (operation : ParallelOperation n) (step : Nat) (ctx : ContextInternals α)
    (prime : ContextInternals α → Primed α) (script : List (Response α)) : Progress α :=
  let primed := prime ctx
  let count := primed.subOperations.length
  let steps := primed.context.stepIndex - ctx.stepIndex
  let taken : Nat → Event := fun recorded => .parallel operation.variant n recorded steps
  match primed.failure with
  | some failure => .go primed.context primed.events (.error failure) script
  | none =>
    match operation, primed.returned with
    | .raceKeyed names, (index, value) :: _ =>
      let winner : Value α := .keyed ((List.ofFn names).getD index []) value
      .go (primed.context.record step ((ParallelOperation.raceKeyed names).winnerEntry winner n))
        (primed.events ++ [taken n]) (.ok winner) script
    | .all, _ => awaitBranches primed.context primed.events
        (ParallelOperation.request (.all : ParallelOperation n) primed.subOperations step) step
        (fun slots => ParallelOperation.allEntry slots count) count arrayItems [taken count] script
    | operation, _ => match awaitAnswer primed.context primed.events
        (operation.request primed.subOperations step) (fun _ => true)
        (fun ctx value => ctx.record step (operation.winnerEntry value count)) script with
      | .go ctx events (.ok value) rest => .go ctx (events ++ [taken count]) (.ok value) rest
      | progress => progress

/-- The topology of a recorded race must be that of the operation. -/
def assertRaceBranchTopology (operation : ParallelOperation n)
    (branchNames : Option (List JsString)) (subOperationCount : Nat) : Option TopologyChange :=
  if n ≠ subOperationCount then some (.branchCount subOperationCount n)
  else if operation.branchNames ≠ branchNames then
    some (.branchNames branchNames operation.branchNames)
  else none

/-- A parallel operation that is not refused at once. -/
def enterParallel (operation : ParallelOperation n) (prime : ContextInternals α → Primed α)
    (ctx : ContextInternals α) (script : List (Response α)) : Progress α :=
  let step := ctx.stepIndex
  let ctx := ctx.takeStep
  let throws : TopologyChange → Progress α := fun change =>
    .go ctx [] (.error (.branchTopologyChanged change)) script
  match ctx.accumulatedResults.get step with
  | none => yieldParallel operation step ctx prime script
  | some (.cacheEntry variant slots names count) =>
    if hasValidBranchTopology variant slots count names then
      if variant ≠ operation.variant then throws (.variant variant step)
      else match operation.variant with
        | .race =>
          match assertRaceBranchTopology operation names count with
          | some change => throws change
          | none => .go (ctx.skip count) []
              (.ok ((slots.filterMap (·.value?)).headD .undefined)) script
        | _ =>
          if n ≠ count then throws (.branchCount count n)
          else if slots.all (·.isFulfilled) then
            .go (ctx.skip count) [] (.ok (.array (slots.filterMap (·.value?)))) script
          else yieldParallel operation step ctx prime script
    else throws .malformed
  | some cached =>
    match operation with
    | .raceKeyed _ => throws (.rawKeyedRace step)
    | _ => .go ctx [] (.ok cached) script

def performParallel (operation : ParallelOperation n) (prime : ContextInternals α → Primed α)
    (ctx : ContextInternals α) (script : List (Response α)) : Progress α :=
  match operation with
  | .raceKeyed names =>
    if n = 0 then .go ctx [] (.error .emptyKeyedRace) script
    else enterParallel (.raceKeyed names) prime ctx script
  | operation => enterParallel operation prime ctx script

/-! ## Speculation -/

/-- The speculative child has a copy of the context's state. -/
def createSpeculativeChild (ctx : ContextInternals α) : ContextInternals α :=
  { initializeInternals
      { initialStep := some ctx.stepIndex
        accumulatedResults := some ctx.accumulatedResults
        locals := some ctx.checkpointLocals
        sleepReferenceTime := ctx.sleepReferenceTime } ctx.now with
    memoCache := ctx.memoCache }

def commitSpeculativeChild (parent child : ContextInternals α) : ContextInternals α := { parent with
  stepIndex := child.stepIndex
  accumulatedResults := child.accumulatedResults
  checkpointLocals := createCheckpointLocals child.checkpointLocals.stateSession
    (some child.checkpointLocals)
  memoCache := child.memoCache
  sleepReferenceTime := child.sleepReferenceTime }

def performSpeculate (run : ContextInternals α → List (Response α) → Execution α)
    (ctx : ContextInternals α) (script : List (Response α)) : Progress α :=
  let step := ctx.stepIndex
  let ctx := ctx.takeStep
  match ctx.accumulatedResults.get step with
  | some cached => .go ctx [] (.ok cached) script
  | none =>
    match script with
    | .speculated now inner :: rest =>
      let child := run (createSpeculativeChild ctx) inner
      match child.status with
      | .finished (.ok value) =>
        .go (((commitSpeculativeChild ctx child.context).tick now).record step value)
          (child.events ++ [.settled, .speculated (child.context.stepIndex - ctx.stepIndex)])
          (.ok value) rest
      | .finished (.error failure) =>
        .go (ctx.tick now) (child.events ++ [.settled, .failed]) (.error failure) rest
      | .pending _ => .stop ctx [] .speculate
    | .settled now (.error error) :: rest =>
      .go (ctx.tick now) [.settled, .failed] (.error (.thrown error)) rest
    | _ => .stop ctx [] .speculate

/-! ## Execution -/

/-- A program goes on after an operation. -/
def Progress.andThen (progress : Progress α)
    (next : Outcome α → ContextInternals α → List (Response α) → Execution α) : Execution α :=
  match progress with
  | .stop ctx events request => ⟨ctx, [], events, .pending request⟩
  | .go ctx events outcome rest =>
    let execution := next outcome ctx rest
    { execution with
      handed := outcome :: execution.handed
      events := events ++ execution.events }

def Program.execute : Program α → ContextInternals α → List (Response α) → Execution α
  | .done outcome, ctx, _ => ⟨ctx, [], [], .finished outcome⟩
  | .operation op next, ctx, script =>
    (op.perform ctx script).andThen fun outcome => (next outcome).execute
  | .parallel n op branches next, ctx, script =>
    (performParallel op (primeParallelOperations (fun i ctx => (branches i).execute ctx [])
      (List.finRange n)) ctx script).andThen fun outcome => (next outcome).execute
  | .speculate body next, ctx, script =>
    (performSpeculate body.execute ctx script).andThen fun outcome => (next outcome).execute

end Weft.Context
