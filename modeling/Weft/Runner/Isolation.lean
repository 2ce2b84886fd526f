import Weft.Runner.Model

/-! The message loop of a worker, for one workflow id. Its handlers wait for user generators and
for signatures, and come back to three maps that the next run of the id has filled anew. -/

namespace Weft.Runner

open Weft.Js Weft.Lib Weft.Replay

universe u

/-- A use that a handler, or the code of a run, makes of what a run has installed. Runs are
numbered as their messages come. -/
structure Access where
  actor : Nat
  target : Nat
deriving DecidableEq, Repr

inductive Response (α : Type u) where
  | checkpoint (checkpoint : Checkpoint α) (operationRequest : α)
  | completed (result : α)
  | failed

/-- A handler by what it waits for. `run` is the run that it belongs to. -/
inductive Handler (α : Type u) where
  /-- The generator of the run goes on. `captured` is the replay state that `processGeneratorStep`
  has, once it has read one. -/
  | stepping (run : Nat) (captured : Option Nat) (resumption : Resumption α)
  /-- `createWorkerReplayOperationSignature` -/
  | signing (run captured : Nat) (operationRequest : α) (stepIndex : Nat)
  /-- The response goes back to the message loop, which posts it. -/
  | posting (run : Nat) (response : Response α)
  /-- `generator.return` of a cancelled run. -/
  | cancelling (generator controller replayState : Option Nat)
  | done

/-- The maps have which run's object is under the id, and `states` is what a run's replay state
has in it. `accesses` is the history; the code keeps none. -/
structure Worker (α : Type u) where
  workflowId : JsString
  generators : Option Nat := none
  abortControllers : Option Nat := none
  replayStates : Option Nat := none
  runs : Nat := 0
  states : Nat → Option (WorkerReplayState α) := fun _ => none
  aborted : List Nat := []
  handlers : List (Handler α) := []
  accesses : List Access := []

/-- How far a run message comes before it waits. `checkpoint` is what its bytes hold. -/
inductive RunMessage (α : Type u) where
  | unknownType
  | unreadable
  /-- The workflow function itself throws. -/
  | thrown (checkpoint : Option (Checkpoint α))
  | started (checkpoint : Option (Checkpoint α))

/-- What a handler waited for. -/
inductive Answer (α : Type u) where
  | returned (value : α)
  | yielded (operationRequest : α)
  /-- `serializable` says whether the checkpoint that follows can be encoded. -/
  | signed (signature : α) (serializable : Bool)
  | threw
  | settled

inductive Event (α : Type u) where
  | run (message : RunMessage α) (maxProtocolMessageBytes : Option Nat) (now : Int)
  | resume (outcome : OperationOutcome α) (maxProtocolMessageBytes : Option Nat)
  | cancel
  /-- The code of a run uses `ctx.log` or calls `ctx.getVersion`, which finds the replay state under
  the id; `write` is what it makes of that state. -/
  | useContext (run : Nat) (write : WorkerReplayState α → WorkerReplayState α)
  /-- A `ctx.getVersion` that found the replay state `target` goes on after its yield. -/
  | versionYielded (run target stepIndex : Nat)
  | proceed (place : Nat) (answer : Answer α) (now : Int)

variable {α : Type u}

namespace Worker

/-- The uses of what the given entries of the maps refer to. -/
def note (w : Worker α) (actor : Nat) (targets : List (Option Nat)) : Worker α :=
  { w with accesses := w.accesses ++ (targets.filterMap id).map fun target => ⟨actor, target⟩ }

def cleanupWorkflowRunnerState (w : Worker α) (actor : Nat) : Worker α :=
  { w.note actor [w.generators, w.abortControllers, w.replayStates] with
    generators := none
    abortControllers := none
    replayStates := none }

def setState (w : Worker α) (target : Nat) (replayState : WorkerReplayState α) : Worker α :=
  { w with states := Function.update w.states target (some replayState) }

/-- The maps as the message of a new run finds them, with the run's number. -/
def install (w : Worker α) (checkpoint : Option (Checkpoint α))
    (maxProtocolMessageBytes : Option Nat) (now : Int) : Worker α :=
  let run := w.runs + 1
  { (w.note run [w.abortControllers, w.replayStates]).setState run
      (createReplayState w.workflowId checkpoint maxProtocolMessageBytes now) with
    runs := run
    abortControllers := some run
    replayStates := some run }

/-- `handleRunMessage` until it waits. -/
def handleRunMessage (w : Worker α) (message : RunMessage α)
    (maxProtocolMessageBytes : Option Nat) (now : Int) : Worker α × Handler α :=
  match message with
  | .unknownType => (w, .posting w.runs .failed)
  | .unreadable =>
    let run := w.runs + 1
    let controlled := { w.note run [w.abortControllers] with
      runs := run
      abortControllers := some run }
    (controlled.cleanupWorkflowRunnerState run, .posting run .failed)
  | .thrown checkpoint =>
    let run := w.runs + 1
    ((w.install checkpoint maxProtocolMessageBytes now).cleanupWorkflowRunnerState run,
      .posting run .failed)
  | .started checkpoint =>
    (w.install checkpoint maxProtocolMessageBytes now, .stepping (w.runs + 1) none (.next none))

/-- `handleResumeMessage` until it waits. The handler belongs to the run whose generator it finds,
and to the last run where it finds none. -/
def handleResumeMessage (w : Worker α) (outcome : OperationOutcome α)
    (maxProtocolMessageBytes : Option Nat) : Worker α × Handler α :=
  match w.generators, w.replayStates with
  | some run, some target =>
    match w.states target with
    | none => (w, .posting w.runs .failed)
    | some replayState =>
      let recorded := recordOperationOutcome replayState outcome
      let limited := match maxProtocolMessageBytes with
        | none => recorded
        | some _ => { recorded with maxProtocolMessageBytes }
      ((w.note run [some run, some target]).setState target limited,
        .stepping run none (resumeGeneratorWithOutcome outcome))
  | _, _ => (w, .posting w.runs .failed)

/-- `handleCancelMessage` from its comparisons on. They compare references only: an entry is
deleted where it is the one that was captured. -/
def finishCancel (w : Worker α) (generator controller replayState : Option Nat) : Worker α :=
  { w with
    generators := if w.generators = generator then none else w.generators
    abortControllers := if w.abortControllers = controller then none else w.abortControllers
    replayStates := if w.replayStates = replayState then none else w.replayStates }

def handleCancelMessage (w : Worker α) : Worker α × Handler α :=
  let captured := { w.note w.runs [w.abortControllers, w.generators] with
    aborted := w.aborted ++ w.abortControllers.toList }
  match w.generators with
  | none => (captured.finishCancel w.generators w.abortControllers w.replayStates, .done)
  | some _ => (captured, .cancelling w.generators w.abortControllers w.replayStates)

/-- The `catch` of a handler. -/
def failRun (w : Worker α) (run : Nat) : Worker α × Handler α :=
  (w.cleanupWorkflowRunnerState run, .posting run .failed)

/-- `processGeneratorStep` with a step of the generator, until it waits for a signature. Where it is
entered anew it takes the replay state from the map. -/
def processYielded (w : Worker α) (run : Nat) (captured : Option Nat) (operationRequest : α) :
    Worker α × Handler α :=
  match captured.or w.replayStates with
  | none => w.failRun run
  | some target =>
    match w.states target with
    | none => w.failRun run
    | some replayState =>
      (w.note run [some target], .signing run target operationRequest replayState.nextStepIndex)

variable [DecidableEq α]

/-- `processGeneratorStep` from the signature on. -/
def processSigned (w : Worker α) (run target : Nat) (operationRequest : α) (stepIndex : Nat)
    (signature : α) (serializable : Bool) (now : Int) : Worker α × Handler α :=
  match w.states target with
  | none => w.failRun run
  | some replayState =>
    match processSignedOperation replayState stepIndex signature now with
    | .replay replayed resumption =>
      ((w.note run [some target]).setState target replayed,
        .stepping run (some target) resumption)
    | .mismatch => (w.note run [some target]).failRun run
    | .checkpoint pending =>
      let registered := { (w.note run [some target, w.generators]).setState target pending with
        generators := some run }
      if serializable then
        (registered, .posting run (.checkpoint pending.checkpoint operationRequest))
      else registered.failRun run

/-- How a handler goes on with what it waited for. -/
def proceed (w : Worker α) (handler : Handler α) (answer : Answer α) (now : Int) :
    Option (Worker α × Handler α) :=
  match handler, answer with
  | .stepping run _ _, .returned value =>
    some (w.cleanupWorkflowRunnerState run, .posting run (.completed value))
  | .stepping run captured _, .yielded operationRequest =>
    some (w.processYielded run captured operationRequest)
  | .stepping run _ _, .threw => some (w.failRun run)
  | .signing run target operationRequest stepIndex, .signed signature serializable =>
    some (w.processSigned run target operationRequest stepIndex signature serializable now)
  | .signing run _ _ _, .threw => some (w.failRun run)
  | .posting _ _, .settled => some (w, .done)
  | .posting run _, .threw => some (w.cleanupWorkflowRunnerState run, .done)
  | .cancelling generator controller replayState, .settled =>
    some (w.finishCancel generator controller replayState, .done)
  | .cancelling generator controller replayState, .threw =>
    some (w.finishCancel generator controller replayState, .done)
  | _, _ => none

def begin (next : Worker α × Handler α) : Worker α :=
  { next.1 with handlers := next.1.handlers ++ [next.2] }

def goOn (place : Nat) (next : Worker α × Handler α) : Worker α :=
  { next.1 with handlers := next.1.handlers.set place next.2 }

end Worker

variable [DecidableEq α]

def messageLoop : Machine (Worker α) (Event α) where
  step w event :=
    match event with
    | .run message maxProtocolMessageBytes now =>
      some (Worker.begin (w.handleRunMessage message maxProtocolMessageBytes now))
    | .resume outcome maxProtocolMessageBytes =>
      some (Worker.begin (w.handleResumeMessage outcome maxProtocolMessageBytes))
    | .cancel => some (Worker.begin w.handleCancelMessage)
    | .useContext run write =>
      match w.replayStates with
      | none => some w
      | some target =>
        let noted := w.note run [some target]
        some { noted with states := Function.update w.states target ((w.states target).map write) }
    | .versionYielded run target stepIndex =>
      if ⟨run, target⟩ ∈ w.accesses then
        let resolved := (w.states target).map fun replayState =>
          { replayState with
            accumulatedResults := replayState.accumulatedResults.delete stepIndex }
        some { w.note run [some target] with states := Function.update w.states target resolved }
      else none
    | .proceed place answer now => (w.handlers[place]?).bind fun handler =>
      (w.proceed handler answer now).map (Worker.goOn place)

/-- No use was made by an earlier run of what a later one has installed. -/
def Isolated (w : Worker α) : Prop := ∀ access ∈ w.accesses, access.target ≤ access.actor

def Handler.ofRun : Handler α → Bool
  | .stepping _ _ _ => true
  | .signing _ _ _ _ => true
  | .posting _ _ => true
  | _ => false

/-- A run message comes when the run and resume messages before it are answered, a resume message
when the generator and the replay state under the id are of one run, and code of a run uses its
context only while no later run's replay state is installed. -/
def InTurn (w : Worker α) : Event α → Prop
  | .run _ _ _ => ∀ handler ∈ w.handlers, handler.ofRun = false
  | .resume _ _ => ∀ run ∈ w.generators, ∀ target ∈ w.replayStates, run = target
  | .useContext run _ => ∀ target ∈ w.replayStates, target ≤ run
  | _ => True

omit [DecidableEq α] in
/-- The handler is of the last run. -/
def Handler.Current (runs : Nat) : Handler α → Prop
  | .stepping run captured _ => run = runs ∧ ∀ target ∈ captured, target ≤ runs
  | .signing run target _ _ => run = runs ∧ target ≤ runs
  | .posting run _ => run = runs
  | _ => True

/-- No entry is of a run that is still to come. -/
structure Within (w : Worker α) : Prop where
  generators : ∀ run ∈ w.generators, run ≤ w.runs
  abortControllers : ∀ run ∈ w.abortControllers, run ≤ w.runs
  replayStates : ∀ run ∈ w.replayStates, run ≤ w.runs
  isolated : Isolated w

structure Sound (w : Worker α) : Prop extends Within w where
  current : ∀ run ∈ w.replayStates, run = w.runs

/-- All the handlers that answer a message are of the last run. -/
def Ordered (w : Worker α) : Prop :=
  Sound w ∧ ∀ handler ∈ w.handlers, handler.Current w.runs

/-- What a handler comes to keeps the worker sound and is of the last run. -/
structure GoesOn (w : Worker α) (next : Worker α × Handler α) : Prop where
  sound : Sound next.1
  current : next.2.Current next.1.runs
  runs : next.1.runs = w.runs
  handlers : next.1.handlers = w.handlers

section handlers

omit [DecidableEq α]

variable {w : Worker α}

variable {targets : List (Option Nat)}

theorem isolated_note (h : Isolated w) {actor : Nat}
    (htargets : ∀ target, some target ∈ targets → target ≤ actor) :
    Isolated (w.note actor targets) := by
  intro access haccess
  obtain hold | hnew := List.mem_append.1 haccess
  · exact h access hold
  · obtain ⟨target, htarget, rfl⟩ := List.mem_map.1 hnew
    obtain ⟨slot, hslot, rfl⟩ := List.mem_filterMap.1 htarget
    exact htargets target hslot

/-- Uses of what is there, by a handler of the last run. -/
theorem Within.note (h : Within w) (htargets : ∀ target, some target ∈ targets → target ≤ w.runs) :
    Within (w.note w.runs targets) :=
  { h with isolated := isolated_note h.isolated htargets }

theorem Sound.note (h : Sound w) (htargets : ∀ target, some target ∈ targets → target ≤ w.runs) :
    Sound (w.note w.runs targets) :=
  { h.toWithin.note htargets with current := h.current }

theorem Within.cleanup (h : Within w) : Sound (w.cleanupWorkflowRunnerState w.runs) where
  generators := nofun
  abortControllers := nofun
  replayStates := nofun
  current := nofun
  isolated := by
    refine isolated_note h.isolated fun target htarget => ?_
    simp only [List.mem_cons, List.not_mem_nil, or_false] at htarget
    obtain heq | heq | heq := htarget
    · exact h.generators target heq.symm
    · exact h.abortControllers target heq.symm
    · exact h.replayStates target heq.symm

theorem Within.failRun (h : Within w) : GoesOn w (w.failRun w.runs) :=
  ⟨h.cleanup, rfl, rfl, rfl⟩

theorem Sound.setState (h : Sound w) (target : Nat) (replayState : WorkerReplayState α) :
    Sound (w.setState target replayState) :=
  { h with }

theorem Within.install (h : Within w) (checkpoint : Option (Checkpoint α)) (limit : Option Nat)
    (now : Int) : Sound (w.install checkpoint limit now) where
  generators run hrun := (h.generators run hrun).trans (Nat.le_succ _)
  abortControllers run hrun := (Option.some.inj hrun).ge
  replayStates run hrun := (Option.some.inj hrun).ge
  current run hrun := (Option.some.inj hrun).symm
  isolated := by
    refine isolated_note h.isolated fun target htarget => ?_
    simp only [List.mem_cons, List.not_mem_nil, or_false] at htarget
    obtain heq | heq := htarget
    · exact (h.abortControllers target heq.symm).trans (Nat.le_succ _)
    · exact (h.replayStates target heq.symm).trans (Nat.le_succ _)

/-- A new run that has its abort controller only. -/
theorem Within.control (h : Within w) : Within { w.note (w.runs + 1) [w.abortControllers] with
    runs := w.runs + 1
    abortControllers := some (w.runs + 1) } where
  generators run hrun := (h.generators run hrun).trans (Nat.le_succ _)
  abortControllers run hrun := (Option.some.inj hrun).ge
  replayStates run hrun := (h.replayStates run hrun).trans (Nat.le_succ _)
  isolated := by
    refine isolated_note h.isolated fun target htarget => ?_
    rw [List.mem_singleton] at htarget
    exact (h.abortControllers target htarget.symm).trans (Nat.le_succ _)

/-- The first part of a run message makes its run the last one. -/
theorem Sound.handleRunMessage (h : Sound w) (message : RunMessage α) (limit : Option Nat)
    (now : Int) : Sound (w.handleRunMessage message limit now).1 ∧
      (w.handleRunMessage message limit now).2.Current
        (w.handleRunMessage message limit now).1.runs := by
  cases message with
  | unknownType => exact ⟨h, rfl⟩
  | unreadable => exact ⟨h.control.cleanup, rfl⟩
  | thrown checkpoint => exact ⟨(h.install checkpoint limit now).cleanup, rfl⟩
  | started checkpoint => exact ⟨h.install checkpoint limit now, rfl, nofun⟩

/-- A resume message goes to the last run where its generator and its replay state are of one. -/
theorem Sound.handleResumeMessage (h : Sound w) (outcome : OperationOutcome α) (limit : Option Nat)
    (hone : ∀ run ∈ w.generators, ∀ target ∈ w.replayStates, run = target) :
    GoesOn w (w.handleResumeMessage outcome limit) := by
  have hmissing : GoesOn w (w, .posting w.runs .failed) := ⟨h, rfl, rfl, rfl⟩
  unfold Worker.handleResumeMessage
  cases hgenerator : w.generators with
  | none => exact hmissing
  | some run =>
    cases htarget : w.replayStates with
    | none => exact hmissing
    | some target =>
      obtain rfl : run = target := hone run hgenerator target htarget
      obtain rfl : run = w.runs := h.current run htarget
      cases hstate : w.states w.runs with
      | none =>
        simp only [hstate]
        exact hmissing
      | some replayState =>
        simp only [hstate]
        have hnoted : Sound (w.note w.runs [some w.runs, some w.runs]) := by
          refine h.note fun target htargets => ?_
          simp only [List.mem_cons, List.not_mem_nil, or_false, or_self, Option.some.injEq]
            at htargets
          exact htargets.le
        exact ⟨hnoted.setState _ _, ⟨rfl, nofun⟩, rfl, rfl⟩

/-- Only what was captured is deleted. -/
theorem Sound.finishCancel (h : Sound w) (generator controller replayState : Option Nat) :
    Sound (w.finishCancel generator controller replayState) := by
  have hkept : ∀ slot captured : Option Nat, ∀ run ∈ (if slot = captured then none else slot),
      run ∈ slot := by
    intro slot captured run hrun
    split at hrun
    · cases hrun
    · exact hrun
  exact {
    generators := fun run hrun => h.generators run (hkept _ _ run hrun)
    abortControllers := fun run hrun => h.abortControllers run (hkept _ _ run hrun)
    replayStates := fun run hrun => h.replayStates run (hkept _ _ run hrun)
    current := fun run hrun => h.current run (hkept _ _ run hrun)
    isolated := h.isolated }

theorem Sound.handleCancelMessage (h : Sound w) : GoesOn w w.handleCancelMessage := by
  have hnoted : Sound (w.note w.runs [w.abortControllers, w.generators]) := by
    refine h.note fun target htargets => ?_
    simp only [List.mem_cons, List.not_mem_nil, or_false] at htargets
    obtain heq | heq := htargets
    · exact h.abortControllers target heq.symm
    · exact h.generators target heq.symm
  have hcaptured : Sound { w.note w.runs [w.abortControllers, w.generators] with
      aborted := w.aborted ++ w.abortControllers.toList } := { hnoted with }
  unfold Worker.handleCancelMessage
  cases hgenerator : w.generators with
  | none =>
    rw [hgenerator] at hcaptured
    exact ⟨hcaptured.finishCancel _ _ _, trivial, rfl, rfl⟩
  | some generator =>
    rw [hgenerator] at hcaptured
    exact ⟨hcaptured, trivial, rfl, rfl⟩

theorem Sound.processYielded (h : Sound w) {captured : Option Nat}
    (hcaptured : ∀ target ∈ captured, target ≤ w.runs) (operationRequest : α) :
    GoesOn w (w.processYielded w.runs captured operationRequest) := by
  unfold Worker.processYielded
  cases hread : captured.or w.replayStates with
  | none => exact h.failRun
  | some target =>
    have htarget : target ≤ w.runs := by
      obtain heq | ⟨-, heq⟩ := Option.or_eq_some_iff.1 hread
      · exact hcaptured target heq
      · exact h.replayStates target heq
    cases hstate : w.states target with
    | none =>
      simp only [hstate]
      exact h.failRun
    | some replayState =>
      simp only [hstate]
      refine ⟨h.note fun target' htargets => ?_, ⟨rfl, htarget⟩, rfl, rfl⟩
      rw [List.mem_singleton, Option.some.injEq] at htargets
      exact htargets.le.trans htarget

variable {next : Worker α × Handler α}

theorem GoesOn.of_same {v : Worker α} (h : GoesOn v next) (hruns : v.runs = w.runs)
    (hhandlers : v.handlers = w.handlers) : GoesOn w next :=
  ⟨h.sound, h.current, h.runs.trans hruns, h.handlers.trans hhandlers⟩

/-- The generator of the last run takes the place of what is under the id. -/
theorem Sound.register (h : Sound w) {target : Nat} (htarget : target ≤ w.runs)
    (pending : WorkerReplayState α) :
    Sound { (w.note w.runs [some target, w.generators]).setState target pending with
      generators := some w.runs } := by
  have hnoted : Sound (w.note w.runs [some target, w.generators]) := by
    refine h.note fun target' htargets => ?_
    simp only [List.mem_cons, List.not_mem_nil, or_false, Option.some.injEq] at htargets
    obtain rfl | heq := htargets
    · exact htarget
    · exact h.generators target' heq.symm
  exact { hnoted with generators := fun run hrun => (Option.some.inj hrun).ge }

theorem Sound.processSigned [DecidableEq α] (h : Sound w) {target : Nat} (htarget : target ≤ w.runs)
    (operationRequest : α) (stepIndex : Nat) (signature : α) (serializable : Bool) (now : Int) :
    GoesOn w (w.processSigned w.runs target operationRequest stepIndex signature serializable
      now) := by
  have hread : Sound (w.note w.runs [some target]) := by
    refine h.note fun target' htargets => ?_
    rw [List.mem_singleton, Option.some.injEq] at htargets
    exact htargets.le.trans htarget
  unfold Worker.processSigned
  cases w.states target with
  | none => exact h.failRun
  | some replayState =>
    simp only
    cases processSignedOperation replayState stepIndex signature now with
    | replay replayed resumption =>
      refine ⟨hread.setState target replayed, ⟨rfl, fun target' htargets => ?_⟩, rfl, rfl⟩
      exact (Option.some.inj htargets).ge.trans htarget
    | mismatch => exact hread.failRun.of_same rfl rfl
    | checkpoint pending =>
      have hregistered := h.register htarget pending
      cases serializable with
      | true => exact ⟨hregistered, rfl, rfl, rfl⟩
      | false => exact hregistered.failRun.of_same rfl rfl

/-- However a handler of the last run goes on, it uses what runs up to its own have installed. -/
theorem Sound.proceed [DecidableEq α] (h : Sound w) {handler : Handler α}
    (hcurrent : handler.Current w.runs) {answer : Answer α} {now : Int}
    (hnext : w.proceed handler answer now = some next) : GoesOn w next := by
  cases handler with
  | stepping run captured resumption =>
    obtain ⟨rfl, hcaptured⟩ := hcurrent
    cases answer with
    | returned value =>
      cases hnext
      exact ⟨h.cleanup, rfl, rfl, rfl⟩
    | yielded operationRequest =>
      cases hnext
      exact h.processYielded hcaptured operationRequest
    | threw =>
      cases hnext
      exact h.failRun
    | signed signature serializable => cases hnext
    | settled => cases hnext
  | signing run target operationRequest stepIndex =>
    obtain ⟨rfl, htarget⟩ := hcurrent
    cases answer with
    | signed signature serializable =>
      cases hnext
      exact h.processSigned htarget operationRequest stepIndex signature serializable now
    | threw =>
      cases hnext
      exact h.failRun
    | returned value => cases hnext
    | yielded operationRequest => cases hnext
    | settled => cases hnext
  | posting run response =>
    obtain rfl : run = w.runs := hcurrent
    cases answer with
    | settled =>
      cases hnext
      exact ⟨h, trivial, rfl, rfl⟩
    | threw =>
      cases hnext
      exact ⟨h.cleanup, trivial, rfl, rfl⟩
    | returned value => cases hnext
    | yielded operationRequest => cases hnext
    | signed signature serializable => cases hnext
  | cancelling generator controller replayState =>
    cases answer with
    | settled =>
      cases hnext
      exact ⟨h.finishCancel _ _ _, trivial, rfl, rfl⟩
    | threw =>
      cases hnext
      exact ⟨h.finishCancel _ _ _, trivial, rfl, rfl⟩
    | returned value => cases hnext
    | yielded operationRequest => cases hnext
    | signed signature serializable => cases hnext
  | done => cases hnext

theorem Ordered.begin (h : Ordered w) (hnext : GoesOn w next) : Ordered (Worker.begin next) := by
  refine ⟨{ hnext.sound with }, fun handler hhandler => ?_⟩
  obtain hold | hnew := List.mem_append.1 hhandler
  · rw [hnext.handlers] at hold
    change handler.Current next.1.runs
    rw [hnext.runs]
    exact h.2 handler hold
  · rw [List.mem_singleton] at hnew
    rw [hnew]
    exact hnext.current

theorem Ordered.goOn (h : Ordered w) (place : Nat) (hnext : GoesOn w next) :
    Ordered (Worker.goOn place next) := by
  refine ⟨{ hnext.sound with }, fun handler hhandler => ?_⟩
  obtain hold | rfl := List.mem_or_eq_of_mem_set hhandler
  · rw [hnext.handlers] at hold
    change handler.Current next.1.runs
    rw [hnext.runs]
    exact h.2 handler hold
  · exact hnext.current

/-- A handler that answers nothing belongs to every run. -/
theorem current_of_not_ofRun {handler : Handler α} (hnot : handler.ofRun = false) (runs : Nat) :
    handler.Current runs := by
  cases handler with
  | stepping run captured resumption => cases hnot
  | signing run target operationRequest stepIndex => cases hnot
  | posting run response => cases hnot
  | cancelling generator controller replayState => trivial
  | done => trivial

theorem handleRunMessage_handlers (w : Worker α) (message : RunMessage α) (limit : Option Nat)
    (now : Int) : (w.handleRunMessage message limit now).1.handlers = w.handlers := by
  cases message <;> rfl

end handlers

/-- What one event does that comes in turn. -/
theorem Ordered.step {w w' : Worker α} {event : Event α} (h : Ordered w) (hturn : InTurn w event)
    (hstep : messageLoop.step w event = some w') : Ordered w' := by
  cases event with
  | run message limit now =>
    cases hstep
    obtain ⟨hsound, hcurrent⟩ := h.1.handleRunMessage message limit now
    refine ⟨{ hsound with }, fun handler hhandler => ?_⟩
    obtain hold | hnew := List.mem_append.1 hhandler
    · rw [handleRunMessage_handlers] at hold
      exact current_of_not_ofRun (hturn handler hold) _
    · rw [List.mem_singleton] at hnew
      rw [hnew]
      exact hcurrent
  | resume outcome limit =>
    cases hstep
    exact h.begin (h.1.handleResumeMessage outcome limit hturn)
  | cancel =>
    cases hstep
    exact h.begin h.1.handleCancelMessage
  | useContext run write =>
    simp only [messageLoop] at hstep
    cases htarget : w.replayStates with
    | none =>
      rw [htarget] at hstep
      cases hstep
      exact h
    | some target =>
      rw [htarget] at hstep
      cases hstep
      refine ⟨{ h.1 with isolated := isolated_note h.1.isolated fun target' htargets => ?_ }, h.2⟩
      rw [List.mem_singleton, Option.some.injEq] at htargets
      exact htargets.le.trans (hturn target htarget)
  | versionYielded run target stepIndex =>
    simp only [messageLoop] at hstep
    split at hstep
    · rename_i haccess
      cases hstep
      refine ⟨{ h.1 with isolated := isolated_note h.1.isolated fun target' htargets => ?_ }, h.2⟩
      rw [List.mem_singleton, Option.some.injEq] at htargets
      exact htargets.le.trans (h.1.isolated _ haccess)
    · cases hstep
  | proceed place answer now =>
    obtain ⟨handler, hhandler, hnext⟩ := Option.bind_eq_some_iff.1 hstep
    obtain ⟨next, hproceed, rfl⟩ := Option.map_eq_some_iff.1 hnext
    exact h.goOn place (h.1.proceed (h.2 handler (List.mem_of_getElem? hhandler)) hproceed)

omit [DecidableEq α] in
theorem ordered_initial (workflowId : JsString) : Ordered ({ workflowId } : Worker α) :=
  ⟨⟨⟨nofun, nofun, nofun, nofun⟩, nofun⟩, nofun⟩

/-- In every run of the message loop whose events come in turn, no handler and no code of an
earlier run reads, writes or removes what a later run has installed. -/
theorem runs_isolated (workflowId : JsString) {events : List (Event α)}
    (hturn : messageLoop.EveryStep InTurn { workflowId } events) :
    messageLoop.EveryState Isolated { workflowId } events := by
  have hordered : messageLoop.EveryState Ordered { workflowId } events :=
    Machine.everyState_of_invariant (fun w event w' h hevent hstep => h.step hevent hstep)
      (ordered_initial workflowId) hturn
  exact hordered.mono fun w h => h.1.isolated

omit [DecidableEq α] in
instance decidableInTurn (w : Worker α) : (event : Event α) → Decidable (InTurn w event)
  | .run _ _ _ => inferInstanceAs (Decidable (∀ handler ∈ w.handlers, handler.ofRun = false))
  | .resume _ _ => inferInstanceAs
      (Decidable (∀ run ∈ w.generators, ∀ target ∈ w.replayStates, run = target))
  | .useContext run _ => inferInstanceAs (Decidable (∀ target ∈ w.replayStates, target ≤ run))
  | .cancel => isTrue trivial
  | .versionYielded _ _ _ => isTrue trivial
  | .proceed _ _ _ => isTrue trivial

/-- A run asks for an operation, is cancelled while its cleanup code still runs, and is followed
by a run that resumes once and completes. -/
def cancelledThenRun : List (Event Nat) :=
  [.run (.started none) none 0, .proceed 0 (.yielded 7) 0, .proceed 0 (.signed 70 true) 0,
    .proceed 0 .settled 0, .cancel, .run (.started none) none 1, .useContext 2 id,
    .proceed 1 .settled 0, .proceed 2 (.yielded 7) 0, .proceed 2 (.signed 70 true) 1,
    .proceed 2 .settled 0, .resume (.completed 5) none, .proceed 3 (.returned 6) 0]

theorem runs_isolated_cancelled :
    messageLoop.EveryState Isolated { workflowId := js "run-1" } cancelledThenRun :=
  runs_isolated (js "run-1") (by decide +kernel)

/-- A run message comes while the generator of the first run is still at work. When that yields,
its handler takes the replay state of the second run. -/
theorem first_run_takes_second_state :
    ¬ messageLoop.EveryState Isolated { workflowId := js "run-1" }
      [.run (.started none) none 0, .run (.started none) none 0,
        .proceed 0 (.yielded (7 : Nat)) 0] := by
  intro h
  have hfinal := h.final ⟨1, 2⟩ (by decide +kernel)
  revert hfinal
  decide

end Weft.Runner
