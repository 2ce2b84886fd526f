import Weft.Context.Program

/-! A fork of a run at a checkpoint and the resumption from it. Both make a context from the
checkpoint; what the fork does not hand over are the checkpoint's locals. Contexts that differ in no
more than the times of their timers do the same. -/

namespace Weft.Context
open Weft.Js Weft.Lib

universe u

variable {α : Type u}

/-- A checkpoint, as far as a context is made from it. -/
structure Checkpoint (α : Type u) where
  createdAt : Int
  accumulatedResults : OrderedStore Nat (Value α)
  locals : CheckpointLocals α

/-- The checkpoint of the forked run. -/
def forkCheckpoint (sourceCheckpoint : Checkpoint α) (forkedAt : Int) : Checkpoint α :=
  { sourceCheckpoint with createdAt := forkedAt }

def launchInlineWorkflowFromCheckpoint (checkpoint : Checkpoint α) (now : Int) :
    ContextInternals α :=
  initializeInternals
    { initialStep := none
      accumulatedResults := some checkpoint.accumulatedResults
      locals := none
      sleepReferenceTime := some checkpoint.createdAt } now

def relaunchInlineWorkflowAfterResume (resumeCheckpoint : Checkpoint α) (now : Int) :
    ContextInternals α :=
  initializeInternals
    { initialStep := none
      accumulatedResults := some resumeCheckpoint.accumulatedResults
      locals := some resumeCheckpoint.locals
      sleepReferenceTime := some resumeCheckpoint.createdAt } now

def SameReplayState (x y : ContextInternals α) : Prop :=
  x.stepIndex = y.stepIndex ∧ x.accumulatedResults = y.accumulatedResults ∧
    x.checkpointLocals = y.checkpointLocals

/-- Every program is handed the same outcomes and asks for the same next, whatever the engine
answers. -/
def SameOperations (x y : ContextInternals α) : Prop :=
  ∀ (program : Program α) (script : List (Response α)),
    (program.execute x script).handed = (program.execute y script).handed ∧
      (program.execute x script).status = (program.execute y script).status

def ForkAgreesWithResume (checkpoint : Checkpoint α) : Prop :=
  ∀ forkedAt now : Int,
    let forked := launchInlineWorkflowFromCheckpoint (forkCheckpoint checkpoint forkedAt) now
    let resumed := relaunchInlineWorkflowAfterResume checkpoint now
    SameReplayState forked resumed ∧ SameOperations forked resumed

/-- There is no retry state, no pinned version, no deadline, no session state and no other local. -/
def CheckpointLocals.Blank (locals : CheckpointLocals α) : Prop :=
  locals.retryState = .empty ∧ locals.conditionDeadlines = OrderedStore.empty ∧
    locals.versions = OrderedStore.empty ∧ locals.others = OrderedStore.empty ∧
    ∀ store ∈ locals.stateSession, store.entries = []

/-! ## Contexts with other timers -/

/-- The contexts differ at most in the times that timers count from and the deadlines made of
them. -/
structure Alike (x y : ContextInternals α) : Prop where
  step : y.stepIndex = x.stepIndex
  results : y.accumulatedResults = x.accumulatedResults
  memos : y.memoCache = x.memoCache
  now : y.now = x.now
  retryState : y.checkpointLocals.retryState = x.checkpointLocals.retryState
  versions : y.checkpointLocals.versions = x.checkpointLocals.versions
  session : y.checkpointLocals.stateSession = x.checkpointLocals.stateSession
  retired : y.checkpointLocals.retiredSessionState = x.checkpointLocals.retiredSessionState
  others : y.checkpointLocals.others = x.checkpointLocals.others
  deadlines : ∀ step, (y.checkpointLocals.conditionDeadlines.get step).isSome =
    (x.checkpointLocals.conditionDeadlines.get step).isSome

inductive Progress.Alike : Progress α → Progress α → Prop
  | stop {x y : ContextInternals α} (h : Context.Alike x y) (events events' : List Event)
      (request : Request α) : Alike (.stop x events request) (.stop y events' request)
  | go {x y : ContextInternals α} (h : Context.Alike x y) (events events' : List Event)
      (outcome : Outcome α) (rest : List (Response α)) :
      Alike (.go x events outcome rest) (.go y events' outcome rest)

structure Execution.Alike (e e' : Execution α) : Prop where
  context : Context.Alike e.context e'.context
  handed : e'.handed = e.handed
  status : e'.status = e.status

section alike

variable {x y : ContextInternals α}

section

variable (h : Alike x y)

include h

theorem Alike.takeStep : Alike x.takeStep y.takeStep :=
  { h with step := congrArg (· + 1) h.step }

theorem Alike.skip (steps : Nat) : Alike (x.skip steps) (y.skip steps) :=
  { h with step := congrArg (· + steps) h.step }

theorem Alike.record (step : Nat) (value : Value α) :
    Alike (x.record step value) (y.record step value) :=
  { h with results := congrArg (fun results => results.put step value) h.results }

theorem Alike.tick (now : Int) : Alike (x.tick now) (y.tick now) :=
  { h with now := rfl }

theorem Alike.memoize (key : JsString) (value : Value α) :
    Alike (x.memoize key value) (y.memoize key value) :=
  { h with memos := congrArg (fun memos => memos.put key value) h.memos }

theorem Alike.setRetryState (retryState : ActivityRetryState) :
    Alike (x.setRetryState retryState) (y.setRetryState retryState) :=
  { h with retryState := rfl }

theorem Alike.reference : Alike (takeReferenceTime x).2 (takeReferenceTime y).2 :=
  { h with }

theorem awaitAnswer_alike (events events' : List Event) (request : Request α)
    (accepts : Value α → Bool) {resume : ContextInternals α → Value α → ContextInternals α}
    (hresume : ∀ {x y : ContextInternals α} (value : Value α), Alike x y →
      Alike (resume x value) (resume y value))
    (script : List (Response α)) : (awaitAnswer x events request accepts resume script).Alike
      (awaitAnswer y events' request accepts resume script) := by
  cases script with
  | nil => exact .stop h _ _ _
  | cons response rest =>
    cases response with
    | settled now outcome =>
      cases outcome with
      | error error => exact .go (h.tick now) _ _ _ _
      | ok value =>
        simp only [awaitAnswer]
        split_ifs
        · exact .go (hresume value (h.tick now)) _ _ _ _
        · exact .stop h _ _ _
    | branchesFailed => exact .stop h _ _ _
    | speculated => exact .stop h _ _ _

theorem sleep_alike (duration : Int) (script : List (Response α)) :
    (sleep x duration script).Alike (sleep y duration script) := by
  have htaken := h.takeStep
  simp only [sleep]
  rw [h.step, htaken.results]
  cases x.takeStep.accumulatedResults.get x.stepIndex with
  | some _ => exact .go htaken _ _ _ _
  | none =>
    exact awaitAnswer_alike htaken.reference _ _ _ _ (fun _ h => h.record x.stepIndex _) script

theorem waitForSignal_alike (name : JsString) (script : List (Response α)) :
    (waitForSignal x name script).Alike (waitForSignal y name script) := by
  have htaken := h.takeStep
  simp only [waitForSignal]
  rw [h.step, htaken.results]
  cases x.takeStep.accumulatedResults.get x.stepIndex with
  | some _ => exact .go htaken _ _ _ _
  | none =>
    exact awaitAnswer_alike htaken _ _ _ _ (fun value h => h.record x.stepIndex value) script

theorem memo_alike (key : JsString) (script : List (Response α)) :
    (memo x key script).Alike (memo y key script) := by
  have htaken := h.takeStep
  simp only [memo]
  rw [h.step, htaken.results, htaken.memos]
  cases x.takeStep.memoCache.get key with
  | some _ => exact .go htaken _ _ _ _
  | none =>
    cases x.takeStep.accumulatedResults.get x.stepIndex with
    | some cached => exact .go (htaken.memoize key cached) _ _ _ _
    | none =>
      exact awaitAnswer_alike htaken _ _ _ _
        (fun value h => (h.memoize key value).record x.stepIndex value) script

/-- A deadline is there in both contexts, or it is made in both. -/
theorem readOrInitConditionDeadline_alike (step : Nat) (timeout : Option Int) :
    Alike (readOrInitConditionDeadline x step timeout).1
      (readOrInitConditionDeadline y step timeout).1 := by
  cases timeout with
  | none => exact h
  | some milliseconds =>
    have hdeadline := h.deadlines step
    simp only [readOrInitConditionDeadline]
    cases hx : x.checkpointLocals.conditionDeadlines.get step with
    | some _ =>
      rw [hx, Option.isSome_some] at hdeadline
      obtain ⟨deadline, hy⟩ := Option.isSome_iff_exists.1 hdeadline
      simp only [hy]
      exact h
    | none =>
      rw [hx, Option.isSome_none, Option.isSome_eq_false_iff,
        Option.isNone_iff_eq_none] at hdeadline
      simp only [hdeadline]
      refine { h with deadlines := fun other => ?_ }
      change ((y.checkpointLocals.conditionDeadlines.put step _).get other).isSome =
        ((x.checkpointLocals.conditionDeadlines.put step _).get other).isSome
      rw [OrderedStore.get_put, OrderedStore.get_put]
      split_ifs
      · rfl
      · exact h.deadlines other

theorem waitUntil_alike (timeout : Option Int) (script : List (Response α)) :
    (waitUntil x timeout script).Alike (waitUntil y timeout script) := by
  have htaken := h.takeStep
  simp only [waitUntil]
  rw [h.step, htaken.results]
  cases x.takeStep.accumulatedResults.get x.stepIndex with
  | some _ => exact .go htaken _ _ _ _
  | none =>
    exact awaitAnswer_alike (readOrInitConditionDeadline_alike htaken x.stepIndex timeout) _ _ _ _
      (fun value h => h.record x.stepIndex value) script

/-- A pin is read from both contexts, or it is made in both. -/
theorem resolveWorkflowVersionPatch_alike (changeId : JsString) (minSupported maxSupported : Int) :
    (∃ failure, resolveWorkflowVersionPatch x changeId minSupported maxSupported = .error failure ∧
      resolveWorkflowVersionPatch y changeId minSupported maxSupported = .error failure) ∨
    ∃ version newlyPinned x' y', Alike x' y' ∧
      resolveWorkflowVersionPatch x changeId minSupported maxSupported =
        .ok (version, newlyPinned, x') ∧
      resolveWorkflowVersionPatch y changeId minSupported maxSupported =
        .ok (version, newlyPinned, y') := by
  unfold resolveWorkflowVersionPatch
  rw [h.versions]
  split_ifs
  · exact .inl ⟨_, rfl, rfl⟩
  · exact .inl ⟨_, rfl, rfl⟩
  · cases hpinned : x.checkpointLocals.versions.get changeId with
    | none =>
      refine .inr ⟨_, _, _, _, ?_, rfl, rfl⟩
      exact { h with versions := congrArg (fun pins => pins.put changeId maxSupported) h.versions }
    | some version =>
      dsimp only
      split_ifs
      · exact .inl ⟨_, rfl, rfl⟩
      · exact .inl ⟨_, rfl, rfl⟩
      · exact .inr ⟨_, _, _, _, h, rfl, rfl⟩

theorem getVersion_alike (changeId : JsString) (minSupported maxSupported : Int)
    (script : List (Response α)) : (getVersion x changeId minSupported maxSupported script).Alike
      (getVersion y changeId minSupported maxSupported script) := by
  have htaken := h.takeStep
  simp only [getVersion]
  rw [h.step]
  obtain ⟨failure, hx, hy⟩ | ⟨version, newlyPinned, x', y', halike, hx, hy⟩ :=
    resolveWorkflowVersionPatch_alike htaken changeId minSupported maxSupported
  · rw [hx, hy]
    exact .go htaken _ _ _ _
  · rw [hx, hy]
    dsimp only
    rw [halike.results]
    split_ifs
    · exact .go halike _ _ _ _
    · cases x'.accumulatedResults.get x.stepIndex with
      | none => exact awaitAnswer_alike halike _ _ _ _ (fun _ h => h) script
      | some cached =>
        dsimp only
        split_ifs
        · exact .go halike _ _ _ _
        · exact .go halike _ _ _ _

/-! ## Activities -/

theorem readOrInitActivityDispatchedAt_alike (key : Nat) :
    (readOrInitActivityDispatchedAt y key).1 = (readOrInitActivityDispatchedAt x key).1 ∧
      Alike (readOrInitActivityDispatchedAt x key).2 (readOrInitActivityDispatchedAt y key).2 := by
  unfold readOrInitActivityDispatchedAt
  dsimp only
  rw [h.retryState, h.now]
  cases x.checkpointLocals.retryState.dispatchedAt.get key with
  | some _ => exact ⟨rfl, h⟩
  | none => exact ⟨rfl, h.setRetryState _⟩

theorem resolveScheduleToCloseBudget_alike (step : Nat) (call : ActivityCall α) :
    (resolveScheduleToCloseBudget y step call).1 = (resolveScheduleToCloseBudget x step call).1 ∧
      Alike (resolveScheduleToCloseBudget x step call).2
        (resolveScheduleToCloseBudget y step call).2 := by
  obtain ⟨hanchor, halike⟩ := readOrInitActivityDispatchedAt_alike h step
  unfold resolveScheduleToCloseBudget
  cases call.retryPolicy with
  | none => exact ⟨rfl, h⟩
  | some policy =>
    cases call.scheduleToCloseTimeout with
    | none => exact ⟨rfl, h⟩
    | some budgetMs =>
      dsimp only
      rw [hanchor]
      exact ⟨rfl, halike⟩

theorem completeAttempt_alike (step attempt : Nat) (value : Value α) :
    Alike (completeAttempt x step attempt value) (completeAttempt y step attempt value) := by
  have hrecorded := h.record step value
  unfold completeAttempt completeActivityRetryAttempt
  dsimp only
  rw [hrecorded.retryState]
  exact hrecorded.setRetryState _

theorem prepareRetry_alike (call : ActivityCall α) (step : Nat)
    (budget : Option ScheduleToCloseBudget) (error : Thrown) (attempt : Nat) :
    (∃ failure, prepareRetry x call step budget error attempt = .error failure ∧
      prepareRetry y call step budget error attempt = .error failure) ∨
    ∃ backoff x' y', Alike x' y' ∧
      prepareRetry x call step budget error attempt = .ok (backoff, x') ∧
      prepareRetry y call step budget error attempt = .ok (backoff, y') := by
  unfold prepareRetry
  rw [h.now]
  cases shouldRetryActivityError error call.retryPolicy attempt with
  | none => exact .inl ⟨_, rfl, rfl⟩
  | some policy =>
    dsimp only
    cases assertScheduleToCloseBudgetNotExhausted budget call.activityName x.now
        (some (x.now + policy.backoff attempt)) with
    | some failure => exact .inl ⟨_, rfl, rfl⟩
    | none =>
      unfold writeActivityRetryAttempt
      split_ifs
      · dsimp only
        rw [h.retryState]
        exact .inr ⟨_, _, _, h.setRetryState _, rfl, rfl⟩
      · exact .inl ⟨_, rfl, rfl⟩

end

/-- The loop, by the length of the script: an attempt and its backoff each take an answer. -/
theorem attemptLoop_alike (call : ActivityCall α) (step : Nat)
    (budget : Option ScheduleToCloseBudget) (length : Nat) :
    ∀ (script : List (Response α)) (attempt : Nat) (x y : ContextInternals α)
      (events events' : List Event), script.length ≤ length → Alike x y →
      (attemptLoop call step budget script attempt x events).Alike
        (attemptLoop call step budget script attempt y events') := by
  induction length with
  | zero =>
    intro script attempt x y events events' hlength h
    obtain rfl := List.length_eq_zero_iff.1 (Nat.le_zero.1 hlength)
    unfold attemptLoop barredAttempt
    rw [h.now]
    split
    · exact .go h _ _ _ _
    · exact .stop h _ _ _
  | succ length ih =>
    intro script attempt x y events events' hlength h
    unfold attemptLoop barredAttempt
    rw [h.now]
    split
    · exact .go h _ _ _ _
    cases script with
    | nil => exact .stop h _ _ _
    | cons response rest =>
      have hrest : rest.length ≤ length := Nat.le_of_succ_le_succ hlength
      cases response with
      | branchesFailed => exact .stop h _ _ _
      | speculated => exact .stop h _ _ _
      | settled now outcome =>
        cases outcome with
        | ok value => exact .go (completeAttempt_alike (h.tick now) step attempt value) _ _ _ _
        | error error =>
          dsimp only
          obtain ⟨failure, hx, hy⟩ | ⟨backoff, x', y', halike, hx, hy⟩ :=
            prepareRetry_alike (h.tick now) call step budget error attempt
          · rw [hx, hy]
            exact .go (h.tick now) _ _ _ _
          · rw [hx, hy]
            dsimp only
            have htaken := halike.takeStep
            rw [halike.step, htaken.results]
            cases x'.takeStep.accumulatedResults.get x'.stepIndex with
            | some _ => exact ih rest _ _ _ _ _ hrest htaken
            | none =>
              dsimp only
              cases rest with
              | nil => exact .stop htaken.reference _ _ _
              | cons response rest =>
                have hrest' : rest.length ≤ length := Nat.le_of_succ_le hrest
                cases response with
                | branchesFailed => exact .stop htaken.reference _ _ _
                | speculated => exact .stop htaken.reference _ _ _
                | settled now outcome =>
                  cases outcome with
                  | error error => exact .go (htaken.reference.tick now) _ _ _ _
                  | ok value =>
                    cases value with
                    | undefined =>
                      exact ih rest _ _ _ _ _ hrest' ((htaken.reference.tick now).record _ _)
                    | _ => exact .stop htaken.reference _ _ _

theorem thenAttempt_alike {p q : Progress α} (h : p.Alike q)
    {attempts : List (Response α) → ContextInternals α → List Event → Progress α}
    (hattempts : ∀ (rest : List (Response α)) (x y : ContextInternals α)
      (events events' : List Event),
      Alike x y → (attempts rest x events).Alike (attempts rest y events')) :
    (p.thenAttempt attempts).Alike (q.thenAttempt attempts) := by
  cases h with
  | stop h => exact .stop h _ _ _
  | go h _ _ outcome rest =>
    cases outcome with
    | ok _ => exact hattempts rest _ _ _ _ h
    | error _ => exact .go h _ _ _ _

theorem runActivity_alike (h : Alike x y) (call : ActivityCall α) (script : List (Response α)) :
    (runActivity x call script).Alike (runActivity y call script) := by
  have htaken := h.takeStep
  have hattempt : readActivityRetryAttempt y.takeStep x.stepIndex =
      readActivityRetryAttempt x.takeStep x.stepIndex := by
    unfold readActivityRetryAttempt
    rw [htaken.retryState]
  have hsleeps : readCompletedRetrySleepCount y.takeStep x.stepIndex =
      readCompletedRetrySleepCount x.takeStep x.stepIndex := by
    unfold readCompletedRetrySleepCount
    rw [htaken.retryState]
  simp only [runActivity]
  rw [h.step, htaken.results, hattempt, hsleeps]
  cases x.takeStep.accumulatedResults.get x.stepIndex with
  | some _ => exact .go (htaken.skip _) _ _ _ _
  | none =>
    cases readActivityRetryAttempt x.takeStep x.stepIndex with
    | error _ => exact .go htaken _ _ _ _
    | ok attempt =>
      cases attempt with
      | none =>
        obtain ⟨hbudget, halike⟩ := resolveScheduleToCloseBudget_alike htaken x.stepIndex call
        dsimp only
        rw [hbudget]
        exact attemptLoop_alike call _ _ _ script 1 _ _ _ _ (Nat.le_refl _) halike
      | some attempt =>
        obtain ⟨hbudget, halike⟩ :=
          resolveScheduleToCloseBudget_alike (htaken.skip (attempt - 2)) x.stepIndex call
        dsimp only
        rw [hbudget]
        cases call.retryPolicy with
        | none => exact .go halike _ _ _ _
        | some policy =>
          refine thenAttempt_alike (sleep_alike halike _ script) fun rest x' y' _ _ h => ?_
          exact attemptLoop_alike call _ _ _ rest attempt x' y' _ _ (Nat.le_refl _) h

/-! ## Branches -/

theorem awaitBranches_alike (h : Alike x y) (events events' : List Event) (request : Request α)
    (step : Nat) (entry : List (ParallelBranchSlot (Value α)) → Value α) (count : Nat)
    (values : Value α → Option (List (Value α))) (taken taken' : List Event)
    (script : List (Response α)) :
    (awaitBranches x events request step entry count values taken script).Alike
      (awaitBranches y events' request step entry count values taken' script) := by
  cases script with
  | nil => exact .stop h _ _ _
  | cons response rest =>
    cases response with
    | speculated => exact .stop h _ _ _
    | branchesFailed now slots error =>
      simp only [awaitBranches]
      split_ifs
      · exact .go ((h.tick now).record _ _) _ _ _ _
      · exact .stop h _ _ _
    | settled now outcome =>
      cases outcome with
      | error error => exact .go (h.tick now) _ _ _ _
      | ok value =>
        simp only [awaitBranches]
        cases values value with
        | none => exact .stop h _ _ _
        | some items =>
          dsimp only
          split_ifs
          · exact .go ((h.tick now).record _ _) _ _ _ _
          · exact .stop h _ _ _

theorem runAll_alike (h : Alike x y) (branches : List (JsString × JsString))
    (script : List (Response α)) : (runAll x branches script).Alike (runAll y branches script) := by
  have htaken := h.takeStep
  have hyielded := awaitBranches_alike htaken [] [] (.runAll branches x.stepIndex) x.stepIndex
    (runAllEntry (branches.map Prod.fst)) (branches.map Prod.fst).length
    (recordValues (branches.map Prod.fst)) [] [] script
  simp only [runAll]
  rw [h.step, htaken.results]
  cases x.takeStep.accumulatedResults.get x.stepIndex with
  | none => exact hyielded
  | some cached =>
    cases cached with
    | cacheEntry variant slots names count =>
      dsimp only
      split_ifs
      · cases validateRunAllTopology variant (names.getD [])
          (branches.map Prod.fst) x.stepIndex with
        | some _ => exact .go htaken _ _ _ _
        | none => exact .go htaken _ _ _ _
      · cases validateRunAllTopology variant (names.getD [])
          (branches.map Prod.fst) x.stepIndex with
        | some _ => exact .go htaken _ _ _ _
        | none => exact hyielded
      · exact .go htaken _ _ _ _
    | _ => exact .go htaken _ _ _ _

theorem perform_alike (h : Alike x y) (operation : Operation α) (script : List (Response α)) :
    (operation.perform x script).Alike (operation.perform y script) := by
  cases operation with
  | run call => exact runActivity_alike h call script
  | sleep duration => exact sleep_alike h duration script
  | waitForSignal name => exact waitForSignal_alike h name script
  | memo key => exact memo_alike h key script
  | waitUntil timeout => exact waitUntil_alike h timeout script
  | getVersion changeId minSupported maxSupported =>
    exact getVersion_alike h changeId minSupported maxSupported script
  | runAll branches => exact runAll_alike h branches script

structure Primed.Alike (p q : Primed α) : Prop where
  context : Context.Alike p.context q.context
  subOperations : q.subOperations = p.subOperations
  returned : q.returned = p.returned
  failure : q.failure = p.failure

theorem primeParallelOperations_alike {n : Nat} {start : Fin n → ContextInternals α → Execution α}
    (hstart : ∀ i {x y : ContextInternals α}, Alike x y → (start i x).Alike (start i y))
    (branches : List (Fin n)) (h : Alike x y) :
    (primeParallelOperations start branches x).Alike
      (primeParallelOperations start branches y) := by
  induction branches generalizing x y with
  | nil => exact ⟨h, rfl, rfl, rfl⟩
  | cons i branches ih =>
    have hstarted := hstart i h
    have hprimed := ih hstarted.context
    simp only [primeParallelOperations]
    rw [hstarted.status]
    cases (start i x).status with
    | pending request =>
      exact ⟨hprimed.context, congrArg (request :: ·) hprimed.subOperations, hprimed.returned,
        hprimed.failure⟩
    | finished outcome =>
      cases outcome with
      | ok value =>
        exact ⟨hprimed.context, hprimed.subOperations,
          congrArg ((i.val, value) :: ·) hprimed.returned, hprimed.failure⟩
      | error failure => exact ⟨hstarted.context, rfl, rfl, rfl⟩

section parallel

variable {n : Nat} {prime : ContextInternals α → Primed α}
  (hprime : ∀ {x y : ContextInternals α}, Alike x y → (prime x).Alike (prime y))

include hprime

theorem yieldParallel_alike (h : Alike x y) (operation : ParallelOperation n) (step : Nat)
    (script : List (Response α)) :
    (yieldParallel operation step x prime script).Alike
      (yieldParallel operation step y prime script) := by
  have hprimed := hprime h
  have hanswer : ∀ (events events' : List Event) (count : Nat),
      (awaitAnswer (prime x).context events (operation.request (prime x).subOperations step)
        (fun _ => true) (fun ctx value => ctx.record step (operation.winnerEntry value count))
        script).Alike
      (awaitAnswer (prime y).context events' (operation.request (prime x).subOperations step)
        (fun _ => true) (fun ctx value => ctx.record step (operation.winnerEntry value count))
        script) := by
    intro events events' count
    exact awaitAnswer_alike hprimed.context events events' _ _
      (fun value h => h.record step (operation.winnerEntry value count)) script
  simp only [yieldParallel]
  rw [hprimed.failure, hprimed.returned, hprimed.subOperations]
  cases (prime x).failure with
  | some _ => exact .go hprimed.context _ _ _ _
  | none =>
    cases operation
    case all => exact awaitBranches_alike hprimed.context _ _ _ _ _ _ _ _ _ script
    case' raceKeyed names =>
      cases (prime x).returned
      case cons first _ => exact .go (hprimed.context.record _ _) _ _ _ _
    -- a race, and a race of names that nothing has won yet, await the winner
    all_goals
      have hwinner := hanswer (prime x).events (prime y).events (prime x).subOperations.length
      dsimp only
      revert hwinner
      generalize awaitAnswer (prime x).context _ _ _ _ _ = p
      generalize awaitAnswer (prime y).context _ _ _ _ _ = q
      intro hwinner
      cases hwinner with
      | stop h => exact .stop h _ _ _
      | go h _ _ outcome rest => cases outcome <;> exact .go h _ _ _ _

theorem enterParallel_alike (h : Alike x y) (operation : ParallelOperation n)
    (script : List (Response α)) :
    (enterParallel operation prime x script).Alike (enterParallel operation prime y script) := by
  have htaken := h.takeStep
  have hyielded := yieldParallel_alike hprime htaken operation x.stepIndex script
  simp only [enterParallel]
  rw [h.step, htaken.results]
  cases x.takeStep.accumulatedResults.get x.stepIndex with
  | none => exact hyielded
  | some cached =>
    cases cached with
    | cacheEntry variant slots names count =>
      dsimp only
      by_cases hvalid : hasValidBranchTopology variant slots count names = true
      · rw [if_pos hvalid, if_pos hvalid]
        by_cases hvariant : variant ≠ operation.variant
        · rw [if_pos hvariant, if_pos hvariant]
          exact .go htaken _ _ _ _
        · rw [if_neg hvariant, if_neg hvariant]
          cases operation.variant with
          | race =>
            dsimp only
            cases assertRaceBranchTopology operation names count with
            | some _ => exact .go htaken _ _ _ _
            | none => exact .go (htaken.skip _) _ _ _ _
          | all | runAll =>
            dsimp only
            split_ifs
            · exact .go htaken _ _ _ _
            · exact .go (htaken.skip _) _ _ _ _
            · exact hyielded
      · rw [if_neg hvalid, if_neg hvalid]
        exact .go htaken _ _ _ _
    | _ =>
      cases operation with
      | all | race | raceKeyed => exact .go htaken _ _ _ _

theorem performParallel_alike (h : Alike x y) (operation : ParallelOperation n)
    (script : List (Response α)) :
    (performParallel operation prime x script).Alike
      (performParallel operation prime y script) := by
  cases operation with
  | all | race => exact enterParallel_alike hprime h _ script
  | raceKeyed names =>
    simp only [performParallel]
    split_ifs
    · exact .go h _ _ _ _
    · exact enterParallel_alike hprime h _ script

end parallel

/-! ## Programs -/

theorem createSpeculativeChild_alike (h : Alike x y) :
    Alike (createSpeculativeChild x) (createSpeculativeChild y) := { h with
  session := by
    change Option.filter _ y.checkpointLocals.stateSession =
      Option.filter _ x.checkpointLocals.stateSession
    rw [h.session]
  retired := rfl }

theorem commitSpeculativeChild_alike {x' y' : ContextInternals α} (h : Alike x y)
    (hchild : Alike x' y') :
    Alike (commitSpeculativeChild x x') (commitSpeculativeChild y y') := { hchild with
  now := h.now
  retired := rfl }

theorem performSpeculate_alike {run : ContextInternals α → List (Response α) → Execution α}
    (hrun : ∀ {x y : ContextInternals α} (script : List (Response α)), Alike x y →
      (run x script).Alike (run y script)) (h : Alike x y) (script : List (Response α)) :
    (performSpeculate run x script).Alike (performSpeculate run y script) := by
  have htaken := h.takeStep
  simp only [performSpeculate]
  rw [h.step, htaken.results]
  cases x.takeStep.accumulatedResults.get x.stepIndex with
  | some _ => exact .go htaken _ _ _ _
  | none =>
    cases script with
    | nil => exact .stop htaken _ _ _
    | cons response rest =>
      cases response with
      | branchesFailed => exact .stop htaken _ _ _
      | settled now outcome =>
        cases outcome with
        | ok _ => exact .stop htaken _ _ _
        | error _ => exact .go (htaken.tick now) _ _ _ _
      | speculated now inner =>
        have hchild := hrun inner (createSpeculativeChild_alike htaken)
        dsimp only
        rw [hchild.status]
        cases (run (createSpeculativeChild x.takeStep) inner).status with
        | pending _ => exact .stop htaken _ _ _
        | finished outcome =>
          cases outcome with
          | ok value =>
            exact .go (((commitSpeculativeChild_alike htaken hchild.context).tick now).record _ _)
              _ _ _ _
          | error _ => exact .go (htaken.tick now) _ _ _ _

theorem andThen_alike {p q : Progress α} (h : p.Alike q)
    {next : Outcome α → ContextInternals α → List (Response α) → Execution α}
    (hnext : ∀ (outcome : Outcome α) {x y : ContextInternals α} (script : List (Response α)),
      Alike x y → (next outcome x script).Alike (next outcome y script)) :
    (p.andThen next).Alike (q.andThen next) := by
  cases h with
  | stop h => exact ⟨h, rfl, rfl⟩
  | go h _ _ outcome rest =>
    have hexecution := hnext outcome rest h
    exact ⟨hexecution.context, congrArg (outcome :: ·) hexecution.handed, hexecution.status⟩

/-- A program does the same in contexts that differ in their timers alone. -/
theorem execute_alike (program : Program α) {x y : ContextInternals α} (h : Alike x y)
    (script : List (Response α)) :
    (program.execute x script).Alike (program.execute y script) := by
  induction program generalizing x y script with
  | done outcome => exact ⟨h, rfl, rfl⟩
  | operation op next ih =>
    exact andThen_alike (perform_alike h op script) fun outcome _ _ script h => ih outcome h script
  | parallel n op branches next ihbranches ih =>
    refine andThen_alike (performParallel_alike ?_ h op script) fun outcome _ _ script h =>
      ih outcome h script
    exact fun h => primeParallelOperations_alike (fun i _ _ h => ihbranches i h []) _ h
  | speculate body next ihbody ih =>
    exact andThen_alike (performSpeculate_alike (fun script h => ihbody h script) h script)
      fun outcome _ _ script h => ih outcome h script

end alike

/-! ## Forks -/

theorem normalizeSessionStateLocals_eq_none {locals : CheckpointLocals α} :
    normalizeSessionStateLocals (some locals) = none ↔
      ∀ store ∈ locals.stateSession, store.entries = [] := by
  unfold normalizeSessionStateLocals
  cases hsession : locals.stateSession with
  | none => simp [hsession]
  | some store => simp [hsession, Option.filter]

/-- The locals that the context of a resumed run has are those that a fork's context has exactly if
there are none. -/
theorem sameReplayState_iff (checkpoint : Checkpoint α) (forkedAt now : Int) :
    SameReplayState (launchInlineWorkflowFromCheckpoint (forkCheckpoint checkpoint forkedAt) now)
      (relaunchInlineWorkflowAfterResume checkpoint now) ↔ checkpoint.locals.Blank := by
  have hlocals : CheckpointLocals.empty =
      createCheckpointLocals (normalizeSessionStateLocals (some checkpoint.locals))
        (some checkpoint.locals) ↔ checkpoint.locals.Blank := by
    unfold CheckpointLocals.Blank
    rw [← normalizeSessionStateLocals_eq_none]
    constructor
    · intro heq
      have hretry := congrArg CheckpointLocals.retryState heq
      have hdeadlines := congrArg CheckpointLocals.conditionDeadlines heq
      have hversions := congrArg CheckpointLocals.versions heq
      have hothers := congrArg CheckpointLocals.others heq
      have hsession := congrArg CheckpointLocals.stateSession heq
      exact ⟨hretry.symm, hdeadlines.symm, hversions.symm, hothers.symm, hsession.symm⟩
    · rintro ⟨hretry, hdeadlines, hversions, hothers, hsession⟩
      unfold createCheckpointLocals
      rw [hsession]
      simp [CheckpointLocals.empty, hretry, hdeadlines, hversions, hothers]
  rw [← hlocals]
  exact ⟨fun h => h.2.2, fun h => ⟨rfl, rfl, h⟩⟩

/-- A checkpoint at which version 1 of a change is pinned. -/
def pinnedCheckpoint : Checkpoint Unit where
  createdAt := 0
  accumulatedResults := OrderedStore.empty
  locals := { CheckpointLocals.empty with versions := OrderedStore.empty.put (js "discount") 1 }

end Weft.Context
