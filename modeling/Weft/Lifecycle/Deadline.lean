import Weft.Lifecycle.Terminal
import Weft.Lib.Lists

/-! The timer of a run's execution deadline. Every write to the state of a workflow that arms or
removes the timer does so in its own batch; the tick that fires it, and the cancellation after a run
has ended, know the workflow by its id only. Recovery writes neither. -/

namespace Weft.Lifecycle.Deadline
open Weft.Lib Weft.Visibility

/-- What of the stored state decides about the timer. -/
structure RunState where
  status : WorkflowStatus
  executionDeadline : Option Nat
deriving DecidableEq

/-- A tick has read a due row, or its callback has returned and the row is to be deleted. -/
inductive TickStage where
  | read (fireAt : Nat)
  | returned (fireAt : Nat)
  | done
deriving DecidableEq

/-- `scheduler.cancel` before and after it has read the index of the timer. -/
inductive CancelStage where
  | requested
  | found (fireAt : Nat)
  | done
deriving DecidableEq

/-- `timers` are the rows of `wf-deadline:` for the id, and `index` is its row of `timer-idx:`. -/
structure World where
  now : Nat := 0
  state : Option RunState := none
  timers : List Nat := []
  index : Option Nat := none
  ticks : List TickStage := []
  cancels : List CancelStage := []

/-- A writer loads the state in its turn of the workflow's chain and commits in the same turn, where
`committed` says that the batch takes effect. -/
inductive Event where
  | tick (delay : Nat)
  /-- A start, also one that replaces a run which has ended. -/
  | start (delayed : Bool) (executionTimeout : Option Nat)
  | startDelayed (executionTimeout : Option Nat) (committed : Bool)
  | suspend (committed : Bool)
  | resume (committed : Bool)
  /-- Completion, failure or cancellation. -/
  | finish (status : WorkflowStatus) (committed : Bool)
  | scan (fireAt : Nat)
  /-- The callback of a tick times the workflow out. -/
  | timeout (place : Nat) (committed : Bool)
  | cleanup (place : Nat)
  | cancel (place : Nat)
  | crash

/-- The batch of a state with the timer for its deadline. -/
def putRunning (w : World) (executionDeadline : Option Nat) : World :=
  match executionDeadline with
  | some fireAt => { w with
      state := some ⟨.running, some fireAt⟩
      timers := fireAt :: w.timers
      index := some fireAt }
  | none => { w with state := some ⟨.running, none⟩ }

/-- The purge that a start in place of an ended run has in its batch. It deletes the index, and
`KEYS.deadline` under the workflow's id, where the row is under the id of the timer. -/
def purgeForRestart (w : World) : World :=
  match w.state with
  | some ⟨_, some _⟩ => { w with index := none }
  | _ => w

def buildDeadlineTimerDelete (w : World) (executionDeadline : Option Nat) : World :=
  match executionDeadline with
  | some fireAt => { w with timers := w.timers.filter (· ≠ fireAt), index := none }
  | none => w

/-- A run ends, and its timer is to be cancelled without waiting for it. -/
def endRun (w : World) (r : RunState) (status : WorkflowStatus) : World := { w with
  state := some { r with status := status }
  cancels := w.cancels ++ [.requested] }

def deadlineMachine : Machine World Event where
  step := fun w event =>
    match event with
    | .tick delay => some { w with now := w.now + delay }
    | .start delayed executionTimeout =>
      if w.state.all (isTerminalWorkflowStatus ·.status) then
        let w' := purgeForRestart w
        if delayed then some { w' with state := some ⟨.pending, none⟩ }
        else some (putRunning w' (executionTimeout.map (w.now + ·)))
      else none
    | .startDelayed executionTimeout committed =>
      match w.state with
      | some ⟨.pending, _⟩ =>
        if committed then some (putRunning w (executionTimeout.map (w.now + ·))) else some w
      | _ => none
    | .suspend committed =>
      match w.state with
      | some ⟨.running, executionDeadline⟩ =>
        if committed then some { buildDeadlineTimerDelete w executionDeadline with
          state := some ⟨.suspended, executionDeadline⟩ }
        else some w
      | _ => some w
    | .resume committed =>
      match w.state with
      | some ⟨.suspended, executionDeadline⟩ =>
        if committed then some (putRunning w executionDeadline) else some w
      | _ => some w
    | .finish status committed =>
      match w.state with
      | some r =>
        if committed ∧ r.status ∈ FORCIBLY_TERMINABLE_STATUSES ∧
            isTerminalWorkflowStatus status ∧ status ≠ .timedOut ∧
            (status = .completed → r.status = .running) then some (endRun w r status)
        else some w
      | none => some w
    | .scan fireAt =>
      if fireAt ∈ w.timers ∧ fireAt ≤ w.now then
        some { w with ticks := w.ticks ++ [.read fireAt] }
      else none
    | .timeout place committed => (w.ticks[place]?).bind fun t =>
      match t with
      | .read fireAt =>
        match w.state with
        | some r =>
          if r.status ∈ FORCIBLY_TERMINABLE_STATUSES then
            if committed then some { endRun w r .timedOut with
              ticks := w.ticks.set place (.returned fireAt) }
            -- the callback throws, and the row stays for the next tick
            else some { w with ticks := w.ticks.set place .done }
          else some { w with ticks := w.ticks.set place (.returned fireAt) }
        | none => some { w with ticks := w.ticks.set place (.returned fireAt) }
      | _ => none
    | .cleanup place => (w.ticks[place]?).bind fun t =>
      match t with
      | .returned fireAt => some { w with
          timers := w.timers.filter (· ≠ fireAt)
          index := none
          ticks := w.ticks.set place .done }
      | _ => none
    | .cancel place => (w.cancels[place]?).bind fun c =>
      match c with
      | .requested =>
        match w.index with
        | some fireAt => some { w with cancels := w.cancels.set place (.found fireAt) }
        | none => some { w with cancels := w.cancels.set place .done }
      | .found fireAt => some { w with
          timers := w.timers.filter (· ≠ fireAt)
          index := none
          cancels := w.cancels.set place .done }
      | .done => none
    | .crash => some { w with ticks := [], cancels := [] }

/-- A running workflow with a deadline has its timer stored. -/
def TimerStored (w : World) : Prop :=
  ∀ r ∈ w.state, r.status = .running → ∀ fireAt ∈ r.executionDeadline, fireAt ∈ w.timers

/-- No timer times out a workflow that is suspended. -/
def SpareSuspended (w : World) : Event → Prop
  | .timeout _ true => ∀ r ∈ w.state, r.status ≠ .suspended
  | _ => True

def TickStage.isDone : TickStage → Bool
  | .done => true
  | _ => false

def CancelStage.isDone : CancelStage → Bool
  | .done => true
  | _ => false

def TickStage.reading : TickStage → Bool
  | .read _ => true
  | _ => false

theorem TickStage.isDone_of_reading {t : TickStage} (h : t.reading = true) : t.isDone = false := by
  cases t with
  | read fireAt => rfl
  | returned fireAt => rfl
  | done => cases h

/-- A workflow is suspended while no tick has read its timer, and is started anew when neither a
timer of the run before is left nor a tick or a cancellation for it under way. -/
def Settled (w : World) : Event → Prop
  | .suspend true => ∀ t ∈ w.ticks, t.reading = false
  | .start _ _ => w.timers = [] ∧ (∀ t ∈ w.ticks, t.isDone = true) ∧
      ∀ c ∈ w.cancels, c.isDone = true
  | _ => True

instance Settled.decidable (w : World) (event : Event) : Decidable (Settled w event) := by
  unfold Settled
  split <;> infer_instance

structure Inv (w : World) : Prop where
  stored : TimerStored w
  /-- Only a run that is running or has ended has a timer, which is that of its deadline. -/
  own : ∀ fireAt ∈ w.timers, ∃ r, w.state = some r ∧ r.executionDeadline = some fireAt ∧
    (r.status = .running ∨ isTerminalWorkflowStatus r.status = true)
  reading : ∀ t ∈ w.ticks, t.reading = true → ∃ r, w.state = some r ∧
    (r.status = .running ∨ isTerminalWorkflowStatus r.status = true)
  returned : ∀ t ∈ w.ticks, t.isDone = false → t.reading = false → ∃ r, w.state = some r ∧
    isTerminalWorkflowStatus r.status = true
  cancels : ∀ c ∈ w.cancels, c.isDone = false → ∃ r, w.state = some r ∧
    isTerminalWorkflowStatus r.status = true

namespace Inv

variable {w : World}

theorem initial : Inv {} where
  stored := fun _ hr => (by cases hr)
  own := fun _ hf => (by cases hf)
  reading := fun _ ht => (by cases ht)
  returned := fun _ ht => (by cases ht)
  cancels := fun _ hc => (by cases hc)

/-- The run ends. -/
theorem endRun (h : Inv w) {r : RunState} (hr : w.state = some r) (status : WorkflowStatus)
    (hterminal : isTerminalWorkflowStatus status = true) : Inv (endRun w r status) where
  stored := by
    intro r' hr' hrunning
    cases hr'
    change status = .running at hrunning
    rw [hrunning] at hterminal
    cases hterminal
  own := by
    intro fireAt hf
    obtain ⟨r', hr', hdeadline, -⟩ := h.own fireAt hf
    rw [hr] at hr'
    cases hr'
    exact ⟨_, rfl, hdeadline, .inr hterminal⟩
  reading := fun t ht hreading => ⟨_, rfl, .inr hterminal⟩
  returned := fun t ht hdone hreading => ⟨_, rfl, hterminal⟩
  cancels := fun c hc hdone => ⟨_, rfl, hterminal⟩

/-- A run begins to run where no timer is stored and nothing is under way for an earlier one. -/
theorem putRunning (hnone : w.timers = []) (hread : ∀ t ∈ w.ticks, t.isDone = true)
    (hcancels : ∀ c ∈ w.cancels, c.isDone = true) (executionDeadline : Option Nat) :
    Inv (putRunning w executionDeadline) := by
  have hticks : ∀ t ∈ w.ticks, t.isDone ≠ false := by
    intro t ht
    rw [hread t ht]
    decide
  have hreading : ∀ t ∈ w.ticks, t.reading ≠ true := by
    intro t ht hr
    exact hticks t ht (TickStage.isDone_of_reading hr)
  have hcancel : ∀ c ∈ w.cancels, c.isDone ≠ false := by
    intro c hc
    rw [hcancels c hc]
    decide
  cases executionDeadline with
  | none =>
    exact
      { stored := by
          intro r hr _ fireAt hf
          cases hr
          cases hf
        own := by
          intro fireAt hf
          change fireAt ∈ w.timers at hf
          rw [hnone] at hf
          cases hf
        reading := fun t ht hr => absurd hr (hreading t ht)
        returned := fun t ht hdone _ => absurd hdone (hticks t ht)
        cancels := fun c hc hdone => absurd hdone (hcancel c hc) }
  | some deadline =>
    exact
      { stored := by
          intro r hr _ fireAt hf
          cases hr
          cases hf
          exact List.mem_cons_self
        own := by
          intro fireAt hf
          change fireAt ∈ deadline :: w.timers at hf
          rw [hnone, List.mem_singleton] at hf
          subst hf
          exact ⟨_, rfl, rfl, .inl rfl⟩
        reading := fun t ht hr => absurd hr (hreading t ht)
        returned := fun t ht hdone _ => absurd hdone (hticks t ht)
        cancels := fun c hc hdone => absurd hdone (hcancel c hc) }

/-- Where the run neither runs nor has ended, nothing is stored or under way. -/
theorem quiet (h : Inv w) {r : RunState} (hr : w.state = some r) (hrunning : r.status ≠ .running)
    (hterminal : isTerminalWorkflowStatus r.status ≠ true) :
    w.timers = [] ∧ (∀ t ∈ w.ticks, t.isDone = true) ∧ ∀ c ∈ w.cancels, c.isDone = true := by
  refine ⟨?_, ?_, ?_⟩
  · rw [List.eq_nil_iff_forall_not_mem]
    intro fireAt hf
    obtain ⟨r', hr', -, hstatus⟩ := h.own fireAt hf
    rw [hr] at hr'
    cases hr'
    exact hstatus.elim hrunning hterminal
  · intro t ht
    by_contra hdone
    rw [Bool.not_eq_true] at hdone
    by_cases hreading : t.reading = true
    · obtain ⟨r', hr', hstatus⟩ := h.reading t ht hreading
      rw [hr] at hr'
      cases hr'
      exact hstatus.elim hrunning hterminal
    · rw [Bool.not_eq_true] at hreading
      obtain ⟨r', hr', hstatus⟩ := h.returned t ht hdone hreading
      rw [hr] at hr'
      cases hr'
      exact hterminal hstatus
  · intro c hc
    by_contra hdone
    rw [Bool.not_eq_true] at hdone
    obtain ⟨r', hr', hstatus⟩ := h.cancels c hc hdone
    rw [hr] at hr'
    cases hr'
    exact hterminal hstatus

/-- A running workflow is suspended while no tick has read its timer. -/
theorem suspend (h : Inv w) {executionDeadline : Option Nat}
    (hr : w.state = some ⟨.running, executionDeadline⟩)
    (hticks : ∀ t ∈ w.ticks, t.reading = false) :
    Inv { buildDeadlineTimerDelete w executionDeadline with
      state := some ⟨.suspended, executionDeadline⟩ } := by
  have hnone : (buildDeadlineTimerDelete w executionDeadline).timers = [] := by
    rw [List.eq_nil_iff_forall_not_mem]
    intro fireAt hf
    have hin : fireAt ∈ w.timers := by
      cases executionDeadline with
      | none => exact hf
      | some deadline => exact (List.mem_filter.1 hf).1
    obtain ⟨r, hr', hdeadline, -⟩ := h.own fireAt hin
    rw [hr] at hr'
    cases hr'
    change executionDeadline = some fireAt at hdeadline
    subst hdeadline
    simpa using (List.mem_filter.1 hf).2
  have hsame : (buildDeadlineTimerDelete w executionDeadline).ticks = w.ticks ∧
      (buildDeadlineTimerDelete w executionDeadline).cancels = w.cancels := by
    cases executionDeadline <;> exact ⟨rfl, rfl⟩
  have hended : ∀ r, w.state = some r → isTerminalWorkflowStatus r.status = true → False := by
    intro r hr' hterminal
    rw [hr] at hr'
    cases hr'
    cases hterminal
  exact
    { stored := by
        intro r hr' hrunning
        cases hr'
        cases hrunning
      own := by
        intro fireAt hf
        change fireAt ∈ (buildDeadlineTimerDelete w executionDeadline).timers at hf
        rw [hnone] at hf
        cases hf
      reading := by
        intro t ht hreading
        change t ∈ (buildDeadlineTimerDelete w executionDeadline).ticks at ht
        rw [hsame.1] at ht
        rw [hticks t ht] at hreading
        cases hreading
      returned := by
        intro t ht hdone hreading
        change t ∈ (buildDeadlineTimerDelete w executionDeadline).ticks at ht
        rw [hsame.1] at ht
        obtain ⟨r, hr', hterminal⟩ := h.returned t ht hdone hreading
        exact (hended r hr' hterminal).elim
      cancels := by
        intro c hc hdone
        change c ∈ (buildDeadlineTimerDelete w executionDeadline).cancels at hc
        rw [hsame.2] at hc
        obtain ⟨r, hr', hterminal⟩ := h.cancels c hc hdone
        exact (hended r hr' hterminal).elim }

/-- A tick goes on; where it has returned, the run has ended. -/
theorem setTick (h : Inv w) (place : Nat) (t : TickStage) (hreading : t.reading = false)
    (hreturned : t.isDone = false → ∃ r, w.state = some r ∧
      isTerminalWorkflowStatus r.status = true) :
    Inv { w with ticks := w.ticks.set place t } := { h with
  reading := by
    intro t' ht' hr
    obtain hin | rfl := List.mem_or_eq_of_mem_set ht'
    · exact h.reading t' hin hr
    · rw [hreading] at hr
      cases hr
  returned := by
    intro t' ht' hdone hr
    obtain hin | rfl := List.mem_or_eq_of_mem_set ht'
    · exact h.returned t' hin hdone hr
    · exact hreturned hdone }

/-- Rows are deleted after the run has ended. -/
theorem deleteRow (h : Inv w) {r : RunState} (hr : w.state = some r)
    (hterminal : isTerminalWorkflowStatus r.status = true) (fireAt : Nat) :
    Inv { w with timers := w.timers.filter (· ≠ fireAt), index := none } := { h with
  stored := by
    intro r' hr' hrunning
    have heq := hr.symm.trans hr'
    cases heq
    rw [hrunning] at hterminal
    cases hterminal
  own := fun f hf => h.own f (List.mem_filter.1 hf).1 }

theorem step (h : Inv w) {event : Event} {w' : World} (hok : Settled w event)
    (hstep : deadlineMachine.step w event = some w') : Inv w' := by
  cases event with
  | tick delay =>
    cases hstep
    exact { h with }
  | start delayed executionTimeout =>
    obtain ⟨hnone, hticks, hcancels⟩ := hok
    simp only [deadlineMachine] at hstep
    have hpurge : (purgeForRestart w).timers = w.timers ∧
        (purgeForRestart w).ticks = w.ticks ∧ (purgeForRestart w).cancels = w.cancels := by
      unfold purgeForRestart
      split <;> exact ⟨rfl, rfl, rfl⟩
    rw [← hpurge.1] at hnone
    rw [← hpurge.2.1] at hticks
    rw [← hpurge.2.2] at hcancels
    split at hstep
    · split at hstep
      · cases hstep
        exact
          { stored := by
              intro r hr hrunning
              cases hr
              cases hrunning
            own := by
              intro fireAt hf
              change fireAt ∈ (purgeForRestart w).timers at hf
              rw [hnone] at hf
              cases hf
            reading := by
              intro t ht hreading
              have hdone := TickStage.isDone_of_reading hreading
              rw [hticks t ht] at hdone
              cases hdone
            returned := by
              intro t ht hdone
              rw [hticks t ht] at hdone
              cases hdone
            cancels := by
              intro c hc hdone
              rw [hcancels c hc] at hdone
              cases hdone }
      · cases hstep
        exact putRunning hnone hticks hcancels _
    · cases hstep
  | startDelayed executionTimeout committed =>
    simp only [deadlineMachine] at hstep
    split at hstep
    · rename_i deadline hstate
      split at hstep
      · cases hstep
        obtain ⟨hnone, hticks, hcancels⟩ := h.quiet hstate (fun hs => (by cases hs))
          (fun hs => (by cases hs))
        exact putRunning hnone hticks hcancels _
      · cases hstep
        exact h
    · cases hstep
  | suspend committed =>
    simp only [deadlineMachine] at hstep
    split at hstep
    · rename_i deadline hstate
      split at hstep
      · rename_i hcommitted
        subst hcommitted
        cases hstep
        exact h.suspend hstate hok
      · cases hstep
        exact h
    · cases hstep
      exact h
  | resume committed =>
    simp only [deadlineMachine] at hstep
    split at hstep
    · rename_i deadline hstate
      split at hstep
      · cases hstep
        obtain ⟨hnone, hticks, hcancels⟩ := h.quiet hstate (fun hs => (by cases hs))
          (fun hs => (by cases hs))
        exact putRunning hnone hticks hcancels _
      · cases hstep
        exact h
    · cases hstep
      exact h
  | finish status committed =>
    simp only [deadlineMachine] at hstep
    split at hstep
    · rename_i r hstate
      split at hstep
      · rename_i hends
        cases hstep
        exact h.endRun hstate status hends.2.2.1
      · cases hstep
        exact h
    · cases hstep
      exact h
  | scan fireAt =>
    simp only [deadlineMachine] at hstep
    split at hstep
    · rename_i hscan
      cases hstep
      obtain ⟨r, hr, -, hstatus⟩ := h.own fireAt hscan.1
      have hsplit : ∀ t ∈ w.ticks ++ [.read fireAt], t ∈ w.ticks ∨ t = .read fireAt := by
        intro t ht
        exact (List.mem_append.1 ht).imp_right List.mem_singleton.1
      exact { h with
        reading := by
          intro t ht hreading
          obtain hold | rfl := hsplit t ht
          · exact h.reading t hold hreading
          · exact ⟨r, hr, hstatus⟩
        returned := by
          intro t ht hdone hreading
          obtain hold | rfl := hsplit t ht
          · exact h.returned t hold hdone hreading
          · cases hreading }
    · cases hstep
  | timeout place committed =>
    obtain ⟨t, ht, htimeout⟩ := Option.bind_eq_some_iff.1 hstep
    have hmem := List.mem_of_getElem? ht
    split at htimeout
    · rename_i fireAt
      obtain ⟨r, hr, hstatus⟩ := h.reading _ hmem rfl
      split at htimeout
      · rename_i r' hstate
        rw [hr] at hstate
        cases hstate
        split at htimeout
        · split at htimeout
          · cases htimeout
            have hended := h.endRun hr .timedOut rfl
            exact hended.setTick place (.returned fireAt) rfl (fun _ => ⟨_, rfl, rfl⟩)
          · cases htimeout
            exact h.setTick place .done rfl (fun hdone => (by cases hdone))
        · rename_i hnot
          cases htimeout
          refine h.setTick place (.returned fireAt) rfl (fun _ => ⟨r, hr, ?_⟩)
          obtain hrunning | hterminal := hstatus
          · rw [hrunning] at hnot
            exact absurd (by decide) hnot
          · exact hterminal
      · rename_i hstate
        rw [hr] at hstate
        cases hstate
    · cases htimeout
  | cleanup place =>
    obtain ⟨t, ht, hcleanup⟩ := Option.bind_eq_some_iff.1 hstep
    have hmem := List.mem_of_getElem? ht
    split at hcleanup
    · rename_i fireAt
      obtain ⟨r, hr, hterminal⟩ := h.returned _ hmem rfl rfl
      cases hcleanup
      have hdeleted := h.deleteRow hr hterminal fireAt
      exact hdeleted.setTick place .done rfl (fun hdone => (by cases hdone))
    · cases hcleanup
  | cancel place =>
    obtain ⟨c, hc, hcancel⟩ := Option.bind_eq_some_iff.1 hstep
    have hmem := List.mem_of_getElem? hc
    have hset : ∀ (v : World) (c' : CancelStage), Inv v → v.cancels = w.cancels →
        v.state = w.state → c.isDone = false →
          Inv { v with cancels := v.cancels.set place c' } := by
      intro v c' hv heq hstate hopen
      obtain ⟨r, hr, hterminal⟩ := h.cancels c hmem hopen
      exact { hv with cancels := fun _ _ _ => ⟨r, hstate.trans hr, hterminal⟩ }
    split at hcancel
    · split at hcancel
      · cases hcancel
        exact hset w _ h rfl rfl rfl
      · cases hcancel
        exact hset w _ h rfl rfl rfl
    · rename_i fireAt
      obtain ⟨r, hr, hterminal⟩ := h.cancels _ hmem rfl
      cases hcancel
      exact hset _ .done (h.deleteRow hr hterminal fireAt) rfl rfl rfl
    · cases hcancel
  | crash =>
    cases hstep
    exact { h with
      reading := fun _ ht => (by cases ht)
      returned := fun _ ht => (by cases ht)
      cancels := fun _ hc => (by cases hc) }

/-- A tick that has read the timer finds a run that runs or has ended. -/
theorem spareSuspended (h : Inv w) {event : Event} {w' : World}
    (hstep : deadlineMachine.step w event = some w') : SpareSuspended w event := by
  unfold SpareSuspended
  split
  · rename_i place
    intro r hr hsuspended
    obtain ⟨t, ht, htimeout⟩ := Option.bind_eq_some_iff.1 hstep
    split at htimeout
    · obtain ⟨r', hr', hstatus⟩ := h.reading _ (List.mem_of_getElem? ht) rfl
      have heq := hr'.symm.trans hr
      cases heq
      rw [hsuspended] at hstatus
      obtain hrunning | hterminal := hstatus
      · cases hrunning
      · cases hterminal
    · cases htimeout
  · trivial

end Inv

/-- In every run whose steps meet the condition. -/
theorem deadline_timer_stored {run : List Event} (hok : deadlineMachine.EveryStep Settled {} run) :
    deadlineMachine.EveryState TimerStored {} run ∧
      deadlineMachine.EveryStep SpareSuspended {} run := by
  constructor
  · apply Machine.EveryState.mono fun w (h : Inv w) => h.stored
    exact Machine.everyState_of_invariant (fun _ _ _ h => h.step) Inv.initial hok
  · refine Machine.everyStep_of_invariant (I := Inv) ?_ Inv.initial hok
    intro w event w' h hok hstep
    exact ⟨h.step hok hstep, h.spareSuspended hstep⟩

/-- A run is cancelled, another one begins under its id, and the cancellation of the first one's
timer finds the index of the second one's. -/
def cancelledLate : List Event :=
  [.start false (some 10), .finish .cancelled true, .start false (some 20), .cancel 0, .cancel 0]

/-- A tick has read the timer when the run is suspended. -/
def suspendedLate : List Event :=
  [.start false (some 10), .tick 10, .scan 10, .suspend true, .timeout 0 true]

theorem deadline_timer_missing : ¬ deadlineMachine.EveryState TimerStored {} cancelledLate ∧
    ¬ deadlineMachine.EveryStep SpareSuspended {} suspendedLate := by
  constructor
  · intro hstored
    have hlost := hstored.final ⟨.running, some 20⟩ (by decide) rfl 20 rfl
    revert hlost
    decide
  · intro hspared
    obtain ⟨-, -, -, -, hspare, -⟩ := hspared
    exact hspare ⟨.suspended, some 10⟩ rfl rfl

/-- A run is suspended and resumed twice, a crash in between, and times out; another one follows. -/
def suspendedInTurn : List Event :=
  [.start false (some 10), .suspend true, .resume true, .crash, .suspend true, .tick 12,
    .resume true, .scan 10, .timeout 0 true, .cleanup 0, .cancel 0, .start true none,
    .startDelayed (some 5) true]

theorem suspended_timer_stored : deadlineMachine.EveryState TimerStored {} suspendedInTurn ∧
    deadlineMachine.EveryStep SpareSuspended {} suspendedInTurn :=
  deadline_timer_stored (by decide)

end Weft.Lifecycle.Deadline
