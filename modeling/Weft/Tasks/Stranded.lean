import Weft.Tasks.Model

/-! A queued record is there for a task that a poll can take or that a delayed dispatch will bring
back, as long as no handler drops the task after the record was written. -/

namespace Weft.Tasks
open Weft.Lib

/-- No handler is under way. -/
def Quiescent (w : World) : Prop := ∀ call ∈ w.calls, call = .done

/-- A queued record belongs to a task that is pending or has a delayed dispatch. -/
def Linked (w : World) : Prop :=
  w.store.queued.isSome = true → w.pending ≠ [] ∨ w.timers ≠ []

def NoStranded (w : World) : Prop := Quiescent w → Linked w

instance (w : World) : Decidable (Linked w) := inferInstanceAs (Decidable (_ → _))

instance (w : World) : Decidable (NoStranded w) :=
  inferInstanceAs (Decidable ((∀ call ∈ w.calls, call = .done) → Linked w))

/-- The handler has a queued task in hand: it will claim it, or bring it to the task queue. -/
def Call.carries : Call → Bool
  | .reserving _ _ _ => true
  | .claiming _ => true
  | .marking _ => true
  | .enqueueing _ => true
  | .requeued _ _ => true
  | _ => false

/-- The handler does not drop the task: none of its reads and writes fails, and the task queue and
the registry do not turn it away. -/
def Call.Keeps (w : World) : Bool → Call → Prop
  | true, .enqueueing _ => w.dispatched = false ∨ Linked w
  | true, .requeued task _ => task.retryPolicy.isSome ∨ validateTaskEnvelope w ∨ Linked w
  | true, _ => True
  | false, call => call.carries → Linked w

/-- No pending task expires, no delayed dispatch is turned away and no handler drops the task,
unless the task is linked without it. -/
def Kept (w : World) : Event → Prop
  | .expireTask _ => w.store.queued = none ∨ w.timers ≠ []
  | .removeStale _ => w.store.queued = none ∨ w.timers ≠ []
  | .fire _ _ => validateTaskEnvelope w ∨ w.store.queued = none ∨ w.pending ≠ []
  | .proceed place ok _ _ => ∀ call ∈ w.calls[place]?, call.Keeps w ok
  | _ => True

instance (w : World) (ok : Bool) (call : Call) : Decidable (call.Keeps w ok) := by
  unfold Call.Keeps
  split <;> infer_instance

instance (w : World) (event : Event) : Decidable (Kept w event) := by
  unfold Kept
  split <;> infer_instance

/-- The task is linked, or a handler has it in hand. -/
def Held (w : World) : Prop := Linked w ∨ ∃ call ∈ w.calls, call.carries = true

variable {w : World}

theorem Held.noStranded (h : Held w) : NoStranded w := by
  intro hquiet
  obtain hlinked | ⟨call, hcall, hcarries⟩ := h
  · exact hlinked
  · rw [hquiet call hcall] at hcarries
    cases hcarries

section calls

variable {calls : List Call} {place : Nat} {call next : Call}

theorem carried_next (hcall : calls[place]? = some call) (hnext : next.carries = true) :
    ∃ c ∈ calls.set place next, c.carries = true := by
  refine ⟨next, ?_, hnext⟩
  have hlt := (List.getElem?_eq_some_iff.1 hcall).1
  exact List.mem_of_getElem? (List.getElem?_set_self hlt)

theorem carried_other (hcall : calls[place]? = some call) (hnot : call.carries = false)
    (h : ∃ c ∈ calls, c.carries = true) : ∃ c ∈ calls.set place next, c.carries = true := by
  obtain ⟨c, hc, hcarries⟩ := h
  obtain ⟨j, hj⟩ := List.getElem?_of_mem hc
  have hne : place ≠ j := by
    rintro rfl
    rw [hcall] at hj
    cases hj
    rw [hnot] at hcarries
    cases hcarries
  refine ⟨c, ?_, hcarries⟩
  rw [← List.getElem?_set_ne hne] at hj
  exact List.mem_of_getElem? hj

theorem carried_begin (h : ∃ c ∈ calls, c.carries = true) :
    ∃ c ∈ calls ++ [next], c.carries = true := by
  obtain ⟨c, hc, hcarries⟩ := h
  exact ⟨c, List.mem_append_left _ hc, hcarries⟩

end calls

section memory

variable (w : World)

/-- A handler with no task in hand leaves the links as they are. -/
theorem resume_links (worker poller : Option Nat) {call : Call} (hnot : call.carries = false) :
    SameLinks (resume w worker poller call).1 w := by
  cases call with
  | reserving task workerId calledAt => cases hnot
  | claiming record => cases hnot
  | marking task => cases hnot
  | enqueueing task => cases hnot
  | requeued task source => cases hnot
  | expiring record source => exact release_links w source
  | reporting workerId attemptToken status =>
    simp only [resume]
    split <;> exact ⟨rfl, rfl, rfl⟩
  | drained deadline scanAt =>
    simp only [resume]
    split <;> exact ⟨rfl, rfl, rfl⟩
  | scanning deadline scanAt =>
    simp only [resume]
    split <;> exact ⟨rfl, rfl, rfl⟩
  | scanned deadline scanAt record =>
    simp only [resume]
    split
    · exact ⟨rfl, rfl, rfl⟩
    · split <;> exact ⟨rfl, rfl, rfl⟩
  | listed scanAt record =>
    simp only [resume]
    split
    · exact ⟨rfl, rfl, rfl⟩
    · split <;> exact ⟨rfl, rfl, rfl⟩
  | disconnecting =>
    simp only [resume]
    split <;> exact ⟨rfl, rfl, rfl⟩
  | beating workerId deadline tries =>
    simp only [resume]
    split <;> exact ⟨rfl, rfl, rfl⟩
  | _ => exact ⟨rfl, rfl, rfl⟩

end memory

theorem dispatchTaskImpl_carries (hvalid : validateTaskEnvelope w = true) (task : TaskDispatch)
    (worker : Option Nat) : (dispatchTaskImpl w task worker).carries = true := by
  unfold dispatchTaskImpl
  rw [if_pos hvalid]
  cases worker <;> rfl

variable {v w : World}

theorem Linked.congr (h : Linked w) (hqueued : v.store.queued = w.store.queued)
    (hpending : v.pending = w.pending) (htimers : v.timers = w.timers) : Linked v := by
  unfold Linked
  rw [hqueued, hpending, htimers]
  exact h

variable {call : Call}

/-- The write of a handler with no task in hand leaves the queued record, or puts one and takes the
task in hand. -/
theorem commit_queued (hnot : call.carries = false) (s : Store) :
    (call.commit s).queued = s.queued ∨ ∃ record source, call = .requeueing record source := by
  cases call with
  | requeueing record source => exact .inr ⟨record, source, rfl⟩
  | reserving task workerId calledAt => cases hnot
  | claiming record => cases hnot
  | marking task => cases hnot
  | enqueueing task => cases hnot
  | requeued task source => cases hnot
  | _ => exact .inl rfl

/-- A handler goes on after its read or write took effect. -/
theorem held_resume {place : Nat} (h : Held w) (hcall : w.calls[place]? = some call)
    (worker poller : Option Nat) (hkeeps : call.Keeps w true) :
    Held (goOn place (resume { w with store := call.commit w.store } worker poller call)) := by
  by_cases hcarries : call.carries = true
  · cases call with
    | reserving task workerId calledAt => exact .inr (carried_next hcall rfl)
    | claiming record => exact .inl fun hqueued => (by cases hqueued)
    | marking task => exact .inr (carried_next hcall rfl)
    | enqueueing task =>
      simp only [resume, Call.commit, enqueue]
      split
      · rename_i hdispatched
        obtain hfree | hlinked := hkeeps
        · exact absurd hdispatched (by rw [hfree]; decide)
        · exact .inl hlinked
      · cases poller with
        | some workerId => exact .inr (carried_next hcall rfl)
        | none =>
          exact .inl fun _ => .inl (List.append_ne_nil_of_right_ne_nil _ (List.cons_ne_nil _ _))
    | requeued task source =>
      simp only [resume, Call.commit, scheduleTaskRedispatch]
      split
      · exact .inl fun _ => .inr (List.append_ne_nil_of_right_ne_nil _ (List.cons_ne_nil _ _))
      · rename_i hpolicy
        have hlinks := release_links w source
        obtain hretry | hvalid | hlinked := hkeeps
        · exact absurd hretry hpolicy
        · refine .inr ?_
          change ∃ c ∈ (release w source).calls.set place _, c.carries = true
          rw [hlinks.calls]
          refine carried_next hcall (dispatchTaskImpl_carries ?_ task worker)
          cases source <;> exact hvalid
        · exact .inl (hlinked.congr (congrArg _ (release_store w source)) hlinks.pending
            hlinks.timers)
    | _ => cases hcarries
  · rw [Bool.not_eq_true] at hcarries
    have hlinks := resume_links { w with store := call.commit w.store } worker poller hcarries
    obtain hqueued | ⟨record, source, rfl⟩ := commit_queued hcarries w.store
    · obtain hlinked | hcarried := h
      · refine .inl (hlinked.congr ?_ hlinks.pending hlinks.timers)
        change (resume { w with store := call.commit w.store } worker poller call).1.store.queued =
          _
        rw [resume_store]
        exact hqueued
      · refine .inr ?_
        change ∃ c ∈ (resume _ worker poller call).1.calls.set place _, c.carries = true
        rw [hlinks.calls]
        exact carried_other hcall hcarries hcarried
    · exact .inr (carried_next hcall rfl)

/-- It goes on after a failure. -/
theorem held_fail {place : Nat} (h : Held w) (hcall : w.calls[place]? = some call)
    (hkeeps : call.Keeps w false) : Held (goOn place (fail w call)) := by
  have hlinks := fail_links w call
  have hkept : Linked w → Held (goOn place (fail w call)) := by
    intro hlinked
    exact .inl (hlinked.congr (congrArg _ (fail_store w call)) hlinks.pending hlinks.timers)
  by_cases hcarries : call.carries = true
  · exact hkept (hkeeps hcarries)
  · rw [Bool.not_eq_true] at hcarries
    obtain hlinked | hcarried := h
    · exact hkept hlinked
    · refine .inr ?_
      change ∃ c ∈ (fail w call).1.calls.set place _, c.carries = true
      rw [hlinks.calls]
      exact carried_other hcall hcarries hcarried

/-- A handler begins and leaves the links. -/
theorem held_begin (h : Held w) (call : Call) (hqueued : v.store.queued = w.store.queued)
    (hlinks : SameLinks v w) : Held (begin v call) := by
  obtain hlinked | hcarried := h
  · exact .inl (hlinked.congr hqueued hlinks.pending hlinks.timers)
  · refine .inr ?_
    change ∃ c ∈ v.calls ++ [call], c.carries = true
    rw [hlinks.calls]
    exact carried_begin hcarried

/-- A pending task is taken away while nothing depends on it. -/
theorem held_drop (hdrop : w.store.queued = none ∨ w.timers ≠ [])
    (hqueued : v.store.queued = w.store.queued) (htimers : v.timers = w.timers) : Held v := by
  refine .inl fun hsome => ?_
  rw [hqueued] at hsome
  obtain hnone | htimer := hdrop
  · rw [hnone] at hsome
    cases hsome
  · rw [htimers]
    exact .inr htimer

theorem held_step {w w' : World} {event : Event} (h : Held w) (hkept : Kept w event)
    (hstep : taskMachine.step w event = some w') : Held w' := by
  have hself : SameLinks w w := ⟨rfl, rfl, rfl⟩
  cases event with
  | tick delay =>
    cases hstep
    exact h
  | dispatch task worker =>
    cases hstep
    exact held_begin h _ rfl hself
  | fire place worker =>
    obtain ⟨task, htask, rfl⟩ := Option.map_eq_some_iff.1 hstep
    obtain hvalid | hnone | hpending := hkept
    · refine .inr ⟨_, List.mem_append_right _ (List.mem_singleton_self _), ?_⟩
      exact dispatchTaskImpl_carries hvalid task worker
    · refine .inl fun hsome => ?_
      change w.store.queued.isSome = true at hsome
      rw [hnone] at hsome
      cases hsome
    · exact .inl fun _ => .inl hpending
  | poll place workerId =>
    obtain ⟨task, htask, rfl⟩ := Option.map_eq_some_iff.1 hstep
    exact .inr ⟨_, List.mem_append_right _ (List.mem_singleton_self _), rfl⟩
  | expireTask place =>
    simp only [taskMachine] at hstep
    split at hstep
    · cases hstep
      exact held_drop hkept rfl rfl
    · cases hstep
  | removeStale place =>
    simp only [taskMachine] at hstep
    split at hstep
    · cases hstep
      exact held_drop hkept rfl rfl
    · cases hstep
  | report workerId attemptToken status =>
    cases hstep
    exact held_begin h _ rfl hself
  | taskResult workerId attemptToken status =>
    simp only [taskMachine] at hstep
    split at hstep
    · cases hstep
      exact held_begin h _ rfl ⟨rfl, rfl, rfl⟩
    · cases hstep
      exact h
  | disconnect workerId =>
    simp only [taskMachine] at hstep
    split at hstep
    · cases hstep
      exact held_begin h _ rfl ⟨rfl, rfl, rfl⟩
    · cases hstep
      exact h
  | heartbeat workerId =>
    simp only [taskMachine] at hstep
    split at hstep
    · split at hstep
      · cases hstep
        exact held_begin h _ rfl ⟨rfl, rfl, rfl⟩
      · cases hstep
        exact h
    · cases hstep
      exact h
  | scanExpiredTasks =>
    simp only [taskMachine] at hstep
    split at hstep
    · split at hstep
      · cases hstep
        exact held_begin h _ rfl ⟨rfl, rfl, rfl⟩
      · cases hstep
        exact h
    · cases hstep
      exact h
  | reconcileOrphanedRecords =>
    simp only [taskMachine] at hstep
    split at hstep
    · split at hstep
      · cases hstep
        exact h
      · cases hstep
        exact held_begin h _ rfl ⟨rfl, rfl, rfl⟩
    · cases hstep
      exact h
  | clearDeadLetter =>
    cases hstep
    exact h
  | proceed place ok worker poller =>
    obtain ⟨call, hcall, hnext⟩ := Option.bind_eq_some_iff.1 hstep
    have hkeeps := hkept call hcall
    split at hnext
    · cases hnext
    · split at hnext
      · rename_i hok
        subst hok
        cases hnext
        exact held_resume h hcall worker poller hkeeps
      · rename_i hok
        rw [Bool.not_eq_true] at hok
        subst hok
        split at hnext
        · cases hnext
          exact held_fail h hcall hkeeps
        · cases hnext

/-- In every run whose steps drop no task. -/
theorem no_stranded_task {run : List Event} (hkept : taskMachine.EveryStep Kept {} run) :
    taskMachine.EveryState NoStranded {} run := by
  apply Machine.EveryState.mono fun w (h : Held w) => h.noStranded
  refine Machine.everyState_of_invariant (fun _ _ _ h => held_step h) ?_ hkept
  exact .inl fun hqueued => (by cases hqueued)

/-- No worker asks for the task in time. -/
def neverPolled : List Event :=
  [.dispatch ⟨1, none, 10⟩ none, .proceed 0 true none none, .proceed 0 true none none,
    .expireTask 0]

/-- A poll claims the task and its time passes. The task queue still counts it as dispatched when
the scanner brings it back. -/
def claimedOnce : List Event :=
  [.dispatch ⟨1, none, 10⟩ none, .proceed 0 true none none, .proceed 0 true none (some 7),
    .proceed 0 true none none, .tick 10, .scanExpiredTasks, .proceed 1 true none none,
    .proceed 1 true none none, .proceed 1 true none none, .proceed 1 true none none,
    .proceed 1 true none none]

theorem task_stranded : ¬ taskMachine.EveryState NoStranded {} neverPolled ∧
    ¬ taskMachine.EveryState NoStranded {} claimedOnce := by
  constructor
  · intro hlinked
    have hlast := hlinked.final
    revert hlast
    decide
  · intro hlinked
    have hlast := hlinked.final
    revert hlast
    decide

/-- A worker that was given the task disconnects, the task comes back after its delay, waits in the
task queue, and is polled and completed. -/
def broughtBack : List Event :=
  [.dispatch ⟨1, some 3, 10⟩ (some 4), .proceed 0 true none none, .proceed 0 true none none,
    .disconnect 4, .proceed 1 true none none, .proceed 1 true none none, .proceed 1 true none none,
    .fire 0 none, .proceed 2 true none none, .proceed 2 true none none, .poll 0 7,
    .proceed 3 true none none, .report 7 1 .completed, .proceed 4 true none none,
    .proceed 4 true none none]

theorem brought_back_linked : taskMachine.EveryState NoStranded {} broughtBack :=
  no_stranded_task (by decide)

end Weft.Tasks
