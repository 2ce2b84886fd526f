import Weft.Tasks.Model

/-! A task is in one state at a time as long as one handler moves it at a time. None of the batches
has a condition, so a handler that was overtaken writes all the same. -/

namespace Weft.Tasks
open Weft.Lib

/-- The task has at most one of its three records. -/
structure Exclusive (s : Store) : Prop where
  queued_inflight : s.queued = none ∨ s.inflight = none
  queued_resolved : s.queued = none ∨ s.resolved = none
  inflight_resolved : s.inflight = none ∨ s.resolved = none

/-- It is in one state, and was resolved once at most. -/
def OneState (w : World) : Prop := Exclusive w.store ∧ w.store.resolutions ≤ 1

/-- A task that is resolved is neither queued nor claimed by the step. -/
def StaysResolved (w : World) (event : Event) : Prop :=
  w.store.resolved.isSome → ∀ w', taskMachine.step w event = some w' →
    w'.store.queued = none ∧ w'.store.inflight = none

/-! ## Turns -/

/-- The handler has taken the task, and moves it. -/
def Call.moves : Call → Bool
  | .reserving _ _ _ => true
  | .claiming _ => true
  | .marking _ => true
  | .enqueueing _ => true
  | .accepted _ => true
  | .resolving _ _ => true
  | .disconnecting => true
  | .requeueing _ _ => true
  | .expiring _ _ => true
  | .requeued _ _ => true
  | _ => false

def Free (w : World) : Prop := ∀ call ∈ w.calls, call.moves = false

/-- A handler takes the task when no other one has it: a result for the record in flight of its
attempt, and a record that is past its deadline while the task is still in flight. -/
def Call.InTurn (w : World) : Call → Prop
  | .reporting workerId attemptToken _ => w.store.inflight ≠ none ∧
    ∀ r ∈ w.store.inflight, r.workerId = workerId → r.attemptToken = attemptToken → Free w
  | .scanned _ scanAt record => w.store.deadLettered = false → record.deadline ≤ scanAt →
    Free w ∧ w.store.inflight ≠ none
  | .listed scanAt record => w.store.deadLettered = false → w.processing = false →
    record.deadline ≤ scanAt → Free w ∧ w.store.inflight ≠ none
  | .beaten _ _ _ _ => w.store.inflight ≠ none
  | _ => True

/-- A dispatch takes it when the server has nothing of it in memory. One from outside is of a task
that is not in flight without the server's knowledge, not resolved, and not about to be dispatched
again. -/
def InTurn (w : World) : Event → Prop
  | .dispatch _ _ => w.registry = none → w.dispatched = false →
    Free w ∧ w.store.inflight = none ∧ w.store.resolved = none ∧ w.timers = []
  | .fire _ _ => w.registry = none → w.dispatched = false → Free w
  | .poll _ _ => Free w
  | .taskResult workerId attemptToken _ =>
    (∃ a ∈ w.registry, a.workerId = workerId ∧ a.attemptToken = attemptToken) →
      Free w ∧ w.store.inflight ≠ none
  | .disconnect workerId => (∃ a ∈ w.registry, a.workerId = workerId) → Free w
  | .proceed place true _ _ => ∀ call ∈ w.calls[place]?, call.InTurn w
  | _ => True

instance (w : World) : Decidable (Free w) :=
  inferInstanceAs (Decidable (∀ call ∈ w.calls, call.moves = false))

instance (w : World) (call : Call) : Decidable (call.InTurn w) := by
  unfold Call.InTurn
  split <;> infer_instance

instance (w : World) : (event : Event) → Decidable (InTurn w event)
  | .dispatch _ _ => inferInstanceAs (Decidable (_ → _))
  | .fire _ _ => inferInstanceAs (Decidable (_ → _))
  | .poll _ _ => inferInstanceAs (Decidable (Free w))
  | .taskResult _ _ _ => inferInstanceAs (Decidable (_ → _))
  | .disconnect _ => inferInstanceAs (Decidable (_ → _))
  | .proceed place true _ _ =>
    inferInstanceAs (Decidable (∀ call ∈ w.calls[place]?, call.InTurn w))
  | .proceed _ false _ _ => isTrue trivial
  | .tick _ => isTrue trivial
  | .expireTask _ => isTrue trivial
  | .removeStale _ => isTrue trivial
  | .report _ _ _ => isTrue trivial
  | .heartbeat _ => isTrue trivial
  | .scanExpiredTasks => isTrue trivial
  | .reconcileOrphanedRecords => isTrue trivial
  | .clearDeadLetter => isTrue trivial

/-! ## What holds between the steps -/

/-- The task is not resolved, and nobody but a handler that has it will dispatch or claim it. -/
structure Alone (w : World) : Prop where
  pending : w.pending = []
  timers : w.timers = []
  resolved : w.store.resolved = none

/-- What a handler that has the task may rely on. -/
def Call.Ready (w : World) : Call → Prop
  | .reserving _ _ _ => Alone w ∧ w.store.inflight = none
  | .marking _ => Alone w ∧ w.store.inflight = none
  | .enqueueing _ => Alone w ∧ w.store.inflight = none
  | .requeued _ _ => Alone w ∧ w.store.inflight = none
  | .claiming _ => Alone w
  | .requeueing _ _ => Alone w
  | .accepted _ => Alone w ∧ w.store.queued = none
  | .resolving _ _ => Alone w ∧ w.store.queued = none
  | .expiring _ _ => Alone w ∧ w.store.queued = none
  | _ => True

/-- What waits for a poll or for its delay is neither in flight nor resolved, and it waits once. The
count tells whether the task is resolved. -/
structure Sound (w : World) : Prop where
  oneState : OneState w
  counted : w.store.resolutions = 0 ↔ w.store.resolved = none
  once : w.pending.length + w.timers.length ≤ 1
  waiting : 0 < w.pending.length + w.timers.length →
    w.store.inflight = none ∧ w.store.resolved = none
  dispatched : w.pending ≠ [] → w.dispatched = true

/-- No handler but that at the place has the task. -/
def Others (calls : List Call) (place : Nat) : Prop :=
  ∀ place' ≠ place, ∀ call ∈ calls[place']?, call.moves = false

/-- One handler at a time has the task, and it may rely on what it found. -/
structure Steady (w : World) : Prop where
  sound : Sound w
  turn : ∀ place, ∀ call ∈ w.calls[place]?, call.moves = true →
    call.Ready w ∧ Others w.calls place

section turn

variable {v w : World} {place : Nat} {call next : Call}

theorem Call.Ready.mono (halone : Alone w → Alone v)
    (hflight : w.store.inflight = none → v.store.inflight = none)
    (hqueued : w.store.queued = none → v.store.queued = none) {call : Call}
    (h : call.Ready w) : call.Ready v := by
  cases call with
  | reserving task workerId calledAt => exact ⟨halone h.1, hflight h.2⟩
  | marking task => exact ⟨halone h.1, hflight h.2⟩
  | enqueueing task => exact ⟨halone h.1, hflight h.2⟩
  | requeued task source => exact ⟨halone h.1, hflight h.2⟩
  | claiming record => exact halone h
  | requeueing record source => exact halone h
  | accepted status => exact ⟨halone h.1, hqueued h.2⟩
  | resolving record tries => exact ⟨halone h.1, hqueued h.2⟩
  | expiring record source => exact ⟨halone h.1, hqueued h.2⟩
  | _ => trivial

/-- The store stays, and what waits for the task. -/
theorem Call.Ready.of_alone (hstore : v.store = w.store) (halone : Alone w → Alone v) (call : Call)
    (h : call.Ready w) : call.Ready v := by
  refine h.mono halone ?_ ?_
  · rw [hstore]
    exact id
  · rw [hstore]
    exact id

theorem Call.Ready.congr (hstore : v.store = w.store) (hpending : v.pending = w.pending)
    (htimers : v.timers = w.timers) (call : Call) (h : call.Ready w) : call.Ready v := by
  refine Call.Ready.of_alone hstore (fun halone => ⟨?_, ?_, ?_⟩) call h
  · rw [hpending]
    exact halone.pending
  · rw [htimers]
    exact halone.timers
  · rw [hstore]
    exact halone.resolved

theorem Free.others (h : Free w) (place : Nat) : Others w.calls place :=
  fun _ _ call hcall => h call (List.mem_of_getElem? hcall)

theorem Free.at (h : Free w) (hcall : w.calls[place]? = some call) : call.moves = false :=
  h call (List.mem_of_getElem? hcall)

theorem Others.set (h : Others w.calls place) : Others (w.calls.set place next) place := by
  intro place' hne call hcall
  rw [List.getElem?_set_ne hne.symm] at hcall
  exact h place' hne call hcall

/-- The handler at the place goes on, and no other one has the task. -/
theorem Steady.proceed {next : World × Call} (hsound : Sound next.1)
    (hcalls : next.1.calls = w.calls)
    (hothers : Others w.calls place) (hready : next.2.moves = true → next.2.Ready next.1) :
    Steady (goOn place next) := by
  refine ⟨{ hsound with }, fun place' call hcall hmoves => ?_⟩
  rw [goOn_calls hcalls] at hcall ⊢
  by_cases hplace : place' = place
  · subst hplace
    obtain rfl : call = next.2 := by
      rw [List.getElem?_set_self'] at hcall
      obtain ⟨_, -, hnext⟩ := Option.map_eq_some_iff.1 hcall
      exact hnext.symm
    refine ⟨Call.Ready.congr ?_ ?_ ?_ next.2 (hready hmoves), hothers.set⟩
    · rfl
    · rfl
    · rfl
  · rw [hothers.set place' hplace call hcall] at hmoves
    cases hmoves

/-- The handler at the place goes on without the task. -/
theorem Steady.leave {next : World × Call} (hsound : Sound next.1)
    (hcalls : next.1.calls = w.calls) (hothers : Others w.calls place)
    (hmoves : next.2.moves = false) : Steady (goOn place next) := by
  refine Steady.proceed hsound hcalls hothers fun htrue => ?_
  rw [hmoves] at htrue
  cases htrue

/-- Whoever has the task after a step had it before, or took it when it was free. -/
theorem Steady.of_movers (h : Steady w) (hsound : Sound v) (place : Nat)
    (hready : ∀ c : Call, c.Ready w → c.Ready v)
    (hmovers : ∀ place' c, v.calls[place']? = some c → c.moves = true →
      w.calls[place']? = some c ∨ place' = place ∧ Free w ∧ c.Ready v) : Steady v := by
  refine ⟨hsound, fun place' call hcall hmoves => ?_⟩
  obtain hbefore | ⟨rfl, hfree, hcallReady⟩ := hmovers place' call hcall hmoves
  · obtain ⟨hcallReady, hothers⟩ := h.turn place' call hbefore hmoves
    refine ⟨hready call hcallReady, fun place'' hne c hc => ?_⟩
    by_contra hcmoves
    rw [Bool.not_eq_false] at hcmoves
    obtain hcbefore | ⟨-, hfree, -⟩ := hmovers place'' c hc hcmoves
    · rw [hothers place'' hne c hcbefore] at hcmoves
      cases hcmoves
    · rw [hfree.at hbefore] at hmoves
      cases hmoves
  · refine ⟨hcallReady, fun place'' hne c hc => ?_⟩
    by_contra hcmoves
    rw [Bool.not_eq_false] at hcmoves
    obtain hcbefore | ⟨heq, -⟩ := hmovers place'' c hc hcmoves
    · rw [hfree.at hcbefore] at hcmoves
      cases hcmoves
    · exact hne heq

/-- A handler that has not the task goes on without it. -/
theorem Steady.still (h : Steady w) (hsound : Sound v) (hcalls : v.calls = w.calls.set place next)
    (hnext : next.moves = false) (hready : ∀ c : Call, c.Ready w → c.Ready v) : Steady v := by
  refine h.of_movers hsound place hready fun place' c hc hmoves => .inl ?_
  rw [hcalls, List.getElem?_set] at hc
  split_ifs at hc
  · obtain rfl := Option.some.inj hc
    rw [hnext] at hmoves
    cases hmoves
  · exact hc

/-- A handler begins. -/
theorem Steady.begin (h : Steady w) (hsound : Sound v) (hcalls : v.calls = w.calls ++ [next])
    (hready : ∀ c : Call, c.Ready w → c.Ready v)
    (hnext : next.moves = true → Free w ∧ next.Ready v) : Steady v := by
  refine h.of_movers hsound w.calls.length hready fun place' c hc hmoves => ?_
  rw [hcalls, List.getElem?_append] at hc
  split_ifs at hc with hlt
  · exact .inl hc
  · rw [List.getElem?_singleton] at hc
    split_ifs at hc with hzero
    obtain rfl := Option.some.inj hc
    exact .inr ⟨by omega, hnext hmoves⟩

end turn

section store

variable {v w : World}

theorem Sound.alone (h : Sound w) (hflight : w.store.inflight ≠ none) :
    Alone w ∧ w.store.queued = none := by
  have hnone : w.pending.length + w.timers.length = 0 := by
    by_contra hsome
    exact hflight (h.waiting (Nat.pos_of_ne_zero hsome)).1
  rw [Nat.add_eq_zero_iff, List.length_eq_zero_iff, List.length_eq_zero_iff] at hnone
  have hexclusive := h.oneState.1
  exact ⟨⟨hnone.1, hnone.2, hexclusive.inflight_resolved.resolve_left hflight⟩,
    hexclusive.queued_inflight.resolve_right hflight⟩

/-- The records of a task that is not waiting. -/
theorem Sound.of_alone (hpending : w.pending = []) (htimers : w.timers = [])
    (hstate : OneState w) (hcounted : w.store.resolutions = 0 ↔ w.store.resolved = none) :
    Sound w := by
  refine ⟨hstate, hcounted, ?_, ?_, fun h => (h hpending).elim⟩
  · rw [hpending, htimers]
    exact Nat.zero_le 1
  · rw [hpending, htimers]
    exact fun h => (Nat.lt_irrefl 0 h).elim

theorem Sound.congr (h : Sound w) (hstore : v.store = w.store) (hlinks : SameLinks v w)
    (hdispatched : v.dispatched = w.dispatched) : Sound v := by
  refine ⟨?_, ?_, ?_, ?_, ?_⟩
  · unfold OneState
    rw [hstore]
    exact h.oneState
  · rw [hstore]
    exact h.counted
  · rw [hlinks.pending, hlinks.timers]
    exact h.once
  · rw [hlinks.pending, hlinks.timers, hstore]
    exact h.waiting
  · rw [hlinks.pending, hdispatched]
    exact h.dispatched

/-- A result, or an exhausted retry. -/
theorem resolved_oneState (halone : Alone w) (hqueued : w.store.queued = none)
    (hcounted : w.store.resolutions = 0 ↔ w.store.resolved = none) (record : ResolvedRecord) :
    OneState { w with store := transitionInflightToResolved w.store record } := by
  have hzero := hcounted.2 halone.resolved
  refine ⟨⟨.inl hqueued, .inl hqueued, .inl rfl⟩, ?_⟩
  change w.store.resolutions + 1 ≤ 1
  rw [hzero]

theorem dispatchTaskImpl_ready {task : TaskDispatch} {worker : Option Nat} (halone : Alone v)
    (hflight : v.store.inflight = none) : (dispatchTaskImpl w task worker).Ready v := by
  unfold dispatchTaskImpl
  split
  · cases worker with
    | none => exact ⟨halone, hflight⟩
    | some workerId => exact ⟨halone, hflight⟩
  · trivial

theorem reassignOrExpireTask_ready (record : InflightRecord) (source : Source) (h : Sound w)
    (hflight : w.store.inflight ≠ none) : (reassignOrExpireTask record source).Ready w := by
  obtain ⟨halone, hqueued⟩ := h.alone hflight
  unfold reassignOrExpireTask
  split
  · exact ⟨halone, hqueued⟩
  · exact halone

end store

section proceed

variable {v w : World} {place : Nat} {call next : Call}

/-- A handler that has not the task goes on without it, and leaves the task as it is. -/
theorem Steady.same (h : Steady w) (hstore : v.store = w.store) (hlinks : SameLinks v w)
    (hdispatched : v.dispatched = w.dispatched) (hnext : next.moves = false) :
    Steady (goOn place (v, next)) := by
  refine h.still { h.sound.congr hstore hlinks hdispatched with } (goOn_calls hlinks.calls) hnext ?_
  exact Call.Ready.congr hstore hlinks.pending hlinks.timers

@[simp] theorem release_dispatched (w : World) (source : Source) :
    (release w source).dispatched = w.dispatched := by
  cases source <;> rfl

@[simp] theorem giveUp_dispatched (w : World) (source : Source) :
    (giveUp w source).dispatched = w.dispatched := by
  cases source <;> rfl

theorem fail_dispatched (w : World) (call : Call) : (fail w call).1.dispatched = w.dispatched := by
  cases call <;> simp [fail]

/-- A handler whose read or write failed tries again, or no longer has the task. -/
theorem fail_ready (w : World) (call : Call) (hmoves : (fail w call).2.moves = true) :
    call.moves = true ∧ (call.Ready w → (fail w call).2.Ready w) := by
  cases call with
  | resolving record tries =>
    simp only [fail] at hmoves ⊢
    split at hmoves
    · cases hmoves
    · rename_i htries
      rw [if_neg htries]
      exact ⟨rfl, id⟩
  | burying tries =>
    simp only [fail] at hmoves
    split at hmoves <;> cases hmoves
  | beating workerId deadline tries =>
    simp only [fail] at hmoves
    split at hmoves <;> cases hmoves
  | beaten record workerId deadline tries =>
    simp only [fail] at hmoves
    split at hmoves <;> cases hmoves
  | _ => cases hmoves

theorem steady_failed (h : Steady w) (hcall : w.calls[place]? = some call) :
    Steady (goOn place (fail w call)) := by
  cases hmoves : (fail w call).2.moves with
  | false => exact h.same (fail_store w call) (fail_links w call) (fail_dispatched w call) hmoves
  | true =>
    obtain ⟨hmoved, hready⟩ := fail_ready w call hmoves
    obtain ⟨hcallReady, hothers⟩ := h.turn place call hcall hmoved
    have hsound := h.sound.congr (fail_store w call) (fail_links w call) (fail_dispatched w call)
    refine Steady.proceed { hsound with } (fail_calls w call) hothers fun _ => ?_
    exact Call.Ready.congr (fail_store w call) (fail_links w call).pending
      (fail_links w call).timers _ (hready hcallReady)

/-- A handler goes on after its read or write took effect. -/
theorem steady_answered (h : Steady w) (hcall : w.calls[place]? = some call)
    (hturn : call.InTurn w) (worker poller : Option Nat) :
    Steady (goOn place (resume { w with store := call.commit w.store } worker poller call)) := by
  have hsound := h.sound
  have hfrom : call.moves = true → call.Ready w ∧ Others w.calls place := h.turn place call hcall
  cases call with
  | reserving task workerId calledAt =>
    obtain ⟨⟨halone, -⟩, hothers⟩ := hfrom rfl
    exact Steady.proceed { hsound with } rfl hothers fun _ => { halone with }
  | claiming record =>
    obtain ⟨halone, hothers⟩ := hfrom rfl
    refine Steady.leave (Sound.of_alone halone.pending halone.timers ?_ hsound.counted) rfl
      hothers rfl
    exact ⟨⟨.inl rfl, .inl rfl, .inr halone.resolved⟩, hsound.oneState.2⟩
  | marking task =>
    obtain ⟨⟨halone, hflight⟩, hothers⟩ := hfrom rfl
    refine Steady.proceed (Sound.of_alone halone.pending halone.timers ?_ hsound.counted) rfl
      hothers fun _ => ⟨{ halone with }, hflight⟩
    exact ⟨⟨.inr hflight, .inr halone.resolved, .inl hflight⟩, hsound.oneState.2⟩
  | enqueueing task =>
    obtain ⟨⟨halone, hflight⟩, hothers⟩ := hfrom rfl
    simp only [resume, enqueue]
    split
    · exact Steady.leave { hsound with } rfl hothers rfl
    · cases poller with
      | some workerId =>
        refine Steady.proceed ⟨hsound.oneState, hsound.counted, hsound.once, hsound.waiting, ?_⟩ rfl
          hothers fun _ => { halone with }
        exact fun _ => rfl
      | none =>
        refine Steady.leave ⟨hsound.oneState, hsound.counted, ?_, ?_, fun _ => rfl⟩ rfl hothers rfl
        · change (w.pending ++ [task]).length + w.timers.length ≤ 1
          rw [halone.pending, halone.timers]
          exact Nat.le_refl 1
        · exact fun _ => ⟨hflight, halone.resolved⟩
  | reporting workerId attemptToken status =>
    obtain ⟨hflight, hfree⟩ := hturn
    obtain ⟨r, hr⟩ := Option.ne_none_iff_exists'.1 hflight
    obtain ⟨halone, hqueued⟩ := hsound.alone hflight
    simp only [resume, Call.commit, hr, Option.all_some, decide_eq_true_eq]
    split
    · rename_i hholder
      have hfree := hfree r hr hholder.1 hholder.2
      refine Steady.proceed (Sound.of_alone halone.pending halone.timers hsound.oneState
        hsound.counted) rfl (hfree.others place) fun _ => ⟨{ halone with }, hqueued⟩
    · exact h.same rfl ⟨rfl, rfl, rfl⟩ rfl rfl
  | accepted status =>
    obtain ⟨⟨halone, hqueued⟩, hothers⟩ := hfrom rfl
    exact Steady.proceed { hsound with } rfl hothers fun _ => ⟨{ halone with }, hqueued⟩
  | resolving record tries =>
    obtain ⟨⟨halone, hqueued⟩, hothers⟩ := hfrom rfl
    refine Steady.leave (Sound.of_alone halone.pending halone.timers ?_ ?_) rfl hothers rfl
    · exact resolved_oneState halone hqueued hsound.counted record
    · exact iff_of_false (Nat.succ_ne_zero _) (Option.some_ne_none _)
  | expiring record source =>
    obtain ⟨⟨halone, hqueued⟩, hothers⟩ := hfrom rfl
    have hresolved : Sound { w with store := (Call.expiring record source).commit w.store } := by
      refine Sound.of_alone halone.pending halone.timers ?_ ?_
      · exact resolved_oneState halone hqueued hsound.counted _
      · exact iff_of_false (Nat.succ_ne_zero _) (Option.some_ne_none _)
    have hreleased := hresolved.congr (release_store _ source) (release_links _ source)
      (release_dispatched _ source)
    exact Steady.leave { hreleased with } (release_calls _ source) hothers rfl
  | disconnecting =>
    obtain ⟨-, hothers⟩ := hfrom rfl
    simp only [resume, Call.commit]
    split
    · rename_i record hrecord
      have hflight : w.store.inflight ≠ none := by
        rw [hrecord]
        exact Option.some_ne_none record
      exact Steady.proceed { hsound with } rfl hothers fun _ =>
        reassignOrExpireTask_ready record _ hsound hflight
    · exact Steady.leave { hsound with } rfl hothers rfl
  | requeueing record source =>
    obtain ⟨halone, hothers⟩ := hfrom rfl
    refine Steady.proceed (Sound.of_alone halone.pending halone.timers ?_ hsound.counted) rfl
      hothers fun _ => ⟨{ halone with }, rfl⟩
    exact ⟨⟨.inr rfl, .inr halone.resolved, .inl rfl⟩, hsound.oneState.2⟩
  | requeued task source =>
    obtain ⟨⟨halone, hflight⟩, hothers⟩ := hfrom rfl
    have hreleased := hsound.congr (release_store w source) (release_links w source)
      (release_dispatched w source)
    have hready : Call.Ready (release w source) (.requeued task source) :=
      Call.Ready.congr (release_store w source) (release_links w source).pending
        (release_links w source).timers _ ⟨halone, hflight⟩
    simp only [resume, Call.commit, scheduleTaskRedispatch]
    split
    · refine Steady.leave ⟨hreleased.oneState, hreleased.counted, ?_, fun _ => ?_, ?_⟩
        (release_calls w source) hothers rfl
      · change (release w source).pending.length + ((release w source).timers ++ [task]).length ≤ 1
        rw [hready.1.pending, hready.1.timers]
        exact Nat.le_refl 1
      · exact ⟨hready.2, hready.1.resolved⟩
      · exact fun h => (h hready.1.pending).elim
    · exact Steady.proceed { hreleased with } (release_calls w source) hothers fun _ =>
        dispatchTaskImpl_ready hready.1 hready.2
  | scanned deadline scanAt record =>
    by_cases hdead : w.store.deadLettered = true
    · simp only [resume, Call.commit, hdead, ↓reduceIte]
      exact h.same (release_store w _) (release_links w _) (release_dispatched w _) rfl
    · by_cases hdue : scanAt < record.deadline
      · simp only [resume, Call.commit, hdead, hdue, ↓reduceIte]
        exact h.same rfl ⟨rfl, rfl, rfl⟩ rfl rfl
      · simp only [resume, Call.commit, hdead, hdue, ↓reduceIte]
        obtain ⟨hfree, hflight⟩ := hturn (Bool.eq_false_iff.2 hdead) (Nat.not_lt.1 hdue)
        exact Steady.proceed { hsound with } rfl (hfree.others place) fun _ =>
          reassignOrExpireTask_ready record _ { hsound with } hflight
  | listed scanAt record =>
    by_cases hskip : w.store.deadLettered = true ∨ w.processing = true
    · simp only [resume, Call.commit, hskip, ↓reduceIte]
      exact h.same rfl ⟨rfl, rfl, rfl⟩ rfl rfl
    · by_cases hdue : scanAt < record.deadline
      · simp only [resume, Call.commit, hskip, hdue, ↓reduceIte]
        exact h.same rfl ⟨rfl, rfl, rfl⟩ rfl rfl
      · simp only [resume, Call.commit, hskip, hdue, ↓reduceIte]
        rw [not_or] at hskip
        obtain ⟨hfree, hflight⟩ := hturn (Bool.eq_false_iff.2 hskip.1) (Bool.eq_false_iff.2 hskip.2)
          (Nat.not_lt.1 hdue)
        exact Steady.proceed { hsound with } rfl (hfree.others place) fun _ =>
          reassignOrExpireTask_ready record _ { hsound with } hflight
  | clearing =>
    refine h.still ⟨⟨⟨.inr rfl, hsound.oneState.1.queued_resolved, .inl rfl⟩, hsound.oneState.2⟩,
      hsound.counted, hsound.once, ?_, hsound.dispatched⟩ rfl rfl fun c hc => ?_
    · exact fun hwaiting => ⟨rfl, (hsound.waiting hwaiting).2⟩
    · refine hc.mono (fun halone => ?_) (fun _ => rfl) ?_
      · exact { halone with }
      · exact id
  | beaten record workerId deadline tries =>
    obtain ⟨halone, hqueued⟩ := hsound.alone hturn
    refine h.still (Sound.of_alone halone.pending halone.timers ?_ hsound.counted) rfl rfl
      fun c hc => ?_
    · exact ⟨⟨.inl hqueued, .inl hqueued, .inr halone.resolved⟩, hsound.oneState.2⟩
    · refine hc.mono (fun halone => ?_) (fun hnone => (hturn hnone).elim) ?_
      · exact { halone with }
      · exact id
  | burying tries =>
    refine h.still ⟨⟨{ hsound.oneState.1 with }, hsound.oneState.2⟩, hsound.counted, hsound.once,
      hsound.waiting, hsound.dispatched⟩ rfl rfl fun c hc => ?_
    refine hc.mono (fun halone => ?_) ?_ ?_
    · exact { halone with }
    · exact id
    · exact id
  | drained deadline scanAt =>
    simp only [resume, Call.commit]
    split <;> exact h.same rfl ⟨rfl, rfl, rfl⟩ rfl rfl
  | scanning deadline scanAt =>
    simp only [resume, Call.commit]
    split <;> exact h.same rfl ⟨rfl, rfl, rfl⟩ rfl rfl
  | beating workerId deadline tries =>
    simp only [resume, Call.commit]
    split <;> exact h.same rfl ⟨rfl, rfl, rfl⟩ rfl rfl
  | done => exact h.same rfl ⟨rfl, rfl, rfl⟩ rfl rfl

end proceed

section step

variable {v w : World} {event : Event}

/-- A handler begins, with the task as it is. -/
theorem Steady.beginSame {next : Call} (h : Steady w) (hstore : v.store = w.store)
    (hlinks : SameLinks v w) (hdispatched : v.dispatched = w.dispatched)
    (hnext : next.moves = true → Free w ∧ next.Ready w) : Steady (Tasks.begin v next) := by
  have hready : ∀ c : Call, c.Ready w → c.Ready (Tasks.begin v next) :=
    Call.Ready.congr (v := Tasks.begin v next) hstore hlinks.pending hlinks.timers
  refine h.begin { h.sound.congr hstore hlinks hdispatched with }
    (congrArg (· ++ [next]) hlinks.calls) hready fun hmoves => ?_
  exact ⟨(hnext hmoves).1, hready next (hnext hmoves).2⟩

/-- A handler begins that has not taken the task. -/
theorem Steady.beginIdle {next : Call} (h : Steady w) (hstore : v.store = w.store)
    (hlinks : SameLinks v w) (hdispatched : v.dispatched = w.dispatched)
    (hmoves : next.moves = false) : Steady (Tasks.begin v next) := by
  refine h.beginSame hstore hlinks hdispatched fun htrue => ?_
  rw [hmoves] at htrue
  cases htrue

/-- Nothing but the memory changes, and no task waits that did not. -/
theorem Steady.memory (h : Steady w) (hsound : Sound v) (hcalls : v.calls = w.calls)
    (hready : ∀ c : Call, c.Ready w → c.Ready v) : Steady v := by
  refine h.of_movers hsound 0 hready fun place c hc _ => .inl ?_
  rwa [hcalls] at hc

theorem validateTaskEnvelope_iff :
    validateTaskEnvelope w = true ↔ w.registry = none ∧ w.dispatched = false := by
  simp [validateTaskEnvelope]

theorem dispatchTaskImpl_moves {task : TaskDispatch} {worker : Option Nat}
    (hmoves : (dispatchTaskImpl w task worker).moves = true) :
    w.registry = none ∧ w.dispatched = false := by
  rw [← validateTaskEnvelope_iff]
  by_contra hvalid
  unfold dispatchTaskImpl at hmoves
  rw [if_neg hvalid] at hmoves
  cases hmoves

/-- A pending task is taken from the task queue. -/
theorem Sound.unqueue (h : Sound w) {place : Nat} (hplace : place < w.pending.length) :
    w.pending.eraseIdx place = [] ∧ w.timers = [] := by
  have honce := h.once
  rw [← List.length_eq_zero_iff, ← List.length_eq_zero_iff, List.length_eraseIdx_of_lt hplace]
  omega

/-- And is dropped. -/
theorem Steady.unqueue (h : Steady w) {place : Nat} (hplace : place < w.pending.length) :
    Steady { w with
      pending := w.pending.eraseIdx place
      dispatched := false
      expirationTimer := false } := by
  obtain ⟨hpending, htimers⟩ := h.sound.unqueue hplace
  refine h.memory (Sound.of_alone hpending htimers h.sound.oneState h.sound.counted) rfl
    (Call.Ready.of_alone ?_ ?_)
  · rfl
  · exact fun halone => ⟨hpending, htimers, halone.resolved⟩

/-- A step in turn. -/
theorem steady_step {w' : World} (h : Steady w) (hturn : InTurn w event)
    (hstep : taskMachine.step w event = some w') : Steady w' := by
  have hsound := h.sound
  cases event with
  | proceed place ok worker poller =>
    obtain ⟨call, hcall, -, ⟨rfl, rfl⟩ | ⟨-, rfl⟩⟩ := step_proceed hstep
    · exact steady_answered h hcall (hturn call hcall) worker poller
    · exact steady_failed h hcall
  | tick delay =>
    cases hstep
    exact h.memory { hsound with } rfl (Call.Ready.congr rfl rfl rfl)
  | clearDeadLetter =>
    cases hstep
    refine h.memory ⟨⟨{ hsound.oneState.1 with }, hsound.oneState.2⟩, hsound.counted, hsound.once,
      hsound.waiting, hsound.dispatched⟩ rfl fun c hc => hc.mono (fun halone => ?_) ?_ ?_
    · exact { halone with }
    · exact id
    · exact id
  | dispatch task worker =>
    cases hstep
    refine h.beginSame rfl ⟨rfl, rfl, rfl⟩ rfl fun hmoves => ?_
    obtain ⟨hregistry, hdispatched⟩ := dispatchTaskImpl_moves hmoves
    obtain ⟨hfree, hflight, hresolved, htimers⟩ := hturn hregistry hdispatched
    have hpending : w.pending = [] := by
      by_contra hpending
      rw [hsound.dispatched hpending] at hdispatched
      cases hdispatched
    exact ⟨hfree, dispatchTaskImpl_ready ⟨hpending, htimers, hresolved⟩ hflight⟩
  | fire place worker =>
    obtain ⟨task, htask, rfl⟩ := Option.map_eq_some_iff.1 hstep
    have hplace : place < w.timers.length := (List.getElem?_eq_some_iff.1 htask).1
    have honce := hsound.once
    obtain ⟨hflight, hresolved⟩ := hsound.waiting (by omega)
    have hpending : w.pending = [] := List.length_eq_zero_iff.1 (by omega)
    have htimers : w.timers.eraseIdx place = [] := by
      rw [← List.length_eq_zero_iff, List.length_eraseIdx_of_lt hplace]
      omega
    refine h.begin (Sound.of_alone hpending htimers hsound.oneState hsound.counted) rfl
      (Call.Ready.of_alone ?_ ?_) fun hmoves => ?_
    · rfl
    · exact fun _ => ⟨hpending, htimers, hresolved⟩
    · obtain ⟨hregistry, hdispatched⟩ := dispatchTaskImpl_moves hmoves
      exact ⟨hturn hregistry hdispatched,
        dispatchTaskImpl_ready ⟨hpending, htimers, hresolved⟩ hflight⟩
  | poll place workerId =>
    obtain ⟨task, htask, rfl⟩ := Option.map_eq_some_iff.1 hstep
    have hplace : place < w.pending.length := (List.getElem?_eq_some_iff.1 htask).1
    obtain ⟨hflight, hresolved⟩ := hsound.waiting (by omega)
    obtain ⟨hpending, htimers⟩ := hsound.unqueue hplace
    refine h.begin (Sound.of_alone hpending htimers hsound.oneState hsound.counted) rfl
      (Call.Ready.of_alone ?_ ?_) fun _ => ⟨hturn, hpending, htimers, hresolved⟩
    · rfl
    · exact fun _ => ⟨hpending, htimers, hresolved⟩
  | expireTask place =>
    simp only [taskMachine] at hstep
    split at hstep
    · rename_i hplace
      cases hstep
      exact h.unqueue hplace.2
    · cases hstep
  | removeStale place =>
    simp only [taskMachine] at hstep
    split at hstep
    · rename_i hplace
      cases hstep
      exact h.unqueue hplace
    · cases hstep
  | report workerId attemptToken status =>
    cases hstep
    exact h.beginIdle rfl ⟨rfl, rfl, rfl⟩ rfl rfl
  | taskResult workerId attemptToken status =>
    simp only [taskMachine] at hstep
    split at hstep
    · rename_i hassigned
      cases hstep
      refine h.beginSame rfl ⟨rfl, rfl, rfl⟩ rfl fun _ => ?_
      obtain ⟨a, ha, hmatches⟩ := (Option.any_eq_true _ _).1 hassigned
      obtain ⟨hfree, hflight⟩ := hturn ⟨a, ha, of_decide_eq_true hmatches⟩
      exact ⟨hfree, hsound.alone hflight⟩
    · cases hstep
      exact h
  | disconnect workerId =>
    simp only [taskMachine] at hstep
    split at hstep
    · rename_i hassigned
      cases hstep
      obtain ⟨a, ha, hmatches⟩ := (Option.any_eq_true _ _).1 hassigned
      refine h.beginSame rfl ⟨rfl, rfl, rfl⟩ rfl fun _ => ⟨hturn ⟨a, ha, ?_⟩, trivial⟩
      exact of_decide_eq_true hmatches
    · cases hstep
      exact h
  | heartbeat workerId =>
    simp only [taskMachine] at hstep
    split at hstep
    · split at hstep
      · cases hstep
        exact h.beginIdle rfl ⟨rfl, rfl, rfl⟩ rfl rfl
      · cases hstep
        exact h
    · cases hstep
      exact h
  | scanExpiredTasks =>
    simp only [taskMachine] at hstep
    split at hstep
    · split at hstep
      · cases hstep
        exact h.beginIdle rfl ⟨rfl, rfl, rfl⟩ rfl rfl
      · cases hstep
        exact h
    · cases hstep
      exact h
  | reconcileOrphanedRecords =>
    simp only [taskMachine] at hstep
    split at hstep
    · split at hstep
      · cases hstep
        exact h
      · cases hstep
        exact h.beginIdle rfl ⟨rfl, rfl, rfl⟩ rfl rfl
    · cases hstep
      exact h

theorem steady_initial : Steady {} := by
  refine ⟨Sound.of_alone rfl rfl ⟨⟨.inl rfl, .inl rfl, .inl rfl⟩, Nat.zero_le 1⟩ ?_, ?_⟩
  · exact iff_of_true rfl rfl
  · intro place call hcall
    cases hcall

theorem resolved_commit {s : Store} (call : Call) (hresolved : s.resolved.isSome = true) :
    (call.commit s).resolved.isSome = true := by
  cases call with
  | resolving record tries => rfl
  | expiring record source => rfl
  | _ => exact hresolved

theorem step_resolved {w' : World} (hstep : taskMachine.step w event = some w')
    (hresolved : w.store.resolved.isSome = true) : w'.store.resolved.isSome = true := by
  obtain ⟨-, heq⟩ | ⟨rfl, heq⟩ | ⟨place, worker, poller, call, rfl, hcall, heq⟩ :=
    step_store hstep
  · rw [heq]
    exact hresolved
  · rw [heq]
    exact hresolved
  · rw [heq]
    exact resolved_commit call hresolved

/-- Where the step leads to one state, a resolved task stays what it is. -/
theorem staysResolved_of_oneState {w' : World} (hstep : taskMachine.step w event = some w')
    (hone : OneState w') : StaysResolved w event := by
  intro hresolved t ht
  rw [hstep] at ht
  cases ht
  have hstill := step_resolved hstep hresolved
  have hsome : w'.store.resolved ≠ none := Option.isSome_iff_ne_none.1 hstill
  exact ⟨hone.1.queued_resolved.resolve_right hsome, hone.1.inflight_resolved.resolve_right hsome⟩

end step

/-- In every run in which the task is moved by one handler at a time, it is in one state, is
resolved once at most and stays resolved. -/
theorem task_in_one_state {run : List Event} (hturn : taskMachine.EveryStep InTurn {} run) :
    taskMachine.EveryState OneState {} run ∧ taskMachine.EveryStep StaysResolved {} run := by
  constructor
  · apply Machine.EveryState.mono fun w (h : Steady w) => h.sound.oneState
    exact Machine.everyState_of_invariant (fun _ _ _ => steady_step) steady_initial hturn
  · refine Machine.everyStep_of_invariant (I := Steady) ?_ steady_initial hturn
    intro w event w' h hin hstep
    have hnext := steady_step h hin hstep
    exact ⟨hnext, staysResolved_of_oneState hstep hnext.sound.oneState⟩

/-- A worker is given the task, sends a heartbeat and disconnects. While its handler gives the task
back, a stranger's result is turned away. The task comes back after its delay, is polled and
completed. -/
def handedOn : List Event :=
  [.dispatch ⟨1, some 3, 10⟩ (some 4), .proceed 0 true none none, .proceed 0 true none none,
    .heartbeat 4, .proceed 1 true none none, .proceed 1 true none none, .disconnect 4,
    .report 9 5 .completed, .proceed 2 true none none, .proceed 3 true none none,
    .proceed 2 true none none, .proceed 2 true none none, .fire 0 none, .proceed 4 true none none,
    .proceed 4 true none none, .poll 0 7, .proceed 5 true none none, .report 7 1 .completed,
    .proceed 6 true none none, .proceed 6 true none none]

theorem handed_on_in_one_state : (taskMachine.EveryState OneState {} handedOn ∧
      taskMachine.EveryStep StaysResolved {} handedOn) ∧
    (taskMachine.final {} handedOn).store =
      { resolved := some ⟨.completed, .completed⟩, resolutions := 1 } :=
  ⟨task_in_one_state (by decide), rfl⟩

/-- A worker claims the task by a poll, lets its time pass, and reports after the scanner has queued
the task again: there is no record in flight, and the result is taken. -/
def reportedLate : List Event :=
  let task : TaskDispatch := ⟨1, some 3, 10⟩
  [.dispatch task none, .proceed 0 true none none, .proceed 0 true none (some 7),
    .proceed 0 true none none, .tick 10, .scanExpiredTasks, .proceed 1 true none none,
    .proceed 1 true none none, .proceed 1 true none none, .proceed 1 true none none,
    .proceed 1 true none none, .report 7 0 .completed, .proceed 2 true none none,
    .proceed 2 true none none]

/-- The task is queued and resolved, and its delayed dispatch gives the resolved task to a
worker. -/
theorem task_in_two_states : ¬ taskMachine.EveryState OneState {} reportedLate ∧
    (taskMachine.final {} (reportedLate ++ [Event.fire 0 (some 4), .proceed 3 true none none,
      .proceed 3 true none none])).store =
        { inflight := some ⟨4, 20, ⟨2, some 3, 10⟩, 1⟩
          resolved := some ⟨.completed, .completed⟩
          resolutions := 1 } := by
  constructor
  · intro hone
    obtain hqueued | hresolved := hone.final.1.queued_resolved
    · revert hqueued
      decide
    · revert hresolved
      decide
  · rfl

end Weft.Tasks
