import Weft.Schedules.Machine

/-! What the handlers do to the record and to the runs, given what they know. `Sound` follows a
task step by step; that it holds of every handler is the one place where their code is looked at. -/

namespace Weft.Schedules
open Weft.Lib

universe u

variable {ι : Type u}

/-- Only the queueing policy keeps a queue. -/
def Tidy (record : ScheduleState ι) : Prop :=
  record.overlap = .queue ∨ record.queuedRuns = []

/-- A run is started for a new occurrence. -/
structure Launches (kind : Kind ι) (k : Know ι) (workflowId : ι) (occurrence : Option Nat) :
    Prop where
  timer : kind.isTimer = true
  active : k.base.status = .active
  drawn : k.drawn = some workflowId
  occurrence : ∃ o, occurrence = some o ∧ k.lo ≤ o
  slot : k.base.overlap = .allow ∨ k.free = true ∧ k.held = none
  queue : k.base.overlap = .allow ∨ k.base.queuedRuns = []

/-- The first queued run is started. -/
structure Drains (kind : Kind ι) (k : Know ι) (workflowId : ι) (occurrence : Option Nat)
    (state : ScheduleState ι) : Prop where
  kind : kind.isTimer = true ∨ ∃ ended, kind = .terminal ended
  active : k.base.status = .active
  free : k.free = true
  held : k.held = none
  queue : ∃ run rest, k.base.queuedRuns = run :: rest ∧ workflowId = run.workflowId ∧
    occurrence = run.occurrence ∧
    state = { k.base with currentWorkflowId := some workflowId, queuedRuns := rest }

section

variable [DecidableEq ι]

/-- What the handler of a timer writes. -/
structure TimerWrites (k : Know ι) (state : ScheduleState ι) : Prop where
  active : k.base.status = .active
  status : state.status = .active ∨ state.status = .paused
  overlap : state.overlap = k.base.overlap
  queue : state.queuedRuns = k.base.queuedRuns ∨ k.base.overlap = .queue ∧
    ∃ run o, state.queuedRuns = k.base.queuedRuns ++ [run] ∧ k.drawn = some run.workflowId ∧
      run.occurrence = some o ∧ k.lo ≤ o
  current : (∀ workflowId ∈ k.held, state.currentWorkflowId = some workflowId) ∧
    (k.held = none → state.currentWorkflowId = k.base.currentWorkflowId ∨
      k.free = true ∧ state.currentWorkflowId = none)
  nextFireAt : state.nextFireAt = k.base.nextFireAt ∨ state.status = .paused ∨
    ∃ n, state.nextFireAt = some n ∧ (k.write state).lo ≤ n

/-- What an operation of this kind writes. -/
def Writes (kind : Kind ι) (k : Know ι) (state : ScheduleState ι) : Prop :=
  match kind with
  | .timer _ => TimerWrites k state
  | .terminal workflowId => k.base.currentWorkflowId = some workflowId ∧
      state = clearScheduleCurrentWorkflow k.base
  | .pause => k.base.status = .active ∧ ∃ n, state = { k.base with
      status := .paused, nextFireAt := n, queuedRuns := [] }
  | .resume => k.base.status = .paused ∧ ∃ n, state = { k.base with
      status := .active, nextFireAt := n }
  | .cancel => state = { k.base with status := .cancelled, nextFireAt := none, queuedRuns := [] }

/-- Whatever the task still does is in order. -/
def Sound (kind : Kind ι) : Option (Know ι) → Task ι → Prop
  | k, .done => ∀ know ∈ k, know.failed = true ∨ know.begun = false ∧ know.held = none
  | k, .load next failed => k = none ∧
    (∀ record, Tidy record → Sound kind (some (Know.load kind record)) (next record)) ∧
      Sound kind k failed
  | k, .getNow next => ∀ now, Sound kind k (next now)
  | k, .randomUUID next => ∀ workflowId,
    Sound kind (k.map fun k => k.draw workflowId) (next workflowId)
  | k, .loadWorkflowState workflowId next failed => Sound kind k (next true) ∧
    Sound kind (k.map fun k => k.ended workflowId) (next false) ∧ Sound kind k failed
  | k, .getScheduleRun _ next failed => (∀ present, Sound kind k (next present)) ∧
    Sound kind k failed
  | k, .deleteScheduleRun _ next failed => Sound kind k next ∧ Sound kind k failed
  | k, .cancelTimer next failed => Sound kind k next ∧ Sound kind k failed
  | k, .cancelWorkflow workflowId next failed =>
    Sound kind (k.map fun k => k.ended workflowId) next ∧ Sound kind k failed
  | some k, .startWorkflow workflowId occurrence none _ next failed =>
    Launches kind k workflowId occurrence ∧
      Sound kind (some (k.launch workflowId occurrence)) next ∧ Sound kind (some k) failed
  | some k, .startWorkflow workflowId occurrence (some state) _ next failed =>
    Drains kind k workflowId occurrence state ∧ Sound kind (some (k.drain state)) next ∧
      Sound kind (some k) failed
  | none, .startWorkflow _ _ _ _ _ _ => False
  | some k, .writeScheduleState state _ next failed => Writes kind k state ∧
    Sound kind (some (k.write state)) next ∧ failed.isDone = true ∧ Sound kind (some k.fail) failed
  | none, .writeScheduleState _ _ _ _ => False

end

/-! ## Control calls and runs that end -/

variable {k : Know ι}

section

variable [DecidableEq ι]

theorem sound_done {kind : Kind ι} (hbegun : k.begun = false) (hheld : k.held = none) :
    Sound kind (some k) .done := by
  intro know hknow
  cases hknow
  exact .inr ⟨hbegun, hheld⟩

theorem sound_done_fail {kind : Kind ι} : Sound kind (some k.fail) .done := by
  intro know hknow
  cases hknow
  exact .inl rfl

theorem sound_done_none {kind : Kind ι} : Sound kind none .done := by
  intro know hknow
  cases hknow

theorem sound_pauseSchedule (spec : ScheduleSpec) :
    Sound (ι := ι) .pause none (pauseSchedule spec) := by
  refine ⟨rfl, fun record _ => ?_, sound_done_none⟩
  beta_reduce
  split_ifs with hactive
  · refine ⟨fun now => ⟨⟨hactive, _, rfl⟩, ?_, rfl, sound_done_fail⟩, sound_done rfl rfl⟩
    exact sound_done (by simp [Know.write, Know.load, newlyQueued]) rfl
  · exact sound_done rfl rfl

theorem sound_resumeSchedule (spec : ScheduleSpec) :
    Sound (ι := ι) .resume none (resumeSchedule spec) := by
  refine ⟨rfl, fun record _ => ?_, sound_done_none⟩
  beta_reduce
  split_ifs with hpaused
  · refine fun now => ⟨⟨hpaused, _, rfl⟩, ?_, rfl, sound_done_fail⟩
    exact sound_done (by simp [Know.write, Know.load, newlyQueued]) rfl
  · exact sound_done rfl rfl

theorem sound_cancelSchedule : Sound (ι := ι) .cancel none cancelSchedule := by
  refine ⟨rfl, fun record _ => ?_, sound_done_none⟩
  have hwrite : Sound .cancel (some (Know.load .cancel record)) (.writeScheduleState { record with
      status := .cancelled, nextFireAt := none, queuedRuns := [] } none .done .done) :=
    ⟨rfl, sound_done (by simp [Know.write, Know.load, newlyQueued]) rfl, rfl, sound_done_fail⟩
  show Sound .cancel _ (if record.status = .active then .cancelTimer _ .done else _)
  split_ifs with hactive
  · exact ⟨hwrite, sound_done rfl rfl⟩
  · exact hwrite

theorem sound_handleScheduledWorkflowTerminal (workflowId : ι) :
    Sound (.terminal workflowId) none (handleScheduledWorkflowTerminal workflowId) := by
  refine ⟨fun present => ?_, sound_done_none⟩
  beta_reduce
  split_ifs
  · refine ⟨rfl, fun record _ => ?_, sound_done_none⟩
    beta_reduce
    split_ifs with hcurrent
    · have hfree : (Know.load (.terminal workflowId) record).free = true := by
        simp [Know.load, hcurrent]
      dsimp only
      split_ifs with hdrain
      · obtain ⟨hactive, hqueue⟩ := hdrain
        unfold drainQueuedScheduleRun
        split
        · rename_i hnil
          exact (hqueue hnil).elim
        · rename_i run rest hcons
          refine ⟨⟨.inr ⟨workflowId, rfl⟩, hactive, hfree, rfl, run, rest, hcons, rfl, rfl, rfl⟩,
            sound_done rfl rfl, sound_done rfl rfl⟩
      · exact ⟨⟨hcurrent, rfl⟩, sound_done (by simp [Know.write, Know.load, newlyQueued,
          clearScheduleCurrentWorkflow]) rfl, rfl, sound_done_fail⟩
    · exact ⟨sound_done rfl rfl, sound_done rfl rfl⟩
  · exact sound_done_none

end

/-! ## The timer -/

section

variable [DecidableEq ι]

/-- The state that a handler carries is the record as it knows it, but that the current run may be
cleared. -/
structure Mirrors (k : Know ι) (state : ScheduleState ι) : Prop where
  same : state = { k.base with currentWorkflowId := state.currentWorkflowId }
  current : state.currentWorkflowId = k.base.currentWorkflowId ∨
    k.free = true ∧ state.currentWorkflowId = none
  idle : k.base.currentWorkflowId = none → k.free = true
  held : k.held = none

/-- No more was learnt than that runs have ended. -/
structure Near (k k' : Know ι) : Prop where
  same : k' = { k with free := k'.free, drawn := k'.drawn }
  free : k.free = true → k'.free = true

end

theorem Near.refl (k : Know ι) : Near k k := ⟨rfl, id⟩

section

variable [DecidableEq ι]

theorem Near.ended (k : Know ι) (workflowId : ι) : Near k (k.ended workflowId) :=
  ⟨rfl, fun h => by simp [Know.ended, h]⟩

end

variable {k k' : Know ι}

theorem Near.draw (h : Near k k') (workflowId : ι) : Near k (k'.draw workflowId) := by
  refine ⟨?_, h.free⟩
  conv_lhs => rw [h.same]
  rfl

theorem Near.trans {k k' k'' : Know ι} (h : Near k k') (h' : Near k' k'') : Near k k'' := by
  refine ⟨?_, fun hfree => h'.free (h.free hfree)⟩
  conv_lhs => rw [h'.same, h.same]

theorem Near.base (h : Near k k') : k'.base = k.base := by rw [h.same]

theorem Near.lo (h : Near k k') : k'.lo = k.lo := by rw [h.same]

theorem Near.held (h : Near k k') : k'.held = k.held := by rw [h.same]

theorem Mirrors.near {state : ScheduleState ι} (h : Mirrors k state) (hnear : Near k k') :
    Mirrors k' state := by
  refine ⟨hnear.base ▸ h.same, ?_, fun hnone => hnear.free (h.idle (hnear.base ▸ hnone)),
    hnear.held.trans h.held⟩
  rw [hnear.base]
  exact h.current.imp_right fun hfree => ⟨hnear.free hfree.1, hfree.2⟩

theorem Mirrors.clear {state : ScheduleState ι} (h : Mirrors k state) (hfree : k.free = true) :
    Mirrors k (clearScheduleCurrentWorkflow state) := by
  refine ⟨?_, .inr ⟨hfree, rfl⟩, h.idle, h.held⟩
  conv_lhs => rw [clearScheduleCurrentWorkflow, h.same]
  rfl

theorem Mirrors.queuedRuns {state : ScheduleState ι} (h : Mirrors k state) :
    state.queuedRuns = k.base.queuedRuns := by rw [h.same]

theorem Mirrors.overlap {state : ScheduleState ι} (h : Mirrors k state) :
    state.overlap = k.base.overlap := by rw [h.same]

section

variable {fireAt : Nat} {k : Know ι} {state : ScheduleState ι} {failed : Task ι}

section

variable [DecidableEq ι]

theorem sound_pauseScheduleAfterTimerFailure (spec : ScheduleSpec) (hmirrors : Mirrors k state)
    (hactive : k.base.status = .active) :
    Sound (.timer fireAt) (some k) (pauseScheduleAfterTimerFailure spec state) := by
  intro now
  refine ⟨⟨hactive, .inr rfl, hmirrors.overlap, .inl hmirrors.queuedRuns, ?_, .inr (.inl rfl)⟩,
    sound_done ?_ rfl, rfl, sound_done_fail⟩
  · refine ⟨fun workflowId hheld => ?_, fun _ => hmirrors.current⟩
    rw [hmirrors.held] at hheld
    cases hheld
  · simp [Know.write, hactive]

theorem sound_refreshScheduledWorkflowState {next : ScheduleState ι → Bool → Task ι}
    (hmirrors : Mirrors k state)
    (hfailed : ∀ k', Near k k' → Sound (.timer fireAt) (some k') failed)
    (hlive : Sound (.timer fireAt) (some k) (next state true))
    (hfree : ∀ k' state', Near k k' → k'.free = true → Mirrors k' state' →
      Sound (.timer fireAt) (some k') (next state' false)) :
    Sound (.timer fireAt) (some k) (refreshScheduledWorkflowState failed state next) := by
  unfold refreshScheduledWorkflowState
  split
  · rename_i hnone
    have hk : k.free = true := by
      obtain hcurrent | ⟨hfree', -⟩ := hmirrors.current
      · exact hmirrors.idle (hcurrent.symm.trans hnone)
      · exact hfree'
    exact hfree k state (.refl k) hk hmirrors
  · rename_i workflowId hsome
    have hbase : k.base.currentWorkflowId = some workflowId := by
      obtain hcurrent | ⟨-, hnone⟩ := hmirrors.current
      · exact hcurrent.symm.trans hsome
      · rw [hnone] at hsome
        cases hsome
    have hended : (k.ended workflowId).free = true := by simp [Know.ended, hbase]
    have hnear := Near.ended k workflowId
    exact ⟨hlive, ⟨hfree _ _ hnear hended ((hmirrors.near hnear).clear hended),
      hfailed _ hnear⟩, hfailed k (.refl k)⟩

theorem sound_settleBackfillScheduleState {next : ScheduleState ι → Task ι}
    (hmirrors : Mirrors k state)
    (hfailed : ∀ k', Near k k' → Sound (.timer fireAt) (some k') failed)
    (hnext : ∀ k' state', Near k k' → Mirrors k' state' →
      Sound (.timer fireAt) (some k') (next state')) :
    Sound (.timer fireAt) (some k) (settleBackfillScheduleState failed next state) :=
  sound_refreshScheduledWorkflowState hmirrors hfailed (hnext k state (.refl k) hmirrors)
    fun k' state' hnear _ hmirrors' => hnext k' state' hnear hmirrors'

/-- What the handler knows and carries once an occurrence was applied, before it writes. -/
structure Applied (k : Know ι) (applied : ScheduleState ι) (o : Nat) : Prop where
  active : k.base.status = .active
  status : applied.status = .active
  overlap : applied.overlap = k.base.overlap
  tidy : Tidy k.base
  queue : applied.queuedRuns = k.base.queuedRuns ∨ k.base.overlap = .queue ∧
    ∃ run, applied.queuedRuns = k.base.queuedRuns ++ [run] ∧ k.drawn = some run.workflowId ∧
      run.occurrence = some o ∧ k.lo ≤ o
  current : (∀ workflowId ∈ k.held, applied.currentWorkflowId = some workflowId) ∧
    (k.held = none → applied.currentWorkflowId = k.base.currentWorkflowId ∨
      k.free = true ∧ applied.currentWorkflowId = none)
  nextFireAt : applied.nextFireAt = k.base.nextFireAt
  due : ∃ n, k.base.nextFireAt = some n ∧ n ≤ k.lo ∧ n ≤ o
  lo : k.lo ≤ o + 1

/-- What holds when the handler comes to an occurrence. -/
structure Awaits (k : Know ι) (state : ScheduleState ι) : Prop where
  mirrors : Mirrors k state
  active : k.base.status = .active
  tidy : Tidy k.base
  due : ∃ n, k.base.nextFireAt = some n ∧ n ≤ k.lo

end

theorem Awaits.near {k' : Know ι} (h : Awaits k state) (hnear : Near k k') : Awaits k' state := by
  refine ⟨h.mirrors.near hnear, ?_, ?_, ?_⟩
  · rw [hnear.base]
    exact h.active
  · rw [hnear.base]
    exact h.tidy
  · rw [hnear.base, hnear.lo]
    exact h.due

theorem Awaits.clear (h : Awaits k state) (hfree : k.free = true) :
    Awaits k (clearScheduleCurrentWorkflow state) :=
  ⟨h.mirrors.clear hfree, h.active, h.tidy, h.due⟩

theorem Awaits.applied (h : Awaits k state) {o : Nat} (hlo : k.lo ≤ o) : Applied k state o where
  active := h.active
  status := by
    rw [h.mirrors.same]
    exact h.active
  overlap := h.mirrors.overlap
  tidy := h.tidy
  queue := .inl h.mirrors.queuedRuns
  current := by
    refine ⟨fun workflowId hheld => ?_, fun _ => h.mirrors.current⟩
    rw [h.mirrors.held] at hheld
    cases hheld
  nextFireAt := by rw [h.mirrors.same]
  due := by
    obtain ⟨n, hn, hle⟩ := h.due
    exact ⟨n, hn, hle, hle.trans hlo⟩
  lo := by omega

section

variable {next : ScheduleState ι → Task ι} {o : Nat}

section

variable [DecidableEq ι]

theorem sound_startScheduleRunInOccupiedSlot (h : Awaits k state) (hfree : k.free = true)
    (hallow : k.base.overlap ≠ .allow) (hempty : k.base.queuedRuns = []) (hlo : k.lo ≤ o)
    (hfailed : ∀ k', Near k k' → Sound (.timer fireAt) (some k') failed)
    (hnext : ∀ k' applied, Applied k' applied o → Sound (.timer fireAt) (some k') (next applied)) :
    Sound (.timer fireAt) (some k) (startScheduleRunInOccupiedSlot failed next state o) := by
  intro workflowId
  refine ⟨⟨rfl, h.active, rfl, ⟨o, rfl, hlo⟩, .inr ⟨hfree, h.mirrors.held⟩, .inr hempty⟩,
    hnext _ _ ?_, hfailed _ ((Near.refl k).draw workflowId)⟩
  have happlied := h.applied hlo
  refine ⟨h.active, happlied.status, happlied.overlap, h.tidy, .inl h.mirrors.queuedRuns, ?_,
    happlied.nextFireAt, ?_, le_rfl⟩
  · have hheld : ((k.draw workflowId).launch workflowId (some o)).held = some workflowId := by
      simp [Know.launch, Know.draw, hallow]
    refine ⟨fun id hid => ?_, fun hnone => ?_⟩
    · rw [hheld] at hid
      exact hid
    · rw [hheld] at hnone
      cases hnone
  · obtain ⟨n, hn, hle⟩ := h.due
    exact ⟨n, hn, by show n ≤ o + 1; omega, hle.trans hlo⟩

theorem sound_startOrBlockOccurrence (h : Awaits k state) {hasActiveWorkflow : Bool}
    (hslot : hasActiveWorkflow = false → k.free = true)
    (hempty : hasActiveWorkflow = false → k.base.queuedRuns = []) (hlo : k.lo ≤ o)
    (hfailed : k.base.overlap ≠ .queue ∨ hasActiveWorkflow = false →
      ∀ k', Near k k' → Sound (.timer fireAt) (some k') failed)
    (hnext : ∀ k' applied, Applied k' applied o → Sound (.timer fireAt) (some k') (next applied)) :
    Sound (.timer fireAt) (some k)
      (startOrBlockOccurrence failed next state hasActiveWorkflow o) := by
  unfold startOrBlockOccurrence
  split_ifs with hallow
  · have hallow' : k.base.overlap = .allow := h.mirrors.overlap ▸ hallow
    intro workflowId
    refine ⟨⟨rfl, h.active, rfl, ⟨o, rfl, hlo⟩, .inl hallow', .inl hallow'⟩, hnext _ _ ?_,
      hfailed (.inl (by rw [hallow']; decide)) _ ((Near.refl k).draw workflowId)⟩
    have happlied := h.applied hlo
    refine ⟨h.active, happlied.status, happlied.overlap, h.tidy, .inl h.mirrors.queuedRuns, ?_,
      happlied.nextFireAt, ?_, le_rfl⟩
    · have hheld : ((k.draw workflowId).launch workflowId (some o)).held = none := by
        simp [Know.launch, Know.draw, hallow', h.mirrors.held]
      rw [hheld]
      exact ⟨fun id hid => (by cases hid), fun _ => h.mirrors.current⟩
    · obtain ⟨n, hn, hle⟩ := h.due
      exact ⟨n, hn, by show n ≤ o + 1; omega, hle.trans hlo⟩
  · have hallow' : k.base.overlap ≠ .allow := h.mirrors.overlap ▸ hallow
    unfold applyBlockedScheduleOccurrence
    split_ifs with hactive
    · split
      · rename_i hcancel
        have hqueue : k.base.overlap ≠ .queue := by
          rw [← h.mirrors.overlap, hcancel]
          decide
        have hnil : k.base.queuedRuns = [] := h.tidy.resolve_left hqueue
        dsimp only
        split
        · rename_i hnone
          have hfree : k.free = true := by
            obtain hcurrent | ⟨hfree, -⟩ := h.mirrors.current
            · exact h.mirrors.idle (hcurrent.symm.trans hnone)
            · exact hfree
          exact sound_startScheduleRunInOccupiedSlot (h.clear hfree) hfree hallow' hnil hlo
            (hfailed (.inl hqueue)) hnext
        · rename_i workflowId hsome
          have hbase : k.base.currentWorkflowId = some workflowId := by
            obtain hcurrent | ⟨-, hnone⟩ := h.mirrors.current
            · exact hcurrent.symm.trans hsome
            · rw [hnone] at hsome
              cases hsome
          have hended : (k.ended workflowId).free = true := by simp [Know.ended, hbase]
          have hnear := Near.ended k workflowId
          refine ⟨sound_startScheduleRunInOccupiedSlot ((h.near hnear).clear hended) hended hallow'
            hnil hlo (fun k' hk' => hfailed (.inl hqueue) k' (hnear.trans hk')) hnext,
            hfailed (.inl hqueue) k (.refl k)⟩
      · rename_i hqueue
        have hqueue' : k.base.overlap = .queue := h.mirrors.overlap ▸ hqueue
        intro workflowId now
        have happlied := (h.near ((Near.refl k).draw workflowId)).applied (o := o) hlo
        refine hnext _ _ { happlied with queue := .inr ⟨hqueue', ⟨workflowId, now, some o⟩, ?_, rfl,
          rfl, hlo⟩ }
        show state.queuedRuns ++ _ = _
        rw [h.mirrors.queuedRuns]
        rfl
      · exact hnext _ _ (h.applied hlo)
    · have hidle : hasActiveWorkflow = false := by simpa using hactive
      exact sound_startScheduleRunInOccupiedSlot h (hslot hidle) hallow' (hempty hidle) hlo
        (hfailed (.inr hidle)) hnext

theorem sound_applyScheduleOccurrence (h : Awaits k state) (hlo : k.lo ≤ o)
    (hfailed : ∀ k', Near k k' → Sound (.timer fireAt) (some k') failed)
    (hnext : ∀ k' applied, Applied k' applied o → Sound (.timer fireAt) (some k') (next applied)) :
    Sound (.timer fireAt) (some k) (applyScheduleOccurrence failed next state o) := by
  refine sound_refreshScheduledWorkflowState h.mirrors hfailed ?_ ?_
  · rw [if_neg (by simp)]
    exact sound_startOrBlockOccurrence h (by simp) (by simp) hlo (fun _ => hfailed) hnext
  · intro k' state' hnear hfree hmirrors
    have hawaits : Awaits k' state' := ⟨hmirrors, (h.near hnear).active, (h.near hnear).tidy,
      (h.near hnear).due⟩
    have hlo' : k'.lo ≤ o := hnear.lo ▸ hlo
    have hfailed' : ∀ k'', Near k' k'' → Sound (.timer fireAt) (some k'') failed :=
      fun k'' hk'' => hfailed k'' (hnear.trans hk'')
    split_ifs with hqueue
    · obtain ⟨-, hqueue⟩ := hqueue
      unfold drainQueuedScheduleRun
      split
      · rename_i hnil
        exact (hqueue hnil).elim
      · rename_i run rest hcons
        have hbase : k'.base.queuedRuns = run :: rest := hmirrors.queuedRuns ▸ hcons
        have hpolicy : k'.base.overlap = .queue := by
          refine hawaits.tidy.resolve_right fun hnil => ?_
          rw [hbase] at hnil
          cases hnil
        have hstate : ({ state' with
            currentWorkflowId := some run.workflowId, queuedRuns := rest } : ScheduleState ι) =
            { k'.base with currentWorkflowId := some run.workflowId, queuedRuns := rest } := by
          conv_lhs => rw [hmirrors.same]
        dsimp only
        rw [hstate]
        refine ⟨⟨.inl rfl, hawaits.active, hfree, hmirrors.held, run, rest, hbase, rfl, rfl, rfl⟩,
          ?_, hfailed k' hnear⟩
        refine sound_startOrBlockOccurrence ?_ ?_ ?_ hlo' ?_ hnext
        · exact ⟨⟨rfl, .inl rfl, fun hnone => (by cases hnone), hmirrors.held⟩, hawaits.active,
            .inl hpolicy, hawaits.due⟩
        · intro hactive
          cases hactive
        · intro hactive
          cases hactive
        · rintro (hne | hne)
          · exact (hne hpolicy).elim
          · cases hne
    · have hempty : k'.base.queuedRuns = [] := by
        rw [← hmirrors.queuedRuns]
        by_contra hne
        exact hqueue ⟨rfl, hne⟩
      exact sound_startOrBlockOccurrence hawaits (fun _ => hfree) (fun _ => hempty) hlo'
        (fun _ => hfailed') hnext

end

end

theorem lo_write_le {o : Nat} {applied written : ScheduleState ι} (h : Applied k applied o)
    (hqueue : written.queuedRuns = applied.queuedRuns) :
    k.lo ≤ (k.write written).lo ∧ (k.write written).lo ≤ o + 1 := by
  have hlo := h.lo
  simp only [Know.write, newlyQueued, hqueue]
  obtain heq | ⟨-, run, heq, -, hocc, hle⟩ := h.queue
  · rw [heq, List.drop_length]
    exact ⟨le_rfl, hlo⟩
  · rw [heq, List.drop_left]
    simp only [List.filterMap_cons, hocc, List.filterMap_nil, List.foldl_cons, List.foldl_nil]
    omega

/-- What the handler writes after an occurrence, and what it knows then. -/
theorem Applied.write (fireAt : Nat) {o : Nat} {applied written : ScheduleState ι}
    (h : Applied k applied o) (hwritten : written = { applied with
      lastFireAt := written.lastFireAt, nextFireAt := written.nextFireAt })
    (hnext : written.nextFireAt = applied.nextFireAt ∨
      ∃ n, written.nextFireAt = some n ∧ o + 1 ≤ n) :
    Writes (.timer fireAt) k written ∧ Mirrors (k.write written) written ∧
      written.status = .active ∧ Tidy written ∧ k.lo ≤ (k.write written).lo ∧
      (k.write written).lo ≤ o + 1 := by
  have hstatus : written.status = .active := by
    rw [hwritten]
    exact h.status
  have hoverlap : written.overlap = k.base.overlap := by
    rw [hwritten]
    exact h.overlap
  have hqueue : written.queuedRuns = applied.queuedRuns := by rw [hwritten]
  have hcurrent : written.currentWorkflowId = applied.currentWorkflowId := by rw [hwritten]
  obtain ⟨hlow, hhigh⟩ := lo_write_le h hqueue
  refine ⟨⟨h.active, .inl hstatus, hoverlap, ?_, ?_, ?_⟩, ⟨rfl, .inl rfl, ?_, rfl⟩, hstatus, ?_,
    hlow, hhigh⟩
  · rw [hqueue]
    obtain heq | ⟨hpolicy, run, heq, hdrawn, hocc, hle⟩ := h.queue
    · exact .inl heq
    · exact .inr ⟨hpolicy, run, o, heq, hdrawn, hocc, hle⟩
  · rw [hcurrent]
    exact h.current
  · obtain hsame | ⟨n, hn, hle⟩ := hnext
    · exact .inl (hsame.trans h.nextFireAt)
    · exact .inr (.inr ⟨n, hn, by omega⟩)
  · intro hnone
    have : written.currentWorkflowId = none := hnone
    simp [Know.write, this]
  · obtain hpolicy | hempty := h.tidy
    · exact .inl (hoverlap.trans hpolicy)
    · obtain heq | ⟨hpolicy, -⟩ := h.queue
      · exact .inr (hqueue.trans (heq.trans hempty))
      · exact .inl (hoverlap.trans hpolicy)

section

variable [DecidableEq ι]

/-- The occurrences ascend from `lo` on. -/
def Ascends : Nat → List Nat → Prop
  | _, [] => True
  | lo, o :: rest => lo ≤ o ∧ Ascends (o + 1) rest

theorem Ascends.mono {lo lo' : Nat} {occurrences : List Nat} (h : Ascends lo occurrences)
    (hle : lo' ≤ lo) : Ascends lo' occurrences := by
  cases occurrences with
  | nil => trivial
  | cons o rest => exact ⟨hle.trans h.1, h.2⟩

theorem ascends_collectDueScheduleOccurrences (spec : ScheduleSpec) (through max first : Nat) :
    Ascends first (spec.collectDueScheduleOccurrences through max first) := by
  induction max generalizing first with
  | zero => trivial
  | succ max ih =>
    unfold ScheduleSpec.collectDueScheduleOccurrences
    split_ifs
    · refine ⟨le_rfl, (ih _).mono ?_⟩
      exact spec.cadence.advances first
    · trivial

/-- The write after an occurrence, and what follows it. -/
theorem sound_writeRound (spec : ScheduleSpec) {o : Nat} {rest : List Nat}
    {applied written : ScheduleState ι} (happlied : Applied k applied o)
    (hrest : Ascends (o + 1) rest)
    (ih : ∀ {k : Know ι} {state : ScheduleState ι}, Awaits k state → Ascends k.lo rest →
      (rest = [] → k.begun = false) →
        Sound (.timer fireAt) (some k) (processScheduleTimerOccurrences spec state rest))
    (hwritten : written = { applied with
      lastFireAt := some o
      nextFireAt := if rest = [] then some (spec.getNextScheduleOccurrence o)
        else applied.nextFireAt }) (settles : Prop) [Decidable settles] :
    Sound (.timer fireAt) (some k) (.writeScheduleState written none
      (if settles then
        settleBackfillScheduleState (pauseScheduleAfterTimerFailure spec written)
          (fun settled =>
            if rest = [] then
              .writeScheduleState { settled with
                nextFireAt := some (spec.getNextScheduleOccurrence o) } none .done .done
            else processScheduleTimerOccurrences spec settled rest)
          written
      else processScheduleTimerOccurrences spec written rest) .done) := by
  have hadvances : o + 1 ≤ spec.getNextScheduleOccurrence o := spec.cadence.advances o
  have hfire : written.nextFireAt =
      if rest = [] then some (spec.getNextScheduleOccurrence o) else applied.nextFireAt := by
    rw [hwritten]
  -- the write after the last occurrence moves `nextFireAt` past it
  have hlast : rest = [] → (k.write written).begun = false := by
    intro hnil
    obtain ⟨n, hn, -, hle⟩ := happlied.due
    have hne : written.nextFireAt ≠ k.base.nextFireAt := by
      rw [hfire, if_pos hnil, hn]
      intro heq
      have := Option.some.inj heq
      omega
    simp [Know.write, hne]
  obtain ⟨hwrites, hmirrors, hactive, htidy, hlow, hhigh⟩ :=
    happlied.write fireAt (show written = { applied with
        lastFireAt := written.lastFireAt, nextFireAt := written.nextFireAt } by rw [hwritten]) (by
      rw [hfire]
      split_ifs
      · exact .inr ⟨_, rfl, hadvances⟩
      · exact .inl rfl)
  refine ⟨hwrites, ?_, rfl, sound_done_fail⟩
  -- what follows, whether or not it was waited for the run to settle
  have hnext : ∀ k' settled, Near (k.write written) k' → Mirrors k' settled →
      Sound (.timer fireAt) (some k') (if rest = [] then
        .writeScheduleState { settled with
          nextFireAt := some (spec.getNextScheduleOccurrence o) } none .done .done
        else processScheduleTimerOccurrences spec settled rest) := by
    intro k' settled hnear hsettled
    have hactive' : k'.base.status = .active := hnear.base ▸ hactive
    split_ifs with hnil
    · have hbegun : k'.begun = false := by
        rw [hnear.same]
        exact hlast hnil
      refine ⟨⟨hactive', .inl ?_, hsettled.overlap, .inl hsettled.queuedRuns, ?_, .inl ?_⟩,
        sound_done ?_ rfl, rfl, sound_done_fail⟩
      · rw [hsettled.same]
        exact hactive'
      · rw [hsettled.held]
        exact ⟨fun id hid => (by cases hid), fun _ => hsettled.current⟩
      · rw [hnear.base]
        exact (hfire.trans (if_pos hnil)).symm
      · simp [Know.write, newlyQueued, hbegun, hsettled.queuedRuns]
    · refine ih ⟨hsettled, hactive', hnear.base ▸ htidy, ?_⟩ (hrest.mono (hnear.lo ▸ hhigh))
        fun hempty => (hnil hempty).elim
      obtain ⟨n, hn, hle, -⟩ := happlied.due
      refine ⟨n, ?_, hnear.lo ▸ hle.trans hlow⟩
      rw [hnear.base]
      exact (hfire.trans (if_neg hnil)).trans (happlied.nextFireAt.trans hn)
  by_cases hsettles : settles
  · rw [if_pos hsettles]
    exact sound_settleBackfillScheduleState hmirrors (fun k' hnear =>
      sound_pauseScheduleAfterTimerFailure spec (hmirrors.near hnear) (hnear.base ▸ hactive)) hnext
  · rw [if_neg hsettles]
    by_cases hnil : rest = []
    · subst hnil
      unfold processScheduleTimerOccurrences
      exact sound_done (hlast rfl) rfl
    · have hgoes := hnext _ _ (.refl _) hmirrors
      rwa [if_neg hnil] at hgoes

theorem sound_processScheduleTimerOccurrences (spec : ScheduleSpec) {occurrences : List Nat}
    (h : Awaits k state) (hascends : Ascends k.lo occurrences)
    (hend : occurrences = [] → k.begun = false) :
    Sound (.timer fireAt) (some k) (processScheduleTimerOccurrences spec state occurrences) := by
  induction occurrences generalizing k state with
  | nil =>
    unfold processScheduleTimerOccurrences
    exact sound_done (hend rfl) h.mirrors.held
  | cons o rest ih =>
    obtain ⟨hlo, hrest⟩ := hascends
    unfold processScheduleTimerOccurrences
    refine sound_applyScheduleOccurrence h hlo (fun k' hnear =>
      sound_pauseScheduleAfterTimerFailure spec (h.near hnear).mirrors (h.near hnear).active) ?_
    intro k' applied happlied
    exact sound_writeRound spec happlied hrest ih rfl _

theorem le_countMissedScheduleOccurrences (spec : ScheduleSpec) (through max count : Nat)
    {last occurrence : Nat} (h : last ≤ occurrence) :
    last ≤ (countMissedScheduleOccurrences spec through max count last occurrence).2 := by
  induction max generalizing count last occurrence with
  | zero => exact le_rfl
  | succ max ih =>
    unfold countMissedScheduleOccurrences
    split_ifs
    · exact h.trans (ih _ (spec.cadence.advances occurrence).le)
    · exact le_rfl

end

theorem ascends_planScheduleTimerWork {spec : ScheduleSpec} {nextFireAt now : Nat}
    {occurrences : List Nat}
    (h : planScheduleTimerWork spec state nextFireAt fireAt now = .process occurrences) :
    Ascends nextFireAt occurrences ∧ occurrences ≠ [] := by
  simp only [planScheduleTimerWork] at h
  generalize hmax : (if state.backfill = true then MAX_SCHEDULE_BACKFILL_OCCURRENCES_PER_TICK
    else 2) = limit at h
  have hascends := ascends_collectDueScheduleOccurrences spec (max now fireAt) limit nextFireAt
  split_ifs at h with hnil hlate hbackfill
  · obtain rfl := ScheduleTimerWork.process.inj h
    exact ⟨hascends, hnil⟩
  · obtain rfl := ScheduleTimerWork.process.inj h
    cases hdue : spec.collectDueScheduleOccurrences (max now fireAt) limit nextFireAt with
    | nil => exact (hnil hdue).elim
    | cons o rest =>
      rw [hdue] at hascends
      exact ⟨⟨hascends.1, trivial⟩, by simp⟩

theorem lo_missed {spec : ScheduleSpec} {nextFireAt now count last : Nat}
    (h : planScheduleTimerWork spec state nextFireAt fireAt now = .missed count last) :
    nextFireAt ≤ last := by
  simp only [planScheduleTimerWork] at h
  generalize hmax : (if state.backfill = true then MAX_SCHEDULE_BACKFILL_OCCURRENCES_PER_TICK
    else 2) = limit at h
  split_ifs at h
  obtain ⟨-, rfl⟩ := ScheduleTimerWork.missed.inj h
  exact le_countMissedScheduleOccurrences spec now _ 0 le_rfl

section

variable [DecidableEq ι]

theorem sound_handleScheduleTimer (spec : ScheduleSpec) (fireAt : Nat) :
    Sound (ι := ι) (.timer fireAt) none (handleScheduleTimer spec fireAt) := by
  refine ⟨rfl, fun record htidy => ?_, sound_done_none⟩
  beta_reduce
  split
  · rename_i nextFireAt hactive hnext
    split_ifs with hcurrent
    · intro now
      have hlo : (Know.load (.timer fireAt) record).lo = nextFireAt := by simp [Know.load, hnext]
      have hidle : record.currentWorkflowId = none →
          (Know.load (.timer fireAt) record).free = true := by
        intro hnone
        simp [Know.load, hnone]
      beta_reduce
      split
      · exact sound_done rfl rfl
      · rename_i count last hplan
        have hle := lo_missed hplan
        have hlater : last < spec.getNextScheduleOccurrence last := spec.cadence.advances last
        refine ⟨⟨hactive, .inl hactive, rfl, .inl rfl, ⟨fun id hid => (by cases hid),
          fun _ => .inl rfl⟩, .inr (.inr ⟨_, rfl, ?_⟩)⟩, sound_done ?_ rfl, rfl, sound_done_fail⟩
        · simp only [Know.write, newlyQueued, hlo]
          show (List.foldl _ _ (List.filterMap _ (List.drop record.queuedRuns.length
            record.queuedRuns))) ≤ _
          rw [List.drop_length]
          show nextFireAt ≤ _
          omega
        · simp [Know.write, newlyQueued, Know.load]
      · rename_i occurrences hplan
        obtain ⟨hascends, hne⟩ := ascends_planScheduleTimerWork hplan
        refine sound_processScheduleTimerOccurrences spec ⟨⟨rfl, .inl rfl, hidle, rfl⟩, hactive,
          htidy, nextFireAt, hnext, hlo.ge⟩ (hlo.symm ▸ hascends) fun hempty => (hne hempty).elim
    · exact sound_done rfl rfl
  · exact sound_done rfl rfl

/-- Every operation is in order from its first step on. -/
theorem sound_task (spec : ScheduleSpec) (kind : Kind ι) : Sound kind none (kind.task spec) := by
  cases kind with
  | timer fireAt => exact sound_handleScheduleTimer spec fireAt
  | terminal workflowId => exact sound_handleScheduledWorkflowTerminal workflowId
  | pause => exact sound_pauseSchedule spec
  | resume => exact sound_resumeSchedule spec
  | cancel => exact sound_cancelSchedule

end

end

end Weft.Schedules
