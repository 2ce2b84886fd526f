import Weft.Schedules.Steps

/-! Pausing, resuming and cancelling. The calls read the record and write it back without waiting
for a handler that is under way; where no write is made on the ground of a record that is out of
date, none of them is undone. -/

namespace Weft.Schedules
open Weft.Lib

universe u

variable {ι : Type u} [DecidableEq ι]

/-- What a completed call asks for holds, and no queued run was dropped. -/
structure ControlKept (w : World ι) : Prop where
  paused : w.ordered = .paused → w.record.status ≠ .active
  cancelled : w.ordered = .cancelled → w.record.status = .cancelled
  queue : w.dropped = []

/-! ## Where the calls complete -/

def Kind.isControl : Kind ι → Bool
  | .pause | .resume | .cancel => true
  | _ => false

/-- The status is one that a call of this kind may leave. -/
def Kind.Leaves (kind : Kind ι) (status : ScheduleStatus) : Prop :=
  (kind = .pause → status ≠ .active) ∧ (kind = .cancel → status = .cancelled)

/-- A control call completes with its write, or when it finds nothing to do. -/
def Completes (kind : Kind ι) : Task ι → Prop
  | .done => True
  | .load next failed => failed.isDone = true ∧ ∀ record, Completes kind (next record) ∧
    ((next record).isDone = true → kind.Leaves record.status)
  | .getNow next => ∀ now, (next now).isDone = false ∧ Completes kind (next now)
  | .cancelTimer next failed => failed.isDone = true ∧ next.isDone = false ∧ Completes kind next
  | .writeScheduleState state _ next failed => failed.isDone = true ∧ next.isDone = true ∧
    kind.Leaves state.status
  | _ => False

omit [DecidableEq ι] in
theorem completes_of_isDone {kind : Kind ι} {task : Task ι} (h : task.isDone = true) :
    Completes kind task := by
  cases task with
  | done => trivial
  | _ => cases h

theorem completes_task (spec : ScheduleSpec) {kind : Kind ι} (h : kind.isControl = true) :
    Completes kind (kind.task spec) := by
  cases kind with
  | timer fireAt => cases h
  | terminal workflowId => cases h
  | pause =>
    refine ⟨rfl, fun record => ?_⟩
    beta_reduce
    split_ifs with hactive
    · refine ⟨⟨rfl, rfl, fun now => ⟨rfl, rfl, rfl, fun _ => ?_, fun hkind => ?_⟩⟩, fun hdone => ?_⟩
      · exact fun hstatus => by cases hstatus
      · cases hkind
      · cases hdone
    · exact ⟨trivial, fun _ => ⟨fun _ => hactive, fun hkind => by cases hkind⟩⟩
  | resume =>
    refine ⟨rfl, fun record => ?_⟩
    beta_reduce
    have hleaves : ∀ status, (Kind.resume : Kind ι).Leaves status :=
      fun status => ⟨fun hkind => (by cases hkind), fun hkind => (by cases hkind)⟩
    split_ifs with hpaused
    · exact ⟨fun now => ⟨rfl, rfl, rfl, hleaves _⟩, fun _ => hleaves _⟩
    · exact ⟨trivial, fun _ => hleaves _⟩
  | cancel =>
    refine ⟨rfl, fun record => ?_⟩
    have hleaves : (Kind.cancel : Kind ι).Leaves .cancelled :=
      ⟨fun hkind => (by cases hkind), fun _ => rfl⟩
    show Completes _ (if record.status = .active then .cancelTimer _ .done else _) ∧ _
    dsimp only
    split_ifs with hactive
    · exact ⟨⟨rfl, rfl, rfl, rfl, hleaves⟩, fun hdone => by cases hdone⟩
    · exact ⟨⟨rfl, rfl, hleaves⟩, fun hdone => by cases hdone⟩

variable {w w' : World ι}

variable {op op' : Op ι} {ok : Bool}

/-- A step of a control call: it leaves the record alone, or it completes with a write. -/
theorem perform_control {drawn : ι} (hcompletes : Completes op.kind op.task)
    (h : perform w op ok drawn = some (w', op')) : Completes op.kind op'.task ∧
      ((w'.record = w.record ∧ w'.dropped = w.dropped ∧ (ok = true → op'.task.isDone = true →
          op.kind.Leaves w.record.status ∧ op.task.writes = false)) ∨
        ∃ state scheduleRuns, ok = true ∧ op.task.acts = true ∧ op.task.writes = true ∧
          op'.task.isDone = true ∧ op.kind.Leaves state.status ∧
          w' = ({ w with scheduleRuns := scheduleRuns } : World ι).write op.kind state none ∧
          (Sound op.kind op.know op.task → ∃ k, op.know = some k ∧ Writes op.kind k state)) := by
  unfold perform at h
  obtain ⟨kind, task, know⟩ := op
  cases task with
  | done => cases h
  | load next failed =>
    obtain ⟨hfailed, hnext⟩ := hcompletes
    dsimp only at h
    split_ifs at h with hok
    · cases h
      obtain ⟨hgoes, hleaves⟩ := hnext w.record
      exact ⟨hgoes, .inl ⟨rfl, rfl, fun _ hdone => ⟨hleaves hdone, rfl⟩⟩⟩
    · cases h
      exact ⟨completes_of_isDone hfailed, .inl ⟨rfl, rfl, fun hok' => (hok hok').elim⟩⟩
  | getNow next =>
    cases h
    obtain ⟨hgoes, hnext⟩ := hcompletes w.now
    refine ⟨hnext, .inl ⟨rfl, rfl, fun _ hdone => ?_⟩⟩
    rw [show (next w.now).isDone = true from hdone] at hgoes
    cases hgoes
  | cancelTimer next failed =>
    obtain ⟨hfailed, hgoes, hnext⟩ := hcompletes
    cases h
    cases ok with
    | true =>
      refine ⟨hnext, .inl ⟨rfl, rfl, fun _ hdone => ?_⟩⟩
      rw [show next.isDone = true from hdone] at hgoes
      cases hgoes
    | false => exact ⟨completes_of_isDone hfailed, .inl ⟨rfl, rfl, fun hok => by cases hok⟩⟩
  | writeScheduleState state completed next failed =>
    obtain ⟨hfailed, hdone, hleaves⟩ := hcompletes
    dsimp only at h
    split_ifs at h with hok
    · cases h
      refine ⟨completes_of_isDone hdone, .inr ⟨state, _, hok, rfl, rfl, hdone, hleaves, rfl,
        fun hsound => ?_⟩⟩
      cases know with
      | none => exact hsound.elim
      | some k => exact ⟨k, rfl, hsound.1⟩
    · cases h
      exact ⟨completes_of_isDone hfailed, .inl ⟨rfl, rfl, fun hok' => (hok hok').elim⟩⟩
  | _ => exact hcompletes.elim

/-! ## The invariant -/

/-- A write drops nothing where every queued run stays or is started. -/
theorem dropped_write (w : World ι) (kind : Kind ι) (state : ScheduleState ι) (started : Option ι)
    (hnil : w.dropped = [])
    (h : ∀ run ∈ w.record.queuedRuns, run ∈ state.queuedRuns ∨ started = some run.workflowId) :
    (w.write kind state started).dropped = [] := by
  have hnone : (w.record.queuedRuns.map fun run => run.workflowId).filter (fun workflowId =>
      decide (workflowId ∉ state.queuedRuns.map (fun run => run.workflowId) ∧
        started ≠ some workflowId)) = [] := by
    rw [List.filter_eq_nil_iff]
    intro workflowId hmem
    obtain ⟨run, hrun, rfl⟩ := List.mem_map.1 hmem
    rw [decide_eq_true_eq]
    rintro ⟨hgone, hstarted⟩
    rcases h run hrun with hstays | hstarts
    · exact hgone (List.mem_map.2 ⟨run, hstays, rfl⟩)
    · exact hstarted hstarts
  cases kind with
  | pause => exact hnil
  | cancel => exact hnil
  | _ =>
    show w.dropped ++ _ = []
    rw [hnone, List.append_nil, hnil]

omit [DecidableEq ι] in
/-- While the record is active, no completed call asks for anything. -/
theorem ControlKept.free_of_active {w : World ι} (h : ControlKept w)
    (hactive : w.record.status = .active) : w.ordered = .free := by
  cases hordered : w.ordered with
  | free => rfl
  | paused => exact (h.paused hordered hactive).elim
  | cancelled =>
    rw [h.cancelled hordered] at hactive
    cases hactive

omit [DecidableEq ι] in
theorem ControlKept.of_free {w : World ι} (hfree : w.ordered = .free) (hqueue : w.dropped = []) :
    ControlKept w :=
  ⟨fun h => (by rw [hfree] at h; cases h), fun h => (by rw [hfree] at h; cases h), hqueue⟩

/-- The steps of the handlers, which leave what the calls ask for as it is. -/
theorem ControlKept.handler (h : ControlKept w) (hsteps : Steps w op ok w' op')
    (hkind : op.kind.isControl = false) (hup : ok = true → op.task.acts = true → UpToDate w op) :
    ControlKept { w' with ordered := w.ordered } := by
  cases hsteps with
  | drained task k workflowId occurrence state scheduleRuns hok hacts hknow hdrains hnew =>
    have hrecord := (hup hok hacts).record_eq hknow
    have hactive : w.record.status = .active := by
      rw [hrecord]
      exact hdrains.active
    refine .of_free (h.free_of_active hactive) ?_
    obtain ⟨run, rest, hqueue, hid, -, rfl⟩ := hdrains.queue
    refine dropped_write _ _ _ _ ?_ fun queued hmem => ?_
    · exact h.queue
    replace hmem : queued ∈ w.record.queuedRuns := hmem
    rw [hrecord] at hmem
    rcases List.mem_cons.1 (hqueue ▸ hmem) with rfl | hmem
    · exact .inr (by rw [hid])
    · exact .inl hmem
  | wrote task k state scheduleRuns hok hacts hknow hwrites =>
    have hrecord := (hup hok hacts).record_eq hknow
    obtain ⟨kind, task, know⟩ := op
    cases kind with
    | timer fireAt =>
      replace hwrites : TimerWrites k state := hwrites
      have hactive : w.record.status = .active := by
        rw [hrecord]
        exact hwrites.active
      refine .of_free (h.free_of_active hactive) ?_
      refine dropped_write { w with scheduleRuns := scheduleRuns } (.timer fireAt) state none
        h.queue fun queued hmem => .inl ?_
      replace hmem : queued ∈ w.record.queuedRuns := hmem
      rw [hrecord] at hmem
      obtain hsame | ⟨-, run, o, hsame, -⟩ := hwrites.queue
      · exact hsame ▸ hmem
      · exact hsame ▸ List.mem_append_left _ hmem
    | terminal workflowId =>
      obtain ⟨-, rfl⟩ := hwrites
      have hstatus : (clearScheduleCurrentWorkflow k.base).status = w.record.status := by
        rw [hrecord]
        rfl
      refine ⟨fun hordered hactive => h.paused hordered (hstatus.symm.trans hactive),
        fun hordered => hstatus.trans (h.cancelled hordered), ?_⟩
      refine dropped_write { w with scheduleRuns := scheduleRuns } (.terminal workflowId)
        (clearScheduleCurrentWorkflow k.base) none h.queue
        fun queued hmem => .inl ?_
      replace hmem : queued ∈ w.record.queuedRuns := hmem
      rw [hrecord] at hmem
      exact hmem
    | _ => cases hkind
  | _ => exact ⟨h.paused, h.cancelled, h.queue⟩

theorem ControlKept.control {drawn : ι} (h : ControlKept w)
    (hsound : Sound op.kind op.know op.task) (hcompletes : Completes op.kind op.task)
    (hkind : op.kind.isControl = true) (hperform : perform w op ok drawn = some (w', op'))
    (hup : ok = true → op.task.acts = true → UpToDate w op) : ControlKept { w' with
      ordered := if ok ∧ op'.task.isDone then op.kind.order op.task.writes w.ordered
        else w.ordered } := by
  obtain ⟨-, ⟨hrecord, hdropped, hearly⟩ | ⟨state, scheduleRuns, hok, hacts, hwrites, hdone,
    hleaves,
    rfl, hknows⟩⟩ := perform_control hcompletes hperform
  · have hqueue : w'.dropped = [] := hdropped.trans h.queue
    by_cases hend : ok = true ∧ op'.task.isDone = true
    · obtain ⟨⟨hpause, hcancel⟩, hnot⟩ := hearly hend.1 hend.2
      rw [if_pos hend, hnot]
      refine ⟨?_, ?_, hqueue⟩
      · show op.kind.order false w.ordered = .paused → w'.record.status ≠ .active
        rw [hrecord]
        intro hordered
        cases hk : op.kind with
        | pause => exact hpause hk
        | resume =>
          rw [hk] at hordered
          cases hw : w.ordered with
          | paused => exact h.paused hw
          | _ => rw [hw] at hordered; cases hordered
        | cancel => rw [hk] at hordered; cases hordered
        | _ => rw [hk] at hkind; cases hkind
      · show op.kind.order false w.ordered = .cancelled → w'.record.status = .cancelled
        rw [hrecord]
        intro hordered
        cases hk : op.kind with
        | cancel => exact hcancel hk
        | pause =>
          rw [hk] at hordered
          cases hw : w.ordered with
          | cancelled => exact h.cancelled hw
          | _ => rw [hw] at hordered; cases hordered
        | resume =>
          rw [hk] at hordered
          cases hw : w.ordered with
          | cancelled => exact h.cancelled hw
          | _ => rw [hw] at hordered; cases hordered
        | _ => rw [hk] at hkind; cases hkind
    · rw [if_neg hend]
      exact ⟨fun hordered => hrecord ▸ h.paused hordered,
        fun hordered => hrecord ▸ h.cancelled hordered, hqueue⟩
  · obtain ⟨k, hknow, hwrote⟩ := hknows hsound
    have hrecord := (hup hok hacts).record_eq hknow
    rw [if_pos ⟨hok, hdone⟩, hwrites]
    obtain ⟨hpause, hcancel⟩ := hleaves
    obtain ⟨kind, task, know⟩ := op
    cases kind with
    | pause =>
      obtain ⟨hactive, -⟩ := hwrote
      have hfree := h.free_of_active (show w.record.status = .active by rw [hrecord]; exact hactive)
      refine ⟨fun _ => hpause rfl, fun hordered => ?_, h.queue⟩
      rw [hfree] at hordered
      cases hordered
    | resume =>
      obtain ⟨hpaused, n, hstate⟩ := hwrote
      have hstatus : w.record.status = .paused := by
        rw [hrecord]
        exact hpaused
      refine .of_free ?_ (dropped_write { w with scheduleRuns := scheduleRuns } .resume state none
        h.queue fun queued hmem => .inl ?_)
      · cases hw : w.ordered with
        | free => rfl
        | paused => rfl
        | cancelled =>
          rw [h.cancelled hw] at hstatus
          cases hstatus
      · replace hmem : queued ∈ w.record.queuedRuns := hmem
        rw [hrecord] at hmem
        rw [hstate]
        exact hmem
    | cancel => exact ⟨fun hordered => (by cases hordered), fun _ => hcancel rfl, h.queue⟩
    | _ => cases hkind

/-! ## Runs -/

structure ControlInv (w : World ι) : Prop where
  inOrder : InOrder w
  completes : ∀ op ∈ w.ops, op.kind.isControl = true → Completes op.kind op.task
  kept : ControlKept w

theorem ControlInv.step {spec : ScheduleSpec} {event : Event ι} (h : ControlInv w)
    (hup : ActsUpToDate w event) (hstep : (scheduleMachine spec).step w event = some w') :
    ControlInv w' := by
  have hhappens := step_happens h.inOrder hup hstep
  refine ⟨h.inOrder.step hhappens, ?_, ?_⟩
  · cases hhappens with
    | called kind hmay =>
      intro op hop hcontrol
      rcases List.mem_append.1 hop with hop | hop
      · exact h.completes op hop hcontrol
      · rw [List.mem_singleton.1 hop] at hcontrol ⊢
        exact completes_task spec hcontrol
    | advanced place ok drawn op op' w' hplace hperform hgoes hsteps hsound hkind =>
      intro other hother hcontrol
      obtain rfl | ⟨j, -, hj⟩ := mem_set_cases hother
      · rw [hkind] at hcontrol ⊢
        exact (perform_control (h.completes op (List.mem_of_getElem? hplace) hcontrol) hperform).1
      · exact h.completes other (List.mem_of_getElem? hj) hcontrol
    | crashed => simp
    | _ => exact h.completes
  · cases hhappens with
    | advanced place ok drawn op op' w' hplace hperform hgoes hsteps hsound hkind hup' ordered
      hordered =>
      have hmem := List.mem_of_getElem? hplace
      have hkept : ControlKept { w' with ordered := ordered } := by
        rw [hordered]
        cases hcontrol : op.kind.isControl with
        | true =>
          exact h.kept.control (h.inOrder.sound op hmem) (h.completes op hmem hcontrol) hcontrol
            hperform hup'
        | false =>
          have hsame : (if ok = true ∧ op'.task.isDone = true then
              op.kind.order op.task.writes w.ordered else w.ordered) = w.ordered := by
            split_ifs
            · cases hk : op.kind with
              | timer fireAt => rfl
              | terminal workflowId => rfl
              | _ => rw [hk] at hcontrol; cases hcontrol
            · rfl
          rw [hsame]
          exact h.kept.handler hsteps hcontrol hup'
      exact ⟨hkept.paused, hkept.cancelled, hkept.queue⟩
    | _ => exact ⟨h.kept.paused, h.kept.cancelled, h.kept.queue⟩

/-- Where no operation acts on a record that is out of date, no call is undone and no queued run
is dropped. -/
theorem control_kept (spec : ScheduleSpec) (overlap : ScheduleOverlapPolicy) (backfill : Bool)
    (nextFireAt : Nat) {events : List (Event ι)}
    (hup : (scheduleMachine spec).EveryStep ActsUpToDate
      (World.create overlap backfill nextFireAt) events) :
    (scheduleMachine spec).EveryState ControlKept (World.create overlap backfill nextFireAt)
      events := by
  refine Machine.EveryState.mono (fun w hw => hw.kept)
    (Machine.everyState_of_invariant (I := ControlInv)
      (fun w event w' hw hevent hstep => hw.step hevent hstep) ?_ hup)
  exact ⟨InOrder.create _ _ _, by simp [World.create], ControlKept.of_free rfl rfl⟩

theorem ten_pos : 0 < 10 := by
  decide

/-- Every ten milliseconds, without jitter. -/
def everyTen : ScheduleSpec where
  cadence := .interval 0 10 ten_pos
  jitterMs := 0
  hash := id

/-- An operation does its next steps, drawing this id. -/
def steps (place count : Nat) (drawn : Nat) : List (Event Nat) :=
  List.replicate count (.advance place true drawn)

/-- The handler of a timer has read the record when the schedule is cancelled; it goes on to start
its run and writes the record back as it was. -/
def cancelledMeanwhile : List (Event Nat) :=
  [Event.tick 10, .call (.timer 10)] ++ steps 0 1 0 ++ [Event.call .cancel] ++ steps 1 3 0 ++
    steps 0 4 7

theorem cancel_undone : ¬ (scheduleMachine everyTen).EveryState ControlKept
    (World.create .skip false 10) cancelledMeanwhile := by
  intro h
  have hkept := h.final.cancelled (by decide)
  revert hkept
  decide

/-- The schedule is cancelled between two timers. -/
def cancelledBetween : List (Event Nat) :=
  [Event.tick 10, .call (.timer 10)] ++ steps 0 5 7 ++ [Event.call .cancel] ++ steps 1 3 0 ++
    [Event.tick 20, .call (.timer 20)] ++ steps 2 1 0

theorem cancelledBetween_upToDate : (scheduleMachine everyTen).EveryStep ActsUpToDate
    (World.create .skip false 10) cancelledBetween := by
  decide

theorem control_kept_between : (scheduleMachine everyTen).EveryState ControlKept
      (World.create .skip false 10) cancelledBetween ∧
    ((scheduleMachine everyTen).final (World.create .skip false 10)
      cancelledBetween).record.status = .cancelled :=
  ⟨control_kept everyTen .skip false 10 cancelledBetween_upToDate, by decide⟩

end Weft.Schedules
