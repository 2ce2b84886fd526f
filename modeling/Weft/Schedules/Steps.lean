import Weft.Schedules.Sound
import Weft.Lib.Lists

/-! What one step of the machine can do, where all that is in flight is in order. -/

namespace Weft.Schedules
open Weft.Lib

universe u

variable {ι : Type u} [DecidableEq ι]

/-- What a step of an operation leaves. -/
inductive Steps (w : World ι) (op : Op ι) (ok : Bool) : World ι → Op ι → Prop where
  | went (task : Task ι) : Steps w op ok w { op with task := task }
  | settled (task : Task ι) (workflowId : ι) :
      Steps w op ok (w.settle (some workflowId)) { op with task := task }
  | loaded (task : Task ι) (hfirst : op.know = none) : Steps w op ok w
      { op with task := task, know := some (Know.load op.kind w.record) }
  | drew (task : Task ι) (workflowId : ι) (hnew : workflowId ∉ w.used) :
      Steps w op ok { w with used := workflowId :: w.used }
        { op with task := task, know := op.know.map fun k => k.draw workflowId }
  | found (task : Task ι) (workflowId : ι) (hended : isLive w.runs workflowId = false) :
      Steps w op ok w { op with task := task, know := op.know.map fun k => k.ended workflowId }
  | cancelled (task : Task ι) (workflowId : ι) :
      Steps w op ok { w with runs := endRun w.runs workflowId }
        { op with task := task, know := op.know.map fun k => k.ended workflowId }
  | failed (task : Task ι) (hwrites : op.task.writes = true) (hok : ok = false)
      (hdone : task.isDone = true) :
      Steps w op ok w { op with task := task, know := op.know.map Know.fail }
  | launched (task : Task ι) (k : Know ι) (workflowId : ι) (occurrence : Option Nat)
      (scheduleRuns : List ι) (hok : ok = true) (hacts : op.task.acts = true)
      (hknow : op.know = some k) (hlaunches : Launches op.kind k workflowId occurrence)
      (hnew : workflowId ∉ w.runs.map Run.workflowId) :
      Steps w op ok { w with
          runs := w.runs ++ [⟨workflowId, occurrence, true⟩], scheduleRuns := scheduleRuns }
        { op with task := task, know := some (k.launch workflowId occurrence) }
  | drained (task : Task ι) (k : Know ι) (workflowId : ι) (occurrence : Option Nat)
      (state : ScheduleState ι) (scheduleRuns : List ι) (hok : ok = true)
      (hacts : op.task.acts = true) (hknow : op.know = some k)
      (hdrains : Drains op.kind k workflowId occurrence state)
      (hnew : workflowId ∉ w.runs.map Run.workflowId) :
      Steps w op ok { ({ w with
          runs := w.runs ++ [⟨workflowId, occurrence, true⟩],
          scheduleRuns := scheduleRuns } : World ι).write op.kind state (some workflowId) with
          drained := w.drained ++ [workflowId] }
        { op with task := task, know := some (k.drain state) }
  | wrote (task : Task ι) (k : Know ι) (state : ScheduleState ι) (scheduleRuns : List ι)
      (hok : ok = true) (hacts : op.task.acts = true) (hknow : op.know = some k)
      (hwrites : Writes op.kind k state) :
      Steps w op ok (({ w with scheduleRuns := scheduleRuns } : World ι).write op.kind state none)
        { op with task := task, know := some (k.write state) }

variable {w w' : World ι}

variable {ok : Bool}

/-- A step of an operation that is in order, and that it stays in order. -/
theorem perform_steps {op op' : Op ι} {drawn : ι} (htidy : Tidy w.record)
    (hsound : Sound op.kind op.know op.task) (h : perform w op ok drawn = some (w', op')) :
    Steps w op ok w' op' ∧ op'.kind = op.kind ∧ Sound op'.kind op'.know op'.task := by
  unfold perform at h
  obtain ⟨kind, task, know⟩ := op
  cases task with
  | done => cases h
  | load next failed =>
    obtain ⟨hfirst, hnext, hfailed⟩ := hsound
    dsimp only at h
    split_ifs at h with hok
    · cases h
      exact ⟨.loaded _ hfirst, rfl, hnext w.record htidy⟩
    · cases h
      exact ⟨.went _, rfl, hfailed⟩
  | getNow next =>
    cases h
    exact ⟨.went _, rfl, hsound w.now⟩
  | randomUUID next =>
    dsimp only at h
    split_ifs at h with hused
    cases h
    exact ⟨.drew _ drawn hused, rfl, hsound drawn⟩
  | loadWorkflowState workflowId next failed =>
    obtain ⟨htrue, hfalse, hfailed⟩ := hsound
    dsimp only at h
    split_ifs at h with hok hlive
    · cases h
      exact ⟨.went _, rfl, htrue⟩
    · cases h
      exact ⟨.found _ workflowId (by simpa using hlive), rfl, hfalse⟩
    · cases h
      exact ⟨.went _, rfl, hfailed⟩
  | getScheduleRun workflowId next failed =>
    obtain ⟨hnext, hfailed⟩ := hsound
    cases h
    refine ⟨.went _, rfl, ?_⟩
    dsimp only
    split_ifs
    · exact hnext _
    · exact hfailed
  | deleteScheduleRun workflowId next failed =>
    obtain ⟨hnext, hfailed⟩ := hsound
    dsimp only at h
    split_ifs at h with hok
    · cases h
      exact ⟨.settled _ workflowId, rfl, hnext⟩
    · cases h
      exact ⟨.went _, rfl, hfailed⟩
  | cancelTimer next failed =>
    obtain ⟨hnext, hfailed⟩ := hsound
    cases h
    refine ⟨.went _, rfl, ?_⟩
    dsimp only
    split_ifs
    · exact hnext
    · exact hfailed
  | cancelWorkflow workflowId next failed =>
    obtain ⟨hnext, hfailed⟩ := hsound
    dsimp only at h
    split_ifs at h with hok
    · cases h
      exact ⟨.cancelled _ workflowId, rfl, hnext⟩
    · cases h
      exact ⟨.went _, rfl, hfailed⟩
  | startWorkflow workflowId occurrence after completed next failed =>
    cases know with
    | none => cases after <;> exact hsound.elim
    | some k =>
      cases after with
      | none =>
        obtain ⟨hlaunches, hnext, hfailed⟩ := hsound
        dsimp only at h
        split_ifs at h with hstart
        · cases h
          exact ⟨.launched _ k workflowId occurrence _ hstart.1 rfl rfl hlaunches hstart.2, rfl,
            hnext⟩
        · cases h
          exact ⟨.went _, rfl, hfailed⟩
      | some state =>
        obtain ⟨hdrains, hnext, hfailed⟩ := hsound
        dsimp only at h
        split_ifs at h with hstart
        · cases h
          exact ⟨.drained _ k workflowId occurrence state _ hstart.1 rfl rfl hdrains hstart.2, rfl,
            hnext⟩
        · cases h
          exact ⟨.went _, rfl, hfailed⟩
  | writeScheduleState state completed next failed =>
    cases know with
    | none => exact hsound.elim
    | some k =>
      obtain ⟨hwrites, hnext, hdone, hfailed⟩ := hsound
      dsimp only at h
      split_ifs at h with hok
      · cases h
        exact ⟨.wrote _ k state _ hok rfl rfl hwrites, rfl, hnext⟩
      · cases h
        exact ⟨.failed _ rfl (by simpa using hok) hdone, rfl, hfailed⟩

variable {w : World ι}

variable {op : Op ι}

theorem isDone_of_perform {drawn : ι} {next : World ι × Op ι}
    (h : perform w op ok drawn = some next) : op.task.isDone = false := by
  cases htask : op.task with
  | done => simp [perform, htask] at h
  | _ => rfl

/-! ## The machine -/

/-- What is in flight is in order, and at most one handler of a timer is. -/
structure InOrder (w : World ι) : Prop where
  tidy : Tidy w.record
  sound : ∀ op ∈ w.ops, Sound op.kind op.know op.task
  serial : ∀ (i j : Nat) (op op' : Op ι), w.ops[i]? = some op → w.ops[j]? = some op' →
    op.kind.isTimer = true →
    op'.kind.isTimer = true → op.task.isDone = false → op'.task.isDone = false → i = j

variable {k : Know ι}

/-- The record that an operation acts on, where it is up to date. -/
theorem UpToDate.base (h : UpToDate w op) (hknow : op.know = some k) : w.record = k.base ∨
      op.kind.isTimer = true ∧ w.record = clearScheduleCurrentWorkflow k.base := by
  obtain ⟨k', hk', hcases⟩ := h
  cases hknow.symm.trans hk'
  exact hcases

theorem UpToDate.record_eq (h : UpToDate w op) (hknow : op.know = some k) : w.record =
      { k.base with currentWorkflowId := w.record.currentWorkflowId } := by
  obtain heq | ⟨-, heq⟩ := h.base hknow
  · rw [heq]
  · rw [heq]
    rfl

variable {state : ScheduleState ι}

theorem tidy_drains {workflowId : ι} {occurrence : Option Nat} (htidy : Tidy w.record)
    (hup : UpToDate w op) (hknow : op.know = some k)
    (h : Drains op.kind k workflowId occurrence state) : Tidy state := by
  obtain ⟨run, rest, hqueue, -, -, rfl⟩ := h.queue
  rw [hup.record_eq hknow] at htidy
  obtain hpolicy | hempty := htidy
  · exact .inl hpolicy
  · rw [show k.base.queuedRuns = [] from hempty] at hqueue
    cases hqueue

theorem tidy_writes (htidy : Tidy w.record) (hup : UpToDate w op) (hknow : op.know = some k)
    (h : Writes op.kind k state) : Tidy state := by
  have hbase : Tidy k.base := by
    rw [hup.record_eq hknow] at htidy
    exact htidy
  obtain ⟨kind, task, know⟩ := op
  cases kind with
  | timer fireAt =>
    replace h : TimerWrites k state := h
    obtain hsame | ⟨hpolicy, -⟩ := h.queue
    · obtain hpolicy | hempty := hbase
      · exact .inl (h.overlap.trans hpolicy)
      · exact .inr (hsame.trans hempty)
    · exact .inl (h.overlap.trans hpolicy)
  | terminal workflowId =>
    obtain ⟨-, rfl⟩ := h
    exact hbase
  | pause =>
    obtain ⟨-, n, rfl⟩ := h
    exact .inr rfl
  | resume =>
    obtain ⟨-, n, rfl⟩ := h
    exact hbase
  | cancel =>
    obtain rfl := h
    exact .inr rfl

/-- What one event does. -/
inductive Happens (spec : ScheduleSpec) (w : World ι) : Event ι → World ι → Prop where
  | ticked (now : Nat) : Happens spec w (.tick now) { w with now := now }
  | called (kind : Kind ι) (hmay : mayCall w kind = true) :
      Happens spec w (.call kind) { w with ops := w.ops ++ [⟨kind, kind.task spec, none⟩] }
  | advanced (place : Nat) (ok : Bool) (drawn : ι) (op op' : Op ι) (w' : World ι)
      (hplace : w.ops[place]? = some op) (hperform : perform w op ok drawn = some (w', op'))
      (hgoes : op.task.isDone = false)
      (hsteps : Steps w op ok w' op')
      (hsound : Sound op'.kind op'.know op'.task) (hkind : op'.kind = op.kind)
      (hup : ok = true → op.task.acts = true → UpToDate w op) (ordered : Control)
      (hordered : ordered = if ok ∧ op'.task.isDone then op.kind.order op.task.writes w.ordered
        else w.ordered) :
      Happens spec w (.advance place ok drawn)
        { w' with ops := w.ops.set place op', ordered := ordered }
  | finished (workflowId : ι) :
      Happens spec w (.finish workflowId) { w with runs := endRun w.runs workflowId }
  | crashed : Happens spec w .crash { w with ops := [] }

variable {spec : ScheduleSpec}

theorem step_happens {event : Event ι} (h : InOrder w) (hup : ActsUpToDate w event)
    (hstep : (scheduleMachine spec).step w event = some w') : Happens spec w event w' := by
  cases event with
  | tick now =>
    replace hstep : (if w.now ≤ now then some { w with now := now } else none) = some w' := hstep
    split_ifs at hstep
    cases hstep
    exact .ticked now
  | call kind =>
    replace hstep : (if mayCall w kind then some { w with
      ops := w.ops ++ [⟨kind, kind.task spec, none⟩] } else none) = some w' := hstep
    split_ifs at hstep with hmay
    cases hstep
    exact .called kind hmay
  | advance place ok drawn =>
    replace hstep : advance w place ok drawn = some w' := hstep
    unfold advance at hstep
    obtain ⟨op, hplace, hstep⟩ := Option.bind_eq_some_iff.1 hstep
    obtain ⟨⟨w₁, op'⟩, hperform, hstep⟩ := Option.bind_eq_some_iff.1 hstep
    cases hstep
    have hmem := List.mem_of_getElem? hplace
    obtain ⟨hsteps, hkind, hsound⟩ := perform_steps h.tidy (h.sound op hmem) hperform
    exact .advanced place ok drawn op op' w₁ hplace hperform (isDone_of_perform hperform) hsteps
      hsound hkind (hup op hplace) _ rfl
  | finish workflowId =>
    cases hstep
    exact .finished workflowId
  | crash =>
    cases hstep
    exact .crashed

theorem Steps.tidy {op op' : Op ι} (h : Steps w op ok w' op') (htidy : Tidy w.record)
    (hup : ok = true → op.task.acts = true → UpToDate w op) : Tidy w'.record := by
  cases h with
  | drained task k workflowId occurrence state scheduleRuns hok hacts hknow hdrains =>
    exact tidy_drains htidy (hup hok hacts) hknow hdrains
  | wrote task k state scheduleRuns hok hacts hknow hwrites =>
    exact tidy_writes htidy (hup hok hacts) hknow hwrites
  | _ => exact htidy

theorem InOrder.step {event : Event ι} (h : InOrder w) (hstep : Happens spec w event w') :
    InOrder w' := by
  cases hstep with
  | ticked now => exact ⟨h.tidy, h.sound, h.serial⟩
  | called kind hmay =>
    refine ⟨h.tidy, fun op hop => ?_, fun i j op op' hi hj htimer htimer' hgoes hgoes' => ?_⟩
    · rcases List.mem_append.1 hop with hop | hop
      · exact h.sound op hop
      · rw [List.mem_singleton.1 hop]
        exact sound_task spec kind
    · -- no other handler of a timer is under way when one is called
      have hnone : kind.isTimer = true → ∀ op ∈ w.ops, op.kind.isTimer = true →
          op.task.isDone = true := by
        intro hkind op hop hop'
        cases kind with
        | timer fireAt =>
          have hall := List.all_eq_true.1 (Bool.and_eq_true_iff.1 hmay).2 op hop
          simpa [hop'] using hall
        | _ => cases hkind
      obtain ⟨hi, hi'⟩ | ⟨hi, rfl⟩ := getElem?_concat_cases hi
      · obtain ⟨hj, hj'⟩ | ⟨hj, rfl⟩ := getElem?_concat_cases hj
        · exact h.serial i j op op' hi' hj' htimer htimer' hgoes hgoes'
        · rw [hnone htimer' op (List.mem_of_getElem? hi') htimer] at hgoes
          cases hgoes
      · obtain ⟨hj, hj'⟩ | ⟨hj, rfl⟩ := getElem?_concat_cases hj
        · rw [hnone htimer op' (List.mem_of_getElem? hj') htimer'] at hgoes'
          cases hgoes'
        · omega
  | advanced place ok drawn op op' w' hplace hperform hgoes hsteps hsound hkind hup ordered
    hordered =>
    refine ⟨hsteps.tidy h.tidy hup, fun other hother => ?_, ?_⟩
    · obtain rfl | ⟨j, -, hj⟩ := mem_set_cases hother
      · exact hsound
      · exact h.sound other (List.mem_of_getElem? hj)
    · have hold : ∀ (i : Nat) (other : Op ι), (w.ops.set place op')[i]? = some other →
          other.task.isDone = false → ∃ before, w.ops[i]? = some before ∧
            before.kind = other.kind ∧ before.task.isDone = false := by
        intro i other hi hother
        obtain ⟨rfl, rfl⟩ | ⟨-, hi'⟩ := getElem?_set_cases hi
        · exact ⟨op, hplace, hkind.symm, hgoes⟩
        · exact ⟨other, hi', rfl, hother⟩
      intro i j other other' hi hj htimer htimer' hgoes' hgoes''
      obtain ⟨before, hi', hk, hb⟩ := hold i other hi hgoes'
      obtain ⟨before', hj', hk', hb'⟩ := hold j other' hj hgoes''
      exact h.serial i j before before' hi' hj' (hk ▸ htimer) (hk' ▸ htimer') hb hb'
  | finished workflowId => exact ⟨h.tidy, h.sound, h.serial⟩
  | crashed => exact ⟨h.tidy, by simp, by simp⟩

theorem InOrder.create (overlap : ScheduleOverlapPolicy) (backfill : Bool) (nextFireAt : Nat) :
    InOrder (World.create overlap backfill nextFireAt : World ι) :=
  ⟨.inr rfl, by simp [World.create], by simp [World.create]⟩

end Weft.Schedules
