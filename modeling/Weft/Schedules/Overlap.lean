import Weft.Schedules.Control

/-! The overlap policies. Under every policy but `allow` at most one run of the schedule is live,
and queued runs are started in the order they were queued in, where a run that was started reaches
the record. -/

namespace Weft.Schedules
open Weft.Lib

universe u

variable {ι : Type u} [DecidableEq ι]

/-- The queued runs that were started, in the order of their starts. -/
def World.startedFromQueue (w : World ι) : List ι :=
  (w.runs.map Run.workflowId).filter (· ∈ w.queued)

structure OverlapKept (w : World ι) : Prop where
  slot : w.record.overlap ≠ .allow → (w.runs.filter Run.live).length ≤ 1
  once : w.queued.Nodup
  order : w.queued = w.startedFromQueue ++ w.record.queuedRuns.map fun run => run.workflowId

variable {w : World ι} {run : ScheduleQueuedRun ι}

/-- A run that waits in the queue was not started. -/
theorem OverlapKept.not_started (h : OverlapKept w) (hrun : run ∈ w.record.queuedRuns) :
    run.workflowId ∉ w.runs.map Run.workflowId := by
  intro hstarted
  have honce := h.once
  rw [h.order] at honce
  have hwaits : run.workflowId ∈ w.record.queuedRuns.map fun run => run.workflowId :=
    List.mem_map.2 ⟨run, hrun, rfl⟩
  have hqueued : run.workflowId ∈ w.queued := by
    rw [h.order]
    exact List.mem_append_right _ hwaits
  exact (List.nodup_append.1 honce).2.2 _ (List.mem_filter.2 ⟨hstarted, by simpa using hqueued⟩) _
    hwaits rfl

/-- The run that the operation has started and not recorded yet. -/
def Op.held (op : Op ι) : Option ι := op.know.bind fun k => k.held

/-- No crash and no failed write cuts a handler off that has started a run and not recorded it, and
no call changes the schedule. -/
def NotStranded (w : World ι) : Event ι → Prop
  | .crash => ∀ op ∈ w.ops, op.held = none
  | .advance place ok _ => ∀ op ∈ w.ops[place]?, ok = false → op.task.writes = true → op.held = none
  | .call kind => kind.isControl = false
  | _ => True

instance (w : World ι) (event : Event ι) : Decidable (NotStranded w event) :=
  match event with
  | .crash => inferInstanceAs (Decidable (∀ op ∈ w.ops, op.held = none))
  | .advance place ok _ => inferInstanceAs (Decidable (∀ op ∈ w.ops[place]?, ok = false →
      op.task.writes = true → op.held = none))
  | .call kind => inferInstanceAs (Decidable (kind.isControl = false))
  | .tick _ => isTrue trivial
  | .finish _ => isTrue trivial

/-! ## Runs that are live -/

def Started (runs : List (Run ι)) (workflowId : ι) : Prop := workflowId ∈ runs.map Run.workflowId

theorem endRun_ids (runs : List (Run ι)) (workflowId : ι) :
    (endRun runs workflowId).map Run.workflowId = runs.map Run.workflowId := by
  unfold endRun
  rw [List.map_map]
  refine List.map_congr_left fun run _ => ?_
  show (if run.workflowId = workflowId then { run with live := false } else run).workflowId = _
  split_ifs <;> rfl

variable {runs : List (Run ι)} {workflowId other : ι}

theorem isLive_endRun : isLive (endRun runs workflowId) other = true ↔
      other ≠ workflowId ∧ isLive runs other = true := by
  unfold isLive endRun
  rw [List.any_map]
  simp only [List.any_eq_true, Function.comp_apply]
  constructor
  · rintro ⟨run, hrun, hlive⟩
    split_ifs at hlive with hid
    · simp at hlive
    · simp only [Bool.and_eq_true, decide_eq_true_eq] at hlive
      exact ⟨fun heq => hid (hlive.1.trans heq), run, hrun, by simpa using hlive⟩
  · rintro ⟨hne, run, hrun, hlive⟩
    simp only [Bool.and_eq_true, decide_eq_true_eq] at hlive
    refine ⟨run, hrun, ?_⟩
    rw [if_neg fun heq => hne (hlive.1.symm.trans heq)]
    simpa using hlive

variable {occurrence : Option Nat}

theorem isLive_append : isLive (runs ++ [⟨workflowId, occurrence, true⟩]) other = true ↔
      isLive runs other = true ∨ other = workflowId := by
  unfold isLive
  rw [List.any_append, Bool.or_eq_true]
  refine or_congr Iff.rfl ?_
  simp only [List.any_cons, List.any_nil, Bool.and_true, Bool.or_false, decide_eq_true_eq]
  exact eq_comm

omit [DecidableEq ι] in
theorem started_append : Started (runs ++ [⟨workflowId, occurrence, true⟩]) other ↔
      Started runs other ∨ other = workflowId := by
  simp [Started]

variable {workflowId : ι}

omit [DecidableEq ι] in
theorem nodup_append_run (hids : (runs.map Run.workflowId).Nodup)
    (hnew : ¬ Started runs workflowId) :
    ((runs ++ [(⟨workflowId, occurrence, true⟩ : Run ι)]).map Run.workflowId).Nodup := by
  rw [List.map_append]
  refine List.nodup_append.2 ⟨hids, List.nodup_singleton _, fun other hother last hlast heq => ?_⟩
  obtain rfl := List.mem_singleton.1 hlast
  exact hnew (heq ▸ hother)

/-- Where all live runs have one id there is at most one of them. -/
theorem live_length_le_one (hids : (runs.map Run.workflowId).Nodup) {occupant : Option ι}
    (h : ∀ other, isLive runs other = true → occupant = some other) :
    (runs.filter Run.live).length ≤ 1 := by
  have hnodup : ((runs.filter Run.live).map Run.workflowId).Nodup :=
    hids.sublist (List.filter_sublist.map _)
  have hsame : ∀ run ∈ runs.filter Run.live, occupant = some run.workflowId := by
    intro run hrun
    obtain ⟨hrun, hlive⟩ := List.mem_filter.1 hrun
    exact h _ (List.any_eq_true.2 ⟨run, hrun, by simp [hlive]⟩)
  cases hruns : runs.filter Run.live with
  | nil => simp
  | cons first rest =>
    rw [hruns] at hnodup hsame
    cases rest with
    | nil => simp
    | cons second rest =>
      have hfirst := hsame first (by simp)
      have hsecond := hsame second (by simp)
      rw [hfirst] at hsecond
      simp [Option.some.inj hsecond] at hnodup

/-! ## The invariant -/

/-- Who occupies the slot: the run that is held by a handler, if there is one, and the current run
of the record otherwise. While a run is held the queue is empty, so that nobody drains it. -/
def Occupied (w : World ι) (held : Option ι) : Prop :=
  w.record.overlap ≠ .allow →
    (held ≠ none → w.record.queuedRuns = []) ∧
    ∀ workflowId, isLive w.runs workflowId = true →
      held.or w.record.currentWorkflowId = some workflowId

/-- The id was drawn for a run that is neither started nor queued. -/
structure Fresh (w : World ι) (workflowId : ι) : Prop where
  used : workflowId ∈ w.used
  queued : workflowId ∉ w.queued
  started : ¬ Started w.runs workflowId

/-- What an operation relies on. -/
structure Relies (w : World ι) (op : Op ι) : Prop where
  handler : op.kind.isControl = false
  terminal : ∀ ended, op.kind = .terminal ended →
    Started w.runs ended ∧ isLive w.runs ended = false
  current : ∀ k ∈ op.know, ∀ workflowId ∈ k.base.currentWorkflowId, Started w.runs workflowId
  free : ∀ k ∈ op.know, k.free = true → ∀ workflowId ∈ k.base.currentWorkflowId,
    isLive w.runs workflowId = false
  held : ∀ workflowId ∈ op.held, op.kind.isTimer = true ∧ Started w.runs workflowId
  unfailed : op.task.isDone = false → ∀ k ∈ op.know, k.failed = false
  ended : op.task.isDone = true → op.held = none

/-- What is stored, and the ids that are used up. -/
structure Stored (w : World ι) : Prop where
  ids : (w.runs.map Run.workflowId).Nodup
  current : ∀ workflowId ∈ w.record.currentWorkflowId, Started w.runs workflowId
  started : ∀ workflowId, Started w.runs workflowId → workflowId ∈ w.used
  queued : ∀ workflowId ∈ w.queued, workflowId ∈ w.used
  once : w.queued.Nodup
  order : w.queued = w.startedFromQueue ++ w.record.queuedRuns.map fun run => run.workflowId

structure OverlapInv (w : World ι) : Prop where
  inOrder : InOrder w
  stored : Stored w
  relies : ∀ op ∈ w.ops, Relies w op
  fresh : ∀ op ∈ w.ops, op.kind.isTimer = true → op.task.isDone = false → ∀ k ∈ op.know,
    ∀ workflowId ∈ k.drawn, Fresh w workflowId
  slot : ∀ op ∈ w.ops, op.kind.isTimer = true → op.task.isDone = false → Occupied w op.held
  idle : (∀ op ∈ w.ops, op.held = none) → Occupied w none

theorem OverlapInv.kept (h : OverlapInv w) : OverlapKept w := by
  refine ⟨fun hpolicy => ?_, h.stored.once, h.stored.order⟩
  by_cases hheld : ∀ op ∈ w.ops, op.held = none
  · exact live_length_le_one h.stored.ids (h.idle hheld hpolicy).2
  · simp only [not_forall] at hheld
    obtain ⟨op, hop, hsome⟩ := hheld
    obtain ⟨workflowId, hid⟩ := Option.ne_none_iff_exists'.1 hsome
    have hgoes : op.task.isDone = false := by
      rw [← Bool.not_eq_true]
      exact fun hdone => hsome ((h.relies op hop).ended hdone)
    have hslot := h.slot op hop ((h.relies op hop).held workflowId hid).1 hgoes
    exact live_length_le_one h.stored.ids (hslot hpolicy).2

/-! ## One step of an operation -/

/-- What is started stays started, and what has ended does not come back. -/
structure Later (w v : World ι) : Prop where
  started : ∀ workflowId, Started w.runs workflowId → Started v.runs workflowId
  ended : ∀ workflowId, Started w.runs workflowId → isLive w.runs workflowId = false →
    isLive v.runs workflowId = false

variable {w v : World ι}

theorem Later.of_runs (h : v.runs = w.runs) : Later w v := by
  constructor
  · rw [h]
    exact fun _ hid => hid
  · rw [h]
    exact fun _ _ hid => hid

theorem Later.endRun (h : v.runs = endRun w.runs workflowId) : Later w v := by
  constructor
  · intro other hother
    rw [Started, h, endRun_ids]
    exact hother
  · intro other _ hended
    rw [← Bool.not_eq_true, h, isLive_endRun]
    rintro ⟨-, hlive⟩
    rw [hended] at hlive
    cases hlive

theorem Later.start (hnew : ¬ Started w.runs workflowId)
    (h : v.runs = w.runs ++ [⟨workflowId, occurrence, true⟩]) : Later w v := by
  constructor
  · intro other hother
    rw [h, started_append]
    exact .inl hother
  · intro other hother hended
    rw [← Bool.not_eq_true, h, isLive_append]
    rintro (hlive | rfl)
    · rw [hended] at hlive
      cases hlive
    · exact hnew hother

variable {op : Op ι}

theorem Relies.later (h : Relies w op) (hlater : Later w v) : Relies v op where
  handler := h.handler
  terminal := fun ended hkind =>
    ⟨hlater.started ended (h.terminal ended hkind).1,
      hlater.ended ended (h.terminal ended hkind).1 (h.terminal ended hkind).2⟩
  current := fun k hk workflowId hid => hlater.started workflowId (h.current k hk workflowId hid)
  free := fun k hk hfree workflowId hid =>
    hlater.ended workflowId (h.current k hk workflowId hid) (h.free k hk hfree workflowId hid)
  held := fun workflowId hid => ⟨(h.held workflowId hid).1,
    hlater.started workflowId (h.held workflowId hid).2⟩
  unfailed := h.unfailed
  ended := h.ended

/-- What a step of an operation leaves of the rest. -/
structure Moves (w v : World ι) (op op' : Op ι) : Prop where
  later : Later w v
  stored : Stored v
  relies : Relies v op'
  fresh : op.kind.isTimer = true → op'.task.isDone = false → ∀ k ∈ op'.know,
    ∀ workflowId ∈ k.drawn, Fresh v workflowId
  keeps : op.kind.isTimer = false → ∀ workflowId, Fresh w workflowId → Fresh v workflowId
  slot : op.kind.isTimer = true → Occupied v op'.held
  keepsSlot : op.kind.isTimer = false → ∀ held, Occupied w held → Occupied v held

variable {op op' : Op ι}

theorem OverlapInv.moves {place : Nat} {ordered : Control} (h : OverlapInv w)
    (hplace : w.ops[place]? = some op) (hgoes : op.task.isDone = false) (hkind : op'.kind = op.kind)
    (hinOrder : InOrder { v with ops := w.ops.set place op', ordered := ordered })
    (hmoves : Moves w v op op') :
    OverlapInv { v with ops := w.ops.set place op', ordered := ordered } := by
  have hstored : Stored { v with ops := w.ops.set place op', ordered := ordered } :=
    ⟨hmoves.stored.ids, hmoves.stored.current, hmoves.stored.started, hmoves.stored.queued,
      hmoves.stored.once, hmoves.stored.order⟩
  have hrelies : ∀ x, Relies v x →
      Relies { v with ops := w.ops.set place op', ordered := ordered } x :=
    fun x hx => hx.later (.of_runs rfl)
  -- only one handler of the timer is under way
  have halone : ∀ j x, j ≠ place → w.ops[j]? = some x → x.kind.isTimer = true →
      x.task.isDone = false → op.kind.isTimer = false := by
    intro j x hj hx htimer hlive
    rw [← Bool.not_eq_true]
    exact fun hop => hj (h.inOrder.serial j place x op hx hplace htimer hop hlive hgoes)
  refine ⟨hinOrder, hstored, ?_, ?_, ?_, ?_⟩
  · intro x hx
    obtain rfl | ⟨j, -, hj⟩ := mem_set_cases hx
    · exact hrelies _ hmoves.relies
    · exact hrelies _ ((h.relies x (List.mem_of_getElem? hj)).later hmoves.later)
  · intro x hx htimer hlive k hk workflowId hid
    obtain rfl | ⟨j, hj, hx⟩ := mem_set_cases hx
    · obtain ⟨h1, h2, h3⟩ := hmoves.fresh (hkind ▸ htimer) hlive k hk workflowId hid
      exact ⟨h1, h2, h3⟩
    · have hfresh := h.fresh x (List.mem_of_getElem? hx) htimer hlive k hk workflowId hid
      obtain ⟨h1, h2, h3⟩ := hmoves.keeps (halone j x hj hx htimer hlive) workflowId hfresh
      exact ⟨h1, h2, h3⟩
  · intro x hx htimer hlive
    obtain rfl | ⟨j, hj, hx⟩ := mem_set_cases hx
    · exact hmoves.slot (hkind ▸ htimer)
    · exact hmoves.keepsSlot (halone j x hj hx htimer hlive) _
        (h.slot x (List.mem_of_getElem? hx) htimer hlive)
  · intro hnone
    have hself : op'.held = none :=
      hnone op' (List.mem_set (List.getElem?_eq_some_iff.1 hplace).1 op')
    cases htimer : op.kind.isTimer with
    | true =>
      have hslot := hmoves.slot htimer
      rw [hself] at hslot
      exact hslot
    | false =>
      refine hmoves.keepsSlot htimer none (h.idle fun x hx => ?_)
      obtain ⟨j, hj⟩ := List.getElem?_of_mem hx
      by_cases hjp : j = place
      · rw [hjp, hplace] at hj
        cases hj
        by_contra hne
        obtain ⟨workflowId, hid⟩ := Option.ne_none_iff_exists'.1 hne
        rw [((h.relies op (List.mem_of_getElem? hplace)).held workflowId hid).1] at htimer
        cases htimer
      · refine hnone x (List.mem_of_getElem? (i := j) ?_)
        show (w.ops.set place op')[j]? = some x
        rw [List.getElem?_set_ne (Ne.symm hjp), hj]

/-- The record, the queue and the ids stay as they are, and nothing is started. -/
theorem Stored.stays (h : Stored w) (hrecord : v.record = w.record)
    (hids : v.runs.map Run.workflowId = w.runs.map Run.workflowId)
    (hused : ∀ workflowId ∈ w.used, workflowId ∈ v.used) (hqueued : v.queued = w.queued) :
    Stored v := by
  have hstarted : ∀ workflowId, Started v.runs workflowId ↔ Started w.runs workflowId := by
    intro workflowId
    rw [Started, Started, hids]
  constructor
  · rw [hids]
    exact h.ids
  · rw [hrecord]
    exact fun workflowId hid => (hstarted workflowId).2 (h.current workflowId hid)
  · exact fun workflowId hid =>
      hused workflowId (h.started workflowId ((hstarted workflowId).1 hid))
  · rw [hqueued]
    exact fun workflowId hid => hused workflowId (h.queued workflowId hid)
  · rw [hqueued]
    exact h.once
  · rw [World.startedFromQueue, hids, hrecord, hqueued]
    exact h.order

theorem Occupied.stays {held : Option ι} (h : Occupied w held) (hrecord : v.record = w.record)
    (hlive : ∀ workflowId, isLive v.runs workflowId = true → isLive w.runs workflowId = true) :
    Occupied v held := by
  unfold Occupied
  rw [hrecord]
  intro hpolicy
  obtain ⟨hqueue, hoccupant⟩ := h hpolicy
  exact ⟨hqueue, fun workflowId hid => hoccupant workflowId (hlive workflowId hid)⟩

/-- What a step leaves that only teaches the operation something, or that ends a run. -/
theorem OverlapInv.stays (h : OverlapInv w) (hop : op ∈ w.ops) (hgoes : op.task.isDone = false)
    (hrecord : v.record = w.record) (hids : v.runs.map Run.workflowId = w.runs.map Run.workflowId)
    (hlive : ∀ workflowId, isLive v.runs workflowId = true → isLive w.runs workflowId = true)
    (hused : ∀ workflowId ∈ w.used, workflowId ∈ v.used) (hqueued : v.queued = w.queued)
    (hrelies : Relies v op') (hheld : op'.held = op.held)
    (hdrawn : op.kind.isTimer = true → ∀ k ∈ op'.know, ∀ workflowId ∈ k.drawn, Fresh v workflowId ∨
      ∃ k' ∈ op.know, workflowId ∈ k'.drawn) :
    Moves w v op op' := by
  have hstarted : ∀ workflowId, Started v.runs workflowId ↔ Started w.runs workflowId := by
    intro workflowId
    rw [Started, Started, hids]
  have hfresh : ∀ workflowId, Fresh w workflowId → Fresh v workflowId := by
    intro workflowId hid
    refine ⟨hused workflowId hid.used, ?_, ?_⟩
    · rw [hqueued]
      exact hid.queued
    · rw [hstarted]
      exact hid.started
  refine ⟨⟨fun workflowId hid => (hstarted workflowId).2 hid, ?_⟩,
    h.stored.stays hrecord hids hused hqueued, hrelies, ?_, fun _ => hfresh, ?_, ?_⟩
  · intro workflowId _ hended
    rw [← Bool.not_eq_true]
    intro hback
    rw [hlive workflowId hback] at hended
    cases hended
  · intro htimer _ k hk workflowId hid
    obtain hnew | ⟨k', hk', hold⟩ := hdrawn htimer k hk workflowId hid
    · exact hnew
    · exact hfresh workflowId (h.fresh op hop htimer hgoes k' hk' workflowId hold)
  · intro htimer
    rw [hheld]
    exact (h.slot op hop htimer hgoes).stays hrecord hlive
  · exact fun _ held hoccupied => hoccupied.stays hrecord hlive

/-- What a handler holds when it is done. -/
theorem held_of_isDone (hsound : Sound op.kind op.know op.task) (hdone : op.task.isDone = true)
    (hfailed : ∀ k ∈ op.know, k.failed = false) : op.held = none := by
  obtain ⟨kind, task, know⟩ := op
  cases know with
  | none => rfl
  | some k =>
    cases task with
    | done =>
      rcases hsound k rfl with hfail | ⟨-, hheld⟩
      · rw [hfailed k rfl] at hfail
        cases hfail
      · exact hheld
    | _ => cases hdone

/-- An operation that has learnt no more than that runs have ended. -/
theorem Relies.learns (h : Relies w op) (hgoes : op.task.isDone = false)
    (hkind : op'.kind = op.kind) (hsound : Sound op'.kind op'.know op'.task)
    (hknow : ∀ k' ∈ op'.know, ∃ k ∈ op.know, k'.base = k.base ∧ k'.held = k.held ∧
      k'.failed = k.failed ∧ (k'.free = true →
      k.free = true ∨ ∀ workflowId ∈ k.base.currentWorkflowId, isLive w.runs workflowId = false)) :
    Relies w op' := by
  have hunfailed : ∀ k' ∈ op'.know, k'.failed = false := by
    intro k' hk'
    obtain ⟨k, hk, -, -, hfailed, -⟩ := hknow k' hk'
    rw [hfailed]
    exact h.unfailed hgoes k hk
  refine ⟨?_, ?_, ?_, ?_, ?_, fun _ => hunfailed, fun hdone =>
    held_of_isDone hsound hdone hunfailed⟩
  · rw [hkind]
    exact h.handler
  · rw [hkind]
    exact h.terminal
  · intro k' hk'
    obtain ⟨k, hk, hbase, -⟩ := hknow k' hk'
    rw [hbase]
    exact h.current k hk
  · intro k' hk' hfree
    obtain ⟨k, hk, hbase, -, -, hended⟩ := hknow k' hk'
    rw [hbase]
    obtain hbefore | hnow := hended hfree
    · exact h.free k hk hbefore
    · exact hnow
  · intro workflowId hid
    obtain ⟨k', hk', hid⟩ := Option.bind_eq_some_iff.1 hid
    obtain ⟨k, hk, -, hheld, -⟩ := hknow k' hk'
    rw [hkind]
    exact h.held workflowId (Option.bind_eq_some_iff.2 ⟨k, hk, hheld ▸ hid⟩)

omit [DecidableEq ι] in
theorem held_map (f : Know ι → Know ι) (hf : ∀ k, (f k).held = k.held) (task : Task ι) :
    ({ op with task := task, know := op.know.map f } : Op ι).held = op.held := by
  unfold Op.held
  cases op.know with
  | none => rfl
  | some k => exact hf k

omit [DecidableEq ι] in
theorem drawn_map (op : Op ι) (f : Know ι → Know ι) (hf : ∀ k, (f k).drawn = k.drawn) :
    ∀ k ∈ op.know.map f, ∀ workflowId ∈ k.drawn, ∃ k' ∈ op.know, workflowId ∈ k'.drawn := by
  intro k hk workflowId hid
  obtain ⟨k', hk', rfl⟩ := Option.map_eq_some_iff.1 hk
  rw [hf] at hid
  exact ⟨k', hk', hid⟩

variable {k : Know ι}

/-- Where the slot is known to be free, no run is live. -/
theorem not_live_of_free (hrelies : Relies w op) (hup : UpToDate w op) (hknow : op.know = some k)
    (hfree : k.free = true) (hpolicy : w.record.overlap ≠ .allow) (hoccupied : Occupied w none)
    (workflowId : ι) : isLive w.runs workflowId = false := by
  rw [← Bool.not_eq_true]
  intro hlive
  have hcurrent : w.record.currentWorkflowId = some workflowId :=
    (hoccupied hpolicy).2 workflowId hlive
  obtain hbase | ⟨-, hcleared⟩ := hup.base hknow
  · rw [hbase] at hcurrent
    rw [hrelies.free k hknow hfree workflowId hcurrent] at hlive
    cases hlive
  · rw [hcleared] at hcurrent
    cases hcurrent

variable {task : Task ι}

/-- A handler of the timer starts a run that is neither queued nor started. -/
theorem OverlapInv.launched (h : OverlapInv w) (hop : op ∈ w.ops) (hgoes : op.task.isDone = false)
    {scheduleRuns : List ι} (hup : UpToDate w op) (hknow : op.know = some k)
    (hlaunches : Launches op.kind k workflowId occurrence) (hnew : ¬ Started w.runs workflowId)
    (hsound : Sound op.kind (some (k.launch workflowId occurrence)) task) : Moves w { w with
        runs := w.runs ++ [⟨workflowId, occurrence, true⟩], scheduleRuns := scheduleRuns } op
      { op with task := task, know := some (k.launch workflowId occurrence) } := by
  have hrelies := h.relies op hop
  have hstored := h.stored
  have hrecord := hup.record_eq hknow
  have hfresh := h.fresh op hop hlaunches.timer hgoes k hknow workflowId hlaunches.drawn
  have hunfailed : k.failed = false := hrelies.unfailed hgoes k hknow
  have hlater : Later w { w with
      runs := w.runs ++ [⟨workflowId, occurrence, true⟩], scheduleRuns := scheduleRuns } :=
    .start hnew rfl
  have hlaterRelies := hrelies.later hlater
  have hnot : ∀ {Q : Prop}, op.kind.isTimer = false → Q := by
    intro Q hother
    rw [hlaunches.timer] at hother
    cases hother
  refine ⟨hlater, ⟨?_, ?_, ?_, hstored.queued, hstored.once, ?_⟩,
    ⟨hrelies.handler, hlaterRelies.terminal, ?_, ?_, ?_, ?_, ?_⟩, ?_, hnot, ?_, hnot⟩
  · exact nodup_append_run hstored.ids hnew
  · exact fun id hid => hlater.started id (hstored.current id hid)
  · intro id hid
    obtain hold | rfl := started_append.1 hid
    · exact hstored.started id hold
    · exact hfresh.used
  · rw [World.startedFromQueue, List.map_append, List.filter_append]
    simp only [List.map_cons, List.map_nil]
    rw [List.filter_singleton, decide_eq_false hfresh.queued]
    simp only [cond_false, List.append_nil]
    exact hstored.order
  · rintro k' ⟨⟩
    exact hlaterRelies.current k hknow
  · rintro k' ⟨⟩ hfree
    exact hlaterRelies.free k hknow hfree
  · intro id hid
    refine ⟨hlaunches.timer, ?_⟩
    replace hid : (if k.base.overlap = .allow then k.held else some workflowId) = some id := hid
    split_ifs at hid
    · exact (hlaterRelies.held id (Option.bind_eq_some_iff.2 ⟨k, hknow, hid⟩)).2
    · cases hid
      exact started_append.2 (.inr rfl)
  · rintro - k' ⟨⟩
    exact hunfailed
  · intro hdone
    exact @held_of_isDone ι _ ⟨op.kind, task, some (k.launch workflowId occurrence)⟩ hsound hdone
      (by rintro k' ⟨⟩; exact hunfailed)
  · rintro - - k' ⟨⟩ id hid
    cases hid
  · intro htimer hpolicy
    replace hpolicy : w.record.overlap ≠ .allow := hpolicy
    have hbase : k.base.overlap ≠ .allow := by
      rw [hrecord] at hpolicy
      exact hpolicy
    obtain ⟨hfree, hnone⟩ := hlaunches.slot.resolve_left hbase
    have hheld : op.held = none := by
      rw [Op.held, hknow]
      exact hnone
    have hoccupied := h.slot op hop htimer hgoes
    rw [hheld] at hoccupied
    have hholds : (k.launch workflowId occurrence).held = some workflowId := if_neg hbase
    refine ⟨fun _ => ?_, fun id hid => ?_⟩
    · show w.record.queuedRuns = []
      rw [hrecord]
      exact hlaunches.queue.resolve_left hbase
    · show (k.launch workflowId occurrence).held.or _ = some id
      rw [hholds]
      obtain hlive | rfl := isLive_append.1 hid
      · rw [not_live_of_free hrelies hup hknow hfree hpolicy hoccupied id] at hlive
        cases hlive
      · rfl

variable {state : ScheduleState ι}

/-- What a write leaves queued. -/
theorem write_queued_eq (kind : Kind ι) (started : Option ι)
    (h : ∀ run ∈ state.queuedRuns, run.workflowId ∈ w.queued) :
    (w.write kind state started).queued = w.queued := by
  have hnone : (state.queuedRuns.map fun run => run.workflowId).filter
      (fun workflowId => decide (workflowId ∉ w.queued)) = [] := by
    rw [List.filter_eq_nil_iff]
    intro workflowId hmem
    obtain ⟨run, hrun, rfl⟩ := List.mem_map.1 hmem
    simpa using h run hrun
  show w.queued ++ _ = w.queued
  rw [hnone, List.append_nil]

theorem Stored.waiting (h : Stored w) (hrun : run ∈ w.record.queuedRuns) :
    run.workflowId ∈ w.queued := by
  rw [h.order]
  exact List.mem_append_right _ (List.mem_map.2 ⟨run, hrun, rfl⟩)

section

variable (h : OverlapInv w)

include h

section

variable (hop : op ∈ w.ops)

include hop

section

variable (hgoes : op.task.isDone = false)

include hgoes

/-- The first queued run is started and recorded as the current one. -/
theorem OverlapInv.drained (hup : UpToDate w op) (hknow : op.know = some k)
    (hdrains : Drains op.kind k workflowId occurrence state) (hnew : ¬ Started w.runs workflowId)
    (hstate : v.record = state) (hruns : v.runs = w.runs ++ [⟨workflowId, occurrence, true⟩])
    (hused : v.used = w.used)
    (hqueued : (∀ run ∈ state.queuedRuns, run.workflowId ∈ w.queued) → v.queued = w.queued) :
    Moves w v op { op with task := task, know := some (k.drain state) } := by
  have hrelies := h.relies op hop
  have hstored := h.stored
  have hrecord := hup.record_eq hknow
  obtain ⟨run, rest, hqueue, rfl, -, hafter⟩ := hdrains.queue
  have hwaiting : w.record.queuedRuns = run :: rest := by
    rw [hrecord]
    exact hqueue
  have hmem : run.workflowId ∈ w.queued := hstored.waiting (by rw [hwaiting]; simp)
  have hsame : v.queued = w.queued := by
    refine hqueued fun other hother => hstored.waiting ?_
    rw [hafter] at hother
    rw [hwaiting]
    exact List.mem_cons_of_mem run hother
  have hlater : Later w v := .start hnew hruns
  have hcurrent : Started v.runs run.workflowId := by
    rw [hruns, started_append]
    exact .inr rfl
  have hheld : op.held = none := by
    rw [Op.held, hknow]
    exact hdrains.held
  have hfresh : ∀ id, Fresh w id → Fresh v id := by
    intro id hid
    refine ⟨?_, ?_, ?_⟩
    · rw [hused]
      exact hid.used
    · rw [hsame]
      exact hid.queued
    · rw [hruns, started_append]
      rintro (hold | rfl)
      · exact hid.started hold
      · exact hid.queued hmem
  have hslot : ∀ held, Occupied w held → Occupied v held := by
    intro held hoccupied hpolicy
    have hpolicy' : w.record.overlap ≠ .allow := by
      rw [hstate, hafter] at hpolicy
      rw [hrecord]
      exact hpolicy
    cases held with
    | some id =>
      have hempty := (hoccupied hpolicy').1 (by simp)
      rw [hwaiting] at hempty
      cases hempty
    | none =>
      refine ⟨fun hne => (hne rfl).elim, fun id hid => ?_⟩
      rw [hstate, hafter]
      rw [hruns] at hid
      obtain hlive | rfl := isLive_append.1 hid
      · rw [not_live_of_free hrelies hup hknow hdrains.free hpolicy' hoccupied id] at hlive
        cases hlive
      · rfl
  have hnone : ({ op with task := task, know := some (k.drain state) } : Op ι).held = none :=
    hdrains.held
  refine ⟨hlater, ⟨?_, ?_, ?_, ?_, ?_, ?_⟩,
    ⟨hrelies.handler, (hrelies.later hlater).terminal, ?_, ?_, ?_, ?_, fun _ => hnone⟩, ?_,
    fun _ => hfresh, ?_, fun _ => hslot⟩
  · rw [hruns]
    exact nodup_append_run hstored.ids hnew
  · rw [hstate, hafter]
    rintro id ⟨⟩
    exact hcurrent
  · intro id hid
    rw [hused]
    rw [hruns] at hid
    obtain hold | rfl := started_append.1 hid
    · exact hstored.started id hold
    · exact hstored.queued _ hmem
  · rw [hsame, hused]
    exact hstored.queued
  · rw [hsame]
    exact hstored.once
  · rw [hsame, World.startedFromQueue, hruns, hsame, hstate, hafter, List.map_append,
      List.filter_append]
    conv_lhs => rw [hstored.order, hwaiting]
    simp [World.startedFromQueue, hmem]
  · rintro k' ⟨⟩
    rw [show (k.drain state).base = state from rfl, hafter]
    rintro id ⟨⟩
    exact hcurrent
  · rintro k' ⟨⟩ hfree
    cases hfree
  · rw [hnone]
    rintro id ⟨⟩
  · rintro - k' ⟨⟩
    exact hrelies.unfailed hgoes k hknow
  · rintro htimer - k' ⟨⟩ id hid
    exact hfresh id (h.fresh op hop htimer hgoes k hknow id hid)
  · intro htimer
    have hoccupied := h.slot op hop htimer hgoes
    rw [hheld] at hoccupied
    rw [hnone]
    exact hslot none hoccupied

/-- The queue that a handler of the timer writes: it is as it was, or an id was added that is
neither queued nor started. -/
theorem OverlapInv.stored_write (htimer : op.kind.isTimer = true) (hup : UpToDate w op)
    (hknow : op.know = some k) (hwrites : TimerWrites k state) (hstate : v.record = state)
    (hruns : v.runs = w.runs) (hused : v.used = w.used)
    (hqueued : v.queued = (w.write op.kind state none).queued)
    (hcurrent : ∀ workflowId ∈ state.currentWorkflowId, Started w.runs workflowId) : Stored v := by
  have hstored := h.stored
  have hwaiting : w.record.queuedRuns = k.base.queuedRuns := by rw [hup.record_eq hknow]
  have hids : ∀ queued, v.queued = queued → (∀ id ∈ queued, id ∈ w.used) → queued.Nodup →
      queued = (w.runs.map Run.workflowId).filter (· ∈ queued) ++
        state.queuedRuns.map (fun run => run.workflowId) → Stored v := by
    intro queued heq husedQueued honce horder
    refine ⟨?_, ?_, ?_, ?_, ?_, ?_⟩
    · rw [hruns]
      exact hstored.ids
    · rw [hstate, hruns]
      exact hcurrent
    · rw [hruns, hused]
      exact hstored.started
    · rw [heq, hused]
      exact husedQueued
    · rw [heq]
      exact honce
    · rw [World.startedFromQueue, hruns, hstate, heq]
      exact horder
  obtain hsame | ⟨-, run, o, hadded, hdrawn, -⟩ := hwrites.queue
  · refine hids w.queued ?_ hstored.queued hstored.once ?_
    · rw [hqueued]
      refine write_queued_eq _ _ fun run hrun => hstored.waiting ?_
      rw [hwaiting, ← hsame]
      exact hrun
    · rw [hsame, ← hwaiting]
      exact hstored.order
  · have hfresh := h.fresh op hop htimer hgoes k hknow run.workflowId hdrawn
    have hlist : v.queued = w.queued ++ [run.workflowId] := by
      rw [hqueued]
      show w.queued ++ _ = _
      rw [hadded, ← hwaiting, List.map_append, List.filter_append]
      congr 1
      have hnone : (w.record.queuedRuns.map fun run => run.workflowId).filter
          (fun workflowId => decide (workflowId ∉ w.queued)) = [] := by
        rw [List.filter_eq_nil_iff]
        intro id hid
        obtain ⟨other, hother, rfl⟩ := List.mem_map.1 hid
        simpa using hstored.waiting hother
      rw [hnone]
      simp [hfresh.queued]
    refine hids _ hlist ?_ ?_ ?_
    · intro id hid
      rcases List.mem_append.1 hid with hid | hid
      · exact hstored.queued id hid
      · rw [List.mem_singleton.1 hid]
        exact hfresh.used
    · refine List.nodup_append.2 ⟨hstored.once, List.nodup_singleton _,
        fun id hid last hlast heq => ?_⟩
      obtain rfl := List.mem_singleton.1 hlast
      exact hfresh.queued (heq ▸ hid)
    · have hfilter : (w.runs.map Run.workflowId).filter (· ∈ w.queued ++ [run.workflowId]) =
          w.startedFromQueue := by
        refine List.filter_congr fun id hid => ?_
        have hne : id ≠ run.workflowId := by
          rintro rfl
          exact hfresh.started hid
        simp [hne]
      rw [hfilter, hadded, ← hwaiting, List.map_append, ← List.append_assoc, ← hstored.order]
      rfl

theorem OverlapInv.wroteTimer (htimer : op.kind.isTimer = true) (hup : UpToDate w op)
    (hknow : op.know = some k) (hwrites : TimerWrites k state) (hstate : v.record = state)
    (hruns : v.runs = w.runs) (hused : v.used = w.used)
    (hqueued : v.queued = (w.write op.kind state none).queued) :
    Moves w v op { op with task := task, know := some (k.write state) } := by
  have hrelies := h.relies op hop
  have hrecord := hup.record_eq hknow
  have hlater : Later w v := .of_runs hruns
  have hheld : op.held = k.held := by
    rw [Op.held, hknow]
    rfl
  have hcurrent : ∀ id ∈ state.currentWorkflowId, Started w.runs id := by
    intro id hid
    cases hk : k.held with
    | some other =>
      have hsame := hwrites.current.1 other hk
      rw [hsame] at hid
      obtain rfl := Option.some.inj hid
      exact (hrelies.held other (hheld.trans hk)).2
    | none =>
      obtain hsame | ⟨-, hnone⟩ := hwrites.current.2 hk
      · exact hrelies.current k hknow id (hsame ▸ hid)
      · rw [hnone] at hid
        cases hid
  have hnot : ∀ {Q : Prop}, op.kind.isTimer = false → Q := by
    intro Q hother
    rw [htimer] at hother
    cases hother
  refine ⟨hlater, h.stored_write hop hgoes htimer hup hknow hwrites hstate hruns hused hqueued
      hcurrent,
    ⟨hrelies.handler, (hrelies.later hlater).terminal, ?_, ?_, fun id hid => (by cases hid), ?_,
      fun _ => rfl⟩, ?_, hnot, fun _ hpolicy => ?_, hnot⟩
  · rintro k' ⟨⟩
    rw [hruns]
    exact hcurrent
  · rintro k' ⟨⟩ hfree id hid
    replace hid : state.currentWorkflowId = some id := hid
    replace hfree : (state.currentWorkflowId.isNone || k.held.isNone && k.free) = true := hfree
    rw [hid] at hfree
    simp only [Option.isNone_some, Bool.false_or, Bool.and_eq_true, Option.isNone_iff_eq_none]
      at hfree
    obtain hsame | ⟨-, hnone⟩ := hwrites.current.2 hfree.1
    · rw [hruns]
      exact hrelies.free k hknow hfree.2 id (hsame ▸ hid)
    · rw [hid] at hnone
      cases hnone
  · rintro - k' ⟨⟩
    exact hrelies.unfailed hgoes k hknow
  · rintro - - k' ⟨⟩ id hid
    cases hid
  · have hpolicy' : w.record.overlap ≠ .allow := by
      rw [hstate, hwrites.overlap] at hpolicy
      rw [hrecord]
      exact hpolicy
    have hoccupied := h.slot op hop htimer hgoes
    rw [hheld] at hoccupied
    refine ⟨fun hne => (hne rfl).elim, fun id hid => ?_⟩
    rw [hruns] at hid
    show v.record.currentWorkflowId = some id
    rw [hstate]
    cases hk : k.held with
    | some other =>
      rw [hk] at hoccupied
      rw [hwrites.current.1 other hk]
      exact (hoccupied hpolicy').2 id hid
    | none =>
      rw [hk] at hoccupied
      have hlive : w.record.currentWorkflowId = some id := (hoccupied hpolicy').2 id hid
      obtain hsame | ⟨hfree, -⟩ := hwrites.current.2 hk
      · rw [hsame]
        obtain hbase | ⟨-, hcleared⟩ := hup.base hknow
        · rw [← hbase]
          exact hlive
        · rw [hcleared] at hlive
          cases hlive
      · rw [not_live_of_free hrelies hup hknow hfree hpolicy' hoccupied id] at hid
        cases hid

theorem OverlapInv.wroteTerminal {ended : ι} (hkind : op.kind = .terminal ended)
    (hup : UpToDate w op) (hknow : op.know = some k)
    (hcurrent : k.base.currentWorkflowId = some ended)
    (hstate : v.record = clearScheduleCurrentWorkflow k.base) (hruns : v.runs = w.runs)
    (hused : v.used = w.used)
    (hqueued : v.queued = (w.write op.kind (clearScheduleCurrentWorkflow k.base) none).queued) :
    Moves w v op
      { op with task := task, know := some (k.write (clearScheduleCurrentWorkflow k.base)) } := by
  have hrelies := h.relies op hop
  have hstored := h.stored
  have hlater : Later w v := .of_runs hruns
  have hbase : w.record = k.base := by
    obtain hbase | ⟨htimer, -⟩ := hup.base hknow
    · exact hbase
    · rw [hkind] at htimer
      cases htimer
  have hsame : v.queued = w.queued := by
    rw [hqueued]
    refine write_queued_eq _ _ fun run hrun => hstored.waiting ?_
    rw [hbase]
    exact hrun
  refine ⟨hlater, ⟨?_, ?_, ?_, ?_, ?_, ?_⟩,
    ⟨hrelies.handler, (hrelies.later hlater).terminal, ?_, ?_, fun id hid => (by cases hid), ?_,
      fun _ => rfl⟩, fun htimer => ?_, fun _ id hid => ⟨?_, ?_, ?_⟩, fun htimer => ?_,
    fun _ held hoccupied hpolicy => ?_⟩
  · rw [hruns]
    exact hstored.ids
  · rw [hstate]
    rintro id ⟨⟩
  · rw [hruns, hused]
    exact hstored.started
  · rw [hsame, hused]
    exact hstored.queued
  · rw [hsame]
    exact hstored.once
  · rw [World.startedFromQueue, hruns, hsame, hstate]
    have horder := hstored.order
    rw [hbase] at horder
    exact horder
  · rintro k' ⟨⟩ id ⟨⟩
  · rintro k' ⟨⟩ - id ⟨⟩
  · rintro - k' ⟨⟩
    exact hrelies.unfailed hgoes k hknow
  · rw [hkind] at htimer
    cases htimer
  · rw [hused]
    exact hid.used
  · rw [hsame]
    exact hid.queued
  · rw [hruns]
    exact hid.started
  · rw [hkind] at htimer
    cases htimer
  · rw [hstate] at hpolicy ⊢
    obtain ⟨hqueue, hoccupant⟩ := hoccupied (by rw [hbase]; exact hpolicy)
    rw [hbase] at hqueue hoccupant
    refine ⟨hqueue, fun id hid => ?_⟩
    rw [hruns] at hid
    have hlive := hoccupant id hid
    cases held with
    | some other => exact hlive
    | none =>
      -- the run that is current has ended, so nothing is live
      rw [Option.none_or, hcurrent] at hlive
      cases hlive
      rw [(hrelies.terminal ended hkind).2] at hid
      cases hid

theorem OverlapInv.loaded (hfirst : op.know = none) (task : Task ι) :
    Moves w w op { op with task := task, know := some (Know.load op.kind w.record) } := by
  have hrelies := h.relies op hop
  have hheld : op.held = none := by
    rw [Op.held, hfirst]
    rfl
  refine h.stays hop hgoes rfl rfl (fun _ hid => hid) (fun _ hid => hid) rfl
    ⟨hrelies.handler, hrelies.terminal, ?_, ?_, fun id hid => (by cases hid), ?_, fun _ => rfl⟩
    hheld.symm ?_
  · rintro k ⟨⟩
    exact h.stored.current
  · rintro k ⟨⟩ hfree id hid
    replace hid : w.record.currentWorkflowId = some id := hid
    have hkind : op.kind = .terminal id := by simpa [Know.load, hid] using hfree
    exact (hrelies.terminal id hkind).2
  · rintro - k ⟨⟩
    rfl
  · rintro - k ⟨⟩ id ⟨⟩

end

end

end

theorem OverlapInv.steps {ok : Bool} (h : OverlapInv w) (hop : op ∈ w.ops)
    (hgoes : op.task.isDone = false) (hkind : op'.kind = op.kind) (hsteps : Steps w op ok v op')
    (hsound : Sound op'.kind op'.know op'.task)
    (hup : ok = true → op.task.acts = true → UpToDate w op)
    (hstranded : ok = false → op.task.writes = true → op.held = none) : Moves w v op op' := by
  have hrelies := h.relies op hop
  cases hsteps with
  | went task =>
    refine h.stays hop hgoes rfl rfl (fun _ hid => hid) (fun _ hid => hid) rfl
      (hrelies.learns hgoes hkind hsound fun k hk => ⟨k, hk, rfl, rfl, rfl, .inl⟩) rfl
      fun _ k hk id hid => .inr ⟨k, hk, hid⟩
  | settled task workflowId =>
    have hlater : Later w (w.settle (some workflowId)) := .of_runs rfl
    refine h.stays hop hgoes rfl rfl (fun _ hid => hid) (fun _ hid => hid) rfl
      ((hrelies.later hlater).learns hgoes hkind hsound fun k hk => ⟨k, hk, rfl, rfl, rfl, .inl⟩)
        rfl
      fun _ k hk id hid => .inr ⟨k, hk, hid⟩
  | loaded task hfirst => exact h.loaded hop hgoes hfirst task
  | drew task workflowId hnew =>
    have hlater : Later w { w with used := workflowId :: w.used } := .of_runs rfl
    refine h.stays hop hgoes rfl rfl (fun _ hid => hid)
      (fun _ hid => List.mem_cons_of_mem workflowId hid) rfl
      ((hrelies.later hlater).learns hgoes hkind hsound ?_)
      (held_map (fun k => k.draw workflowId) (fun _ => rfl) task) ?_
    · intro k' hk'
      obtain ⟨k, hk, rfl⟩ := Option.map_eq_some_iff.1 hk'
      exact ⟨k, hk, rfl, rfl, rfl, .inl⟩
    · intro _ k' hk' id hid
      obtain ⟨k, hk, rfl⟩ := Option.map_eq_some_iff.1 hk'
      cases hid
      exact .inl ⟨List.mem_cons_self, fun hqueued => hnew (h.stored.queued _ hqueued),
        fun hstarted => hnew (h.stored.started _ hstarted)⟩
  | found task workflowId hended =>
    refine h.stays hop hgoes rfl rfl (fun _ hid => hid) (fun _ hid => hid) rfl
      (hrelies.learns hgoes hkind hsound ?_)
      (held_map (fun k => k.ended workflowId) (fun _ => rfl) task)
      fun _ k hk id hid => .inr (drawn_map op (fun k => k.ended workflowId)
        (fun _ => rfl) k hk id hid)
    intro k' hk'
    obtain ⟨k, hk, rfl⟩ := Option.map_eq_some_iff.1 hk'
    refine ⟨k, hk, rfl, rfl, rfl, fun hfree => ?_⟩
    obtain hbefore | hcurrent : k.free = true ∨ k.base.currentWorkflowId = some workflowId := by
      simpa [Know.ended] using hfree
    · exact .inl hbefore
    · refine .inr fun id hid => ?_
      obtain rfl := Option.some.inj (hcurrent.symm.trans hid)
      exact hended
  | cancelled task workflowId =>
    have hlater : Later w { w with runs := endRun w.runs workflowId } := .endRun rfl
    refine h.stays hop hgoes rfl (endRun_ids _ _) (fun _ hid => (isLive_endRun.1 hid).2)
      (fun _ hid => hid) rfl ((hrelies.later hlater).learns hgoes hkind hsound ?_)
      (held_map (fun k => k.ended workflowId) (fun _ => rfl) task)
      fun _ k hk id hid => .inr (drawn_map op (fun k => k.ended workflowId)
        (fun _ => rfl) k hk id hid)
    intro k' hk'
    obtain ⟨k, hk, rfl⟩ := Option.map_eq_some_iff.1 hk'
    refine ⟨k, hk, rfl, rfl, rfl, fun hfree => ?_⟩
    obtain hbefore | hcurrent : k.free = true ∨ k.base.currentWorkflowId = some workflowId := by
      simpa [Know.ended] using hfree
    · exact .inl hbefore
    · refine .inr fun id hid => ?_
      obtain rfl := Option.some.inj (hcurrent.symm.trans hid)
      rw [← Bool.not_eq_true, isLive_endRun]
      exact fun hlive => hlive.1 rfl
  | failed task hwrites hok hdone =>
    have hnone := hstranded hok hwrites
    have hheld : ({ op with task := task, know := op.know.map Know.fail } : Op ι).held = none :=
      (held_map Know.fail (fun _ => rfl) task).trans hnone
    have hknow : ∀ k' ∈ op.know.map Know.fail, ∃ k ∈ op.know, k'.base = k.base ∧
        k'.free = k.free := by
      intro k' hk'
      obtain ⟨k, hk, rfl⟩ := Option.map_eq_some_iff.1 hk'
      exact ⟨k, hk, rfl, rfl⟩
    refine h.stays hop hgoes rfl rfl (fun _ hid => hid) (fun _ hid => hid) rfl
      ⟨hrelies.handler, hrelies.terminal, ?_, ?_, ?_, ?_, fun _ => hheld⟩ (hheld.trans hnone.symm)
      fun _ k hk id hid => .inr (drawn_map op Know.fail (fun _ => rfl) k hk id hid)
    · intro k' hk'
      obtain ⟨k, hk, hbase, -⟩ := hknow k' hk'
      rw [hbase]
      exact hrelies.current k hk
    · intro k' hk' hfree
      obtain ⟨k, hk, hbase, hsame⟩ := hknow k' hk'
      rw [hbase]
      exact hrelies.free k hk (hsame ▸ hfree)
    · rw [hheld]
      rintro id ⟨⟩
    · intro hlive
      rw [show task.isDone = false from hlive] at hdone
      cases hdone
  | launched task k workflowId occurrence scheduleRuns hok hacts hknow hlaunches hnew =>
    exact h.launched hop hgoes (hup hok hacts) hknow hlaunches hnew hsound
  | drained task k workflowId occurrence state scheduleRuns hok hacts hknow hdrains hnew =>
    exact h.drained hop hgoes (hup hok hacts) hknow hdrains hnew rfl rfl rfl
      fun hqueue => write_queued_eq op.kind (some workflowId) hqueue
  | wrote task k state scheduleRuns hok hacts hknow hwrites =>
    have hhandler := hrelies.handler
    obtain ⟨kind, optask, know⟩ := op
    cases kind with
    | timer fireAt =>
      exact h.wroteTimer hop hgoes rfl (hup hok hacts) hknow hwrites rfl rfl rfl rfl
    | terminal workflowId =>
      obtain ⟨hcurrent, rfl⟩ := hwrites
      exact h.wroteTerminal hop hgoes rfl (hup hok hacts) hknow hcurrent rfl rfl rfl rfl
    | _ => cases hhandler

/-! ## Runs -/

/-- Time passes, or a run ends. -/
theorem OverlapInv.passes (h : OverlapInv w) (hinOrder : InOrder v) (hops : v.ops = w.ops)
    (hrecord : v.record = w.record) (hids : v.runs.map Run.workflowId = w.runs.map Run.workflowId)
    (hlive : ∀ workflowId, isLive v.runs workflowId = true → isLive w.runs workflowId = true)
    (hused : v.used = w.used) (hqueued : v.queued = w.queued) : OverlapInv v := by
  have hstarted : ∀ workflowId, Started v.runs workflowId ↔ Started w.runs workflowId := by
    intro workflowId
    rw [Started, Started, hids]
  have hlater : Later w v := by
    refine ⟨fun workflowId hid => (hstarted workflowId).2 hid, fun workflowId _ hended => ?_⟩
    rw [← Bool.not_eq_true]
    intro hback
    rw [hlive workflowId hback] at hended
    cases hended
  refine ⟨hinOrder, h.stored.stays hrecord hids (fun _ hid => hused ▸ hid) hqueued, ?_, ?_, ?_, ?_⟩
  · rw [hops]
    exact fun op hop => (h.relies op hop).later hlater
  · rw [hops]
    intro op hop htimer hgoes k hk workflowId hid
    have hfresh := h.fresh op hop htimer hgoes k hk workflowId hid
    refine ⟨?_, ?_, ?_⟩
    · rw [hused]
      exact hfresh.used
    · rw [hqueued]
      exact hfresh.queued
    · rw [hstarted]
      exact hfresh.started
  · rw [hops]
    exact fun op hop htimer hgoes => (h.slot op hop htimer hgoes).stays hrecord hlive
  · rw [hops]
    exact fun hnone => (h.idle hnone).stays hrecord hlive

variable {spec : ScheduleSpec}

theorem OverlapInv.called {kind : Kind ι} (h : OverlapInv w) (hmay : mayCall w kind = true)
    (hcontrol : kind.isControl = false)
    (hinOrder : InOrder { w with ops := w.ops ++ [⟨kind, kind.task spec, none⟩] }) :
    OverlapInv { w with ops := w.ops ++ [⟨kind, kind.task spec, none⟩] } := by
  have hnew : Relies w ⟨kind, kind.task spec, none⟩ := by
    refine ⟨hcontrol, fun ended hkind => ?_, fun k hk => (by cases hk), fun k hk => (by cases hk),
      fun id hid => (by cases hid), fun _ k hk => (by cases hk), fun _ => rfl⟩
    obtain rfl : kind = .terminal ended := hkind
    obtain ⟨hstarted, hended⟩ := Bool.and_eq_true_iff.1 hmay
    exact ⟨by simpa [Started] using hstarted, by simpa using hended⟩
  -- no handler of the timer is under way when another is called
  have hnobody : kind.isTimer = true → ∀ op ∈ w.ops, op.held = none := by
    intro htimer op hop
    by_contra hne
    obtain ⟨workflowId, hid⟩ := Option.ne_none_iff_exists'.1 hne
    have htimer' := ((h.relies op hop).held workflowId hid).1
    refine hne ((h.relies op hop).ended ?_)
    cases kind with
    | timer fireAt =>
      have hall := List.all_eq_true.1 (Bool.and_eq_true_iff.1 hmay).2 op hop
      simpa [htimer'] using hall
    | _ => cases htimer
  have hlater : Later w { w with ops := w.ops ++ [⟨kind, kind.task spec, none⟩] } := .of_runs rfl
  refine ⟨hinOrder, h.stored.stays rfl rfl (fun _ hid => hid) rfl, ?_, ?_, ?_, ?_⟩
  · intro op hop
    rcases List.mem_append.1 hop with hop | hop
    · exact (h.relies op hop).later hlater
    · rw [List.mem_singleton.1 hop]
      exact hnew.later hlater
  · intro op hop htimer hgoes k hk workflowId hid
    rcases List.mem_append.1 hop with hop | hop
    · have hfresh := h.fresh op hop htimer hgoes k hk workflowId hid
      exact ⟨hfresh.used, hfresh.queued, hfresh.started⟩
    · rw [List.mem_singleton.1 hop] at hk
      cases hk
  · intro op hop htimer hgoes
    rcases List.mem_append.1 hop with hop | hop
    · exact h.slot op hop htimer hgoes
    · rw [List.mem_singleton.1 hop] at htimer ⊢
      exact h.idle (hnobody htimer)
  · exact fun hnone => h.idle fun op hop => hnone op (List.mem_append_left _ hop)

theorem OverlapInv.step {w w' : World ι} {event : Event ι} (h : OverlapInv w)
    (hup : ActsUpToDate w event) (hstranded : NotStranded w event)
    (hstep : (scheduleMachine spec).step w event = some w') : OverlapInv w' := by
  have hhappens := step_happens h.inOrder hup hstep
  have hinOrder := h.inOrder.step hhappens
  cases hhappens with
  | ticked now => exact h.passes hinOrder rfl rfl rfl (fun _ hid => hid) rfl rfl
  | called kind hmay => exact h.called hmay hstranded hinOrder
  | advanced place ok drawn op op' v hplace hperform hgoes hsteps hsound hkind hup' ordered
    hordered =>
    exact h.moves hplace hgoes hkind hinOrder
      (h.steps (List.mem_of_getElem? hplace) hgoes hkind hsteps hsound hup' (hstranded op hplace))
  | finished workflowId =>
    exact h.passes hinOrder rfl rfl (endRun_ids _ _) (fun _ hid => (isLive_endRun.1 hid).2) rfl rfl
  | crashed =>
    exact ⟨hinOrder, h.stored.stays rfl rfl (fun _ hid => hid) rfl, by simp, by simp, by simp,
      fun _ => h.idle hstranded⟩

theorem OverlapInv.create (overlap : ScheduleOverlapPolicy) (backfill : Bool) (nextFireAt : Nat) :
    OverlapInv (World.create overlap backfill nextFireAt : World ι) := by
  refine ⟨InOrder.create _ _ _, ⟨List.nodup_nil, ?_, ?_, ?_, List.nodup_nil, rfl⟩, ?_, ?_, ?_, ?_⟩
  · rintro id ⟨⟩
  · intro id hid
    cases hid
  · intro id hid
    cases hid
  · simp [World.create]
  · simp [World.create]
  · simp [World.create]
  · exact fun _ _ => ⟨fun hne => (hne rfl).elim, fun id hid => (by cases hid)⟩

/-- Where no started run is lost before it is recorded and no operation acts on a record that is out
of date, at most one run occupies the slot, and the queued runs are started in order, each once. -/
theorem overlap_kept (spec : ScheduleSpec) (overlap : ScheduleOverlapPolicy) (backfill : Bool)
    (nextFireAt : Nat) {events : List (Event ι)}
    (hsteps : (scheduleMachine spec).EveryStep
      (fun w event => ActsUpToDate w event ∧ NotStranded w event)
      (World.create overlap backfill nextFireAt) events) :
    (scheduleMachine spec).EveryState OverlapKept (World.create overlap backfill nextFireAt)
      events :=
  Machine.EveryState.mono (fun _ hw => hw.kept)
    (Machine.everyState_of_invariant (I := OverlapInv)
      (fun _ _ _ hw hevent hstep => hw.step hevent.1 hevent.2 hstep)
      (OverlapInv.create overlap backfill nextFireAt) hsteps)

/-- The handler of the third timer has found the first run live when this run ends and the queued
one is started; it puts its own run into the queue as it read it and writes that back. -/
def endedMeanwhile : List (Event Nat) :=
  [Event.tick 10, .call (.timer 10)] ++ steps 0 5 7 ++ [Event.tick 20, .call (.timer 20)] ++
    steps 1 6 8 ++
    [Event.tick 30, .call (.timer 30)] ++ steps 2 3 0 ++ [Event.finish 7, .call (.terminal 7)] ++
    steps 3 3 0 ++ steps 2 3 9

theorem started_run_queued_again : ¬ (scheduleMachine everyTen).EveryState OverlapKept
    (World.create .queue false 10) endedMeanwhile := by
  intro h
  exact h.final.not_started (show ⟨8, 20, some 20⟩ ∈ _ by decide) (by decide)

/-- A run is queued while the first is live, and started when that has ended. -/
def queuedAndDrained : List (Event Nat) :=
  [Event.tick 10, .call (.timer 10)] ++ steps 0 5 7 ++ [Event.tick 20, .call (.timer 20)] ++
    steps 1 6 8 ++
    [Event.finish 7, .call (.terminal 7)] ++ steps 2 3 0

theorem queuedAndDrained_kept : (scheduleMachine everyTen).EveryState OverlapKept
      (World.create .queue false 10) queuedAndDrained ∧
    ((scheduleMachine everyTen).final (World.create .queue false 10)
      queuedAndDrained).startedFromQueue = [8] :=
  ⟨overlap_kept everyTen .queue false 10 (by decide), by decide⟩

end Weft.Schedules
