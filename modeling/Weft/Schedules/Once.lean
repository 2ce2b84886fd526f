import Weft.Schedules.Control

/-! Each occurrence is launched at most once, where no handler is cut off between taking an
occurrence and the write that moves `nextFireAt` past it. -/

namespace Weft.Schedules
open Weft.Lib

universe u

variable {ι : Type u} [DecidableEq ι]

/-- The occurrences that were launched. -/
def World.launchedOccurrences (w : World ι) : List Nat := w.runs.filterMap Run.occurrence

/-- No occurrence was launched twice. -/
def OncePerOccurrence (w : World ι) : Prop := w.launchedOccurrences.Nodup

instance (w : World ι) : Decidable (OncePerOccurrence w) :=
  inferInstanceAs (Decidable w.launchedOccurrences.Nodup)

/-- The operation has taken an occurrence that `nextFireAt` has not passed. -/
def Op.begun (op : Op ι) : Bool := op.know.any fun k => k.begun

/-- No crash and no failed write cuts a handler off that has taken an occurrence, and no call
changes the schedule. -/
def NotCutOff (w : World ι) : Event ι → Prop
  | .crash => ∀ op ∈ w.ops, op.begun = false
  | .advance place ok _ => ∀ op ∈ w.ops[place]?, ok = false → op.task.writes = true →
      op.begun = false
  | .call kind => kind.isControl = false
  | _ => True

instance (w : World ι) (event : Event ι) : Decidable (NotCutOff w event) :=
  match event with
  | .crash => inferInstanceAs (Decidable (∀ op ∈ w.ops, op.begun = false))
  | .advance place ok _ => inferInstanceAs (Decidable (∀ op ∈ w.ops[place]?, ok = false →
      op.task.writes = true → op.begun = false))
  | .call kind => inferInstanceAs (Decidable (kind.isControl = false))
  | .tick _ => isTrue trivial
  | .finish _ => isTrue trivial

/-- The occurrences that were launched or are queued. -/
def World.taken (w : World ι) : List Nat :=
  w.launchedOccurrences ++ w.record.queuedRuns.filterMap fun run => run.occurrence

structure OnceInv (w : World ι) : Prop where
  inOrder : InOrder w
  once : w.taken.Nodup
  handlers : ∀ op ∈ w.ops, op.kind.isControl = false
  unfailed : ∀ op ∈ w.ops, op.task.isDone = false → ∀ k ∈ op.know, k.failed = false
  ahead : ∀ op ∈ w.ops, op.kind.isTimer = true → op.task.isDone = false → ∀ k ∈ op.know,
    k.base.status = .active → ∀ o ∈ w.taken, o < k.lo
  ended : ∀ op ∈ w.ops, op.kind.isTimer = true → op.task.isDone = true → op.begun = false
  fires : w.record.status = .active → w.record.nextFireAt ≠ none
  next : (∀ op ∈ w.ops, op.kind.isTimer = true → op.begun = false) →
    w.record.status = .active → ∀ n, w.record.nextFireAt = some n → ∀ o ∈ w.taken, o < n

theorem endRun_occurrences (runs : List (Run ι)) (workflowId : ι) :
    (endRun runs workflowId).filterMap Run.occurrence = runs.filterMap Run.occurrence := by
  unfold endRun
  rw [List.filterMap_map]
  refine List.filterMap_congr fun run _ => ?_
  show (if run.workflowId = workflowId then { run with live := false } else run).occurrence = _
  split_ifs <;> rfl

/-! ## One step of an operation -/

variable {op : Op ι}

/-- What a handler leaves of an occurrence that it took, when it is done. -/
theorem begun_of_isDone (hsound : Sound op.kind op.know op.task) (hdone : op.task.isDone = true)
    (hfailed : ∀ k ∈ op.know, k.failed = false) : op.begun = false := by
  obtain ⟨kind, task, know⟩ := op
  cases know with
  | none => rfl
  | some k =>
    cases task with
    | done =>
      rcases hsound k rfl with hfail | ⟨hbegun, -⟩
      · rw [hfailed k rfl] at hfail
        cases hfail
      · exact hbegun
    | _ => cases hdone

/-- One operation goes on. -/
structure GoesOn (w v : World ι) (place : Nat) (op op' : Op ι) : Prop where
  unfailed : op'.task.isDone = false → ∀ k ∈ op'.know, k.failed = false
  ended : op.kind.isTimer = true → op'.task.isDone = true → op'.begun = false
  once : v.taken.Nodup
  subset : op.kind.isTimer = false → ∀ o ∈ v.taken, o ∈ w.taken
  ahead : op.kind.isTimer = true → op'.task.isDone = false → ∀ k ∈ op'.know,
    k.base.status = .active → ∀ o ∈ v.taken, o < k.lo
  fires : v.record.status = .active → v.record.nextFireAt ≠ none
  next : (op.kind.isTimer = true → op'.begun = false) →
    (∀ j x, j ≠ place → w.ops[j]? = some x → x.kind.isTimer = true → x.begun = false) →
    v.record.status = .active → ∀ n, v.record.nextFireAt = some n → ∀ o ∈ v.taken, o < n

variable {w v : World ι} {place : Nat}

theorem OnceInv.goesOn {op op' : Op ι} {ordered : Control} (h : OnceInv w)
    (hplace : w.ops[place]? = some op) (hgoes : op.task.isDone = false) (hkind : op'.kind = op.kind)
    (hinOrder : InOrder { v with ops := w.ops.set place op', ordered := ordered })
    (hon : GoesOn w v place op op') :
    OnceInv { v with ops := w.ops.set place op', ordered := ordered } := by
  have hmem := List.mem_of_getElem? hplace
  refine ⟨hinOrder, hon.once, ?_, ?_, ?_, ?_, hon.fires, ?_⟩
  · intro x hx
    obtain rfl | ⟨j, -, hj⟩ := mem_set_cases hx
    · rw [hkind]
      exact h.handlers op hmem
    · exact h.handlers x (List.mem_of_getElem? hj)
  · intro x hx
    obtain rfl | ⟨j, -, hj⟩ := mem_set_cases hx
    · exact hon.unfailed
    · exact h.unfailed x (List.mem_of_getElem? hj)
  · intro x hx htimer hlive
    obtain rfl | ⟨j, hj, hx⟩ := mem_set_cases hx
    · exact hon.ahead (hkind ▸ htimer) hlive
    · -- only one handler of the timer is under way
      have hother : op.kind.isTimer = false := by
        rw [← Bool.not_eq_true]
        exact fun hop => hj (h.inOrder.serial j place x op hx hplace htimer hop hlive hgoes)
      intro k hk hactive o ho
      exact h.ahead x (List.mem_of_getElem? hx) htimer hlive k hk hactive o (hon.subset hother o ho)
  · intro x hx htimer hdone
    obtain rfl | ⟨j, -, hj⟩ := mem_set_cases hx
    · exact hon.ended (hkind ▸ htimer) hdone
    · exact h.ended x (List.mem_of_getElem? hj) htimer hdone
  · intro hnone
    refine hon.next (fun htimer => ?_) fun j x hj hx htimer => ?_
    · exact hnone op' (List.mem_set (List.getElem?_eq_some_iff.1 hplace).1 op') (hkind ▸ htimer)
    · refine hnone x (List.mem_of_getElem? (i := j) ?_) htimer
      show (w.ops.set place op')[j]? = some x
      rw [List.getElem?_set_ne hj.symm, hx]

/-- The record and the runs stay as they are. -/
theorem OnceInv.stays {op op' : Op ι} (h : OnceInv w) (hplace : w.ops[place]? = some op)
    (hgoes : op.task.isDone = false) (hsound : Sound op'.kind op'.know op'.task)
    (hrecord : v.record = w.record) (htaken : v.taken = w.taken) (hbegun : op'.begun = op.begun)
    (hknow : ∀ k' ∈ op'.know, ∃ k ∈ op.know, k'.base = k.base ∧ k'.lo = k.lo ∧
      k'.failed = k.failed) :
    GoesOn w v place op op' := by
  have hmem := List.mem_of_getElem? hplace
  have hunfailed : ∀ k' ∈ op'.know, k'.failed = false := by
    intro k' hk'
    obtain ⟨k, hk, -, -, hfailed⟩ := hknow k' hk'
    rw [hfailed]
    exact h.unfailed op hmem hgoes k hk
  refine ⟨fun _ => hunfailed, fun _ hdone => begun_of_isDone hsound hdone hunfailed, ?_, ?_, ?_, ?_,
    ?_⟩
  · rw [htaken]
    exact h.once
  · rw [htaken]
    exact fun _ o ho => ho
  · rw [htaken]
    intro htimer _ k' hk' hactive
    obtain ⟨k, hk, hbase, hlo, -⟩ := hknow k' hk'
    rw [hbase] at hactive
    rw [hlo]
    exact h.ahead op hmem htimer hgoes k hk hactive
  · rw [hrecord]
    exact h.fires
  · rw [hrecord, htaken]
    intro hself hothers
    refine h.next fun x hx htimer => ?_
    obtain ⟨j, hj⟩ := List.getElem?_of_mem hx
    by_cases hjp : j = place
    · rw [hjp, hplace] at hj
      cases hj
      rw [← hbegun]
      exact hself htimer
    · exact hothers j x hjp hj htimer

omit [DecidableEq ι] in
theorem know_map {f : Know ι → Know ι}
    (hf : ∀ k, (f k).base = k.base ∧ (f k).lo = k.lo ∧ (f k).failed = k.failed) :
    ∀ k' ∈ op.know.map f, ∃ k ∈ op.know, k'.base = k.base ∧ k'.lo = k.lo ∧
      k'.failed = k.failed := by
  intro k' hk'
  obtain ⟨k, hk, rfl⟩ := Option.map_eq_some_iff.1 hk'
  exact ⟨k, hk, hf k⟩

omit [DecidableEq ι] in
theorem begun_map (f : Know ι → Know ι) (hf : ∀ k, (f k).begun = k.begun) (task : Task ι) :
    ({ op with task := task, know := op.know.map f } : Op ι).begun = op.begun := by
  unfold Op.begun
  cases op.know with
  | none => rfl
  | some k => exact hf k

variable {k : Know ι}

/-- The queue of the record is the one that the operation knows. -/
theorem taken_of_upToDate {w : World ι} (hup : UpToDate w op) (hknow : op.know = some k) :
    w.taken = w.launchedOccurrences ++ k.base.queuedRuns.filterMap fun run => run.occurrence := by
  unfold World.taken
  rw [hup.record_eq hknow]

variable {task : Task ι} {occurrence : Option Nat}

/-- A handler of the timer launches an occurrence that nobody has taken. -/
theorem OnceInv.launched {w : World ι} (h : OnceInv w) (hplace : w.ops[place]? = some op)
    (hgoes : op.task.isDone = false) {workflowId : ι} {scheduleRuns : List ι}
    (hknow : op.know = some k) (hlaunches : Launches op.kind k workflowId occurrence)
    (hsound : Sound op.kind (some (k.launch workflowId occurrence)) task) : GoesOn w { w with
        runs := w.runs ++ [⟨workflowId, occurrence, true⟩], scheduleRuns := scheduleRuns } place op
      { op with task := task, know := some (k.launch workflowId occurrence) } := by
  have hmem := List.mem_of_getElem? hplace
  obtain ⟨o, rfl, hlo⟩ := hlaunches.occurrence
  have hahead := h.ahead op hmem hlaunches.timer hgoes k hknow hlaunches.active
  have hunfailed : k.failed = false := h.unfailed op hmem hgoes k hknow
  have htaken : (({ w with
      runs := w.runs ++ [⟨workflowId, some o, true⟩], scheduleRuns := scheduleRuns } : World ι
      ).taken).Perm (o :: w.taken) := by
    unfold World.taken World.launchedOccurrences
    rw [List.filterMap_append, List.append_assoc]
    exact List.perm_middle
  have hbegun : task.isDone = true → False := by
    intro hdone
    have hnot : Op.begun ⟨op.kind, task, some (k.launch workflowId (some o))⟩ = false :=
      begun_of_isDone hsound hdone (by rintro k' ⟨⟩; exact hunfailed)
    cases hnot
  refine ⟨?_, fun _ hdone => (hbegun hdone).elim, ?_, ?_, ?_, h.fires, ?_⟩
  · rintro - k' ⟨⟩
    exact hunfailed
  · refine htaken.nodup_iff.2 (List.nodup_cons.2 ⟨fun hin => ?_, h.once⟩)
    have := hahead o hin
    omega
  · intro htimer
    rw [hlaunches.timer] at htimer
    cases htimer
  · rintro - - k' ⟨⟩ - o' ho'
    show o' < o + 1
    rcases List.mem_cons.1 (htaken.mem_iff.1 ho') with rfl | ho'
    · omega
    · have := hahead o' ho'
      omega
  · intro hself
    have := hself hlaunches.timer
    cases this

variable {state : ScheduleState ι}

/-- The first queued run is started: what was taken stays. -/
theorem OnceInv.drained (h : OnceInv w) (hplace : w.ops[place]? = some op)
    (hgoes : op.task.isDone = false) {workflowId : ι} (hknow : op.know = some k)
    (hup : UpToDate w op) (hdrains : Drains op.kind k workflowId occurrence state)
    (hsound : Sound op.kind (some (k.drain state)) task) (hstate : v.record = state)
    (hruns : v.runs = w.runs ++ [⟨workflowId, occurrence, true⟩]) :
    GoesOn w v place op { op with task := task, know := some (k.drain state) } := by
  have hmem := List.mem_of_getElem? hplace
  obtain ⟨run, rest, hqueue, -, rfl, hafter⟩ := hdrains.queue
  have hunfailed : k.failed = false := h.unfailed op hmem hgoes k hknow
  have hrecord := hup.record_eq hknow
  have htaken : v.taken = w.taken := by
    rw [taken_of_upToDate hup hknow, hqueue]
    unfold World.taken World.launchedOccurrences
    rw [hstate, hruns, hafter, List.filterMap_append, List.append_assoc]
    congr 1
    cases hocc : run.occurrence <;> simp [hocc]
  have hstatus : w.record.status = v.record.status := by
    rw [hrecord, hstate, hafter]
  have hfire : w.record.nextFireAt = v.record.nextFireAt := by
    rw [hrecord, hstate, hafter]
  have hknows : ∀ k' ∈ some (k.drain state), k'.failed = false := by
    rintro k' ⟨⟩
    exact hunfailed
  refine ⟨fun _ => hknows, fun _ hdone => begun_of_isDone hsound hdone hknows, ?_, ?_, ?_, ?_, ?_⟩
  · rw [htaken]
    exact h.once
  · rw [htaken]
    exact fun _ o ho => ho
  · rw [htaken]
    rintro htimer - k' ⟨⟩ -
    exact h.ahead op hmem htimer hgoes k hknow hdrains.active
  · intro hactive
    rw [← hfire]
    exact h.fires (hstatus.trans hactive)
  · rw [htaken]
    intro hself hothers hactive n hn
    refine h.next (fun x hx htimer => ?_) (hstatus.trans hactive) n (hfire.trans hn)
    obtain ⟨j, hj⟩ := List.getElem?_of_mem hx
    by_cases hjp : j = place
    · rw [hjp, hplace] at hj
      cases hj
      have hbegun := hself htimer
      unfold Op.begun at hbegun ⊢
      rw [hknow]
      exact hbegun
    · exact hothers j x hjp hj htimer

/-- What a write of the timer's handler leaves taken. -/
theorem taken_write {w : World ι} (hup : UpToDate w op) (hknow : op.know = some k)
    (hwrites : TimerWrites k state) (honce : w.taken.Nodup) (hahead : ∀ o ∈ w.taken, o < k.lo) :
    (w.launchedOccurrences ++ state.queuedRuns.filterMap fun run => run.occurrence).Nodup ∧
      (∀ o ∈ w.launchedOccurrences ++ state.queuedRuns.filterMap (fun run => run.occurrence),
        o < (k.write state).lo) ∧ (newlyQueued k.base state = [] → w.launchedOccurrences ++
        state.queuedRuns.filterMap (fun run => run.occurrence) = w.taken) := by
  have htaken := taken_of_upToDate hup hknow
  obtain hsame | ⟨-, run, o, hqueue, -, hocc, hlo⟩ := hwrites.queue
  · have hnew : newlyQueued k.base state = [] := by
      unfold newlyQueued
      rw [hsame, List.drop_length]
    have hwrite : (k.write state).lo = k.lo := by
      simp [Know.write, hnew]
    rw [hsame, ← htaken, hwrite]
    exact ⟨honce, hahead, fun _ => rfl⟩
  · have hnew : newlyQueued k.base state = [run] := by
      unfold newlyQueued
      rw [hqueue, List.drop_left]
    have hwrite : (k.write state).lo = max k.lo (o + 1) := by
      simp [Know.write, hnew, hocc]
    have hlist : w.launchedOccurrences ++
        state.queuedRuns.filterMap (fun run => run.occurrence) = w.taken ++ [o] := by
      rw [hqueue, List.filterMap_append, htaken, List.append_assoc]
      simp [hocc]
    rw [hlist, hwrite]
    refine ⟨?_, fun o' ho' => ?_, fun hnil => ?_⟩
    · refine List.nodup_append.2 ⟨honce, List.nodup_singleton o, fun o' ho' o'' ho'' heq => ?_⟩
      rw [List.mem_singleton.1 ho''] at heq
      have := hahead o' ho'
      omega
    · rcases List.mem_append.1 ho' with ho' | ho'
      · have := hahead o' ho'
        omega
      · rw [List.mem_singleton.1 ho']
        omega
    · rw [hnew] at hnil
      cases hnil

theorem OnceInv.wroteTimer (h : OnceInv w) (hplace : w.ops[place]? = some op)
    (hgoes : op.task.isDone = false) (hknow : op.know = some k) (hup : UpToDate w op)
    (htimer : op.kind.isTimer = true) (hwrites : TimerWrites k state)
    (hsound : Sound op.kind (some (k.write state)) task) (hstate : v.record = state)
    (hruns : v.runs = w.runs) :
    GoesOn w v place op { op with task := task, know := some (k.write state) } := by
  have hmem := List.mem_of_getElem? hplace
  have hunfailed : k.failed = false := h.unfailed op hmem hgoes k hknow
  have hrecord := hup.record_eq hknow
  have hahead := h.ahead op hmem htimer hgoes k hknow hwrites.active
  obtain ⟨honce, hbelow, hsame⟩ := taken_write hup hknow hwrites h.once hahead
  have htaken : v.taken = w.launchedOccurrences ++
      state.queuedRuns.filterMap fun run => run.occurrence := by
    unfold World.taken World.launchedOccurrences
    rw [hstate, hruns]
  have hknows : ∀ k' ∈ some (k.write state), k'.failed = false := by
    rintro k' ⟨⟩
    exact hunfailed
  have hactive : w.record.status = .active := by
    rw [hrecord]
    exact hwrites.active
  have hfire : w.record.nextFireAt = k.base.nextFireAt := by rw [hrecord]
  refine ⟨fun _ => hknows, fun _ hdone => begun_of_isDone hsound hdone hknows, ?_, ?_, ?_, ?_, ?_⟩
  · rw [htaken]
    exact honce
  · intro hnot
    rw [htimer] at hnot
    cases hnot
  · rw [htaken]
    rintro - - k' ⟨⟩ -
    exact hbelow
  · rw [hstate]
    intro hnow hnone
    obtain heq | hpaused | ⟨n, hn, -⟩ := hwrites.nextFireAt
    · exact h.fires hactive (by rw [hfire, ← heq, hnone])
    · rw [hnow] at hpaused
      cases hpaused
    · rw [hnone] at hn
      cases hn
  · rw [htaken, hstate]
    intro hself hothers hnow n hn o ho
    obtain heq | hpaused | ⟨n', hn', hle⟩ := hwrites.nextFireAt
    · -- `nextFireAt` stays: nothing was taken that it has not passed
      have hbegun : (k.write state).begun = false := hself htimer
      have hstay : state.nextFireAt = k.base.nextFireAt ∧ state.status = k.base.status :=
        ⟨heq, hnow.trans hwrites.active.symm⟩
      simp only [Know.write, hstay, and_self, decide_true, Bool.true_and, Bool.or_eq_false_iff,
        decide_eq_false_iff_not, not_not] at hbegun
      rw [hsame hbegun.2] at ho
      refine h.next (fun x hx hx' => ?_) hactive n (hfire.trans (heq.symm.trans hn)) o ho
      obtain ⟨j, hj⟩ := List.getElem?_of_mem hx
      by_cases hjp : j = place
      · rw [hjp, hplace] at hj
        cases hj
        unfold Op.begun
        rw [hknow]
        exact hbegun.1
      · exact hothers j x hjp hj hx'
    · rw [hnow] at hpaused
      cases hpaused
    · rw [hn'] at hn
      have := hbelow o ho
      have := Option.some.inj hn
      omega

theorem OnceInv.wroteTerminal (h : OnceInv w) (hplace : w.ops[place]? = some op)
    (hgoes : op.task.isDone = false) (hknow : op.know = some k) (hup : UpToDate w op)
    (htimer : op.kind.isTimer = false) (hstate : v.record = clearScheduleCurrentWorkflow k.base)
    (hruns : v.runs = w.runs) : GoesOn w v place op
      { op with task := task, know := some (k.write (clearScheduleCurrentWorkflow k.base)) } := by
  have hmem := List.mem_of_getElem? hplace
  have hunfailed : k.failed = false := h.unfailed op hmem hgoes k hknow
  have hrecord := hup.record_eq hknow
  have htaken : v.taken = w.taken := by
    rw [taken_of_upToDate hup hknow]
    unfold World.taken World.launchedOccurrences
    rw [hstate, hruns]
    rfl
  have hstatus : w.record.status = v.record.status := by
    rw [hrecord, hstate]
    rfl
  have hfire : w.record.nextFireAt = v.record.nextFireAt := by
    rw [hrecord, hstate]
    rfl
  refine ⟨?_, ?_, ?_, ?_, ?_, ?_, ?_⟩
  · rintro - k' ⟨⟩
    exact hunfailed
  · intro hyes
    rw [htimer] at hyes
    cases hyes
  · rw [htaken]
    exact h.once
  · rw [htaken]
    exact fun _ o ho => ho
  · intro hyes
    rw [htimer] at hyes
    cases hyes
  · intro hactive
    rw [← hfire]
    exact h.fires (hstatus.trans hactive)
  · rw [htaken]
    intro _ hothers hactive n hn
    refine h.next (fun x hx hx' => ?_) (hstatus.trans hactive) n (hfire.trans hn)
    obtain ⟨j, hj⟩ := List.getElem?_of_mem hx
    by_cases hjp : j = place
    · rw [hjp, hplace] at hj
      cases hj
      rw [htimer] at hx'
      cases hx'
    · exact hothers j x hjp hj hx'

theorem OnceInv.steps {op op' : Op ι} {ok : Bool} (h : OnceInv w)
    (hplace : w.ops[place]? = some op) (hgoes : op.task.isDone = false)
    (hsteps : Steps w op ok v op') (hsound : Sound op'.kind op'.know op'.task)
    (hup : ok = true → op.task.acts = true → UpToDate w op)
    (hcut : ok = false → op.task.writes = true → op.begun = false) : GoesOn w v place op op' := by
  have hmem := List.mem_of_getElem? hplace
  cases hsteps with
  | went task =>
    exact h.stays hplace hgoes hsound rfl rfl rfl fun k hk => ⟨k, hk, rfl, rfl, rfl⟩
  | settled task workflowId =>
    exact h.stays hplace hgoes hsound rfl rfl rfl fun k hk => ⟨k, hk, rfl, rfl, rfl⟩
  | loaded task hfirst =>
    have hbegun : op.begun = false := by simp [Op.begun, hfirst]
    refine ⟨fun _ k hk => ?_, fun _ _ => rfl, h.once, fun _ o ho => ho, fun htimer _ k hk => ?_,
      h.fires, fun _ hothers => h.next fun x hx htimer => ?_⟩
    · cases hk
      rfl
    · cases hk
      intro hactive o ho
      replace hactive : w.record.status = .active := hactive
      -- nobody else is at work, so `nextFireAt` has passed all that was taken
      have hnobody : ∀ x ∈ w.ops, x.kind.isTimer = true → x.begun = false := by
        intro x hx hx'
        obtain ⟨j, hj⟩ := List.getElem?_of_mem hx
        by_cases hdone : x.task.isDone = true
        · exact h.ended x hx hx' hdone
        · have hjp := h.inOrder.serial j place x op hj hplace hx' htimer
            (by simpa using hdone) hgoes
          rw [hjp, hplace] at hj
          rw [← Option.some.inj hj]
          exact hbegun
      show o < w.record.nextFireAt.getD 0
      cases hn : w.record.nextFireAt with
      | none => exact (h.fires hactive hn).elim
      | some n => exact h.next hnobody hactive n hn o ho
    · obtain ⟨j, hj⟩ := List.getElem?_of_mem hx
      by_cases hjp : j = place
      · rw [hjp, hplace] at hj
        rw [← Option.some.inj hj]
        exact hbegun
      · exact hothers j x hjp hj htimer
  | drew task workflowId hnew =>
    exact h.stays hplace hgoes hsound rfl rfl (begun_map (fun k => k.draw workflowId)
      (fun _ => rfl) task)
      (know_map fun _ => ⟨rfl, rfl, rfl⟩)
  | found task workflowId hended =>
    exact h.stays hplace hgoes hsound rfl rfl (begun_map (fun k => k.ended workflowId)
      (fun _ => rfl) task)
      (know_map fun _ => ⟨rfl, rfl, rfl⟩)
  | cancelled task workflowId =>
    refine h.stays hplace hgoes hsound rfl ?_ (begun_map (fun k => k.ended workflowId)
      (fun _ => rfl) task)
      (know_map fun _ => ⟨rfl, rfl, rfl⟩)
    unfold World.taken World.launchedOccurrences
    rw [endRun_occurrences]
  | failed task hwrites hok hdone =>
    have hbegun : op.begun = false := hcut hok hwrites
    have hbegun' : ({ op with task := task, know := op.know.map Know.fail } : Op ι).begun = false :=
      (begun_map Know.fail (fun _ => rfl) task).trans hbegun
    refine ⟨fun hgoes' => ?_, fun _ _ => hbegun', h.once, fun _ o ho => ho, fun _ hgoes' => ?_,
      h.fires, fun _ hothers => h.next fun x hx htimer => ?_⟩
    · rw [show task.isDone = false from hgoes'] at hdone
      cases hdone
    · rw [show task.isDone = false from hgoes'] at hdone
      cases hdone
    · obtain ⟨j, hj⟩ := List.getElem?_of_mem hx
      by_cases hjp : j = place
      · rw [hjp, hplace] at hj
        rw [← Option.some.inj hj]
        exact hbegun
      · exact hothers j x hjp hj htimer
  | launched task k workflowId occurrence scheduleRuns hok hacts hknow hlaunches hnew =>
    exact h.launched hplace hgoes hknow hlaunches hsound
  | drained task k workflowId occurrence state scheduleRuns hok hacts hknow hdrains hnew =>
    exact h.drained hplace hgoes hknow (hup hok hacts) hdrains hsound rfl rfl
  | wrote task k state scheduleRuns hok hacts hknow hwrites =>
    have hhandler := h.handlers op hmem
    obtain ⟨kind, optask, know⟩ := op
    cases kind with
    | timer fireAt =>
      exact h.wroteTimer hplace hgoes hknow (hup hok hacts) rfl hwrites hsound rfl rfl
    | terminal workflowId =>
      obtain ⟨-, rfl⟩ := hwrites
      exact h.wroteTerminal hplace hgoes hknow (hup hok hacts) rfl rfl rfl
    | _ => cases hhandler

/-! ## Runs -/

theorem OnceInv.step {spec : ScheduleSpec} {w w' : World ι} {event : Event ι} (h : OnceInv w)
    (hup : ActsUpToDate w event) (hcut : NotCutOff w event)
    (hstep : (scheduleMachine spec).step w event = some w') : OnceInv w' := by
  have hhappens := step_happens h.inOrder hup hstep
  have hinOrder := h.inOrder.step hhappens
  cases hhappens with
  | ticked now => exact ⟨hinOrder, h.once, h.handlers, h.unfailed, h.ahead, h.ended, h.fires,
      h.next⟩
  | called kind hmay =>
    have hold : ∀ (P : Op ι → Prop), (∀ op ∈ w.ops, P op) → P ⟨kind, kind.task spec, none⟩ →
        ∀ op ∈ w.ops ++ [⟨kind, kind.task spec, none⟩], P op := by
      intro P hall hnew op hop
      rcases List.mem_append.1 hop with hop | hop
      · exact hall op hop
      · rw [List.mem_singleton.1 hop]
        exact hnew
    refine ⟨hinOrder, h.once, hold _ h.handlers hcut, hold _ h.unfailed ?_, hold _ h.ahead ?_,
      hold _ h.ended ?_, h.fires, fun hnone => h.next fun op hop => ?_⟩
    · exact fun _ k hk => by cases hk
    · exact fun _ _ k hk => by cases hk
    · exact fun _ _ => rfl
    · exact hnone op (List.mem_append_left _ hop)
  | advanced place ok drawn op op' v hplace hperform hgoes hsteps hsound hkind hup' ordered
    hordered =>
    exact h.goesOn hplace hgoes hkind hinOrder
      (h.steps hplace hgoes hsteps hsound hup' (hcut op hplace))
  | finished workflowId =>
    have htaken : ({ w with runs := endRun w.runs workflowId } : World ι).taken = w.taken := by
      unfold World.taken World.launchedOccurrences
      rw [endRun_occurrences]
    refine ⟨hinOrder, ?_, h.handlers, h.unfailed, ?_, h.ended, h.fires, ?_⟩
    · rw [htaken]
      exact h.once
    · rw [htaken]
      exact h.ahead
    · rw [htaken]
      exact h.next
  | crashed =>
    refine ⟨hinOrder, h.once, by simp, by simp, by simp, by simp, h.fires, fun _ => ?_⟩
    exact h.next fun op hop _ => hcut op hop

/-- Where no handler is cut off after it took an occurrence and none acts on a record that is out
of date, every occurrence is launched at most once. -/
theorem launched_once_per_occurrence (spec : ScheduleSpec) (overlap : ScheduleOverlapPolicy)
    (backfill : Bool) (nextFireAt : Nat) {events : List (Event ι)}
    (hsteps : (scheduleMachine spec).EveryStep
      (fun w event => ActsUpToDate w event ∧ NotCutOff w event)
      (World.create overlap backfill nextFireAt) events) :
    (scheduleMachine spec).EveryState OncePerOccurrence
      (World.create overlap backfill nextFireAt) events := by
  refine Machine.EveryState.mono (fun w hw => (List.nodup_append.1 hw.once).1)
    (Machine.everyState_of_invariant (I := OnceInv)
      (fun w event w' hw hevent hstep => hw.step hevent.1 hevent.2 hstep) ?_ hsteps)
  exact ⟨InOrder.create _ _ _, List.nodup_nil, by simp [World.create], by simp [World.create],
    by simp [World.create], by simp [World.create], fun _ => by simp [World.create],
    fun _ _ n _ o ho => by simp [World.create, World.taken, World.launchedOccurrences] at ho⟩

/-- The process ends after the run was started; the timer is delivered again. -/
def cutOffAndRedelivered : List (Event Nat) :=
  [Event.tick 10, .call (.timer 10)] ++ steps 0 4 7 ++ [Event.crash, .call (.timer 10)] ++
    steps 0 4 8

theorem occurrence_launched_twice : ¬ (scheduleMachine everyTen).EveryState OncePerOccurrence
    (World.create .skip false 10) cutOffAndRedelivered := by
  intro h
  have honce := h.final
  revert honce
  decide

/-- The process ends when the handler is done; the timer is delivered again, and so is the next. -/
def redelivered : List (Event Nat) :=
  [Event.tick 10, .call (.timer 10)] ++ steps 0 5 7 ++ [Event.crash, .call (.timer 10)] ++
    steps 0 1 8 ++
    [Event.tick 20, .call (.timer 20)] ++ steps 1 5 9

theorem redelivered_launched_once : (scheduleMachine everyTen).EveryState OncePerOccurrence
    (World.create .allow false 10) redelivered :=
  launched_once_per_occurrence everyTen .allow false 10 (by decide)

end Weft.Schedules
