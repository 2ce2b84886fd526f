import Weft.Registry.Model
import Weft.Lib.Machine

/-! The counters kept beside the tasks in flight, against the tasks themselves. -/

namespace Weft.Registry

open Weft.Lib

universe u v w

variable {ι : Type u} {κ : Type v} {φ : Type w}

inductive Operation (ι : Type u) (κ : Type v) (φ : Type w) where
  | register (info : WorkerRegistrationInfo ι)
  | unregister (workerId : ι)
  | assignTask (workerId : ι) (operationId : κ) (now visibilityTimeout : Nat)
      (fairShareKey : Option φ) (attemptToken : String)
  | completeTask (operationId : κ)
  | checkExpiredTasks (now : Nat)
  | extendVisibility (operationId : κ) (now extension : Nat)

section

variable [DecidableEq ι] [DecidableEq φ]

def ofWorker (workerId : ι) (task : InFlightTask ι κ φ) : Bool := task.workerId = workerId

def ofKey (workerId : ι) (key : φ) (task : InFlightTask ι κ φ) : Bool :=
  task.workerId = workerId && task.fairShareKey = some key

namespace WorkerRegistry

/-! What counting and releasing a task leave in the tasks and the counters. -/

section FairShare

variable (r : WorkerRegistry ι κ φ) (task : InFlightTask ι κ φ)

@[simp] theorem inFlightTasks_releaseFairShare :
    (r.releaseFairShare task).inFlightTasks = r.inFlightTasks := by
  rw [releaseFairShare]
  split
  · rfl
  · rfl

@[simp] theorem workers_releaseFairShare : (r.releaseFairShare task).workers = r.workers := by
  rw [releaseFairShare]
  split
  · rfl
  · rfl

@[simp] theorem inFlightTasks_countFairShare :
    (r.countFairShare task).inFlightTasks = r.inFlightTasks := by
  rw [countFairShare]
  split
  · rfl
  · rfl

@[simp] theorem workers_countFairShare : (r.countFairShare task).workers = r.workers := by
  rw [countFairShare]
  split
  · rfl
  · rfl

theorem load_releaseFairShare (v : ι) (k : φ) : (r.releaseFairShare task).fairShareCounts.load v k =
      r.fairShareCounts.load v k - if ofKey v k task then 1 else 0 := by
  rw [releaseFairShare]
  cases hkey : task.fairShareKey with
  | none => simp [ofKey, hkey]
  | some key => simp [FairShareCounters.load_release, ofKey, hkey, @eq_comm _ v, @eq_comm _ k]

theorem load_countFairShare (v : ι) (k : φ) : (r.countFairShare task).fairShareCounts.load v k =
      r.fairShareCounts.load v k + if ofKey v k task then 1 else 0 := by
  rw [countFairShare]
  cases hkey : task.fairShareKey with
  | none => simp [ofKey, hkey]
  | some key => simp [FairShareCounters.load_increment, ofKey, hkey, @eq_comm _ v, @eq_comm _ k]

end FairShare

variable [DecidableEq κ]

def apply (r : WorkerRegistry ι κ φ) : Operation ι κ φ → WorkerRegistry ι κ φ
  | .register info => r.register info
  | .unregister workerId => r.unregister workerId
  | .assignTask workerId operationId now visibilityTimeout fairShareKey attemptToken =>
      r.assignTask workerId operationId now visibilityTimeout fairShareKey attemptToken
  | .completeTask operationId => r.completeTask operationId
  | .checkExpiredTasks now => r.checkExpiredTasks now
  | .extendVisibility operationId now extension => r.extendVisibility operationId now extension

/-- Every counter is the number of the tasks that it stands for. -/
structure Accounted (r : WorkerRegistry ι κ φ) : Prop where
  inFlight : ∀ workerId info, r.workers.get workerId = some info →
    info.inFlight = r.inFlightTasks.count (ofWorker workerId)
  load : ∀ workerId key,
    r.fairShareCounts.load workerId key = r.inFlightTasks.count (ofKey workerId key)

/-- No counter that the operation decrements is at zero when it does. -/
def NotClamped (r : WorkerRegistry ι κ φ) : Operation ι κ φ → Prop
  | .completeTask operationId => ∀ task, r.inFlightTasks.get operationId = some task →
      (∀ info, r.workers.get task.workerId = some info → 0 < info.inFlight) ∧
      ∀ key, task.fairShareKey = some key → 0 < r.fairShareCounts.load task.workerId key
  | .checkExpiredTasks now => ∀ workerId key,
      (r.expiredTasks now).countP (ofKey workerId key) ≤ r.fairShareCounts.load workerId key
  | _ => True

/-- The operation replaces no task that a counter stands for, and expires none of a registered
worker. -/
def CountersFollow (r : WorkerRegistry ι κ φ) : Operation ι κ φ → Prop
  | .assignTask _ operationId _ _ _ _ => ∀ old, r.inFlightTasks.get operationId = some old →
      r.workers.get old.workerId = none ∧ old.fairShareKey = none
  | .checkExpiredTasks now => ∀ task ∈ r.expiredTasks now, r.workers.get task.workerId = none
  | _ => True

/-- The tasks stand under their own operation ids. -/
def Keyed (r : WorkerRegistry ι κ φ) : Prop :=
  ∀ operationId task, r.inFlightTasks.get operationId = some task →
    task.operationId = operationId

/-- An assignment makes an entry and replaces the one that the operation had. -/
theorem count_assignTask (r : WorkerRegistry ι κ φ) (workerId : ι) (operationId : κ)
    (now visibilityTimeout : Nat) (fairShareKey : Option φ) (attemptToken : String)
    (p : InFlightTask ι κ φ → Bool) :
    ((r.assignTask workerId operationId now visibilityTimeout fairShareKey
        attemptToken).inFlightTasks.count p +
          if (r.inFlightTasks.get operationId).any p then 1 else 0) = r.inFlightTasks.count p +
        if p (assignedTask workerId operationId now visibilityTimeout fairShareKey attemptToken)
        then 1 else 0 := by
  simp only [assignTask, taskAssigned, inFlightTasks_updateWorker, inFlightTasks_countFairShare]
  cases hold : r.inFlightTasks.get operationId with
  | none => simp [InsertionMap.count_set_of_get_none hold]
  | some old => exact InsertionMap.count_set_of_get_some hold _ p

theorem load_assignTask (r : WorkerRegistry ι κ φ) (workerId : ι) (operationId : κ)
    (now visibilityTimeout : Nat) (fairShareKey : Option φ) (attemptToken : String) (v : ι)
    (k : φ) : (r.assignTask workerId operationId now visibilityTimeout fairShareKey
        attemptToken).fairShareCounts.load v k = r.fairShareCounts.load v k +
        if ofKey v k (assignedTask workerId operationId now visibilityTimeout fairShareKey
          attemptToken) then 1 else 0 := by
  simp only [assignTask, taskAssigned, fairShareCounts_updateWorker, load_countFairShare]

theorem get_workers_assignTask (r : WorkerRegistry ι κ φ) (workerId : ι) (operationId : κ)
    (now visibilityTimeout : Nat) (fairShareKey : Option φ) (attemptToken : String) (v : ι) :
    (r.assignTask workerId operationId now visibilityTimeout fairShareKey
        attemptToken).workers.get v = if v = workerId then
        (r.workers.get v).map fun info => { info with inFlight := info.inFlight + 1 }
      else r.workers.get v := by
  simp only [assignTask, taskAssigned, get_workers_updateWorker, workers_countFairShare]

/-! When an assignment keeps the counters right. -/

section Assign

variable {r : WorkerRegistry ι κ φ} (h : r.Accounted) (workerId : ι) (operationId : κ)
  (now visibilityTimeout : Nat) (fairShareKey : Option φ) (attemptToken : String)

include h

theorem inFlight_assignTask_iff :
    (∀ v info, (r.assignTask workerId operationId now visibilityTimeout fairShareKey
        attemptToken).workers.get v = some info →
      info.inFlight = (r.assignTask workerId operationId now visibilityTimeout fairShareKey
        attemptToken).inFlightTasks.count (ofWorker v)) ↔
      ∀ old, r.inFlightTasks.get operationId = some old → r.workers.get old.workerId = none := by
  have hcount := r.count_assignTask workerId operationId now visibilityTimeout fairShareKey
    attemptToken
  have hworkers := r.get_workers_assignTask workerId operationId now visibilityTimeout
    fairShareKey attemptToken
  have hnew : ∀ v, ofWorker v (assignedTask workerId operationId now visibilityTimeout
      fairShareKey attemptToken) = decide (v = workerId) := by
    exact fun v => decide_eq_decide.2 eq_comm
  constructor
  · -- the record of the old worker still counts the entry that was replaced
    intro hafter old hold
    by_contra hreg
    obtain ⟨info, hinfo⟩ := Option.ne_none_iff_exists'.1 hreg
    have hbefore := h.inFlight old.workerId info hinfo
    have hmoved := hcount (ofWorker old.workerId)
    have hgone : (r.inFlightTasks.get operationId).any (ofWorker old.workerId) = true := by
      simp [hold, ofWorker]
    have hnow := hworkers old.workerId
    rw [hinfo] at hnow
    rw [if_pos hgone, hnew] at hmoved
    by_cases hsame : old.workerId = workerId
    · rw [if_pos hsame] at hnow
      have hkept := hafter old.workerId _ hnow
      simp only [hsame, decide_true, if_true] at hmoved hkept hbefore
      omega
    · rw [if_neg hsame] at hnow
      have hkept := hafter old.workerId _ hnow
      simp only [hsame, decide_false, Bool.false_eq_true, if_false] at hmoved
      omega
  · intro hfree v info hinfo
    have hmoved := hcount (ofWorker v)
    rw [hworkers] at hinfo
    obtain ⟨before, hbefore⟩ : ∃ before, r.workers.get v = some before := by
      refine Option.ne_none_iff_exists'.1 fun hnone => ?_
      simp [hnone] at hinfo
    have hstay : (r.inFlightTasks.get operationId).any (ofWorker v) = false := by
      cases hold : r.inFlightTasks.get operationId with
      | none => rfl
      | some old =>
        have hnone := hfree old hold
        simp only [Option.any_some, ofWorker, decide_eq_false_iff_not]
        rintro rfl
        rw [hbefore] at hnone
        cases hnone
    rw [hstay, hnew, if_neg Bool.false_ne_true, Nat.add_zero, ← h.inFlight v before hbefore]
      at hmoved
    rw [hmoved]
    simp only [hbefore, Option.map_some] at hinfo
    split_ifs at hinfo with hv
    · cases hinfo
      simp [hv]
    · cases hinfo
      simp [hv]

theorem load_assignTask_iff :
    (∀ v k, (r.assignTask workerId operationId now visibilityTimeout fairShareKey
        attemptToken).fairShareCounts.load v k =
      (r.assignTask workerId operationId now visibilityTimeout fairShareKey
        attemptToken).inFlightTasks.count (ofKey v k)) ↔
      ∀ old, r.inFlightTasks.get operationId = some old → old.fairShareKey = none := by
  have hcount := r.count_assignTask workerId operationId now visibilityTimeout fairShareKey
    attemptToken
  have hload := r.load_assignTask workerId operationId now visibilityTimeout fairShareKey
    attemptToken
  constructor
  · intro hafter old hold
    by_contra hkey
    obtain ⟨key, hkey⟩ := Option.ne_none_iff_exists'.1 hkey
    have hmoved := hcount (ofKey old.workerId key)
    have hgone : (r.inFlightTasks.get operationId).any (ofKey old.workerId key) = true := by
      simp [hold, ofKey, hkey]
    rw [if_pos hgone, ← h.load, ← hafter, hload] at hmoved
    omega
  · intro hfree v k
    have hmoved := hcount (ofKey v k)
    have hstay : (r.inFlightTasks.get operationId).any (ofKey v k) = false := by
      cases hold : r.inFlightTasks.get operationId with
      | none => rfl
      | some old => simp [ofKey, hfree old hold]
    rw [hstay, if_neg Bool.false_ne_true, Nat.add_zero] at hmoved
    rw [hmoved, hload, h.load]

theorem accounted_assignTask_iff :
    (r.assignTask workerId operationId now visibilityTimeout fairShareKey attemptToken).Accounted ↔
      ∀ old, r.inFlightTasks.get operationId = some old →
        r.workers.get old.workerId = none ∧ old.fairShareKey = none := by
  have hinFlight := inFlight_assignTask_iff h workerId operationId now visibilityTimeout
    fairShareKey attemptToken
  have hload := load_assignTask_iff h workerId operationId now visibilityTimeout fairShareKey
    attemptToken
  constructor
  · intro hafter old hold
    exact ⟨hinFlight.1 hafter.inFlight old hold, hload.1 hafter.load old hold⟩
  · intro hfree
    exact ⟨hinFlight.2 fun old hold => (hfree old hold).1,
      hload.2 fun old hold => (hfree old hold).2⟩

end Assign

/-! The operations that always keep the counters right. -/

variable {r : WorkerRegistry ι κ φ}

section

variable (h : r.Accounted)

include h

omit [DecidableEq κ] in
theorem Accounted.register (info : WorkerRegistrationInfo ι) : (r.register info).Accounted := by
  refine ⟨fun v found hfound => ?_, h.load⟩
  simp only [WorkerRegistry.register, InsertionMap.get_set] at hfound ⊢
  split_ifs at hfound with hv
  · cases hfound
    rw [hv]
    rfl
  · exact h.inFlight v found hfound

theorem Accounted.unregister (workerId : ι) : (r.unregister workerId).Accounted := by
  rw [WorkerRegistry.unregister]
  cases hw : r.workers.get workerId with
  | none => exact h
  | some left =>
    refine ⟨fun v info hinfo => ?_, fun v k => ?_⟩
    · simp only [InsertionMap.get_delete] at hinfo
      split_ifs at hinfo with hv
      rw [h.inFlight v info hinfo, InsertionMap.count_deleteWhere]
      congr 1
      funext task
      by_cases htask : task.workerId = v
      · simp [ofWorker, htask, hv]
      · simp [ofWorker, htask]
    · simp only [FairShareCounters.load_purge, InsertionMap.count_deleteWhere]
      split_ifs with hv
      · refine (List.countP_eq_zero.2 fun task _ => ?_).symm
        subst hv
        by_cases htask : task.workerId = v
        · simp [htask]
        · simp [ofKey, htask]
      · rw [h.load]
        congr 1
        funext task
        by_cases htask : task.workerId = v
        · simp [ofKey, htask, hv]
        · simp [ofKey, htask]

/-- The counters of a task in flight are positive. -/
theorem Accounted.notClamped_completeTask (operationId : κ) :
    r.NotClamped (.completeTask operationId) := by
  intro task htask
  refine ⟨fun info hinfo => ?_, fun key hkey => ?_⟩
  · rw [h.inFlight _ info hinfo, InsertionMap.count_pos_iff]
    exact ⟨operationId, task, htask, by simp [ofWorker]⟩
  · rw [h.load, InsertionMap.count_pos_iff]
    exact ⟨operationId, task, htask, by simp [ofKey, hkey]⟩

theorem Accounted.completeTask (operationId : κ) : (r.completeTask operationId).Accounted := by
  rw [WorkerRegistry.completeTask]
  cases htask : r.inFlightTasks.get operationId with
  | none => exact h
  | some task =>
    have hcount := InsertionMap.count_delete htask
    refine ⟨fun v info hinfo => ?_, fun v k => ?_⟩
    · simp only [workers_releaseFairShare, taskCompleted, get_workers_updateWorker,
        inFlightTasks_releaseFairShare, inFlightTasks_updateWorker] at hinfo ⊢
      obtain ⟨before, hbefore⟩ : ∃ before, r.workers.get v = some before := by
        refine Option.ne_none_iff_exists'.1 fun hnone => ?_
        simp [hnone] at hinfo
      have hright := h.inFlight v before hbefore
      rw [hcount (ofWorker v)] at hright
      simp only [hbefore, Option.map_some] at hinfo
      split_ifs at hinfo with hv
      · cases hinfo
        simp only [hright, ofWorker, hv, decide_true, if_true]
        omega
      · cases hinfo
        have hother : ofWorker v task = false := decide_eq_false fun heq => hv heq.symm
        rw [hright, hother, if_neg Bool.false_ne_true, Nat.add_zero]
    · rw [load_releaseFairShare]
      simp only [taskCompleted, fairShareCounts_updateWorker, inFlightTasks_releaseFairShare,
        inFlightTasks_updateWorker]
      rw [h.load, hcount (ofKey v k), Nat.add_sub_cancel]

theorem Accounted.extendVisibility (operationId : κ) (now extension : Nat) :
    (r.extendVisibility operationId now extension).Accounted := by
  rw [WorkerRegistry.extendVisibility]
  cases htask : r.inFlightTasks.get operationId with
  | none => exact h
  | some task =>
    have hsame : ∀ p : InFlightTask ι κ φ → Bool,
        p { task with deadline := now + extension } = p task →
        (r.inFlightTasks.set operationId { task with deadline := now + extension }).count p =
          r.inFlightTasks.count p := by
      intro p hp
      have hset := InsertionMap.count_set_of_get_some htask
        { task with deadline := now + extension } p
      rw [hp] at hset
      exact Nat.add_right_cancel hset
    refine ⟨fun v info hinfo => ?_, fun v k => ?_⟩
    · exact (h.inFlight v info hinfo).trans (hsame _ rfl).symm
    · exact (h.load v k).trans (hsame _ rfl).symm

end

/-! The expiry of a batch: the tasks go, the shares are released, the workers' records stay. -/

theorem workers_expire (expired : List (InFlightTask ι κ φ)) (r : WorkerRegistry ι κ φ) :
    (expired.foldl expireTask r).workers = r.workers := by
  induction expired generalizing r with
  | nil => rfl
  | cons task expired ih =>
    rw [List.foldl_cons, ih, expireTask, workers_releaseFairShare]

theorem load_expire (expired : List (InFlightTask ι κ φ)) (r : WorkerRegistry ι κ φ) (v : ι)
    (k : φ) : (expired.foldl expireTask r).fairShareCounts.load v k =
      r.fairShareCounts.load v k - expired.countP (ofKey v k) := by
  induction expired generalizing r with
  | nil => rfl
  | cons task expired ih =>
    rw [List.foldl_cons, ih, expireTask, load_releaseFairShare, List.countP_cons]
    simp only
    omega

variable {expired : List (InFlightTask ι κ φ)}

theorem get_inFlightTasks_expire {operationId : κ} {task : InFlightTask ι κ φ}
    (h : (expired.foldl expireTask r).inFlightTasks.get operationId = some task) :
    r.inFlightTasks.get operationId = some task := by
  induction expired generalizing r with
  | nil => exact h
  | cons first expired ih =>
    have hfirst := ih h
    rw [expireTask, inFlightTasks_releaseFairShare, InsertionMap.get_delete] at hfirst
    split_ifs at hfirst
    exact hfirst

theorem count_expire (hpresent : ∀ task ∈ expired, r.inFlightTasks.get task.operationId = some task)
    (hnodup : (expired.map InFlightTask.operationId).Nodup) (p : InFlightTask ι κ φ → Bool) :
    r.inFlightTasks.count p =
      (expired.foldl expireTask r).inFlightTasks.count p + expired.countP p := by
  induction expired generalizing r with
  | nil => rfl
  | cons task expired ih =>
    obtain ⟨hfresh, hrest⟩ := List.nodup_cons.1 hnodup
    have hothers : ∀ other ∈ expired,
        (r.expireTask task).inFlightTasks.get other.operationId = some other := by
      intro other hother
      rw [expireTask, inFlightTasks_releaseFairShare, InsertionMap.get_delete, if_neg]
      · exact hpresent other (List.mem_cons_of_mem _ hother)
      · intro heq
        exact hfresh (heq ▸ List.mem_map_of_mem hother)
    rw [List.foldl_cons, List.countP_cons, ← Nat.add_assoc, ← ih hothers hrest, expireTask,
      inFlightTasks_releaseFairShare]
    exact InsertionMap.count_delete (hpresent task List.mem_cons_self) p

theorem count_checkExpiredTasks (hkeyed : r.Keyed) (now : Nat) (p : InFlightTask ι κ φ → Bool) :
    r.inFlightTasks.count p =
      (r.checkExpiredTasks now).inFlightTasks.count p + (r.expiredTasks now).countP p := by
  refine count_expire (fun task htask => ?_) ?_ p
  · obtain ⟨operationId, hget⟩ := InsertionMap.mem_values_iff.1 (List.mem_filter.1 htask).1
    rw [hkeyed operationId task hget]
    exact hget
  · have hkeys : r.inFlightTasks.values.map InFlightTask.operationId =
        r.inFlightTasks.entries.map Prod.fst := by
      rw [InsertionMap.values, List.map_map]
      refine List.map_congr_left fun e he => ?_
      exact hkeyed e.1 e.2 (InsertionMap.get_eq_some_iff.2 he)
    have hall : (r.inFlightTasks.values.map InFlightTask.operationId).Nodup := by
      rw [hkeys]
      exact r.inFlightTasks.nodup
    exact hall.sublist (List.filter_sublist.map _)

theorem Accounted.notClamped_checkExpiredTasks (h : r.Accounted) (hkeyed : r.Keyed) (now : Nat) :
    r.NotClamped (.checkExpiredTasks now) := by
  intro v k
  rw [h.load, count_checkExpiredTasks hkeyed now]
  exact Nat.le_add_left _ _

theorem accounted_checkExpiredTasks_iff (h : r.Accounted) (hkeyed : r.Keyed) (now : Nat) :
    (r.checkExpiredTasks now).Accounted ↔
      ∀ task ∈ r.expiredTasks now, r.workers.get task.workerId = none := by
  have hcount := count_checkExpiredTasks hkeyed now
  have hworkers : (r.checkExpiredTasks now).workers = r.workers := workers_expire _ r
  constructor
  · intro hafter task htask
    by_contra hreg
    obtain ⟨info, hinfo⟩ := Option.ne_none_iff_exists'.1 hreg
    have hbefore := h.inFlight task.workerId info hinfo
    have hkept := hafter.inFlight task.workerId info (hworkers ▸ hinfo)
    have hnone : (r.expiredTasks now).countP (ofWorker task.workerId) = 0 := by
      have hsplit := hcount (ofWorker task.workerId)
      omega
    exact List.countP_eq_zero.1 hnone task htask (by simp [ofWorker])
  · intro hfree
    refine ⟨fun v info hinfo => ?_, fun v k => ?_⟩
    · rw [hworkers] at hinfo
      have hnone : (r.expiredTasks now).countP (ofWorker v) = 0 := by
        refine List.countP_eq_zero.2 fun task htask hof => ?_
        have hgone := hfree task htask
        rw [of_decide_eq_true hof, hinfo] at hgone
        cases hgone
      rw [h.inFlight v info hinfo, hcount, hnone, Nat.add_zero]
    · rw [checkExpiredTasks, load_expire, h.load, hcount, Nat.add_sub_cancel]
      rfl

/-! The tasks keep standing under their own ids. -/

variable {r r' : WorkerRegistry ι κ φ}

omit [DecidableEq ι] [DecidableEq φ] in
theorem Keyed.of_set (h : r.Keyed) (operationId : κ) (task : InFlightTask ι κ φ)
    (hid : task.operationId = operationId)
    (hset : r'.inFlightTasks = r.inFlightTasks.set operationId task) : r'.Keyed := by
  intro other found hfound
  rw [hset, InsertionMap.get_set] at hfound
  split_ifs at hfound with hother
  · cases hfound
    rw [hid, hother]
  · exact h other found hfound

omit [DecidableEq ι] [DecidableEq φ] in
theorem Keyed.of_sub (h : r.Keyed)
    (hsub : ∀ operationId task, r'.inFlightTasks.get operationId = some task →
      r.inFlightTasks.get operationId = some task) : r'.Keyed :=
  fun operationId task hget => h operationId task (hsub operationId task hget)

theorem Keyed.apply (h : r.Keyed) (operation : Operation ι κ φ) : (r.apply operation).Keyed := by
  cases operation with
  | register info => exact h
  | unregister workerId =>
    refine h.of_sub fun operationId task hget => ?_
    rw [WorkerRegistry.apply, WorkerRegistry.unregister] at hget
    split at hget
    · exact hget
    · exact (InsertionMap.get_deleteWhere_eq_some_iff.1 hget).1
  | assignTask workerId operationId now visibilityTimeout fairShareKey attemptToken =>
    refine h.of_set operationId (assignedTask workerId operationId now visibilityTimeout
      fairShareKey attemptToken) rfl ?_
    simp only [WorkerRegistry.apply, assignTask, taskAssigned, inFlightTasks_updateWorker,
      inFlightTasks_countFairShare]
  | completeTask operationId =>
    refine h.of_sub fun other task hget => ?_
    rw [WorkerRegistry.apply, WorkerRegistry.completeTask] at hget
    split at hget
    · exact hget
    · simp only [inFlightTasks_releaseFairShare, taskCompleted, inFlightTasks_updateWorker,
        InsertionMap.get_delete] at hget
      split_ifs at hget
      exact hget
  | checkExpiredTasks now =>
    exact h.of_sub fun operationId task hget => get_inFlightTasks_expire hget
  | extendVisibility operationId now extension =>
    rw [WorkerRegistry.apply, WorkerRegistry.extendVisibility]
    cases hget : r.inFlightTasks.get operationId with
    | none => exact h
    | some task =>
      exact h.of_set operationId { task with deadline := now + extension }
        (h operationId task hget) rfl

/-! Whole runs. -/

theorem accounted_apply_iff (h : r.Accounted) (hkeyed : r.Keyed) (operation : Operation ι κ φ) :
    (r.apply operation).Accounted ↔ r.CountersFollow operation := by
  cases operation with
  | register info => exact iff_of_true (h.register info) trivial
  | unregister workerId => exact iff_of_true (h.unregister workerId) trivial
  | assignTask workerId operationId now visibilityTimeout fairShareKey attemptToken =>
    exact accounted_assignTask_iff h workerId operationId now visibilityTimeout fairShareKey
      attemptToken
  | completeTask operationId => exact iff_of_true (h.completeTask operationId) trivial
  | checkExpiredTasks now => exact accounted_checkExpiredTasks_iff h hkeyed now
  | extendVisibility operationId now extension =>
    exact iff_of_true (h.extendVisibility operationId now extension) trivial

theorem Accounted.notClamped (h : r.Accounted) (hkeyed : r.Keyed) (operation : Operation ι κ φ) :
    r.NotClamped operation := by
  cases operation with
  | completeTask operationId => exact h.notClamped_completeTask operationId
  | checkExpiredTasks now => exact h.notClamped_checkExpiredTasks hkeyed now
  | register info => trivial
  | unregister workerId => trivial
  | assignTask workerId operationId now visibilityTimeout fairShareKey attemptToken => trivial
  | extendVisibility operationId now extension => trivial

omit [DecidableEq ι] [DecidableEq φ] in
theorem keyed_new (policy : RoutingPolicy) : (new policy : WorkerRegistry ι κ φ).Keyed := by
  intro operationId task hget
  cases hget

omit [DecidableEq κ] in
theorem accounted_new (policy : RoutingPolicy) : (new policy : WorkerRegistry ι κ φ).Accounted := by
  refine ⟨fun workerId info hget => ?_, fun workerId key => rfl⟩
  cases hget

end WorkerRegistry

open WorkerRegistry

variable [DecidableEq κ]

/-- Every operation is enabled in every registry. -/
def machine : Machine (WorkerRegistry ι κ φ) (Operation ι κ φ) where
  step r operation := some (r.apply operation)

/-- In every run, all counters are right and none is ever clamped exactly where every operation
of the run replaces no counted task and expires none of a registered worker. -/
theorem accounted_iff_countersFollow (policy : RoutingPolicy)
    (operations : List (Operation ι κ φ)) :
    (machine.EveryState Accounted (new policy) operations ∧
        machine.EveryStep NotClamped (new policy) operations) ↔
      machine.EveryStep CountersFollow (new policy) operations := by
  have hstep : ∀ (r : WorkerRegistry ι κ φ) (operation : Operation ι κ φ)
      (r' : WorkerRegistry ι κ φ), r.Keyed → r.Accounted →
      machine.step r operation = some r' →
      r'.Keyed ∧ (r'.Accounted ↔ r.CountersFollow operation) := by
    intro r operation r' hkeyed hacc hr'
    obtain rfl := Option.some.inj hr'
    exact ⟨hkeyed.apply operation, accounted_apply_iff hacc hkeyed operation⟩
  have hiff : machine.EveryState Accounted (new policy) operations ↔
      Accounted (new policy) ∧ machine.EveryStep CountersFollow (new policy) operations :=
    Machine.everyState_iff_everyStep hstep (keyed_new policy)
  constructor
  · intro h
    exact (hiff.1 h.1).2
  · intro h
    refine ⟨hiff.2 ⟨accounted_new policy, h⟩, ?_⟩
    refine Machine.everyStep_of_invariant (I := fun r => r.Keyed ∧ r.Accounted)
      (fun r operation r' hr hfollow hr' => ?_) ⟨keyed_new policy, accounted_new policy⟩ h
    obtain ⟨hkeyed, hacc⟩ := hr
    obtain ⟨hkeyed', hacc'⟩ := hstep r operation r' hkeyed hacc hr'
    exact ⟨⟨hkeyed', hacc'.2 hfollow⟩, hacc.notClamped hkeyed operation⟩

end

/-- A worker registers, gets a task, and the task expires: its record still counts one task in
flight, and no task is. -/
theorem expired_task_still_counted :
    ¬ (@machine Nat Nat Nat _ _ _).EveryState WorkerRegistry.Accounted
      (.new .leastLoaded)
      [.register ⟨1, "default", ["charge"], 1, none⟩, .assignTask 1 7 0 10 none "a",
        .checkExpiredTasks 10] := by
  intro h
  have hlast := h.2.2.2
  exact absurd (hlast.inFlight 1 ⟨1, "default", ["charge"], 1, 1, none, none⟩ rfl) (by decide)

end Weft.Registry
