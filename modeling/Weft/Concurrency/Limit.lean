import Weft.Concurrency.Admission

/-! The concurrency limit. A snapshot whose value was read before another call's commit and whose
version was read after it admits a workflow to a full slot record, and a release that is still
under way when its workflow is admitted again takes the new run's slot or its marker. While
neither happens, the slot record lists exactly the workflows admitted and not yet released. -/

namespace Weft.Concurrency
open Weft.Js Weft.Storage Weft.Lib Weft.Lock Weft.AtomicState

universe v

variable {V : Type v}

/-! ## What is to hold -/

section

variable (slots : Slots V)

def Slots.holderIds (store : Store V) : List JsString :=
  (normalizeLockRecord ((store.get slots.stateKey).bind slots.codec.slot.decode)).map (·.holderId)

/-- At most `max` workflows are admitted and not released. Each of them has its slot until its own
release takes it, and the marker by which that release finds the slot; a release that came to its
end has released the admission it was called for. -/
structure Limited (s : State V) : Prop where
  bound : s.live.length ≤ slots.max
  distinct : s.live.Nodup
  held : ∀ workflowId : Component,
    workflowId.text ∈ slots.holderIds s.store ↔ workflowId ∈ s.live
  marked : ∀ workflowId ∈ s.live,
    (s.store.get (KEYS.workflowConcurrencyHolder workflowId)).isSome
  released : ∀ c ∈ s.calls, c.phase = .ended .released →
    c.task = .release (s.admissions.count c.workflowId) → c.workflowId ∉ s.live

def Call.pendingValue (c : Call V) : Option (Option V) :=
  match c.phase with
  | .reading (some rawValue) none => some rawValue
  | _ => none

def Phase.isEnded : Phase V → Bool
  | .ended _ => true
  | _ => false

def Task.isAdmission : Task → Bool
  | .admission _ => true
  | .release _ => false

/-- The batch of the call would be applied. -/
def Call.applies [DecidableEq V] (c : Call V) (store : Store V) : Bool :=
  match c.phase with
  | .committing snapshot _ =>
    conditionsHold store [versionCondition slots.codec.slot slots.stateKey snapshot.version]
  | _ => false

/-- A version read that completes a snapshot finds the value it was paired with in place, and an
admission commits while no release of its workflow is under way. -/
def Undisturbed [DecidableEq V] (s : State V) : Label → Prop
  | .readVersion i _ =>
    ∀ c ∈ s.calls[i]?, ∀ rawValue ∈ c.pendingValue, s.store.get slots.stateKey = rawValue
  | .commit i _ =>
    ∀ c ∈ s.calls[i]?, c.task.isAdmission → c.applies slots s.store →
      ∀ d ∈ s.calls, d.workflowId = c.workflowId → d.task.isAdmission = false → d.phase.isEnded
  | _ => True

/-! ## The invariant -/

/-- The record that lists the given workflows. -/
def slotRecord (live : List Component) : LockRecord Int :=
  ⟨live.map fun workflowId => ⟨workflowId.text, nonExpiringLease⟩, []⟩

def readSlot (rawValue rawVersion : Option V) : Option (AtomicStateSnapshot (StoredRecord Int)) :=
  readAtomicStateSnapshot slots.codec.slot (some initialLockRecord.stored) rawValue rawVersion

def ReadsOk (store : Store V) (c : Call V) : Prop :=
  match c.phase with
  | .reading none (some rawVersion) =>
    ReadBefore slots.codec.slot slots.stateKey store rawVersion
  | .committing snapshot record =>
    (∃ rawValue rawVersion, readSlot slots rawValue rawVersion = some snapshot ∧
      ReadBefore slots.codec.slot slots.stateKey store rawVersion ∧
      (versionNumber slots.codec.slot rawVersion = versionNumber slots.codec.slot
          (store.get (atomicStateVersionKey slots.stateKey)) →
        store.get slots.stateKey = rawValue)) ∧
      ∃ now ≤ maxTime, c.task.next slots c.workflowId.text now snapshot = some record
  | .marker | .unmarking => c.task.isAdmission = false
  | _ => True

/-- A release under way is one of the latest admission, and is over once it has committed. -/
def AccountOk (admissions live : List Component) (c : Call V) : Prop :=
  ∀ run, c.task = .release run →
    run ≤ admissions.count c.workflowId ∧
    (c.phase.isEnded = false → run = admissions.count c.workflowId) ∧
    (c.phase = .unmarking ∨ c.phase = .ended .released →
      run = admissions.count c.workflowId → c.workflowId ∉ live)

structure Inv (s : State V) : Prop where
  slot : ∃ version, readSlot slots (s.store.get slots.stateKey)
    (s.store.get (atomicStateVersionKey slots.stateKey)) =
      some ⟨some (slotRecord s.live).stored, version⟩
  bound : s.live.length ≤ slots.max
  distinct : s.live.Nodup
  marker : ∀ workflowId, ∀ raw ∈ s.store.get (KEYS.workflowConcurrencyHolder workflowId),
    raw = slots.codec.encodeHolderRecord slots.holderRecord
  marked : ∀ workflowId ∈ s.live,
    (s.store.get (KEYS.workflowConcurrencyHolder workflowId)).isSome
  reads : ∀ c ∈ s.calls, ReadsOk slots s.store c
  account : ∀ c ∈ s.calls, AccountOk s.admissions s.live c

end

variable {slots : Slots V}

/-! ## Keys -/

theorem holderKey_ne_stateKey (workflowId : Component) :
    KEYS.workflowConcurrencyHolder workflowId ≠ slots.stateKey := by
  simp only [KEYS.workflowConcurrencyHolder, Slots.stateKey, KEYS.workflowConcurrency,
    List.append_assoc]
  exact ne_of_apart (by decide) _ _

theorem holderKey_ne_versionKey (workflowId : Component) :
    KEYS.workflowConcurrencyHolder workflowId ≠ atomicStateVersionKey slots.stateKey := by
  simp only [KEYS.workflowConcurrencyHolder, atomicStateVersionKey, Slots.stateKey,
    KEYS.workflowConcurrency, List.append_assoc]
  exact ne_of_apart (by decide) _ _

theorem cleanupKey_ne_stateKey (workflowId : Component) :
    KEYS.terminalCleanupNeeded workflowId ≠ slots.stateKey := by
  simp only [KEYS.terminalCleanupNeeded, Slots.stateKey, KEYS.workflowConcurrency,
    List.append_assoc]
  exact ne_of_apart (by decide) _ _

theorem cleanupKey_ne_versionKey (workflowId : Component) :
    KEYS.terminalCleanupNeeded workflowId ≠ atomicStateVersionKey slots.stateKey := by
  simp only [KEYS.terminalCleanupNeeded, atomicStateVersionKey, Slots.stateKey,
    KEYS.workflowConcurrency, List.append_assoc]
  exact ne_of_apart (by decide) _ _

theorem holderKey_ne_cleanupKey (workflowId other : Component) :
    KEYS.workflowConcurrencyHolder workflowId ≠ KEYS.terminalCleanupNeeded other :=
  ne_of_apart (by decide) _ _

theorem holderKey_injective {i j : Component}
    (h : KEYS.workflowConcurrencyHolder i = KEYS.workflowConcurrencyHolder j) : i = j :=
  Component.enc_injective (List.append_cancel_left h)

/-! ## The record -/

variable {now : Int}

theorem live_slotRecord (live : List Component) (hnow : now ≤ maxTime) :
    liveWorkflowConcurrencyHolders (slotRecord live).holders now = (slotRecord live).holders := by
  refine List.filter_eq_self.2 fun holder hholder => ?_
  obtain ⟨workflowId, -, rfl⟩ := List.mem_map.1 hholder
  have : now < nonExpiringLease := hnow.trans_lt (by decide)
  simpa using this

variable {record : LockRecord Int}

variable {live : List Component} {workflowId : Component}

/-- An admission lists its workflow, once, and only where there is room. -/
theorem acquire_slotRecord (hnow : now ≤ maxTime) {limit : Nat} (hbound : live.length ≤ limit)
    (h : acquireWorkflowConcurrencySlot (some (slotRecord live).stored) workflowId.text now limit
      = (true, record)) :
    record = slotRecord (if workflowId ∈ live then live else live ++ [workflowId]) ∧
      (if workflowId ∈ live then live else live ++ [workflowId]).length ≤ limit := by
  have hholders : normalizeLockRecord (some (slotRecord live).stored) = (slotRecord live).holders :=
    rfl
  have hany : ((slotRecord live).holders.any fun holder => holder.holderId = workflowId.text) ↔
      workflowId ∈ live := by
    simp only [slotRecord, List.any_map, List.any_eq_true, Function.comp, decide_eq_true_eq]
    refine ⟨?_, fun hmem => ⟨workflowId, hmem, rfl⟩⟩
    rintro ⟨other, hother, heq⟩
    rwa [← Subtype.ext heq]
  simp only [acquireWorkflowConcurrencySlot, hholders, live_slotRecord live hnow, hany] at h
  by_cases hmem : workflowId ∈ live
  · simp only [hmem, if_true, Prod.mk.injEq, true_and] at h ⊢
    subst h
    refine ⟨?_, hbound⟩
    have hsame : ((slotRecord live).holders.map fun holder : LockHolder Int =>
        if holder.holderId = workflowId.text then ⟨workflowId.text, nonExpiringLease⟩
        else holder) = (slotRecord live).holders := by
      simp only [slotRecord, List.map_map]
      refine List.map_congr_left fun other _ => ?_
      simp only [Function.comp]
      split_ifs with heq
      · rw [heq]
      · rfl
    rw [hsame]
    rfl
  · simp only [hmem, if_false] at h ⊢
    split_ifs at h with hfull
    · simp at h
    · simp only [Prod.mk.injEq, true_and] at h
      subst h
      have hlength : (slotRecord live).holders.length = live.length := by simp [slotRecord]
      refine ⟨by simp [slotRecord], ?_⟩
      rw [List.length_append, List.length_singleton]
      omega

theorem release_slotRecord (live : List Component) (workflowId : Component) (hnow : now ≤ maxTime) :
    reduceRelease lockClock (some (slotRecord live).stored) workflowId.text now none =
      slotRecord (live.filter fun other => other ≠ workflowId) := by
  have hlive := live_slotRecord live hnow
  have hholders : normalizeRecord (some (slotRecord live).stored)
      (lockClock.add now ((none : Option Int).getD lockClock.minWaiterTtl)) = slotRecord live := by
    simp [normalizeRecord, LockRecord.stored, slotRecord]
  have hdrop : dropExpiredHolders (slotRecord live).holders now = (slotRecord live).holders := hlive
  simp only [reduceRelease, hholders, hdrop]
  simp only [slotRecord, List.filter_map, dropExpiredWaiters, List.filter_nil]
  congr 2
  refine List.filter_congr fun other _ => decide_eq_decide.2 (not_congr ⟨fun h => ?_, fun h => ?_⟩)
  · exact Subtype.ext h
  · exact congrArg Component.text h

/-! ## Reads and calls -/

variable {c : Call V}

theorem readsOk_congr {store store' : Store V}
    (hvalue : store'.get slots.stateKey = store.get slots.stateKey)
    (hversion : store'.get (atomicStateVersionKey slots.stateKey) =
      store.get (atomicStateVersionKey slots.stateKey))
    (h : ReadsOk slots store c) : ReadsOk slots store' c := by
  unfold ReadsOk ReadBefore at h ⊢
  rwa [hvalue, hversion]

variable {store : Store V}

theorem readsOk_afterReads (hnow : now ≤ maxTime) {rawValue rawVersion : Option V}
    (hread : ReadBefore slots.codec.slot slots.stateKey store rawVersion)
    (hvalue : versionNumber slots.codec.slot rawVersion =
      versionNumber slots.codec.slot (store.get (atomicStateVersionKey slots.stateKey)) →
      store.get slots.stateKey = rawValue) :
    ReadsOk slots store (c.afterReads slots now rawValue rawVersion) := by
  unfold Call.afterReads
  split
  · trivial
  · rename_i snapshot hsnapshot
    split
    · trivial
    · rename_i record hrecord
      exact ⟨⟨rawValue, rawVersion, hsnapshot, hread, hvalue⟩, now, hnow, hrecord⟩

variable {admissions live : List Component}

/-- A call that goes on without having released keeps its account. -/
theorem AccountOk.goOn {phase : Phase V} {attempt : Nat} (h : AccountOk admissions live c)
    (hphase : c.phase.isEnded = false) (hunmarking : phase ≠ .unmarking)
    (hreleased : phase ≠ .ended .released) :
    AccountOk admissions live { c with attempt := attempt, phase := phase } := by
  intro run hrun
  obtain ⟨hle, hcurrent, -⟩ := h run hrun
  refine ⟨hle, fun _ => hcurrent hphase, fun hover => ?_⟩
  exact (hover.elim hunmarking hreleased).elim

theorem AccountOk.afterReads (h : AccountOk admissions live c) (hphase : c.phase.isEnded = false)
    (now : Int) (rawValue rawVersion : Option V) :
    AccountOk admissions live (c.afterReads slots now rawValue rawVersion) := by
  unfold Call.afterReads
  split
  · exact h.goOn hphase (by simp) (by simp)
  · split
    · exact h.goOn hphase (by simp) (by simp)
    · exact h.goOn hphase (by simp) (by simp)

variable {s : State V}

theorem Inv.setCall (h : Inv slots s) (i : Nat) (hreads : ReadsOk slots s.store c)
    (haccount : AccountOk s.admissions s.live c) : Inv slots (s.setCall i c) := { h with
  reads := fun d hd => (List.mem_or_eq_of_mem_set hd).elim (h.reads d) fun heq => heq ▸ hreads
  account := fun d hd => (List.mem_or_eq_of_mem_set hd).elim (h.account d) fun heq =>
    heq ▸ haccount }

theorem Inv.addCall (h : Inv slots s) (hreads : ReadsOk slots s.store c)
    (haccount : AccountOk s.admissions s.live c) :
    Inv slots { s with calls := s.calls ++ [c] } := { h with
  reads := by
    simp only [List.mem_append, List.mem_singleton]
    rintro d (hd | rfl)
    · exact h.reads d hd
    · exact hreads
  account := by
    simp only [List.mem_append, List.mem_singleton]
    rintro d (hd | rfl)
    · exact h.account d hd
    · exact haccount }

/-! ## Commits -/

/-- What an applied batch leaves under the keys of the slot and the markers. -/
theorem get_operations (store : Store V) (c : Call V) (version : Nat) (record : LockRecord Int)
    {after : Store V}
    (hafter : applyBatchOperations store (c.operations slots version record) = after) :
    after.get slots.stateKey = some (slots.codec.slot.encode record.stored) ∧
    after.get (atomicStateVersionKey slots.stateKey) =
      some (slots.codec.slot.encodeVersion (version + 1)) ∧
    ∀ workflowId, after.get (KEYS.workflowConcurrencyHolder workflowId) =
      if c.task.isAdmission ∧ workflowId = c.workflowId then
        some (slots.codec.encodeHolderRecord slots.holderRecord)
      else store.get (KEYS.workflowConcurrencyHolder workflowId) := by
  subst hafter
  have hkeep (store : Store V) (workflowId : Component) :
      (applyBatchOperations store (commitOperations slots.codec.slot slots.stateKey version
        (some record.stored))).get (KEYS.workflowConcurrencyHolder workflowId) =
      store.get (KEYS.workflowConcurrencyHolder workflowId) := by
    apply get_applyBatchOperations_of_untouched
    simp [commitOperations, BatchOperation.key, (holderKey_ne_stateKey workflowId).symm,
      (holderKey_ne_versionKey workflowId).symm]
  cases htask : c.task with
  | release run =>
    simp only [Call.operations, htask, Task.isAdmission, Bool.false_eq_true, false_and, if_false]
    obtain ⟨hvalue, hversion⟩ :=
      get_commitOperations slots.codec.slot slots.stateKey store version (some record.stored)
    exact ⟨hvalue, hversion, hkeep store⟩
  | admission restart =>
    simp only [Call.operations, htask, Task.isAdmission, true_and, List.append_assoc,
      applyBatchOperations_append]
    generalize hpurged : applyBatchOperations store _ = purged
    obtain ⟨hvalue, hversion⟩ :=
      get_commitOperations slots.codec.slot slots.stateKey purged version (some record.stored)
    have hkept := hkeep purged
    generalize applyBatchOperations purged _ = written at *
    simp only [applyBatchOperations, List.foldl_cons, List.foldl_nil, applyBatchOperation,
      OrderedStore.get_put]
    refine ⟨?_, ?_, fun workflowId => ?_⟩
    · rw [if_neg (cleanupKey_ne_stateKey _).symm, if_neg (holderKey_ne_stateKey _).symm]
      exact hvalue
    · rw [if_neg (cleanupKey_ne_versionKey _).symm, if_neg (holderKey_ne_versionKey _).symm]
      exact hversion
    · rw [if_neg (holderKey_ne_cleanupKey _ _)]
      by_cases hsame : workflowId = c.workflowId
      · simp [hsame]
      · have hkey : KEYS.workflowConcurrencyHolder workflowId ≠
            KEYS.workflowConcurrencyHolder c.workflowId := fun h => hsame (holderKey_injective h)
        rw [if_neg hkey, if_neg hsame, hkept, ← hpurged]
        cases restart with
        | false => rfl
        | true => simp [applyBatchOperations, applyBatchOperation, hkey]

variable {snapshot : AtomicStateSnapshot (StoredRecord Int)}

/-- The record of a commit that passes the check lists who is then admitted and not released. -/
theorem committed_record (h : Inv slots s) (hc : c ∈ s.calls)
    (hphase : c.phase = .committing snapshot record)
    (hcond : s.store.get (atomicStateVersionKey slots.stateKey) =
      if snapshot.version = 0 then none else some (slots.codec.slot.encodeVersion
      snapshot.version)) :
    record = slotRecord (s.account c).live ∧ (s.account c).live.length ≤ slots.max := by
  have hreads := h.reads c hc
  simp only [ReadsOk, hphase] at hreads
  obtain ⟨⟨rawValue, rawVersion, hsnapshot, hread, hvalue⟩, now, hnow, hnext⟩ := hreads
  obtain ⟨version, hslot⟩ := h.slot
  have hcurrent := snapshot_current hsnapshot hread hvalue hcond
  have hsame : snapshot.value = some (slotRecord s.live).stored := by
    have := Option.some.inj (hcurrent.symm.trans hslot)
    rw [this]
  cases htask : c.task with
  | admission restart =>
    simp only [htask, Task.next, hsame] at hnext
    split at hnext
    · rename_i acquired hacquire
      cases hnext
      simp only [State.account, htask]
      exact acquire_slotRecord hnow h.bound hacquire
    · cases hnext
  | release run =>
    simp only [htask, Task.next, hsame, release_slotRecord s.live c.workflowId hnow,
      Option.some.injEq] at hnext
    have hrun := (h.account c hc run htask).2.1 (by rw [hphase]; rfl)
    simp only [State.account, htask, hrun, if_true]
    refine ⟨hnext.symm, ?_⟩
    exact (List.length_filter_le _ _).trans h.bound

theorem State.account_calls (s : State V) (c : Call V) : (s.account c).calls = s.calls := by
  unfold State.account
  split
  · rfl
  · split_ifs
    · rfl
    · rfl

theorem account_mem (h : workflowId ∈ (s.account c).live)
    (hother : c.task.isAdmission → workflowId ≠ c.workflowId) : workflowId ∈ s.live := by
  cases htask : c.task with
  | admission restart =>
    simp only [State.account, htask] at h
    split_ifs at h
    · exact h
    · rcases List.mem_append.1 h with h | h
      · exact h
      · exact (hother (by rw [htask]; rfl) (List.mem_singleton.1 h)).elim
  | release run =>
    simp only [State.account, htask] at h
    split_ifs at h
    · exact List.mem_of_mem_filter h
    · exact h

theorem account_distinct (h : s.live.Nodup) (c : Call V) : (s.account c).live.Nodup := by
  unfold State.account
  split
  · simp only
    split_ifs with hmem
    · exact h
    · rw [← List.concat_eq_append]
      exact h.concat hmem
  · split_ifs
    · exact h.filter _
    · exact h

/-- The other calls after a commit: a release under way is none of the admitted workflow. -/
theorem account_other {c d : Call V} (hd : AccountOk s.admissions s.live d)
    (hclear : c.task.isAdmission → d.workflowId = c.workflowId → d.task.isAdmission = false →
      d.phase.isEnded) :
    AccountOk (s.account c).admissions (s.account c).live d := by
  intro run hrun
  obtain ⟨hle, hcurrent, hover⟩ := hd run hrun
  cases htask : c.task with
  | release released =>
    simp only [State.account, htask]
    split_ifs
    · refine ⟨hle, hcurrent, fun hphase heq hmem => ?_⟩
      exact hover hphase heq (List.mem_of_mem_filter hmem)
    · exact ⟨hle, hcurrent, hover⟩
  | admission restart =>
    simp only [State.account, htask]
    by_cases hsame : d.workflowId = c.workflowId
    · have hended := hclear (by rw [htask]; rfl) hsame (by rw [hrun]; rfl)
      rw [hsame, List.count_cons_self, ← hsame]
      refine ⟨by omega, fun hphase => ?_, fun _ heq => by omega⟩
      rw [hended] at hphase
      cases hphase
    · rw [List.count_cons_of_ne (Ne.symm hsame)]
      refine ⟨hle, hcurrent, fun hphase heq hmem => ?_⟩
      split_ifs at hmem
      · exact hover hphase heq hmem
      · rcases List.mem_append.1 hmem with hmem | hmem
        · exact hover hphase heq hmem
        · exact hsame (List.mem_singleton.1 hmem)

theorem account_own (hc : AccountOk s.admissions s.live c) (hphase : c.phase.isEnded = false)
    (answerLost : Bool) :
    AccountOk (s.account c).admissions (s.account c).live (c.committed answerLost) := by
  have hcommitted : (c.committed answerLost).task = c.task ∧
      (c.committed answerLost).workflowId = c.workflowId := by
    unfold Call.committed
    split_ifs
    · exact ⟨rfl, rfl⟩
    · split
      · exact ⟨rfl, rfl⟩
      · exact ⟨rfl, rfl⟩
  intro run hrun
  rw [hcommitted.1] at hrun
  obtain ⟨-, hcurrent, -⟩ := hc run hrun
  have heq := hcurrent hphase
  rw [hcommitted.2]
  simp only [State.account, hrun, heq, if_true, le_refl, true_and, implies_true]
  intro _ _ hmem
  have hother := (List.mem_filter.1 hmem).2
  simp at hother

theorem readsOk_after_commit {store after : Store V} {n : Nat} (h : ReadsOk slots store c)
    (hold : versionNumber slots.codec.slot (store.get (atomicStateVersionKey slots.stateKey)) = n)
    (hnew : after.get (atomicStateVersionKey slots.stateKey) =
      some (slots.codec.slot.encodeVersion (n + 1))) :
    ReadsOk slots after c := by
  unfold ReadsOk at h ⊢
  split at h
  · exact (readBefore_after_commit h hold hnew).1
  · obtain ⟨⟨rawValue, rawVersion, hsnapshot, hread, -⟩, hnext⟩ := h
    obtain ⟨hread', hne⟩ := readBefore_after_commit hread hold hnew
    exact ⟨⟨rawValue, rawVersion, hsnapshot, hread', fun heq => (hne heq).elim⟩, hnext⟩
  · exact h
  · exact h
  · trivial

theorem readsOk_committed (store : Store V) (c : Call V) (answerLost : Bool) :
    ReadsOk slots store (c.committed answerLost) := by
  unfold Call.committed
  split_ifs
  · trivial
  · split
    · trivial
    · rename_i htask
      simp only [ReadsOk, htask, Task.isAdmission]

theorem readsOk_afterConflict (store : Store V) (c : Call V) :
    ReadsOk slots store c.afterConflict := by
  unfold Call.afterConflict
  split_ifs
  · split
    · trivial
    · trivial
  · trivial

theorem AccountOk.afterConflict (h : AccountOk admissions live c)
    (hphase : c.phase.isEnded = false) : AccountOk admissions live c.afterConflict := by
  unfold Call.afterConflict
  split_ifs
  · split
    · exact h.goOn hphase (by simp) (by simp)
    · exact h.goOn hphase (by simp) (by simp)
  · exact h.goOn hphase (by simp) (by simp)

variable [DecidableEq V]

theorem commit_inv {s t : State V} (h : Inv slots s) {i : Nat} {answerLost : Bool}
    (hi : s.calls[i]? = some c) (hphase : c.phase = .committing snapshot record)
    (hok : Undisturbed slots s (.commit i answerLost))
    (hstep : commitStep slots s i c snapshot record answerLost = some t) : Inv slots t := by
  have hc : c ∈ s.calls := List.mem_of_getElem? hi
  have hrunning : c.phase.isEnded = false := by rw [hphase]; rfl
  unfold commitStep at hstep
  split at hstep
  · cases hstep
  · rename_i after hbatch
    cases hstep
    have happlies : c.applies slots s.store = true := by
      unfold conditionalBatch at hbatch
      split_ifs at hbatch with hsize hholds
      · simpa [Call.applies, hphase] using hholds
      · simp at hbatch
    obtain ⟨hcond, hafter⟩ := conditionalBatch_committed hbatch
    have hversion : s.store.get (atomicStateVersionKey slots.stateKey) = _ :=
      hcond _ List.mem_cons_self
    obtain ⟨hrecord, hbound⟩ := committed_record h hc hphase hversion
    obtain ⟨hvalue, hmoved, hholder⟩ := get_operations s.store c snapshot.version record hafter.symm
    have hold := versionNumber_of_condition hversion
    refine ⟨⟨snapshot.version + 1, ?_⟩, hbound, account_distinct h.distinct c, ?_, ?_, ?_, ?_⟩
    · show readSlot slots (after.get _) (after.get _) = _
      rw [hvalue, hmoved, hrecord]
      simp [readSlot, readAtomicStateSnapshot, slots.codec.slot.decodeVersion_encode,
        slots.codec.slot.decode_encode]
      rfl
    · intro workflowId raw hraw
      simp only [hholder] at hraw
      split_ifs at hraw
      · exact (Option.some.inj hraw).symm
      · exact h.marker workflowId raw hraw
    · intro workflowId hmem
      simp only [hholder]
      split_ifs with hown
      · rfl
      · refine h.marked workflowId (account_mem hmem ?_)
        exact fun hadmission hsame => hown ⟨hadmission, hsame⟩
    · intro d hd
      rcases List.mem_or_eq_of_mem_set hd with hd | rfl
      · rw [State.account_calls] at hd
        exact readsOk_after_commit (h.reads d hd) hold hmoved
      · exact readsOk_committed after c answerLost
    · intro d hd
      rcases List.mem_or_eq_of_mem_set hd with hd | rfl
      · rw [State.account_calls] at hd
        refine account_other (h.account d hd) fun hadmission => ?_
        exact hok c hi hadmission happlies d hd
      · exact account_own (h.account c hc) hrunning answerLost
  · cases hstep
    split_ifs
    · exact h.setCall i trivial ((h.account c hc).goOn hrunning (by simp) (by simp))
    · exact h.setCall i (readsOk_afterConflict s.store c)
        ((h.account c hc).afterConflict hrunning)

/-! ## Steps -/

omit [DecidableEq V] in
theorem unmark_inv (h : Inv slots s) {i : Nat} (hc : c ∈ s.calls) (hphase : c.phase = .unmarking) :
    Inv slots { (s.setCall i { c with phase := .ended .released }) with
      store := s.store.delete (KEYS.workflowConcurrencyHolder c.workflowId) } := by
  have hvalue : (s.store.delete (KEYS.workflowConcurrencyHolder c.workflowId)).get slots.stateKey =
      s.store.get slots.stateKey := by
    rw [OrderedStore.get_delete, if_neg (holderKey_ne_stateKey _).symm]
  have hversion : (s.store.delete (KEYS.workflowConcurrencyHolder c.workflowId)).get
      (atomicStateVersionKey slots.stateKey) =
      s.store.get (atomicStateVersionKey slots.stateKey) := by
    rw [OrderedStore.get_delete, if_neg (holderKey_ne_versionKey _).symm]
  have hgone : c.workflowId ∉ s.live := by
    have hrelease := h.reads c hc
    simp only [ReadsOk, hphase] at hrelease
    cases htask : c.task with
    | admission restart => simp [htask, Task.isAdmission] at hrelease
    | release run =>
      obtain ⟨-, hcurrent, hover⟩ := h.account c hc run htask
      exact hover (.inl hphase) (hcurrent (by rw [hphase]; rfl))
  refine ⟨?_, h.bound, h.distinct, ?_, ?_, ?_, ?_⟩
  · simp only [hvalue, hversion]
    exact h.slot
  · intro workflowId raw hraw
    simp only [OrderedStore.get_delete] at hraw
    split_ifs at hraw
    · cases hraw
    · exact h.marker workflowId raw hraw
  · intro workflowId hmem
    have hkey : KEYS.workflowConcurrencyHolder workflowId ≠
        KEYS.workflowConcurrencyHolder c.workflowId :=
      fun heq => hgone (holderKey_injective heq ▸ hmem)
    simp only [OrderedStore.get_delete, if_neg hkey]
    exact h.marked workflowId hmem
  · intro d hd
    rcases List.mem_or_eq_of_mem_set hd with hd | rfl
    · exact readsOk_congr hvalue hversion (h.reads d hd)
    · trivial
  · intro d hd
    rcases List.mem_or_eq_of_mem_set hd with hd | rfl
    · exact h.account d hd
    · intro run hrun
      obtain ⟨hle, hcurrent, -⟩ := h.account c hc run hrun
      exact ⟨hle, fun _ => hcurrent (by rw [hphase]; rfl), fun _ _ => hgone⟩

omit [DecidableEq V] in
theorem marker_inv (h : Inv slots s) {i : Nat} {c d : Call V} (hc : c ∈ s.calls)
    (hphase : c.phase = .marker)
    (hd : c.afterMarker slots (s.store.get (KEYS.workflowConcurrencyHolder c.workflowId)) =
      some d) :
    Inv slots (s.setCall i d) := by
  have haccount := h.account c hc
  have hrunning : c.phase.isEnded = false := by rw [hphase]; rfl
  unfold Call.afterMarker at hd
  split at hd
  · rename_i hnone
    cases hd
    refine h.setCall i trivial fun run hrun => ?_
    obtain ⟨hle, hcurrent, -⟩ := haccount run hrun
    refine ⟨hle, fun _ => hcurrent hrunning, fun _ _ hmem => ?_⟩
    have hmarked := h.marked c.workflowId hmem
    rw [hnone] at hmarked
    cases hmarked
  · rename_i raw hraw
    obtain rfl := h.marker c.workflowId raw hraw
    rw [slots.codec.decodeHolderRecord_encode] at hd
    simp only [if_true, Option.some.injEq] at hd
    subst hd
    exact h.setCall i trivial (haccount.goOn hrunning (by simp) (by simp))

theorem step_inv {s t : State V} {a : Label} (h : Inv slots s) (hok : Undisturbed slots s a)
    (hstep : step slots s a = some t) : Inv slots t := by
  cases a with
  | start workflowId restart =>
    cases hstep
    exact h.addCall trivial fun run hrun => by cases hrun
  | release workflowId =>
    cases hstep
    refine h.addCall rfl fun run hrun => ?_
    obtain rfl := Task.release.inj hrun
    exact ⟨le_rfl, fun _ => rfl, fun hphase => by simp at hphase⟩
  | readMarker i =>
    simp only [step] at hstep
    split at hstep
    · rename_i c hi
      split at hstep
      · rename_i hphase
        obtain ⟨d, hd, rfl⟩ := Option.map_eq_some_iff.1 hstep
        exact marker_inv h (List.mem_of_getElem? hi) hphase hd
      · cases hstep
    · cases hstep
  | readValue i now =>
    simp only [step] at hstep
    split at hstep
    · rename_i c hi
      have hc := List.mem_of_getElem? hi
      split at hstep
      · rename_i rawVersion hphase
        have hrunning : c.phase.isEnded = false := by rw [hphase]; rfl
        have haccount := h.account c hc
        split at hstep
        · cases hstep
          exact h.setCall i trivial (haccount.goOn hrunning (by simp) (by simp))
        · split_ifs at hstep with hnow
          cases hstep
          have hread := h.reads c hc
          simp only [ReadsOk, hphase] at hread
          exact h.setCall i (readsOk_afterReads hnow hread fun _ => rfl)
            (haccount.afterReads hrunning now _ _)
      · cases hstep
    · cases hstep
  | readVersion i now =>
    simp only [step] at hstep
    split at hstep
    · rename_i c hi
      have hc := List.mem_of_getElem? hi
      split at hstep
      · rename_i rawValue hphase
        have hrunning : c.phase.isEnded = false := by rw [hphase]; rfl
        have haccount := h.account c hc
        split at hstep
        · cases hstep
          exact h.setCall i (ReadBefore.refl s.store)
            (haccount.goOn hrunning (by simp) (by simp))
        · rename_i rawValue
          split_ifs at hstep with hnow
          cases hstep
          have hintact := hok c hi rawValue (by simp [Call.pendingValue, hphase])
          exact h.setCall i (readsOk_afterReads hnow (ReadBefore.refl s.store) fun _ => hintact)
            (haccount.afterReads hrunning now _ _)
      · cases hstep
    · cases hstep
  | commit i answerLost =>
    simp only [step] at hstep
    split at hstep
    · rename_i c hi
      split at hstep
      · rename_i snapshot record hphase
        exact commit_inv h hi hphase hok hstep
      · cases hstep
    · cases hstep
  | wake i =>
    simp only [step] at hstep
    split at hstep
    · rename_i c hi
      split at hstep
      · rename_i hphase
        cases hstep
        have hrunning : c.phase.isEnded = false := by rw [hphase]; rfl
        exact h.setCall i trivial
          ((h.account c (List.mem_of_getElem? hi)).goOn hrunning (by simp) (by simp))
      · cases hstep
    · cases hstep
  | unmark i =>
    simp only [step] at hstep
    split at hstep
    · rename_i c hi
      split at hstep
      · rename_i hphase
        cases hstep
        exact unmark_inv h (List.mem_of_getElem? hi) hphase
      · cases hstep
    · cases hstep
  | fail i =>
    simp only [step] at hstep
    split at hstep
    · rename_i c hi
      split at hstep
      · cases hstep
      · rename_i hphase
        cases hstep
        have hrunning : c.phase.isEnded = false := by
          cases hended : c.phase with
          | ended outcome => exact (hphase outcome hended).elim
          | _ => rfl
        exact h.setCall i trivial
          ((h.account c (List.mem_of_getElem? hi)).goOn hrunning (by simp) (by simp))
    · cases hstep

/-! ## Runs -/

omit [DecidableEq V] in
theorem holderIds_of_readSlot {version : Nat}
    (h : readSlot slots (store.get slots.stateKey) (store.get
      (atomicStateVersionKey slots.stateKey)) = some ⟨some (slotRecord live).stored, version⟩) :
    slots.holderIds store = live.map Component.text := by
  have hlisted : (normalizeLockRecord (some (slotRecord live).stored)).map (·.holderId) =
      live.map Component.text := by
    simp [normalizeLockRecord, LockRecord.stored, slotRecord]
  rw [Slots.holderIds, ← hlisted]
  obtain ⟨hraw, hinitial⟩ | ⟨raw, hraw, hvalue⟩ := readSnapshot_value h
  · rw [hraw, ← hinitial]
    rfl
  · rw [hraw, Option.bind_some, hvalue]

omit [DecidableEq V] in
theorem Inv.limited (h : Inv slots s) : Limited slots s := { h with
  held := by
    intro workflowId
    obtain ⟨version, hslot⟩ := h.slot
    rw [holderIds_of_readSlot hslot, List.mem_map]
    exact ⟨fun ⟨other, hmem, heq⟩ => Subtype.ext heq ▸ hmem, fun hmem => ⟨workflowId, hmem, rfl⟩⟩
  released := fun c hc hphase htask => (h.account c hc _ htask).2.2 (.inr hphase) rfl }

/-- The slots before the first admission: neither the record nor any marker is there. -/
def Slots.Unused (slots : Slots V) (store : Store V) : Prop :=
  store.get slots.stateKey = none ∧
    store.get (atomicStateVersionKey slots.stateKey) = none ∧
    ∀ workflowId, store.get (KEYS.workflowConcurrencyHolder workflowId) = none

omit [DecidableEq V] in
theorem Inv.start (h : slots.Unused store) : Inv slots ⟨store, [], [], []⟩ where
  slot := ⟨0, by rw [h.1, h.2.1]; rfl⟩
  bound := Nat.zero_le _
  distinct := List.nodup_nil
  marker := by
    intro workflowId raw hraw
    simp [h.2.2 workflowId] at hraw
  marked := by simp
  reads := by simp
  account := by simp

/-- **The concurrency limit.** -/
theorem limited_of_undisturbed (slots : Slots V) (store : Store V) (hunused : slots.Unused store)
    (as : List Label)
    (hok : (concurrencyMachine slots).EveryStep (Undisturbed slots) ⟨store, [], [], []⟩ as) :
    (concurrencyMachine slots).EveryState (Limited slots) ⟨store, [], [], []⟩ as := by
  have hinv := Machine.everyState_of_invariant (M := concurrencyMachine slots) (I := Inv slots)
    (fun s a t hs hoka hstep => step_inv hs hoka hstep) (Inv.start hunused) hok
  exact hinv.mono fun s hs => hs.limited

/-! ## One slot -/

inductive SlotBytes where
  | record (stored : StoredRecord Int)
  | version (number : Nat)
  | holder (record : WorkflowConcurrencyHolderRecord)
  | empty
deriving DecidableEq

def slotBytesCodec : SlotCodec SlotBytes where
  slot :=
    { encode := .record
      decode := fun raw => match raw with
        | .record stored => some stored
        | _ => none
      encodeVersion := .version
      decodeVersion := fun raw => match raw with
        | .version number => some number
        | _ => none
      decode_encode := fun _ => rfl
      decodeVersion_encode := fun _ => rfl }
  encodeHolderRecord := .holder
  decodeHolderRecord := fun raw => match raw with
    | .holder record => some record
    | _ => none
  emptyBytes := .empty
  decodeHolderRecord_encode := fun _ => rfl

def firstRun : Component := ⟨js "run-1", isSome_encode_run⟩

def secondRun : Component := ⟨js "run-2", isSome_encode_next_run⟩

def orderType : Component := ⟨js "order", isSome_encode_order⟩

/-- `concurrency: { max: 1 }` on a workflow type, partitioned by the type itself. -/
def oneSlot : Slots SlotBytes := ⟨slotBytesCodec, orderType, orderType, 1⟩

def noRuns : State SlotBytes := ⟨OrderedStore.empty, [], [], []⟩

/-- The second start commits between the two reads of the first. -/
def tornStarts : List Label :=
  [.start firstRun false, .readValue 0 0,
    .start secondRun false, .readValue 1 0, .readVersion 1 0, .commit 1 false,
    .readVersion 0 0, .commit 0 false]

/-- The run is started anew while its release is under way, and the release then takes the new
run's slot. -/
def overtakenRelease : List Label :=
  [.start firstRun false, .readValue 0 0, .readVersion 0 0, .commit 0 false,
    .release firstRun, .readMarker 1,
    .start firstRun true, .readValue 2 0, .readVersion 2 0, .commit 2 false,
    .readValue 1 0, .readVersion 1 0, .commit 1 false, .unmark 1,
    .start secondRun false, .readValue 3 0, .readVersion 3 0, .commit 3 false]

theorem limit_exceeded :
    ¬ (concurrencyMachine oneSlot).EveryState (Limited oneSlot) noRuns tornStarts ∧
    ¬ (concurrencyMachine oneSlot).EveryState (Limited oneSlot) noRuns overtakenRelease := by
  have hbound (as : List Label)
      (h : (concurrencyMachine oneSlot).EveryState (Limited oneSlot) noRuns as) :
      (concurrencyMachine oneSlot).EveryState (fun s => s.live.length ≤ 1) noRuns as :=
    h.mono fun s hs => hs.bound
  refine ⟨fun h => ?_, fun h => ?_⟩
  · exact absurd (hbound _ h) (by decide +kernel)
  · exact absurd (hbound _ h) (by decide +kernel)

instance (slots : Slots SlotBytes) (s : State SlotBytes) :
    (a : Label) → Decidable (Undisturbed slots s a)
  | .readVersion i _ => inferInstanceAs (Decidable (∀ c ∈ s.calls[i]?, ∀ rawValue ∈ c.pendingValue,
      s.store.get slots.stateKey = rawValue))
  | .commit i _ => inferInstanceAs (Decidable (∀ c ∈ s.calls[i]?, c.task.isAdmission →
      c.applies slots s.store → ∀ d ∈ s.calls, d.workflowId = c.workflowId →
        d.task.isAdmission = false → d.phase.isEnded))
  | .start .. | .release _ | .readMarker _ | .readValue .. | .wake _ | .unmark _ | .fail _ =>
    isTrue trivial

/-- The second start is refused while the first run has the slot, and admitted after its release. -/
def slotHandedOn : List Label :=
  [.start firstRun false, .readValue 0 0, .readVersion 0 0, .commit 0 false,
    .start secondRun false, .readVersion 1 0, .readValue 1 0,
    .release firstRun, .readMarker 2, .readValue 2 0, .readVersion 2 0, .commit 2 false, .unmark 2,
    .start secondRun false, .readValue 3 0, .readVersion 3 0, .commit 3 false]

theorem limited_of_undisturbed_handed_on :
    ((concurrencyMachine oneSlot).final noRuns slotHandedOn).live = [secondRun] ∧
      (concurrencyMachine oneSlot).EveryState (Limited oneSlot) noRuns slotHandedOn := by
  refine ⟨by decide, ?_⟩
  exact limited_of_undisturbed oneSlot OrderedStore.empty ⟨rfl, rfl, fun _ => rfl⟩ slotHandedOn
    (by decide)

end Weft.Concurrency
