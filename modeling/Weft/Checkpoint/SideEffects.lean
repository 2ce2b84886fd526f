import Weft.Storage.Interface
import Weft.Lib.Machine

/-! Side effects that are staged for the next commit of a workflow. A commit takes what is
staged into its batch before the batch is written and clears the buffer after; writes of several
commits and further stagings may interleave. -/

namespace Weft.Checkpoint
open Weft.Js Weft.Lib Weft.Storage

universe u

structure AtomicWorkflowCommitSideEffects (V : Type u) where
  conditions : List (ConditionalBatchCondition V)
  operations : List (BatchOperation V)
deriving DecidableEq

/-- `pendingAtomicWorkflowCommitSideEffects`, by workflow id. -/
abbrev PendingSideEffects (V : Type u) := JsString → Option (AtomicWorkflowCommitSideEffects V)

variable {V : Type u}

def AtomicWorkflowCommitSideEffects.isEmpty (sideEffects : AtomicWorkflowCommitSideEffects V) :
    Bool :=
  sideEffects.conditions.length = 0 && sideEffects.operations.length = 0

def stageAtomicWorkflowCommitSideEffects (pending : PendingSideEffects V) (workflowId : JsString)
    (sideEffects : AtomicWorkflowCommitSideEffects V) : PendingSideEffects V :=
  if sideEffects.isEmpty then pending
  else
    match pending workflowId with
    | none => Function.update pending workflowId (some sideEffects)
    | some staged =>
      Function.update pending workflowId
        (some ⟨staged.conditions ++ sideEffects.conditions,
          staged.operations ++ sideEffects.operations⟩)

def clearPendingAtomicWorkflowCommitSideEffects (pending : PendingSideEffects V)
    (workflowId : JsString) : PendingSideEffects V :=
  Function.update pending workflowId none

def takePendingAtomicWorkflowCommitSideEffects (pending : PendingSideEffects V)
    (workflowId : JsString) : Option (AtomicWorkflowCommitSideEffects V) × PendingSideEffects V :=
  match pending workflowId with
  | none => (none, pending)
  | some staged =>
    (if staged.isEmpty then none else some staged,
      clearPendingAtomicWorkflowCommitSideEffects pending workflowId)

/-! ## Commits -/

/-- What is asked to be committed: a checkpoint, with the condition on the one before it, or
the state of a workflow. -/
inductive CommitRequest (V : Type u) where
  | checkpoint (operations : List (BatchOperation V))
    (expected : Option (ConditionalBatchCondition V))
  | workflowState (operations : List (BatchOperation V)) (includePendingAtomicSideEffects : Bool)

/-- A batch on its way to the storage: the request's own part, and the staged part. -/
structure Commit (V : Type u) where
  workflowId : JsString
  operations : List (BatchOperation V)
  conditions : List (ConditionalBatchCondition V)
  sideEffects : AtomicWorkflowCommitSideEffects V
  hasPendingSideEffects : Bool
deriving DecidableEq

def CommitRequest.includesPending : CommitRequest V → Bool
  | .checkpoint _ _ => true
  | .workflowState _ includePendingAtomicSideEffects => includePendingAtomicSideEffects

def CommitRequest.operations : CommitRequest V → List (BatchOperation V)
  | .checkpoint operations _ | .workflowState operations _ => operations

def CommitRequest.conditions (storageSupportsConditionalBatch : Bool) :
    CommitRequest V → List (ConditionalBatchCondition V)
  | .checkpoint _ expected => if storageSupportsConditionalBatch then expected.toList else []
  | .workflowState _ _ => []

/-- The batch of `commitCheckpoint` and of `buildWorkflowStateCommit`. -/
def buildCommit (storageSupportsConditionalBatch : Bool) (workflowId : JsString)
    (request : CommitRequest V) (pendingSideEffects : Option (AtomicWorkflowCommitSideEffects V)) :
    Commit V where
  workflowId := workflowId
  operations := request.operations
  conditions := request.conditions storageSupportsConditionalBatch
  sideEffects :=
    { conditions := if storageSupportsConditionalBatch then
        (pendingSideEffects.map (·.conditions)).getD [] else []
      operations := (pendingSideEffects.map (·.operations)).getD [] }
  hasPendingSideEffects := pendingSideEffects.isSome

@[simp] theorem buildCommit_workflowId (storageSupportsConditionalBatch : Bool)
    (workflowId : JsString) (request : CommitRequest V)
    (pendingSideEffects : Option (AtomicWorkflowCommitSideEffects V)) :
    (buildCommit storageSupportsConditionalBatch workflowId request pendingSideEffects).workflowId =
      workflowId :=
  rfl

/-! ## Runs -/

structure CommitState (V : Type u) where
  pending : PendingSideEffects V
  inFlight : List (Commit V)
  committed : List (Commit V)
  /-- everything that was ever staged -/
  staged : List (JsString × AtomicWorkflowCommitSideEffects V)

/-- Batches are written in any order; one that is not written makes its commit throw. -/
inductive CommitStep (V : Type u) where
  | stage (workflowId : JsString) (sideEffects : AtomicWorkflowCommitSideEffects V)
  | start (workflowId : JsString) (request : CommitRequest V)
  | succeed (index : Nat)
  | fail (index : Nat)

def commitMachine (storageSupportsConditionalBatch : Bool) :
    Machine (CommitState V) (CommitStep V) where
  step state
    | .stage workflowId sideEffects =>
      some { state with
        pending := stageAtomicWorkflowCommitSideEffects state.pending workflowId sideEffects
        staged := state.staged ++ [(workflowId, sideEffects)] }
    | .start workflowId request =>
      let taken := if request.includesPending then
        takePendingAtomicWorkflowCommitSideEffects state.pending workflowId
          else (none, state.pending)
      some { state with
        pending := taken.2
        inFlight := state.inFlight ++
          [buildCommit storageSupportsConditionalBatch workflowId request taken.1] }
    | .succeed index => (state.inFlight[index]?).map fun commit =>
      { state with
        pending := if commit.hasPendingSideEffects then
          clearPendingAtomicWorkflowCommitSideEffects state.pending commit.workflowId
          else state.pending
        inFlight := state.inFlight.eraseIdx index
        committed := state.committed ++ [commit] }
    | .fail index => (state.inFlight[index]?).map fun _ =>
      { state with inFlight := state.inFlight.eraseIdx index }

def CommitState.initial : CommitState V := ⟨fun _ => none, [], [], []⟩

/-! ## Where the side effects are -/

/-- Conditions and operations of side effects, with repetitions. -/
def items (sideEffects : AtomicWorkflowCommitSideEffects V) :
    Multiset (ConditionalBatchCondition V ⊕ BatchOperation V) :=
  Multiset.map Sum.inl sideEffects.conditions + Multiset.map Sum.inr sideEffects.operations

def stagedItems (workflowId : JsString)
    (staged : List (JsString × AtomicWorkflowCommitSideEffects V)) :
    Multiset (ConditionalBatchCondition V ⊕ BatchOperation V) :=
  (staged.map fun entry => if entry.1 = workflowId then items entry.2 else 0).sum

def commitItems (workflowId : JsString) (commits : List (Commit V)) :
    Multiset (ConditionalBatchCondition V ⊕ BatchOperation V) :=
  (commits.map fun commit =>
    if commit.workflowId = workflowId then items commit.sideEffects else 0).sum

def pendingItems (workflowId : JsString) (pending : PendingSideEffects V) :
    Multiset (ConditionalBatchCondition V ⊕ BatchOperation V) :=
  ((pending workflowId).map items).getD 0

/-- Everything staged is in one committed batch, in one batch on its way, or still staged. -/
def Accounted (state : CommitState V) : Prop :=
  ∀ workflowId, stagedItems workflowId state.staged =
    commitItems workflowId state.committed + commitItems workflowId state.inFlight +
      pendingItems workflowId state.pending

/-- A commit that fails leaves what it took staged. -/
def RestoresOnFailure (storageSupportsConditionalBatch : Bool) (state : CommitState V)
    (step : CommitStep V) : Prop :=
  ∀ index commit next, step = .fail index → state.inFlight[index]? = some commit →
    (commitMachine storageSupportsConditionalBatch).step state step = some next →
    items commit.sideEffects ≤ pendingItems commit.workflowId next.pending

/-- No conditions are taken on a storage without conditional batches, a commit that took
something finds nothing staged when it is written, and one that fails took nothing. -/
def KeepsSideEffects (storageSupportsConditionalBatch : Bool) (state : CommitState V) :
    CommitStep V → Prop
  | .stage _ _ => True
  | .start workflowId request =>
    storageSupportsConditionalBatch = false → request.includesPending = true →
      ∀ staged ∈ state.pending workflowId, staged.conditions = []
  | .succeed index => ∀ commit ∈ state.inFlight[index]?, commit.hasPendingSideEffects = true →
      pendingItems commit.workflowId state.pending = 0
  | .fail index => ∀ commit ∈ state.inFlight[index]?, items commit.sideEffects = 0

theorem items_append (a b : AtomicWorkflowCommitSideEffects V) :
    items ⟨a.conditions ++ b.conditions, a.operations ++ b.operations⟩ = items a + items b := by
  simp only [items, ← Multiset.coe_add, Multiset.map_add]
  exact add_add_add_comm _ _ _ _

variable {sideEffects : AtomicWorkflowCommitSideEffects V}

theorem items_eq_zero :
    items sideEffects = 0 ↔ sideEffects.conditions = [] ∧ sideEffects.operations = [] := by
  simp [items]

theorem items_of_isEmpty (h : sideEffects.isEmpty = true) : items sideEffects = 0 := by
  simpa [AtomicWorkflowCommitSideEffects.isEmpty, items_eq_zero] using h

theorem stagedItems_append (workflowId : JsString)
    (staged more : List (JsString × AtomicWorkflowCommitSideEffects V)) :
    stagedItems workflowId (staged ++ more) =
      stagedItems workflowId staged + stagedItems workflowId more := by
  simp [stagedItems]

theorem commitItems_append (workflowId : JsString) (commits more : List (Commit V)) :
    commitItems workflowId (commits ++ more) =
      commitItems workflowId commits + commitItems workflowId more := by
  simp [commitItems]

theorem commitItems_eraseIdx (workflowId : JsString) {commits : List (Commit V)} {index : Nat}
    {commit : Commit V} (h : commits[index]? = some commit) :
    commitItems workflowId commits =
      commitItems workflowId (commits.eraseIdx index) + commitItems workflowId [commit] := by
  induction commits generalizing index with
  | nil => simp at h
  | cons first rest ih =>
    cases index with
    | zero =>
      obtain rfl : first = commit := by simpa using h
      rw [List.eraseIdx_cons_zero, add_comm, ← commitItems_append, List.singleton_append]
    | succ index =>
      rw [List.eraseIdx_cons_succ, ← List.singleton_append,
        ← List.singleton_append (l := rest.eraseIdx index),
        commitItems_append, commitItems_append, ih (by simpa using h), add_assoc]

theorem pendingItems_clear (pending : PendingSideEffects V) (workflowId other : JsString) :
    pendingItems other (clearPendingAtomicWorkflowCommitSideEffects pending workflowId) =
      if workflowId = other then 0 else pendingItems other pending := by
  by_cases h : workflowId = other
  · subst h
    simp [pendingItems, clearPendingAtomicWorkflowCommitSideEffects]
  · simp [pendingItems, clearPendingAtomicWorkflowCommitSideEffects, h,
      Function.update_of_ne (Ne.symm h)]

theorem pendingItems_stage (pending : PendingSideEffects V) (workflowId other : JsString)
    (sideEffects : AtomicWorkflowCommitSideEffects V) :
    pendingItems other (stageAtomicWorkflowCommitSideEffects pending workflowId sideEffects) =
      pendingItems other pending + stagedItems other [(workflowId, sideEffects)] := by
  by_cases hid : workflowId = other
  · subst hid
    rw [stageAtomicWorkflowCommitSideEffects]
    split_ifs with hempty
    · simp [stagedItems, items_of_isEmpty hempty]
    · cases hpending : pending workflowId with
      | none => simp [pendingItems, stagedItems, hpending]
      | some staged => simp [pendingItems, stagedItems, hpending, items_append]
  · rw [stageAtomicWorkflowCommitSideEffects]
    split_ifs with hempty
    · simp [stagedItems, hid]
    · cases hpending : pending workflowId with
      | none => simp [pendingItems, stagedItems, hid, Function.update_of_ne (Ne.symm hid)]
      | some staged => simp [pendingItems, stagedItems, hid, Function.update_of_ne (Ne.symm hid)]

/-- What is taken is no longer staged. -/
theorem pendingItems_take (pending : PendingSideEffects V) (workflowId other : JsString) :
    pendingItems other (takePendingAtomicWorkflowCommitSideEffects pending workflowId).2 =
      if workflowId = other then 0 else pendingItems other pending := by
  rw [takePendingAtomicWorkflowCommitSideEffects]
  cases hpending : pending workflowId with
  | none =>
    split_ifs with hid
    · subst hid
      simp [pendingItems, hpending]
    · rfl
  | some staged => exact pendingItems_clear pending workflowId other

theorem take_fst (pending : PendingSideEffects V) (workflowId : JsString) :
    (((takePendingAtomicWorkflowCommitSideEffects pending workflowId).1).map items).getD 0 =
      pendingItems workflowId pending := by
  rw [takePendingAtomicWorkflowCommitSideEffects, pendingItems]
  cases pending workflowId with
  | none => rfl
  | some staged =>
    show ((if staged.isEmpty then none else some staged).map items).getD 0 = items staged
    split_ifs with hempty
    · exact (items_of_isEmpty hempty).symm
    · rfl

theorem take_conditions (pending : PendingSideEffects V) (workflowId : JsString) :
    (∀ taken ∈ (takePendingAtomicWorkflowCommitSideEffects pending workflowId).1,
        taken.conditions = []) ↔
      ∀ staged ∈ pending workflowId, staged.conditions = [] := by
  rw [takePendingAtomicWorkflowCommitSideEffects]
  cases pending workflowId with
  | none => simp
  | some staged =>
    by_cases hempty : staged.isEmpty = true
    · have hnone : staged.conditions = [] := (items_eq_zero.1 (items_of_isEmpty hempty)).1
      simp [hempty, hnone]
    · simp [hempty]

/-- A batch has all that was taken for it, unless conditions were dropped. -/
theorem items_buildCommit (storageSupportsConditionalBatch : Bool) (workflowId : JsString)
    (request : CommitRequest V) (taken : Option (AtomicWorkflowCommitSideEffects V)) :
    (taken.map items).getD 0 =
        items (buildCommit storageSupportsConditionalBatch workflowId request taken).sideEffects ↔
      (storageSupportsConditionalBatch = false → ∀ effects ∈ taken, effects.conditions = []) := by
  cases taken with
  | none => cases storageSupportsConditionalBatch <;> simp [buildCommit, items]
  | some effects =>
    cases storageSupportsConditionalBatch with
    | true => simp [buildCommit, items]
    | false =>
      show items effects = items ⟨[], effects.operations⟩ ↔ _
      rw [items, items, add_left_inj, Multiset.coe_nil, Multiset.map_zero, Multiset.map_eq_zero,
        Multiset.coe_eq_zero]
      simp

theorem commitItems_singleton (workflowId : JsString) (commit : Commit V) :
    commitItems workflowId [commit] =
      if commit.workflowId = workflowId then items commit.sideEffects else 0 := by
  simp [commitItems]

/-! ## Steps -/

section

variable {storageSupportsConditionalBatch : Bool} {state next : CommitState V}

variable {workflowId : JsString}

theorem accounted_stage (h : Accounted state) {sideEffects : AtomicWorkflowCommitSideEffects V}
    (hstep : (commitMachine storageSupportsConditionalBatch).step state
      (.stage workflowId sideEffects) = some next) :
    Accounted next := by
  cases hstep
  intro other
  show stagedItems other (state.staged ++ [(workflowId, sideEffects)]) = _
  rw [stagedItems_append, pendingItems_stage, h other, add_assoc]

theorem accounted_start (h : Accounted state) {request : CommitRequest V}
    (hstep : (commitMachine storageSupportsConditionalBatch).step state
      (.start workflowId request) = some next) :
    Accounted next ↔
      KeepsSideEffects storageSupportsConditionalBatch state (.start workflowId request) := by
  cases hstep
  have hcancel : ∀ (other : JsString) (pending : PendingSideEffects V) (commit : Commit V),
      stagedItems other state.staged = commitItems other state.committed +
          commitItems other (state.inFlight ++ [commit]) + pendingItems other pending ↔
        pendingItems other state.pending =
          commitItems other [commit] + pendingItems other pending := by
    intro other pending commit
    rw [h other, commitItems_append, ← add_assoc, add_assoc (_ + _), add_right_inj]
  simp only [Accounted, KeepsSideEffects, hcancel, commitItems_singleton]
  cases hincludes : request.includesPending with
  | false => simp [buildCommit, items]
  | true =>
    simp only [if_true, pendingItems_take, true_imp_iff, buildCommit_workflowId]
    rw [← take_conditions, ← items_buildCommit storageSupportsConditionalBatch workflowId request,
      take_fst]
    constructor
    · intro hall
      have hown := hall workflowId
      rwa [if_pos rfl, if_pos rfl, add_zero] at hown
    · intro hown other
      by_cases hid : workflowId = other
      · subst hid
        rw [if_pos rfl, if_pos rfl, add_zero]
        exact hown
      · rw [if_neg hid, if_neg hid, zero_add]

theorem accounted_succeed (h : Accounted state) {index : Nat}
    (hstep : (commitMachine storageSupportsConditionalBatch).step state (.succeed index) =
      some next) :
    Accounted next ↔
      KeepsSideEffects storageSupportsConditionalBatch state (.succeed index) := by
  obtain ⟨commit, hcommit, rfl⟩ := Option.map_eq_some_iff.1 hstep
  have hcancel : ∀ (other : JsString) (pending : PendingSideEffects V),
      stagedItems other state.staged = commitItems other (state.committed ++ [commit]) +
          commitItems other (state.inFlight.eraseIdx index) + pendingItems other pending ↔
        pendingItems other state.pending = pendingItems other pending := by
    intro other pending
    rw [h other, commitItems_append, commitItems_eraseIdx other hcommit,
      add_comm (commitItems other (state.inFlight.eraseIdx index)), ← add_assoc, add_right_inj]
  simp only [Accounted, KeepsSideEffects, hcancel, hcommit, Option.mem_some_iff, forall_eq']
  cases htook : commit.hasPendingSideEffects with
  | false => simp
  | true =>
    simp only [if_true, pendingItems_clear, true_imp_iff]
    constructor
    · intro hall
      have hown := hall commit.workflowId
      rwa [if_pos rfl] at hown
    · intro hnone other
      split_ifs with hid
      · rw [← hid]
        exact hnone
      · rfl

theorem accounted_fail (h : Accounted state) {index : Nat}
    (hstep : (commitMachine storageSupportsConditionalBatch).step state (.fail index) =
      some next) :
    Accounted next ↔ KeepsSideEffects storageSupportsConditionalBatch state (.fail index) := by
  obtain ⟨commit, hcommit, rfl⟩ := Option.map_eq_some_iff.1 hstep
  have hcancel : ∀ other : JsString,
      stagedItems other state.staged = commitItems other state.committed +
          commitItems other (state.inFlight.eraseIdx index) + pendingItems other state.pending ↔
        commitItems other [commit] = 0 := by
    intro other
    rw [h other, commitItems_eraseIdx other hcommit, add_left_inj, add_right_inj, add_eq_left]
  simp only [Accounted, KeepsSideEffects, hcancel, hcommit, Option.mem_some_iff, forall_eq',
    commitItems_singleton]
  constructor
  · intro hall
    have hown := hall commit.workflowId
    rwa [if_pos rfl] at hown
  · intro hnone other
    rw [hnone, ite_self]

variable {step : CommitStep V}

theorem accounted_step (h : Accounted state)
    (hstep : (commitMachine storageSupportsConditionalBatch).step state step = some next) :
    Accounted next ↔ KeepsSideEffects storageSupportsConditionalBatch state step := by
  cases step with
  | stage workflowId sideEffects => exact iff_of_true (accounted_stage h hstep) trivial
  | start workflowId request => exact accounted_start h hstep
  | succeed index => exact accounted_succeed h hstep
  | fail index => exact accounted_fail h hstep

/-- A commit that took nothing has nothing to restore. -/
theorem KeepsSideEffects.restores
    (h : KeepsSideEffects storageSupportsConditionalBatch state step) :
    RestoresOnFailure storageSupportsConditionalBatch state step := by
  intro index commit next hfail hcommit _
  subst hfail
  rw [h commit hcommit]
  exact Multiset.zero_le _

end

theorem accounted_initial : Accounted (CommitState.initial : CommitState V) :=
  fun _ => rfl

/-- Staged side effects are committed exactly once, and kept when a commit fails, in exactly
those runs whose commits find nothing to lose. -/
theorem side_effects_accounted_iff (storageSupportsConditionalBatch : Bool)
    (steps : List (CommitStep V)) :
    ((commitMachine storageSupportsConditionalBatch).EveryState Accounted CommitState.initial
      steps ∧
      (commitMachine storageSupportsConditionalBatch).EveryStep
        (RestoresOnFailure storageSupportsConditionalBatch) CommitState.initial steps) ↔
      (commitMachine storageSupportsConditionalBatch).EveryStep
        (KeepsSideEffects storageSupportsConditionalBatch) CommitState.initial steps := by
  have hruns : (commitMachine storageSupportsConditionalBatch).EveryState Accounted
        CommitState.initial steps ↔ Accounted CommitState.initial ∧
      (commitMachine storageSupportsConditionalBatch).EveryStep
        (KeepsSideEffects storageSupportsConditionalBatch) CommitState.initial steps :=
    Machine.everyState_iff_everyStep (J := fun _ => True)
      (fun s step t _ hs hstep => ⟨trivial, accounted_step hs hstep⟩) trivial
  constructor
  · rintro ⟨haccounted, -⟩
    exact (hruns.1 haccounted).2
  · intro hkeeps
    exact ⟨hruns.2 ⟨accounted_initial, hkeeps⟩, hkeeps.mono fun s step h => h.restores⟩

/-- The checkpoint that would have consumed a signal is not written. -/
def failedConsumption : List (CommitStep Nat) :=
  [.stage (js "wf") ⟨[⟨js "signal:wf:release", some 1⟩], [.delete (js "signal:wf:release")]⟩,
    .start (js "wf") (.checkpoint [.put (js "checkpoint:wf") 2] none), .fail 0]

theorem failed_commit_drops_side_effects :
    ¬ ((commitMachine true).EveryState Accounted CommitState.initial failedConsumption ∧
      (commitMachine true).EveryStep (RestoresOnFailure true) CommitState.initial
        failedConsumption) := by
  rintro ⟨haccounted, -⟩
  have hlost := haccounted.final (js "wf")
  revert hlost
  decide

end Weft.Checkpoint
