import Weft.Lib.Machine

/-! A speculative branch of a workflow. Its body yields one operation after another; the operations
nest activities in `all`, `race` and `runAll`, and each operation, activity and coordinator is a
promise of its own. A step is what happens between two awaits: a promise settles, a coordinator
hears of a branch, the body goes on, a compensation is called. -/

namespace Weft.Speculation
open Weft.Lib

universe u

variable {κ : Type u}

/-- `key` is the idempotency key. -/
structure Activity (κ : Type u) where
  compensate : Bool
  verify : Bool
  key : Option κ
deriving DecidableEq

/-- A branch of `runAll` without an activity is a plain function. `other` are the operations that
record nothing here: child workflows, memos, sleeps, signals and state. -/
inductive Operation (κ : Type u) where
  | activity (activity : Activity κ)
  | parallel (operations : List (Operation κ))
  | race (operations : List (Operation κ))
  | runAll (branches : List (Option (Activity κ)))
  | other

/-- What is stored under a key: the execution that holds it, or whose result it is. `none` is one
from before the speculation. -/
inductive ReconciliationRecord where
  | started (execution : Option Nat)
  | completed (execution : Option Nat)
deriving DecidableEq

/-- What the workflow has left under a key when the speculation starts. -/
inductive Status where
  | started
  | completed

def Status.record : Status → ReconciliationRecord
  | .started => .started none
  | .completed => .completed none

/-- Where a promise stands. `left` are the branches that a coordinator has not heard of. -/
inductive Task (κ : Type u) where
  | resolving (activity : Activity κ) (key : κ)
  | running (activity : Activity κ)
  | verifying (activity : Activity κ) (key : κ)
  | outside
  | all (left : List Nat)
  /-- A race that looks for a buffered signal before it starts its branches. -/
  | peeking (operations : List (Operation κ))
  | race (branches : List Nat)
  | settled (ok : Bool)

/-- What a verifier answers before a dispatch. -/
inductive Verdict where
  | notCompleted
  | completed
  /-- Indeterminate, without a result, or with one that is too large. -/
  | refused

inductive Driver where
  /-- The body runs. -/
  | body
  | waiting (promise : Nat)
  | draining
  | succeeded
  /-- The compensations before this place are still to be called. -/
  | rollingBack (index : Nat)
  | failed
deriving DecidableEq

/-- A promise is answered from the recorded result of an execution, or a compensation is called. -/
inductive Entry where
  | answered (promise : Nat) (execution : Option Nat)
  | compensated (execution : Nat)
deriving DecidableEq

/-- `compensations` is the list of the speculation's state. `completions`, `reconciled` and `before`
record which activities with a compensation gave a result to the speculation, in their order, which
of them did so without running, and which of them did so before the failure. In `log` the last entry
is the first. -/
structure World (κ : Type u) where
  driver : Driver := .body
  promises : List (Task κ) := []
  compensations : List Nat := []
  records : κ → Option ReconciliationRecord := fun _ => none
  staged : List (κ × Nat) := []
  completions : List Nat := []
  reconciled : List Nat := []
  before : List Nat := []
  log : List Entry := []
  /-- Promises from this one on are not of the speculation. -/
  ours : Option Nat := none

inductive Event (κ : Type u) where
  /-- The body yields, returns or throws. -/
  | yield (operation : Operation κ)
  | return
  | throw
  /-- The body hears of its operation. -/
  | resume
  /-- All verifications that are recorded have ended; `ok` says that none has failed. -/
  | drain (ok : Bool)
  | compensate
  | rolledBack
  /-- The record of a keyed activity is read. -/
  | resolve (promise : Nat) (verdict : Verdict)
  | complete (promise : Nat)
  | reject (promise : Nat)
  | verified (promise : Nat) (ok : Bool)
  | fulfil (promise : Nat)
  | hear (promise branch : Nat)
  /-- A race starts its branches, or only the one with the buffered signal. -/
  | openRace (promise : Nat) (signal : Bool)
  /-- The workflow's next commit. -/
  | commit
  /-- The workflow goes on with an activity after the speculation. -/
  | later (activity : Activity κ)

/-! ## Promises -/

def activityTask (activity : Activity κ) : Task κ :=
  match activity.key with
  | some key => .resolving activity key
  | none => .running activity

mutual

/-- `executeSubOperation`: the branches first, then the promise of the operation itself, whose
number is given. -/
def executeSubOperation (promises : List (Task κ)) : Operation κ → List (Task κ) × Nat
  | .activity activity => (promises ++ [activityTask activity], promises.length)
  | .parallel operations =>
    let (promises, branches) := executeSubOperations promises operations
    (promises ++ [.all branches], promises.length)
  | .race operations => (promises ++ [.peeking operations], promises.length)
  | .runAll branches =>
    let tasks := branches.map fun branch => (branch.map activityTask).getD .outside
    (promises ++ tasks ++ [.all (List.range' promises.length tasks.length)],
      promises.length + tasks.length)
  | .other => (promises ++ [.outside], promises.length)

def executeSubOperations (promises : List (Task κ)) :
    List (Operation κ) → List (Task κ) × List Nat
  | [] => (promises, [])
  | operation :: rest =>
    let (promises, branch) := executeSubOperation promises operation
    let (promises, branches) := executeSubOperations promises rest
    (promises, branch :: branches)

end

variable [DecidableEq κ]

def setTask (w : World κ) (promise : Nat) (task : Task κ) : World κ :=
  { w with promises := w.promises.set promise task }

/-- The promise is of an activity of the speculation. -/
def isOurs (w : World κ) (promise : Nat) : Bool :=
  match w.ours with
  | none => true
  | some bound => promise < bound

/-! ## Activities -/

/-- `finalizeActivityResult` records the compensation as soon as there is a result. -/
def recordCompensation (w : World κ) (promise : Nat) (activity : Activity κ) : World κ :=
  if isOurs w promise && activity.compensate then
    { w with
      compensations := w.compensations ++ [promise]
      completions := w.completions ++ [promise] }
  else w

def stage (w : World κ) (key : κ) (promise : Nat) : World κ :=
  { w with staged := w.staged ++ [(key, promise)] }

/-- A result. The verification of an activity with a key is awaited, and its completion is staged
for the workflow's next commit. -/
def completeActivity (w : World κ) (promise : Nat) (activity : Activity κ) : World κ :=
  let w := recordCompensation w promise activity
  match activity.key with
  | none => setTask w promise (.settled true)
  | some key =>
    if activity.verify then setTask w promise (.verifying activity key)
    else setTask (stage w key promise) promise (.settled true)

/-- A result that is given without running; nothing is recorded for a rollback. -/
def reconcile (w : World κ) (promise : Nat) (activity : Activity κ) : World κ :=
  let w := setTask w promise (.settled true)
  if isOurs w promise && activity.compensate then
    { w with
      completions := w.completions ++ [promise]
      reconciled := w.reconciled ++ [promise] }
  else w

def putRecord (w : World κ) (key : κ) (record : ReconciliationRecord) : World κ :=
  { w with records := Function.update w.records key (some record) }

/-- `resolveStartedActivityReconciliationRecord`. -/
def resolveActivity (w : World κ) (promise : Nat) (activity : Activity κ) (key : κ)
    (verdict : Verdict) : World κ :=
  match w.records key with
  | none => setTask (putRecord w key (.started (some promise))) promise (.running activity)
  | some (.completed execution) =>
    reconcile { w with log := .answered promise execution :: w.log } promise activity
  | some (.started execution) =>
    if activity.verify then
      match verdict with
      | .notCompleted =>
        setTask (putRecord w key (.started (some promise))) promise (.running activity)
      | .completed => reconcile (putRecord w key (.completed execution)) promise activity
      | .refused => setTask w promise (.settled false)
    else setTask w promise (.settled false)

/-! ## Coordinators -/

/-- A coordinator hears of a branch: `all` rejects at once, and a race takes the first. -/
def hear (w : World κ) (promise branch : Nat) (ok : Bool) : Task κ → Option (World κ)
  | .all left =>
    if branch ∈ left then
      let left := left.filter (· ≠ branch)
      if ok then
        some (setTask w promise (if left.isEmpty then .settled true else .all left))
      else some (setTask w promise (.settled false))
    else none
  | .race branches => if branch ∈ branches then some (setTask w promise (.settled ok)) else none
  | _ => none

/-- Only of a signal and a sleep can the race take a buffered signal. -/
def findBufferedSignalDrainBranch (operations : List (Operation κ)) (signal : Bool) : Bool :=
  match operations with
  | [.other, .other] => signal
  | _ => false

def openRace (w : World κ) (promise : Nat) (operations : List (Operation κ)) (signal : Bool) :
    World κ :=
  let (promises, branches) :=
    if findBufferedSignalDrainBranch operations signal then
      (w.promises ++ [.outside], [w.promises.length])
    else executeSubOperations w.promises operations
  setTask { w with promises } promise (.race branches)

/-! ## The speculation -/

/-- `rollback` begins with the last compensation that is there. -/
def beginRollback (w : World κ) : World κ :=
  { w with driver := .rollingBack w.compensations.length, before := w.completions }

/-- Each staged completion finds the start it goes on from. -/
def isAccepted (w : World κ) : Bool :=
  w.staged.all fun entry => w.records entry.1 = some (.started (some entry.2))

/-- The staged completions are stored all together, or the commit fails. -/
def commit (w : World κ) : World κ :=
  if isAccepted w then
    { w with
      records := w.staged.foldl
        (fun records entry => Function.update records entry.1 (some (.completed (some entry.2))))
        w.records
      staged := [] }
  else { w with staged := [] }

def step (w : World κ) : Event κ → Option (World κ)
  | .yield operation =>
    match w.driver with
    | .body =>
      let (promises, promise) := executeSubOperation w.promises operation
      some { w with promises, driver := .waiting promise }
    | _ => none
  | .return => if w.driver = .body then some { w with driver := .draining } else none
  | .throw => if w.driver = .body then some (beginRollback w) else none
  | .resume =>
    match w.driver with
    | .waiting promise =>
      match w.promises[promise]? with
      | some (.settled _) => some { w with driver := .body }
      | _ => none
    | _ => none
  | .drain ok =>
    if w.driver = .draining then
      some (if ok then { w with driver := .succeeded } else beginRollback w)
    else none
  | .compensate =>
    match w.driver with
    | .rollingBack (index + 1) =>
      match w.compensations[index]? with
      | some execution =>
        some { w with driver := .rollingBack index, log := .compensated execution :: w.log }
      | none => none
    | _ => none
  | .rolledBack => if w.driver = .rollingBack 0 then some { w with driver := .failed } else none
  | .resolve promise verdict =>
    match w.promises[promise]? with
    | some (.resolving activity key) => some (resolveActivity w promise activity key verdict)
    | _ => none
  | .complete promise =>
    match w.promises[promise]? with
    | some (.running activity) => some (completeActivity w promise activity)
    | _ => none
  | .reject promise =>
    match w.promises[promise]? with
    | some (.resolving _ _) => some (setTask w promise (.settled false))
    | some (.running _) => some (setTask w promise (.settled false))
    | some .outside => some (setTask w promise (.settled false))
    | some (.peeking _) => some (setTask w promise (.settled false))
    | _ => none
  | .verified promise ok =>
    match w.promises[promise]? with
    | some (.verifying _ key) =>
      some (if ok then setTask (stage w key promise) promise (.settled true)
        else setTask w promise (.settled false))
    | _ => none
  | .fulfil promise =>
    match w.promises[promise]? with
    | some .outside => some (setTask w promise (.settled true))
    | some (.all []) => some (setTask w promise (.settled true))
    | _ => none
  | .hear promise branch =>
    match w.promises[promise]?, w.promises[branch]? with
    | some task, some (.settled ok) => hear w promise branch ok task
    | _, _ => none
  | .openRace promise signal =>
    match w.promises[promise]? with
    | some (.peeking operations) => some (openRace w promise operations signal)
    | _ => none
  | .commit => some (commit w)
  | .later activity =>
    if w.driver = .succeeded ∨ w.driver = .failed then
      some { w with
        promises := w.promises ++ [activityTask activity]
        ours := some (w.ours.getD w.promises.length) }
    else none

/-- The speculation starts in a workflow whose keyed activities have left these records. -/
def initial (left : κ → Option Status) : World κ :=
  { records := fun key => (left key).map Status.record }

def machine : Machine (World κ) (Event κ) := ⟨step⟩

end Weft.Speculation

/-! What the promises of a speculation do: which of them have given a result, and that no step takes
a result back. -/

namespace Weft.Speculation
open Weft.Lib

universe u

variable {κ : Type u}

/-- The promise is of an activity that has run, or has settled. -/
def Task.hasAnswer : Task κ → Bool
  | .verifying _ _ => true
  | .settled _ => true
  | _ => false

def Answered (promises : List (Task κ)) (promise : Nat) : Prop :=
  ∃ task, promises[promise]? = some task ∧ task.hasAnswer = true

variable {promises : List (Task κ)} {promise : Nat}

theorem not_answered {task : Task κ} (htask : promises[promise]? = some task)
    (hnone : task.hasAnswer = false) : ¬ Answered promises promise := by
  rintro ⟨other, hother, hanswer⟩
  rw [htask] at hother
  cases hother
  rw [hnone] at hanswer
  cases hanswer

theorem Answered.prefix {promises more : List (Task κ)} (hmore : promises <+: more)
    (h : Answered promises promise) : Answered more promise := by
  obtain ⟨task, htask, hanswer⟩ := h
  obtain ⟨rest, rfl⟩ := hmore
  refine ⟨task, ?_, hanswer⟩
  rw [List.getElem?_append_left (List.getElem?_eq_some_iff.1 htask).1]
  exact htask

/-- A promise that another takes the place of had no answer, or the other has one too. -/
theorem Answered.set {place : Nat} {old new : Task κ} (hold : promises[place]? = some old)
    (hnew : old.hasAnswer = false ∨ new.hasAnswer = true) (h : Answered promises promise) :
    Answered (promises.set place new) promise := by
  by_cases hplace : place = promise
  · subst hplace
    obtain hnone | hanswer := hnew
    · exact (not_answered hold hnone h).elim
    · refine ⟨new, ?_, hanswer⟩
      rw [List.getElem?_set_self (List.getElem?_eq_some_iff.1 hold).1]
  · obtain ⟨task, htask, hanswer⟩ := h
    exact ⟨task, by rw [List.getElem?_set_ne hplace, htask], hanswer⟩

theorem answered_set_self {old new : Task κ} (hold : promises[promise]? = some old)
    (hnew : new.hasAnswer = true) : Answered (promises.set promise new) promise :=
  ⟨new, List.getElem?_set_self (List.getElem?_eq_some_iff.1 hold).1, hnew⟩

/-! ## The promises of an operation -/

mutual

theorem prefix_executeSubOperation (promises : List (Task κ)) (operation : Operation κ) :
    promises <+: (executeSubOperation promises operation).1 := by
  cases operation with
  | activity activity => exact List.prefix_append _ _
  | parallel operations =>
    exact (prefix_executeSubOperations promises operations).trans (List.prefix_append _ _)
  | race operations => exact List.prefix_append _ _
  | runAll branches =>
    simp only [executeSubOperation, List.append_assoc]
    exact List.prefix_append _ _
  | other => exact List.prefix_append _ _

theorem prefix_executeSubOperations (promises : List (Task κ)) (operations : List (Operation κ)) :
    promises <+: (executeSubOperations promises operations).1 := by
  cases operations with
  | nil => exact List.prefix_rfl
  | cons operation rest =>
    have hfirst := prefix_executeSubOperation promises operation
    exact hfirst.trans (prefix_executeSubOperations (executeSubOperation promises operation).1 rest)

end

end Weft.Speculation
