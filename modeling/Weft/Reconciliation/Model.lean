import Weft.Lib.Machine
import Weft.Lib.Lists

/-! Keyed activities and the record that each idempotency key has in storage. Executions of a keyed
activity read, claim and compare-and-set the record of their key; a step of the machine is one
storage step, one answer of the verifier or one end of the function, so every interleaving is a
run. -/

namespace Weft.Reconciliation
open Weft.Lib

universe u

variable {κ ι ρ : Type u}

/-- `status` is `completed` where there is a result. The workflow, the activity and the digest are
those of the key. -/
structure ActivityReconciliationRecord (ι ρ : Type u) where
  operationId : ι
  attempt : Nat
  ownerId : ι
  result : Option ρ := none
  createdAt : Nat
  updatedAt : Nat
deriving DecidableEq

/-- `invalid`: the verifier throws, or gives none of the states. -/
inductive ActivityVerificationResult (ρ : Type u) where
  | notCompleted
  | completedWithResult (result : ρ)
  | completedResultUnavailable
  | indeterminate
  | invalid

def createStartedRecord (operationId : ι) (attempt : Nat) (ownerId : ι) (now : Nat) :
    ActivityReconciliationRecord ι ρ where
  operationId := operationId
  attempt := attempt
  ownerId := ownerId
  createdAt := now
  updatedAt := now

def createCompletedActivityReconciliationRecord (started : ActivityReconciliationRecord ι ρ)
    (result : ρ) (now : Nat) : ActivityReconciliationRecord ι ρ :=
  { started with result := some result, updatedAt := now }

/-- The record of a further attempt, which the verifier allowed. -/
def createNextRecord (record : ActivityReconciliationRecord ι ρ) (ownerId : ι) (now : Nat) :
    ActivityReconciliationRecord ι ρ :=
  { record with attempt := record.attempt + 1, ownerId := ownerId, updatedAt := now }

/-- What an execution does next. -/
inductive Phase (ι ρ : Type u) where
  | read
  | claim (record : ActivityReconciliationRecord ι ρ)
  | readAgain
  | verify (record : ActivityReconciliationRecord ι ρ)
  | reclaim (record next : ActivityReconciliationRecord ι ρ)
  | adopt (record completed : ActivityReconciliationRecord ι ρ) (result : ρ)
  | invoke (started : ActivityReconciliationRecord ι ρ)
  | running (started : ActivityReconciliationRecord ι ρ)
  | finalize (started : ActivityReconciliationRecord ι ρ) (result : ρ)
  | commit (started completed : ActivityReconciliationRecord ι ρ) (result : ρ)
  | returned (result : ρ)
  | failed

/-- `home` is the engine and the workflow that the execution belongs to, `seen` the record as it
last read it; nothing depends on `seen`. -/
structure Execution (κ ι ρ : Type u) where
  home : Nat
  key : κ
  operationId : ι
  attempt : Nat
  verify : Bool
  immediateFenced : Bool
  phase : Phase ι ρ := .read
  seen : Option (ActivityReconciliationRecord ι ρ) := none

/-- A completion that is staged for the next commit of its workflow. -/
structure Transition (κ ι ρ : Type u) where
  home : Nat
  key : κ
  expected : ActivityReconciliationRecord ι ρ
  next : ActivityReconciliationRecord ι ρ

/-- A commit of a workflow that is on its way, with what was staged for it. -/
structure Batch (κ ι ρ : Type u) where
  home : Nat
  transitions : List (Transition κ ι ρ)

/-- What happened to a key: a record was claimed under an owner id, the verifier answered
`not-completed` to the execution that then drew this owner id, the function was invoked under it. -/
inductive Entry (κ ι : Type u) where
  | claimed (key : κ) (ownerId : ι)
  | notCompleted (key : κ) (ownerId : ι)
  | invoked (key : κ) (ownerId : ι)
deriving DecidableEq

/-- `log` records what happened, the last first. -/
structure World (κ ι ρ : Type u) where
  store : κ → Option (ActivityReconciliationRecord ι ρ) := fun _ => none
  executions : List (Execution κ ι ρ) := []
  staged : List (Transition κ ι ρ) := []
  batches : List (Batch κ ι ρ) := []
  used : List ι := []
  log : List (Entry κ ι) := []

/-- How a storage step ends: it is done, it fails without an effect, or it takes effect and is
reported as failed. For the function of the activity, only whether it is done matters. -/
inductive Outcome where
  | done
  | refused
  | lost
deriving DecidableEq

inductive Event (κ ι ρ : Type u) where
  | call (home : Nat) (key : κ) (operationId : ι) (attempt : Nat) (verify immediateFenced : Bool)
  /-- The execution in this place goes on. `drawn` is what `randomUUID` gives, `answer` what the
  verifier gives and `output` what the function gives, where they are asked. -/
  | advance (place : Nat) (outcome : Outcome) (drawn : ι) (now : Nat)
      (answer : ActivityVerificationResult ρ) (output : ρ)
  | take (home : Nat)
  | land (place : Nat) (outcome : Outcome)
  | crash (home : Nat)

section

variable [DecidableEq κ] [DecidableEq ι] [DecidableEq ρ] (fits : ρ → Bool)

/-- An execution goes on with a record that it read. -/
def resolveRecord (verify : Bool) (record : ActivityReconciliationRecord ι ρ) : Phase ι ρ :=
  match record.result with
  | some result => if fits result then .returned result else .failed
  | none => if verify then .verify record else .failed

def World.put (w : World κ ι ρ) (key : κ) (record : ActivityReconciliationRecord ι ρ) :
    World κ ι ρ :=
  { w with store := Function.update w.store key (some record) }

def World.note (w : World κ ι ρ) (entry : Entry κ ι) : World κ ι ρ :=
  { w with log := entry :: w.log }

/-- The record is replaced where it is the one expected. -/
def transition (w : World κ ι ρ) (e : Execution κ ι ρ)
    (expected next : ActivityReconciliationRecord ι ρ) (entry : Option (Entry κ ι))
    (outcome : Outcome) (after : Phase ι ρ) : World κ ι ρ × Execution κ ι ρ :=
  if outcome ≠ .refused ∧ w.store e.key = some expected then
    ({ w.put e.key next with log := entry.toList ++ w.log },
      { e with phase := if outcome = .done then after else .failed })
  else (w, { e with phase := .failed })

/-- A crash ends the executions of its engine that have not returned. -/
def Execution.crash (home : Nat) (e : Execution κ ι ρ) : Execution κ ι ρ :=
  match e.phase with
  | .returned _ => e
  | _ => if e.home = home then { e with phase := .failed } else e

/-- One step of an execution. -/
def perform (w : World κ ι ρ) (e : Execution κ ι ρ) (outcome : Outcome) (drawn : ι) (now : Nat)
    (answer : ActivityVerificationResult ρ) (output : ρ) : Option (World κ ι ρ × Execution κ ι ρ) :=
  match e.phase with
  | .read =>
    if outcome ≠ .done then some (w, { e with phase := .failed })
    else match w.store e.key with
      | some record =>
        some (w, { e with phase := resolveRecord fits e.verify record, seen := some record })
      | none =>
        if drawn ∈ w.used then none
        else some ({ w with used := drawn :: w.used },
          { e with phase := .claim (createStartedRecord e.operationId e.attempt drawn now) })
  | .claim record =>
    if outcome = .refused then some (w, { e with phase := .failed })
    else if w.store e.key = none then
      some ((w.put e.key record).note (.claimed e.key record.ownerId),
        { e with phase := if outcome = .done then .invoke record else .failed })
    else some (w, { e with phase := if outcome = .done then .readAgain else .failed })
  | .readAgain =>
    if outcome ≠ .done then some (w, { e with phase := .failed })
    else match w.store e.key with
      | some record =>
        some (w, { e with phase := resolveRecord fits e.verify record, seen := some record })
      | none => some (w, { e with phase := .failed })
  | .verify record =>
    match answer with
    | .notCompleted =>
      if drawn ∈ w.used then none
      else some ({ w.note (.notCompleted e.key drawn) with used := drawn :: w.used },
        { e with phase := .reclaim record (createNextRecord record drawn now) })
    | .completedWithResult result =>
      some (w, { e with
        phase := if fits result then
            .adopt record (createCompletedActivityReconciliationRecord record result now) result
          else .failed })
    | _ => some (w, { e with phase := .failed })
  | .reclaim record next =>
    some (transition w e record next (some (.claimed e.key next.ownerId)) outcome (.invoke next))
  | .adopt record completed result =>
    some (transition w e record completed none outcome (.returned result))
  | .invoke started =>
    some (w.note (.invoked e.key started.ownerId), { e with phase := .running started })
  | .running started =>
    some (w, { e with
      phase := if outcome = .done ∧ fits output then .finalize started output else .failed })
  | .finalize started result =>
    if outcome ≠ .done then some (w, { e with phase := .failed })
    else
      let completed := createCompletedActivityReconciliationRecord started result now
      if e.immediateFenced then some (w, { e with phase := .commit started completed result })
      else some ({ w with staged := w.staged ++ [⟨e.home, e.key, started, completed⟩] },
        { e with phase := .returned result })
  | .commit started completed result =>
    some (transition w e started completed none outcome (.returned result))
  | .returned _ => none
  | .failed => none

/-- The conditions of a batch hold in the store. -/
def Accepted (store : κ → Option (ActivityReconciliationRecord ι ρ)) (batch : Batch κ ι ρ) : Prop :=
  ∀ t ∈ batch.transitions, store t.key = some t.expected

instance (store : κ → Option (ActivityReconciliationRecord ι ρ)) (batch : Batch κ ι ρ) :
    Decidable (Accepted store batch) :=
  inferInstanceAs (Decidable (∀ t ∈ batch.transitions, store t.key = some t.expected))

def putAll (store : κ → Option (ActivityReconciliationRecord ι ρ))
    (transitions : List (Transition κ ι ρ)) : κ → Option (ActivityReconciliationRecord ι ρ) :=
  transitions.foldl (fun store t => Function.update store t.key (some t.next)) store

/-- The end of a commit: its batch is written if its conditions hold, and then what is staged for
the workflow is cleared. -/
def land (w : World κ ι ρ) (place : Nat) (batch : Batch κ ι ρ) (outcome : Outcome) : World κ ι ρ :=
  let ended := { w with batches := w.batches.set place ⟨batch.home, []⟩ }
  if outcome ≠ .refused ∧ Accepted w.store batch then
    { ended with
      store := putAll w.store batch.transitions
      staged := if outcome = .done then w.staged.filter (fun t => t.home ≠ batch.home)
        else w.staged }
  else ended

def reconciliationMachine : Machine (World κ ι ρ) (Event κ ι ρ) where
  step := fun w event =>
    match event with
    | .call home key operationId attempt verify immediateFenced =>
      some { w with
        executions := w.executions ++
          [⟨home, key, operationId, attempt, verify, immediateFenced, .read, none⟩] }
    | .advance place outcome drawn now answer output => do
      let e ← w.executions[place]?
      let (w', e') ← perform fits w e outcome drawn now answer output
      return { w' with executions := w.executions.set place e' }
    | .take home =>
      some { w with
        staged := w.staged.filter fun t => t.home ≠ home
        batches := w.batches ++ [⟨home, w.staged.filter fun t => t.home = home⟩] }
    | .land place outcome => do
      let batch ← w.batches[place]?
      return land w place batch outcome
    | .crash home =>
      some { w with
        executions := w.executions.map (Execution.crash home)
        staged := w.staged.filter fun t => t.home ≠ home
        batches := w.batches.map fun batch =>
          if batch.home = home then ⟨home, []⟩ else batch }

end

end Weft.Reconciliation

/-! What one step of an execution can do, and what the log and the records keep. -/

namespace Weft.Reconciliation
open Weft.Lib

universe u

variable {κ ι ρ : Type u}

/-- The owner id that an execution has drawn and works under. -/
def Phase.owner : Phase ι ρ → Option ι
  | .claim record => some record.ownerId
  | .reclaim _ next => some next.ownerId
  | .invoke started => some started.ownerId
  | .running started => some started.ownerId
  | .finalize started _ => some started.ownerId
  | .commit started _ _ => some started.ownerId
  | _ => none

def Entry.ownerId : Entry κ ι → ι
  | .claimed _ ownerId => ownerId
  | .notCompleted _ ownerId => ownerId
  | .invoked _ ownerId => ownerId

variable [DecidableEq κ] [DecidableEq ι] [DecidableEq ρ] {fits : ρ → Bool}

/-- The steps of an execution, by what they do to the store and the log. -/
inductive Performs (fits : ρ → Bool) (w : World κ ι ρ) (e : Execution κ ι ρ) :
    World κ ι ρ → Execution κ ι ρ → Prop
  | fails (hphase : ∀ result, e.phase ≠ .returned result) :
      Performs fits w e w { e with phase := .failed }
  | sees (record : ActivityReconciliationRecord ι ρ) (hstore : w.store e.key = some record) :
      Performs fits w e w
        { e with phase := resolveRecord fits e.verify record, seen := some record }
  | draws (drawn : ι) (now : Nat) (hphase : e.phase = .read) (hstore : w.store e.key = none)
      (hdrawn : drawn ∉ w.used) : Performs fits w e { w with used := drawn :: w.used }
        { e with phase := .claim (createStartedRecord e.operationId e.attempt drawn now) }
  | claims (record : ActivityReconciliationRecord ι ρ) (phase : Phase ι ρ)
      (hphase : e.phase = .claim record) (hstore : w.store e.key = none)
      (hnext : phase = .invoke record ∨ phase = .failed) :
      Performs fits w e ((w.put e.key record).note (.claimed e.key record.ownerId))
        { e with phase := phase }
  | reads (record : ActivityReconciliationRecord ι ρ) (hphase : e.phase = .claim record) :
      Performs fits w e w { e with phase := .readAgain }
  | verified (record : ActivityReconciliationRecord ι ρ) (drawn : ι) (now : Nat)
      (hphase : e.phase = .verify record) (hdrawn : drawn ∉ w.used) :
      Performs fits w e { w.note (.notCompleted e.key drawn) with used := drawn :: w.used }
        { e with phase := .reclaim record (createNextRecord record drawn now) }
  | adopts (record : ActivityReconciliationRecord ι ρ) (result : ρ) (now : Nat)
      (hphase : e.phase = .verify record) (hfits : fits result = true) :
      Performs fits w e w { e with
        phase := .adopt record (createCompletedActivityReconciliationRecord record result now)
          result }
  | reclaims (record next : ActivityReconciliationRecord ι ρ) (phase : Phase ι ρ)
      (hphase : e.phase = .reclaim record next) (hstore : w.store e.key = some record)
      (hnext : phase = .invoke next ∨ phase = .failed) :
      Performs fits w e ((w.put e.key next).note (.claimed e.key next.ownerId))
        { e with phase := phase }
  | completes (expected completed : ActivityReconciliationRecord ι ρ) (result : ρ)
      (phase : Phase ι ρ) (hphase : e.phase = .adopt expected completed result ∨
        e.phase = .commit expected completed result)
      (hstore : w.store e.key = some expected)
      (hnext : phase = .returned result ∨ phase = .failed) :
      Performs fits w e (w.put e.key completed) { e with phase := phase }
  | invokes (started : ActivityReconciliationRecord ι ρ) (hphase : e.phase = .invoke started) :
      Performs fits w e (w.note (.invoked e.key started.ownerId))
        { e with phase := .running started }
  | ends (started : ActivityReconciliationRecord ι ρ) (result : ρ)
      (hphase : e.phase = .running started) (hfits : fits result = true) :
      Performs fits w e w { e with phase := .finalize started result }
  | finalizes (started : ActivityReconciliationRecord ι ρ) (result : ρ) (now : Nat)
      (hphase : e.phase = .finalize started result) :
      Performs fits w e w { e with
        phase := .commit started (createCompletedActivityReconciliationRecord started result now)
          result }
  | stages (started : ActivityReconciliationRecord ι ρ) (result : ρ) (now : Nat)
      (hphase : e.phase = .finalize started result) :
      Performs fits w e
        { w with staged := w.staged ++ [⟨e.home, e.key, started,
            createCompletedActivityReconciliationRecord started result now⟩] }
        { e with phase := .returned result }

variable {e e' : Execution κ ι ρ}

/-- A compare-and-set takes effect or fails. -/
theorem transition_performs {w w' : World κ ι ρ}
    {expected next : ActivityReconciliationRecord ι ρ} {entry : Option (Entry κ ι)}
    {outcome : Outcome} {after : Phase ι ρ}
    (h : transition w e expected next entry outcome after = (w', e')) :
    (w' = w ∧ e' = { e with phase := .failed }) ∨
      ∃ phase, (phase = after ∨ phase = .failed) ∧ w.store e.key = some expected ∧
        w' = { w.put e.key next with log := entry.toList ++ w.log } ∧
        e' = { e with phase := phase } := by
  unfold transition at h
  split_ifs at h with hcond hdone
  · obtain ⟨rfl, rfl⟩ := Prod.mk.inj h
    exact .inr ⟨after, .inl rfl, hcond.2, rfl, rfl⟩
  · obtain ⟨rfl, rfl⟩ := Prod.mk.inj h
    exact .inr ⟨.failed, .inr rfl, hcond.2, rfl, rfl⟩
  · obtain ⟨rfl, rfl⟩ := Prod.mk.inj h
    exact .inl ⟨rfl, rfl⟩

theorem perform_performs {w w' : World κ ι ρ} {outcome : Outcome} {drawn : ι} {now : Nat}
    {answer : ActivityVerificationResult ρ} {output : ρ}
    (h : perform fits w e outcome drawn now answer output = some (w', e')) :
    Performs fits w e w' e' := by
  unfold perform at h
  cases hphase : e.phase with
  | read =>
    simp only [hphase] at h
    cases hstore : w.store e.key with
    | some record =>
      simp only [hstore] at h
      split_ifs at h with hdone
      · cases h
        exact .fails (by simp [hphase])
      · cases h
        exact .sees record hstore
    | none =>
      simp only [hstore] at h
      split_ifs at h with hdone hdrawn
      · cases h
        exact .fails (by simp [hphase])
      · cases h
        exact .draws drawn now hphase hstore hdrawn
  | claim record =>
    simp only [hphase] at h
    split_ifs at h with hrefused hnone hdone hdone
    · cases h
      exact .fails (by simp [hphase])
    · cases h
      exact .claims record _ hphase hnone (.inl rfl)
    · cases h
      exact .claims record _ hphase hnone (.inr rfl)
    · cases h
      exact .reads record hphase
    · cases h
      exact .fails (by simp [hphase])
  | readAgain =>
    simp only [hphase] at h
    split_ifs at h with hdone
    · cases h
      exact .fails (by simp [hphase])
    · cases hstore : w.store e.key with
      | some record =>
        simp only [hstore] at h
        cases h
        exact .sees record hstore
      | none =>
        simp only [hstore] at h
        cases h
        exact .fails (by simp [hphase])
  | verify record =>
    simp only [hphase] at h
    cases answer with
    | notCompleted =>
      dsimp only at h
      split_ifs at h with hdrawn
      cases h
      exact .verified record drawn now hphase hdrawn
    | completedWithResult result =>
      dsimp only at h
      split_ifs at h with hfits
      · cases h
        exact .adopts record result now hphase hfits
      · cases h
        exact .fails (by simp [hphase])
    | _ =>
      cases h
      exact .fails (by simp [hphase])
  | reclaim record next =>
    simp only [hphase] at h
    obtain ⟨rfl, rfl⟩ | ⟨phase, hnext, hstore, rfl, rfl⟩ :=
      transition_performs (Option.some.inj h)
    · exact .fails (by simp [hphase])
    · exact .reclaims record next phase hphase hstore hnext
  | adopt record completed result =>
    simp only [hphase] at h
    obtain ⟨rfl, rfl⟩ | ⟨phase, hnext, hstore, rfl, rfl⟩ :=
      transition_performs (Option.some.inj h)
    · exact .fails (by simp [hphase])
    · exact .completes record completed result phase (.inl hphase) hstore hnext
  | invoke started =>
    simp only [hphase] at h
    cases h
    exact .invokes started hphase
  | running started =>
    simp only [hphase] at h
    split_ifs at h with hdone
    · cases h
      exact .ends started output hphase hdone.2
    · cases h
      exact .fails (by simp [hphase])
  | finalize started result =>
    simp only [hphase] at h
    split_ifs at h with hdone himmediate
    · cases h
      exact .fails (by simp [hphase])
    · cases h
      exact .finalizes started result now hphase
    · cases h
      exact .stages started result now hphase
  | commit started completed result =>
    simp only [hphase] at h
    obtain ⟨rfl, rfl⟩ | ⟨phase, hnext, hstore, rfl, rfl⟩ :=
      transition_performs (Option.some.inj h)
    · exact .fails (by simp [hphase])
    · exact .completes started completed result phase (.inr hphase) hstore hnext
  | returned result =>
    simp only [hphase] at h
    cases h
  | failed =>
    simp only [hphase] at h
    cases h

end Weft.Reconciliation
