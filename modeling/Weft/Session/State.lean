import Weft.Codec.Value
import Weft.Lib.InsertionMap

/-! Session state. The store lives in the locals of the checkpoint, and what an operation on it
gives is cached by its step: the very object that the caller is handed, which the caller may change.
A workflow that resumes from a checkpoint runs through the cached steps. -/

namespace Weft.Session
open Weft.Js Weft.Lib

variable {ν ε : Type}

def MAX_SESSION_STATE_ENTRY_COUNT : Nat := 256

def MAX_SESSION_STATE_KEY_LENGTH : Nat := 256

def MAX_SESSION_STATE_SERIALIZED_BYTES : Nat := 32 * 1024

def RESERVED_SESSION_STATE_KEYS : List JsString :=
  [js "__proto__", js "constructor", js "prototype"]

/-- What the language does with values: the nullish ones, their clones, sums and differences, an
object spread over another one, the items of an array, and the size of an encoded store. An `Except`
throws. -/
structure Language (ν ε : Type) where
  undefined : ν
  isUndefined : ν → Bool
  isNullish : ν → Bool
  structuredClone : ν → Except ε ν
  add : ν → ν → ν
  subtract : ν → ν → ν
  zero : ν
  spread : ν → ν → ν
  emptyObject : ν
  items : ν → Except ε (List ν)
  array : List ν → ν
  serializedBytes : InsertionMap JsString ν → Except ε Nat

inductive Thrown (ε : Type) where
  | keyLength
  | keyReserved (key : JsString)
  | entryCount
  | byteLimit
  | error (e : ε)
deriving DecidableEq

abbrev SessionStore (ν : Type) := Option (InsertionMap JsString ν)

def assertValidSessionStateKey (key : JsString) : Except (Thrown ε) Unit :=
  if key.length = 0 ∨ MAX_SESSION_STATE_KEY_LENGTH < key.length then .error .keyLength
  else if key ∈ RESERVED_SESSION_STATE_KEYS then .error (.keyReserved key)
  else .ok ()

def cloneSessionStateValue (language : Language ν ε) (value : ν) : Except (Thrown ε) ν :=
  (language.structuredClone value).mapError .error

/-- `cloneSessionStateStore(store) ?? createSessionStateStore()` -/
def cloneSessionStateStore (language : Language ν ε) (store : SessionStore ν) :
    Except (Thrown ε) (InsertionMap JsString ν) :=
  (store.elim [] InsertionMap.entries).foldlM (fun cloned entry =>
    (cloneSessionStateValue language entry.2).map (cloned.set entry.1)) .empty

def validateSessionStateStore (language : Language ν ε) (store : InsertionMap JsString ν) :
    Except (Thrown ε) Unit :=
  if MAX_SESSION_STATE_ENTRY_COUNT < store.size then .error .entryCount
  else do
    store.entries.forM fun entry => assertValidSessionStateKey entry.1
    let serializedBytes ← (language.serializedBytes store).mapError .error
    if MAX_SESSION_STATE_SERIALIZED_BYTES < serializedBytes then .error .byteLimit else .ok ()

def getSessionStateValue (language : Language ν ε) (store : SessionStore ν) (key : JsString)
    (initialValue : ν) : Except (Thrown ε) ν := do
  assertValidSessionStateKey key
  match store.bind (·.get key) with
  | some value => cloneSessionStateValue language value
  | none =>
    if language.isUndefined initialValue then .ok language.undefined
    else cloneSessionStateValue language initialValue

/-- The value returned, and the store that is committed. -/
def setSessionStateValue (language : Language ν ε) (store : SessionStore ν) (key : JsString)
    (value : ν) : Except (Thrown ε) (ν × SessionStore ν) := do
  assertValidSessionStateKey key
  let cloned ← cloneSessionStateStore language store
  let stored ← cloneSessionStateValue language value
  let candidate := cloned.set key stored
  validateSessionStateStore language candidate
  let returned ← cloneSessionStateValue language stored
  return (returned, some candidate)

def updateSessionStateValue (language : Language ν ε) (store : SessionStore ν) (key : JsString)
    (initialValue : ν) (updater : ν → Except ε ν) : Except (Thrown ε) (ν × SessionStore ν) := do
  let current ← getSessionStateValue language store key initialValue
  let value ← (updater current).mapError .error
  setSessionStateValue language store key value

def clearSessionStateValue (language : Language ν ε) (store : SessionStore ν) (key : JsString) :
    Except (Thrown ε) (SessionStore ν) := do
  assertValidSessionStateKey key
  match store.bind (·.get key) with
  | none => return store
  | some _ =>
    let cloned ← cloneSessionStateStore language store
    let candidate := cloned.delete key
    return if candidate.size = 0 then none else some candidate

inductive Removal where
  | first
  | last
deriving DecidableEq

/-- What a workflow does next: an operation on the state of a session, or any other step. -/
inductive Operation (ν : Type u) (ε : Type v) where
  | get (key : JsString) (initialValue : ν)
  | set (key : JsString) (value : ν)
  | update (key : JsString) (initialValue : ν) (updater : ν → Except ε ν)
  | delete (key : JsString)
  | remove (side : Removal) (key : JsString) (initialValue : ν)
  | step

namespace Operation

variable (language : Language ν ε)

/-- `value ?? other` -/
def orElse (value other : ν) : ν := if language.isNullish value then other else value

def increment (key : JsString) (initialValue amount : ν) : Operation ν ε :=
  .update key initialValue fun current =>
    .ok (language.add (orElse language current language.zero) amount)

def decrement (key : JsString) (initialValue amount : ν) : Operation ν ε :=
  .update key initialValue fun current =>
    .ok (language.subtract (orElse language current language.zero) amount)

def merge (key : JsString) (initialValue patch : ν) : Operation ν ε :=
  .update key initialValue fun current =>
    .ok (language.spread (orElse language current language.emptyObject) patch)

/-- `[...(current ?? [])]` -/
def spreadItems (current : ν) : Except ε (List ν) :=
  language.items (orElse language current (language.array []))

def append (key : JsString) (initialValue item : ν) : Operation ν ε :=
  .update key initialValue fun current =>
    (spreadItems language current).map fun items => language.array (items ++ [item])

def removeFirst (key : JsString) (initialValue : ν) : Operation ν ε :=
  .remove .first key initialValue

def removeLast (key : JsString) (initialValue : ν) : Operation ν ε :=
  .remove .last key initialValue

end Operation

/-- `shift` and `pop`: the item, and the items that stay. -/
def Removal.take (side : Removal) (items : List ν) : Option ν × List ν :=
  match side with
  | .first => (items.head?, items.tail)
  | .last => (items.getLast?, items.dropLast)

section

variable (language : Language ν ε)

def removalUpdater (side : Removal) (current : ν) : Except ε ν :=
  (Operation.spreadItems language current).map fun items => language.array (side.take items).2

/-- What the updater of a removal leaves in its local variable. -/
def removedBy (side : Removal) (current : ν) : ν :=
  match Operation.spreadItems language current with
  | .ok items => (side.take items).1.getD language.undefined
  | .error _ => language.undefined

/-- An operation that is applied gives the result that is cached, what its caller is given, and the
store; `live` is what a step that is no operation on the session gives. -/
def apply (live : ν) (store : SessionStore ν) :
    Operation ν ε → Except (Thrown ε) (ν × ν × SessionStore ν)
  | .get key initialValue => do
    let value ← getSessionStateValue language store key initialValue
    return (value, value, store)
  | .set key value => do
    let (result, next) ← setSessionStateValue language store key value
    return (result, result, next)
  | .update key initialValue updater => do
    let (result, next) ← updateSessionStateValue language store key initialValue updater
    return (result, result, next)
  | .delete key => do
    let next ← clearSessionStateValue language store key
    return (language.undefined, language.undefined, next)
  | .remove side key initialValue => do
    let current ← getSessionStateValue language store key initialValue
    let (result, next) ←
      updateSessionStateValue language store key initialValue (removalUpdater language side)
    return (result, removedBy language side current, next)
  | .step => return (live, live, store)

/-- What the caller of a cached operation is given: the updater of a removal is not called. -/
def replayed (operation : Operation ν ε) (cached : ν) : ν :=
  match operation with
  | .remove _ _ _ => language.undefined
  | _ => cached

structure ContextInternals (ν : Type) where
  stepIndex : Nat := 0
  accumulatedResults : Nat → Option ν := fun _ => none
  stateSession : SessionStore ν := none

/-- One operation of the program. One that throws is not recorded. -/
def executeSessionStateOperation (internals : ContextInternals ν) (operation : Operation ν ε)
    (live : ν) : Except (Thrown ε) ν × ContextInternals ν :=
  let step := internals.stepIndex
  match internals.accumulatedResults step with
  | some cached =>
    (.ok (replayed language operation cached), { internals with stepIndex := step + 1 })
  | none =>
    match apply language live internals.stateSession operation with
    | .ok (cached, result, store) => (.ok result,
      { stepIndex := step + 1
        accumulatedResults := Function.update internals.accumulatedResults step (some cached)
        stateSession := store })
    | .error e => (.error e, { internals with stepIndex := step + 1 })

/-- The next operation of a workflow, and what it does before that to the objects which the
operations at these places have handed out. -/
structure Move (ν ε : Type) where
  mutations : List (Nat × (ν → ν)) := []
  operation : Operation ν ε

/-- A workflow chooses by what its operations gave, errors included. -/
abbrev Program (ν ε : Type) := List (Except (Thrown ε) ν) → Move ν ε

/-- What becomes of the object of one operation. -/
def Move.change (move : Move ν ε) (place : Nat) (value : ν) : ν :=
  move.mutations.foldl (fun value mutation =>
    if mutation.1 = place then mutation.2 value else value) value

/-- The caller is handed the object that is recorded; a removal hands out the item. -/
def Operation.sharesResult : Operation ν ε → Bool
  | .remove _ _ _ => false
  | _ => true

/-- The records after what a move does to the objects handed out so far. -/
def mutateResults (program : Program ν ε) (outcomes : List (Except (Thrown ε) ν))
    (internals : ContextInternals ν) : ContextInternals ν :=
  { internals with
    accumulatedResults := fun place =>
      if place < outcomes.length ∧
        (program (outcomes.take place)).operation.sharesResult = true then
        (internals.accumulatedResults place).map ((program outcomes).change place)
      else internals.accumulatedResults place }

/-- The outcomes of the first operations, and where the context then stands. -/
def run (program : Program ν ε) (live : Nat → ν) (internals : ContextInternals ν) :
    Nat → List (Except (Thrown ε) ν) × ContextInternals ν
  | 0 => ([], internals)
  | n + 1 =>
    let before := run program live internals n
    let after := executeSessionStateOperation language (mutateResults program before.1 before.2)
      (program before.1).operation (live n)
    (before.1 ++ [after.1], after.2)

/-- A context that resumes from the checkpoint of another one. -/
def ContextInternals.resumed (checkpoint : ContextInternals ν) : ContextInternals ν :=
  { checkpoint with stepIndex := 0 }

/-- The checkpoint that is taken when the workflow has given `n` operations and yields the next one.
It has done its next move by then, all but the operation. -/
def checkpointAt (program : Program ν ε) (live : Nat → ν) (n : Nat) : ContextInternals ν :=
  let before := run language program live {} n
  mutateResults program before.1 before.2

/-- From the checkpoint after `n` operations these give what they gave, and the store is then the
live one. -/
def ReplaysFaithfully (program : Program ν ε) (live : Nat → ν) (n : Nat) : Prop :=
  let before := run language program live {} n
  let replay := run language program live (checkpointAt language program live n).resumed n
  replay.1 = before.1 ∧ replay.2.stateSession = before.2.stateSession

/-- What the moves after an operation, up to a later place, make of a value that it handed out. -/
def changedBy (program : Program ν ε) (live : Nat → ν) (place : Nat) (value : ν) : Nat → ν
  | 0 => value
  | n + 1 =>
    if place ≤ n then
      (program (run language program live {} (n + 1)).1).change place
        (changedBy program live place value n)
    else value

/-- An operation on a store, seen from a later checkpoint, where `changed` tells what the workflow
did meanwhile to the object it was handed: one that is recorded removes no item and its object is as
it was, and one that throws does so from the store of the checkpoint as well. -/
def Replayable (live : ν) (checkpoint store : SessionStore ν) (changed : ν → ν)
    (operation : Operation ν ε) : Prop :=
  (∀ cached result next, apply language live store operation = .ok (cached, result, next) →
    (operation.sharesResult = true → changed cached = cached) ∧
    ∀ side key initialValue, operation = .remove side key initialValue →
      ∀ current, getSessionStateValue language store key initialValue = .ok current →
        removedBy language side current = language.undefined) ∧
  ∀ e, apply language live store operation = .error e →
    apply language live checkpoint operation = .error e

end

section

variable {language : Language ν ε} {program : Program ν ε} {live : Nat → ν}

theorem stepIndex_execute (internals : ContextInternals ν) (operation : Operation ν ε) (value : ν) :
    (executeSessionStateOperation language internals operation value).2.stepIndex =
      internals.stepIndex + 1 := by
  unfold executeSessionStateOperation
  dsimp only
  split
  · rfl
  · split <;> rfl

theorem stepIndex_run (internals : ContextInternals ν) (n : Nat) :
    (run language program live internals n).2.stepIndex = internals.stepIndex + n := by
  induction n with
  | zero => rfl
  | succ n ih =>
    rw [run]
    dsimp only
    rw [stepIndex_execute]
    exact congrArg (· + 1) ih

theorem length_run (internals : ContextInternals ν) (n : Nat) :
    (run language program live internals n).1.length = n := by
  induction n with
  | zero => rfl
  | succ n ih =>
    rw [run]
    dsimp only
    rw [List.length_append, ih]
    rfl

theorem take_run (internals : ContextInternals ν) {k n : Nat} (h : k ≤ n) :
    (run language program live internals n).1.take k =
      (run language program live internals k).1 := by
  induction n with
  | zero =>
    obtain rfl := Nat.le_zero.1 h
    rfl
  | succ n ih =>
    obtain rfl | hlt := Nat.eq_or_lt_of_le h
    · exact List.take_of_length_le (length_run internals _).le
    · rw [← ih (Nat.lt_succ_iff.1 hlt), run]
      exact List.take_append_of_le_length (by rw [length_run]; omega)

/-- An operation leaves the results of the other steps. -/
theorem accumulatedResults_execute (internals : ContextInternals ν) (operation : Operation ν ε)
    (value : ν) {step : Nat} (h : step ≠ internals.stepIndex) :
    (executeSessionStateOperation language internals operation value).2.accumulatedResults step =
      internals.accumulatedResults step := by
  unfold executeSessionStateOperation
  dsimp only
  split
  · rfl
  · split
    · exact Function.update_of_ne h _ _
    · rfl

variable {k n : Nat}

/-- Results of steps that are still to come are as they were. -/
theorem accumulatedResults_ahead (internals : ContextInternals ν)
    (h : internals.stepIndex + n ≤ k) :
    (run language program live internals n).2.accumulatedResults k =
      internals.accumulatedResults k := by
  induction n with
  | zero => rfl
  | succ n ih =>
    rw [run]
    refine (accumulatedResults_execute _ _ _ ?_).trans ?_
    · change k ≠ (run language program live internals n).2.stepIndex
      rw [stepIndex_run]
      omega
    · refine (if_neg fun hheld => ?_).trans (ih (by omega))
      have hlt := hheld.1
      rw [length_run] at hlt
      omega

theorem changedBy_of_le (value : ν) (h : n ≤ k) :
    changedBy language program live k value n = value := by
  cases n with
  | zero => rfl
  | succ n => exact if_neg (Nat.not_le.2 h)

/-- A checkpoint has for a step what the step left there, changed as its object was. -/
theorem accumulatedResults_checkpointAt (h : k < n) :
    (checkpointAt language program live n).accumulatedResults k =
      ((run language program live {} (k + 1)).2.accumulatedResults k).map fun value =>
        if (program (run language program live {} k).1).operation.sharesResult = true then
          changedBy language program live k value n
        else value := by
  induction n with
  | zero => cases h
  | succ n ih =>
    have hle := Nat.lt_succ_iff.1 h
    have hbefore : (run language program live {} (n + 1)).2.accumulatedResults k =
        ((run language program live {} (k + 1)).2.accumulatedResults k).map fun value =>
          if (program (run language program live {} k).1).operation.sharesResult = true then
            changedBy language program live k value n
          else value := by
      obtain rfl | hlt := Nat.eq_or_lt_of_le hle
      · simp [changedBy_of_le _ (Nat.le_refl k)]
      · rw [← ih hlt, run]
        refine accumulatedResults_execute _ _ _ ?_
        change k ≠ (run language program live {} n).2.stepIndex
        rw [stepIndex_run, Nat.zero_add]
        exact hlt.ne
    have hheld : k < (run language program live {} (n + 1)).1.length := by
      rwa [length_run]
    simp only [checkpointAt, mutateResults, hheld, true_and, take_run {} h.le, hbefore, changedBy,
      if_pos hle]
    split_ifs with hshares
    · rw [Option.map_map]
      rfl
    · rfl

/-! ## One step -/

variable {internals : ContextInternals ν}

variable (language) in
/-- A step that is not cached is applied. -/
theorem execute_fresh (h : internals.accumulatedResults internals.stepIndex = none)
    (operation : Operation ν ε) (value : ν) :
    let applied := apply language value internals.stateSession operation
    let after := executeSessionStateOperation language internals operation value
    after.1 = applied.map (·.2.1) ∧
      after.2.accumulatedResults internals.stepIndex = applied.toOption.map Prod.fst := by
  dsimp only
  unfold executeSessionStateOperation
  dsimp only
  rw [h]
  dsimp only
  cases hap : apply language value internals.stateSession operation with
  | ok applied => exact ⟨rfl, Function.update_self ..⟩
  | error e => exact ⟨rfl, h⟩

variable {operation : Operation ν ε}

/-- What a cached operation is given is what it was given live, unless it is a removal that took an
item or its object has changed. -/
theorem replayed_eq_result {value : ν} {store next : SessionStore ν} {cached result : ν}
    (changed : ν → ν) (h : apply language value store operation = .ok (cached, result, next)) :
    replayed language operation
        (if operation.sharesResult = true then changed cached else cached) = result ↔
      (operation.sharesResult = true → changed cached = cached) ∧ ∀ side key initialValue,
        operation = .remove side key initialValue →
        ∀ current, getSessionStateValue language store key initialValue = .ok current →
          removedBy language side current = language.undefined := by
  cases operation with
  | remove side key initialValue =>
    simp only [apply, bind, Except.bind] at h
    split at h
    · cases h
    · rename_i current hget
      split at h
      · cases h
      · cases h
        constructor
        · refine fun heq => ⟨fun hshares => (by cases hshares), ?_⟩
          intro side' key' initialValue' hop current' hget'
          cases hop
          cases hget.symm.trans hget'
          exact heq.symm
        · exact fun hr => (hr.2 side key initialValue rfl current hget).symm
  | step =>
    cases h
    exact ⟨fun heq => ⟨fun _ => heq, fun _ _ _ hop => (by cases hop)⟩, fun hr => hr.1 rfl⟩
  | _ =>
    simp only [apply, bind, Except.bind] at h
    split at h
    · cases h
    · cases h
      exact ⟨fun heq => ⟨fun _ => heq, fun _ _ _ hop => (by cases hop)⟩, fun hr => hr.1 rfl⟩

/-- A step that resumes with what it left gives the same again exactly where it is replayable. -/
theorem execute_replay {store : SessionStore ν} {value : ν} (changed : ν → ν)
    (h : internals.accumulatedResults internals.stepIndex =
      (apply language value store operation).toOption.map fun applied =>
        if operation.sharesResult = true then changed applied.1 else applied.1) :
    let after := executeSessionStateOperation language internals operation value
    (after.1 = (apply language value store operation).map (·.2.1) ↔
      Replayable language value internals.stateSession store changed operation) ∧
    (after.1 = (apply language value store operation).map (·.2.1) →
      after.2.stateSession = internals.stateSession) := by
  dsimp only
  unfold executeSessionStateOperation Replayable
  dsimp only
  cases hap : apply language value store operation with
  | ok applied =>
    obtain ⟨cached, result, next⟩ := applied
    rw [hap] at h
    rw [h]
    refine ⟨?_, fun _ => rfl⟩
    have hiff := replayed_eq_result changed hap
    constructor
    · intro heq
      refine ⟨fun c r n hok => ?_, fun e he => (by cases he)⟩
      cases hok
      exact hiff.1 (Except.ok.inj heq)
    · exact fun hr => congrArg Except.ok (hiff.2 (hr.1 cached result next rfl))
  | error e =>
    rw [hap] at h
    rw [h]
    simp only [Except.toOption, Option.map_none]
    cases hag : apply language value internals.stateSession operation with
    | ok applied =>
      -- the step that threw gives a value from the later store
      refine ⟨⟨fun heq => (by cases heq), fun hr => ?_⟩, fun heq => (by cases heq)⟩
      cases hr.2 e rfl
    | error e' =>
      refine ⟨⟨fun heq => ⟨fun _ _ _ hok => (by cases hok), fun d hd => ?_⟩, fun hr => ?_⟩,
        fun _ => rfl⟩
      · cases hd
        exact congrArg Except.error (Except.error.inj heq)
      · exact congrArg Except.error (Except.error.inj (hr.2 e rfl))

/-! ## Whole runs -/

variable (language) (program) (live)

/-- What the live run gave for a step, and what is in the checkpoint for it. -/
theorem run_live (h : k < n) : let before := run language program live {} k
    let operation := (program before.1).operation
    let applied := apply language (live k) before.2.stateSession operation
    (run language program live {} (k + 1)).1 = before.1 ++ [applied.map (·.2.1)] ∧
      (checkpointAt language program live n).accumulatedResults k =
        applied.toOption.map fun applied =>
          if operation.sharesResult = true then changedBy language program live k applied.1 n
          else applied.1 := by
  have hidx : (run language program live {} k).2.stepIndex = k :=
    (stepIndex_run _ _).trans (Nat.zero_add k)
  have hnone : (run language program live {} k).2.accumulatedResults k = none :=
    accumulatedResults_ahead {} (Nat.zero_add k).le
  have hfresh : (mutateResults program (run language program live {} k).1
      (run language program live {} k).2).accumulatedResults
        (run language program live {} k).2.stepIndex = none := by
    rw [hidx]
    simp [mutateResults, hnone]
  have hstep := execute_fresh language hfresh
    (program (run language program live {} k).1).operation (live k)
  dsimp only at hstep ⊢
  rw [accumulatedResults_checkpointAt h, run]
  dsimp only
  change _ ∧ (_ : ContextInternals ν).accumulatedResults
    (run language program live {} k).2.stepIndex = _ at hstep
  rw [hidx] at hstep
  rw [hstep.1, hstep.2, Option.map_map]
  exact ⟨rfl, rfl⟩

/-- A replay agrees with the live run up to a step exactly where the steps before it are replayable,
and it then has the store of the checkpoint. -/
theorem replay_agrees {n m : Nat} (h : m ≤ n) :
    let checkpoint := checkpointAt language program live n
    let replay := run language program live checkpoint.resumed m
    (replay.1 = (run language program live {} m).1 ↔ ∀ i < m,
      Replayable language (live i) checkpoint.stateSession
        (run language program live {} i).2.stateSession
        (fun value => changedBy language program live i value n)
        (program (run language program live {} i).1).operation) ∧
    (replay.1 = (run language program live {} m).1 →
      replay.2.stateSession = checkpoint.stateSession) := by
  dsimp only
  induction m with
  | zero => exact ⟨⟨fun _ i hi => absurd hi (Nat.not_lt_zero i), fun _ => rfl⟩, fun _ => rfl⟩
  | succ m ih =>
    obtain ⟨hiff, hstore⟩ := ih (Nat.le_of_succ_le h)
    obtain ⟨hlive, hcached⟩ := run_live language program live h
    rw [hlive]
    generalize hreplay : run language program live
      (checkpointAt language program live n).resumed m = replay at hiff hstore
    have hidx : replay.2.stepIndex = m := by
      rw [← hreplay]
      exact (stepIndex_run _ _).trans (Nat.zero_add m)
    have hresults : (mutateResults program replay.1 replay.2).accumulatedResults
        replay.2.stepIndex = (checkpointAt language program live n).accumulatedResults m := by
      have hlength : replay.1.length = m := by
        rw [← hreplay]
        exact length_run _ _
      rw [hidx]
      refine (if_neg fun hheld => ?_).trans ?_
      · exact absurd hheld.1 (by rw [hlength]; exact lt_irrefl m)
      · rw [← hreplay]
        exact accumulatedResults_ahead _ (Nat.zero_add m).le
    have hstep := execute_replay (fun value => changedBy language program live m value n)
      (hresults.trans hcached)
    change _ ∧ (_ → _ = replay.2.stateSession) at hstep
    rw [run, hreplay]
    dsimp only at hstep ⊢
    rw [← List.concat_eq_append, ← List.concat_eq_append, List.concat_inj, Nat.forall_lt_succ_right,
      ← hiff]
    constructor
    · refine and_congr_right fun hagree => ?_
      rw [hagree] at hstep ⊢
      rw [← hstore hagree]
      exact hstep.1
    · rintro ⟨hagree, hlast⟩
      rw [hagree] at hlast hstep ⊢
      rw [← hstore hagree]
      exact hstep.2 hlast

end

section

open Codec

/-- The values of the language, as far as arrays of them go. -/
def arrayLanguage : Language Value Unit where
  undefined := .undefined
  isUndefined value := value matches .primitive .undefined
  isNullish value := value matches .primitive .undefined | .primitive .null
  structuredClone value := .ok value
  add value _ := value
  subtract value _ := value
  zero := .number (.finite 0)
  spread _ other := other
  emptyObject := .record []
  items
    | .array items => .ok items
    | _ => .error ()
  array := .array
  serializedBytes _ := .ok 0

/-- `list.set([null])`, and then `list.removeFirst()`. -/
def removingProgram : Program Value Unit
  | [] => { operation := .set [108] (.array [.null]) }
  | _ => { operation := .removeFirst [108] .undefined }

/-- `const stored = draft.set([])`, then `stored.push(null)`, and the yield of any other step. -/
def changingProgram : Program Value Unit
  | [] => { operation := .set [108] (.array []) }
  | [_] => { mutations := [(0, fun _ => .array [.null])], operation := .step }
  | _ => { operation := .step }

/-- The replay gives the array that was changed after it was handed out. -/
example : ¬ ReplaysFaithfully arrayLanguage changingProgram (fun _ => .undefined) 1 := by
  rintro ⟨h, -⟩
  have hfirst : (some (.ok (.array [.null])) : Option (Except (Thrown Unit) Value)) =
      some (.ok (.array [])) := congrArg List.head? h
  cases hfirst

end

end Weft.Session
