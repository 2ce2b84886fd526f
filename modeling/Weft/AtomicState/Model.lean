import Weft.Storage.Interface
import Weft.Lib.Machine

/-! `AtomicState`: a value and a version under two keys, read by two separate gets and
written by one conditional batch on the version. Every get and every conditional batch of
every call is one step; `history` records the batches that committed, newest first. -/

namespace Weft.AtomicState
open Weft.Js Weft.Storage Weft.Lib

universe u v

/-- The value codec. `decode` fails on bytes it cannot read. -/
structure Codec (T : Type u) (V : Type v) where
  encode : T → V
  decode : V → Option T
  encodeVersion : Nat → V
  decodeVersion : V → Option Nat
  decode_encode : ∀ x, decode (encode x) = some x
  decodeVersion_encode : ∀ n, decodeVersion (encodeVersion n) = some n

variable {T : Type u} {V : Type v}

def atomicStateVersionKey (dataKey : JsString) : JsString := dataKey ++ js ":version"

theorem atomicStateVersionKey_ne (dataKey : JsString) :
    atomicStateVersionKey dataKey ≠ dataKey := by
  intro h
  have hlen := congrArg List.length h
  simp only [atomicStateVersionKey, List.length_append] at hlen
  have hpos : (js ":version").length = 8 := rfl
  omega

/-! ## Calls -/

structure AtomicStateSnapshot (T : Type u) where
  value : Option T
  version : Nat

/-- `set x` is `update` by the constant `x`. -/
inductive Operation (T : Type u) where
  | get
  | update (updater : Option T → T)
  | delete

def Operation.set (x : T) : Operation T := .update fun _ => x

/-- The value read by a get is kept raw until both gets are back. -/
inductive Phase (T : Type u) (V : Type v) where
  | reading (rawValue rawVersion : Option (Option V))
  | committing (snapshot : AtomicStateSnapshot T)
  | sleeping
  | returned (value : Option T)
  | conflict
  | failed

structure Call (T : Type u) (V : Type v) where
  operation : Operation T
  initial : Option T
  maxRetries : Nat := 10
  attempt : Nat := 0
  phase : Phase T V := .reading none none

structure Commit (T : Type u) where
  operation : Operation T
  initial : Option T
  value : Option T
  version : Nat

structure State (T : Type u) (V : Type v) where
  store : Store V
  calls : Nat → Option (Call T V)
  history : List (Commit T) := []

section

variable (codec : Codec T V)

/-- `none` is a thrown error: a corrupt version, or a value that does not decode. -/
def readAtomicStateSnapshot (initial : Option T) (rawValue rawVersion : Option V) :
    Option (AtomicStateSnapshot T) :=
  match rawVersion with
  | none =>
    match rawValue with
    | none => some ⟨initial, 0⟩
    | some raw => (codec.decode raw).map fun x => ⟨some x, 0⟩
  | some rawV =>
    match codec.decodeVersion rawV, rawValue with
    | none, _ => none
    | some version, none => some ⟨none, version⟩
    | some version, some raw => (codec.decode raw).map fun x => ⟨some x, version⟩

def versionCondition (dataKey : JsString) (expectedVersion : Nat) : ConditionalBatchCondition V :=
  ⟨atomicStateVersionKey dataKey,
    if expectedVersion = 0 then none else some (codec.encodeVersion expectedVersion)⟩

def commitOperations (dataKey : JsString) (expectedVersion : Nat) (value : Option T) :
    List (BatchOperation V) :=
  [match value with
    | some x => .put dataKey (codec.encode x)
    | none => .delete dataKey,
   .put (atomicStateVersionKey dataKey) (codec.encodeVersion (expectedVersion + 1))]

/-- The value an operation commits over a snapshot; `get` commits nothing. -/
def Operation.next (snapshot : AtomicStateSnapshot T) : Operation T → Option (Option T)
  | .get => none
  | .update updater => some (some (updater snapshot.value))
  | .delete => some none

/-- Both gets are back: decode the snapshot and go on. -/
def Call.afterReads (c : Call T V) (rawValue rawVersion : Option V) : Call T V :=
  match readAtomicStateSnapshot codec c.initial rawValue rawVersion with
  | none => { c with phase := .failed }
  | some snapshot =>
    match c.operation with
    | .get => { c with phase := .returned snapshot.value }
    | _ => { c with phase := .committing snapshot }

def Call.afterConflict (c : Call T V) : Call T V :=
  if c.attempt + 1 < c.maxRetries then
    { c with attempt := c.attempt + 1, phase := .sleeping }
  else { c with phase := .conflict }

/-! ## Steps -/

inductive Label (T : Type u) where
  | start (call : Nat) (operation : Operation T) (initial : Option T) (maxRetries : Nat)
  | readValue (call : Nat)
  | readVersion (call : Nat)
  | commit (call : Nat) (answerLost : Bool)
  | wake (call : Nat)
  | fail (call : Nat)

def State.setCall (s : State T V) (i : Nat) (c : Call T V) : State T V :=
  { s with calls := fun j => if j = i then some c else s.calls j }

/-- A mutation with no attempts left to make throws at once. -/
def startCall (operation : Operation T) (initial : Option T) (maxRetries : Nat) : Call T V :=
  match operation, maxRetries with
  | .get, _ => { operation := .get, initial := initial, maxRetries := maxRetries }
  | operation, 0 =>
    { operation := operation, initial := initial, maxRetries := 0, phase := .conflict }
  | operation, n => { operation := operation, initial := initial, maxRetries := n }

def commitStep [DecidableEq V] (dataKey : JsString) (s : State T V) (i : Nat) (c : Call T V)
    (snapshot : AtomicStateSnapshot T) (value : Option T) (answerLost : Bool) :
    Option (State T V) :=
  match conditionalBatch s.store [versionCondition codec dataKey snapshot.version]
      (commitOperations codec dataKey snapshot.version value) with
  | none => none
  | some (true, store) =>
    let phase := if answerLost then .failed else .returned value
    some { (s.setCall i { c with phase := phase }) with
      store := store
      history := ⟨c.operation, c.initial, value, snapshot.version + 1⟩ :: s.history }
  | some (false, _) =>
    some (s.setCall i (if answerLost then { c with phase := .failed } else c.afterConflict))

def step [DecidableEq V] (dataKey : JsString) (s : State T V) : Label T → Option (State T V)
  | .start i operation initial maxRetries =>
    match s.calls i with
    | none => some (s.setCall i (startCall operation initial maxRetries))
    | some _ => none
  | .readValue i =>
    match s.calls i with
    | some c =>
      match c.phase with
      | .reading none rawVersion =>
        let rawValue := s.store.get dataKey
        match rawVersion with
        | none => some (s.setCall i { c with phase := .reading (some rawValue) none })
        | some rawVersion => some (s.setCall i (c.afterReads codec rawValue rawVersion))
      | _ => none
    | none => none
  | .readVersion i =>
    match s.calls i with
    | some c =>
      match c.phase with
      | .reading rawValue none =>
        let rawVersion := s.store.get (atomicStateVersionKey dataKey)
        match rawValue with
        | none => some (s.setCall i { c with phase := .reading none (some rawVersion) })
        | some rawValue => some (s.setCall i (c.afterReads codec rawValue rawVersion))
      | _ => none
    | none => none
  | .commit i answerLost =>
    match s.calls i with
    | some c =>
      match c.phase with
      | .committing snapshot =>
        match c.operation.next snapshot with
        | none => none
        | some value => commitStep codec dataKey s i c snapshot value answerLost
      | _ => none
    | none => none
  | .wake i =>
    match s.calls i with
    | some c =>
      match c.phase with
      | .sleeping => some (s.setCall i { c with phase := .reading none none })
      | _ => none
    | none => none
  | .fail i =>
    match s.calls i with
    | some c => some (s.setCall i { c with phase := .failed })
    | none => none

def atomicState [DecidableEq V] (dataKey : JsString) : Machine (State T V) (Label T) :=
  ⟨step codec dataKey⟩

end

end Weft.AtomicState
