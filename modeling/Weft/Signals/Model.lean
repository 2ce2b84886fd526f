import Weft.Storage.Keys
import Weft.Lib.Machine

/-! Buffered signals. An anonymous send takes the next numbers of its workflow's sequence and
writes its signals under keys that carry them; a send with an id of its own, and a start that
carries a signal, write theirs together with a marker of the id. A wait finds the first key of its
workflow and name, and the checkpoint that records the answer deletes it. -/

namespace Weft.Signals
open Weft.Js Weft.Storage Weft.Lib

universe v

/-- `decodeSequence` is `none` for bytes that are no non-negative integer. -/
structure SignalCodec (V : Type v) where
  encodeSequence : Nat → V
  decodeSequence : V → Option Nat
  acceptedResponse : V
  emptyBytes : V
  decodeSequence_encode : ∀ n, decodeSequence (encodeSequence n) = some n
  /-- What `Number` makes of a text that is not made of digits alone, where that is a
  non-negative safe integer. -/
  numberLiteral : JsString → Option Nat

variable {V : Type v}

/-! ## Keys -/

def generatedSignalId (sequenceValue : Nat) (uuid : JsString) : JsString :=
  js "anonymous:" ++ paddedNat 16 sequenceValue ++ js ":" ++ uuid

theorem encode_generatedSignalId (n : Nat) (uuid : Component) :
    encodeURIComponent (generatedSignalId n uuid.text) =
      some (js "anonymous%3A" ++ paddedNat 16 n ++ js "%3A" ++ uuid.enc) := by
  have hplain (s : JsString) (h : (s.all fun u => u.val < 0xD800) = true) :
      ∀ u ∈ s, u.val < 0xD800 := by simpa using h
  have hanonymous : ((js "anonymous:").flatMap fun u => encodeCodePoint u.val) =
      js "anonymous%3A" := by decide
  have hcolon : ((js ":").flatMap fun u => encodeCodePoint u.val) = js "%3A" := by decide
  simp only [generatedSignalId, List.append_assoc]
  rw [encodeURIComponent_plain_append (hplain (js "anonymous:") (by decide)),
    encodeURIComponent_append (paddedNat_unescaped n),
    encodeURIComponent_plain_append (hplain (js ":") (by decide)), uuid.encode_text, hanonymous,
      hcolon]
  rfl

theorem isSome_encode_generated (n : Nat) (uuid : Component) :
    (encodeURIComponent (generatedSignalId n uuid.text)).isSome := by
  rw [encode_generatedSignalId]
  rfl

def generatedComponent (n : Nat) (uuid : Component) : Component :=
  ⟨generatedSignalId n uuid.text, isSome_encode_generated n uuid⟩

/-- What stands before the first `%3A`. -/
def beforeEscapedColon : JsString → Option JsString
  | [] => none
  | u :: rest =>
    if (js "%3A").isPrefixOf (u :: rest) then some []
    else (beforeEscapedColon rest).map (u :: ·)

def extractAnonymousSignalSequence (numberLiteral : JsString → Option Nat) (key : JsString) :
    Option Nat :=
  let idComponent := afterLastColon key
  let marker := js "anonymous%3A"
  if marker.isPrefixOf idComponent then
    (beforeEscapedColon (idComponent.drop marker.length)).bind (safeNumber numberLiteral)
  else none

/-- One more than the largest number in use, `none` where that is no safe integer. -/
def scanNextAnonymousSignalSequence (codec : SignalCodec V) (store : Store V)
    (workflowId : Component) : Option Nat :=
  let next := (scan store (js "sig:" ++ workflowId.enc ++ [colon]) {}).foldl
    (fun next row =>
      match extractAnonymousSignalSequence codec.numberLiteral row.1 with
      | some sequence => if next ≤ sequence then sequence + 1 else next
      | none => next) 0
  if next ≤ maxSafeInteger then some next else none

def isExactSignalKey (key encodedWorkflowId signalNameKeyComponent : JsString) : Bool :=
  match key.splitOn colon with
  | [family, workflowId, name, sortClass, id] =>
    family = js "sig" && workflowId = encodedWorkflowId && name = signalNameKeyComponent &&
      (sortClass = js "0" || sortClass = js "1") && id ≠ []
  | _ => false

def findBufferedSignalRecord (store : Store V) (workflowId signalName : Component) :
    Option (JsString × V) :=
  let signalKeyPrefixed := js "sig:" ++ workflowId.enc ++ [colon] ++ signalName.enc ++ [colon]
  (scan store signalKeyPrefixed { limit := some 1 }).find? fun row =>
    isExactSignalKey row.1 workflowId.enc signalName.enc

/-! ## Sends -/

/-- A signal that was written to the buffer. `sequence` is the number of an anonymous one. -/
structure Sent (V : Type v) where
  workflowId : Component
  name : Component
  id : Component
  startsRun : Bool
  sequence : Option Nat
  payload : V
deriving DecidableEq

def Sent.key (x : Sent V) : JsString :=
  if x.startsRun then KEYS.startSignal x.workflowId x.name x.id
  else KEYS.signal x.workflowId x.name x.id

structure BufferedSignalDelivery (V : Type v) where
  signalName : Component
  payload : V
  /-- What `crypto.randomUUID` will answer. -/
  uuid : Component
deriving DecidableEq

inductive Request (V : Type v) where
  | anonymous (deliveries : List (BufferedSignalDelivery V))
  | explicit (signalName signalId : Component) (payload : V)
  | start (signalName signalId : Component) (payload : V)
deriving DecidableEq

inductive Phase (V : Type v) where
  | locking
  | reading
  | scanning
  | committing (currentSequence : Option V) (nextSequence : Nat)
  | checking
  | marking
  | ended
deriving DecidableEq

/-- `process` tells the storage objects apart, each of which has its own locks; `cleanupTracked`
says that the workflow is known to need its terminal cleanup. -/
structure Send (V : Type v) where
  process : Nat
  workflowId : Component
  request : Request V
  cleanupTracked : Bool
  attempt : Nat := 0
  phase : Phase V
deriving DecidableEq

def MAX_SIGNAL_ID_BYTES : Nat := 128

def validSignalId (signalId : Component) : Bool :=
  signalId.text ≠ [] &&
    (((codePoints signalId.text).getD []).flatMap utf8).length ≤ MAX_SIGNAL_ID_BYTES

/-- `MAX_SIGNAL_SEQUENCE_COMMIT_ATTEMPTS` -/
def maxSequenceAttempts : Nat := 5

/-- The signals of an anonymous send that starts at `next`. -/
def anonymousSignals (workflowId : Component) (next : Nat) :
    List (BufferedSignalDelivery V) → List (Sent V)
  | [] => []
  | delivery :: rest =>
    ⟨workflowId, delivery.signalName, generatedComponent next delivery.uuid, false, some next,
      delivery.payload⟩ :: anonymousSignals workflowId (next + 1) rest

/-- The signals that the commit of a send writes. -/
def Send.signals (c : Send V) : List (Sent V) :=
  match c.request, c.phase with
  | .anonymous deliveries, .committing _ next => anonymousSignals c.workflowId next deliveries
  | .explicit name signalId payload, _ => [⟨c.workflowId, name, signalId, false, none, payload⟩]
  | .start name signalId payload, _ => [⟨c.workflowId, name, signalId, true, none, payload⟩]
  | .anonymous _, _ => []

def Sent.put (x : Sent V) : BatchOperation V := .put x.key x.payload

def cleanupOperations (codec : SignalCodec V) (c : Send V) : List (BatchOperation V) :=
  if c.cleanupTracked then []
  else [.put (KEYS.terminalCleanupNeeded c.workflowId) codec.emptyBytes]

/-- The part of its batch that a send is about. -/
def Send.operations (codec : SignalCodec V) (c : Send V) : List (BatchOperation V) :=
  match c.request, c.phase with
  | .anonymous deliveries, .committing _ next =>
    c.signals.map Sent.put ++
      [.put (KEYS.signalSequence c.workflowId) (codec.encodeSequence (next + deliveries.length))] ++
      cleanupOperations codec c
  | .anonymous _, _ => []
  | .explicit name signalId _, _ =>
    c.signals.map Sent.put ++ cleanupOperations codec c ++
      [.put (KEYS.signalAcceptedResponse c.workflowId name signalId) codec.acceptedResponse]
  | .start name signalId _, _ =>
    c.signals.map Sent.put ++
      [.put (KEYS.signalAcceptedResponse c.workflowId name signalId) codec.acceptedResponse]

def Send.conditions (c : Send V) : List (ConditionalBatchCondition V) :=
  match c.request, c.phase with
  | .anonymous _, .committing currentSequence _ =>
    [⟨KEYS.signalSequence c.workflowId, currentSequence⟩]
  | .anonymous _, _ => []
  | .explicit name signalId _, _ =>
    [⟨KEYS.signalAcceptedResponse c.workflowId name signalId, none⟩]
  | .start name signalId _, _ =>
    [⟨KEYS.signalAcceptedResponse c.workflowId name signalId, none⟩]

/-! ## The system -/

/-- What a wait found, until the checkpoint that records it is written. `origin` is the signal
that was written to the key last. -/
structure Staged (V : Type v) where
  workflowId : Component
  name : Component
  key : JsString
  value : V
  origin : Option (Sent V)
deriving DecidableEq

/-- `sent` and `consumed` record the signals written and the waits answered, oldest first, and
`buffer` the signals that are in the store. -/
structure State (V : Type v) where
  store : Store V
  sends : List (Send V) := []
  staged : List (Staged V) := []
  sent : List (Sent V) := []
  buffer : List (Sent V) := []
  consumed : List (Staged V) := []

def State.setSend (s : State V) (i : Nat) (c : Send V) : State V :=
  { s with sends := s.sends.set i c }

inductive Label (V : Type v) where
  | send (process : Nat) (workflowId : Component) (request : Request V) (cleanupTracked : Bool)
  | advance (send : Nat)
  | fail (send : Nat)
  | wait (workflowId signalName : Component)
  | persist (workflowId : Component)
  | drop (workflowId : Component)
deriving DecidableEq

/-- A storage with or without conditional batches. -/
structure Storage (V : Type v) where
  codec : SignalCodec V
  conditional : Bool

section

variable (storage : Storage V)

/-- `none` where the call returns or throws before its first storage step. -/
def Request.firstPhase : Request V → Option (Phase V)
  | .anonymous deliveries =>
    if deliveries = [] then none else some (if storage.conditional then .reading else .locking)
  | .explicit _ signalId _ =>
    if storage.conditional && validSignalId signalId then some .checking else none
  | .start _ signalId _ =>
    if storage.conditional && validSignalId signalId then some .marking else none

/-- The lock of `runWithAnonymousSignalSequenceLock` is held. -/
def Send.inLock (c : Send V) : Bool :=
  match c.phase with
  | .reading | .scanning | .committing .. => true
  | _ => false

def writeBatch [DecidableEq V] (store : Store V) (conditions : List (ConditionalBatchCondition V))
    (operations : List (BatchOperation V)) : Option (Bool × Store V) :=
  if storage.conditional then conditionalBatch store conditions operations
  else (batch store operations).map fun after => (true, after)

def State.commitSend [DecidableEq V] (s : State V) (i : Nat) (c : Send V) : State V :=
  match writeBatch storage s.store c.conditions (c.operations storage.codec) with
  | none => s.setSend i { c with phase := .ended }
  | some (true, after) =>
    { (s.setSend i { c with phase := .ended }) with
      store := after
      sent := s.sent ++ c.signals
      buffer := s.buffer.filter (fun x => x.key ∉ c.signals.map Sent.key) ++ c.signals }
  | some (false, _) =>
    match c.phase with
    | .committing .. =>
      if c.attempt + 1 < maxSequenceAttempts then
        s.setSend i { c with attempt := c.attempt + 1, phase := .reading }
      else s.setSend i { c with phase := .ended }
    | _ => s.setSend i { c with phase := .ended }

def State.advance [DecidableEq V] (s : State V) (i : Nat) (c : Send V) : Option (State V) :=
  match c.phase with
  | .locking =>
    if s.sends.any fun d => d.process = c.process && d.workflowId = c.workflowId && d.inLock then
      none
    else some (s.setSend i { c with phase := .reading })
  | .reading =>
    match s.store.get (KEYS.signalSequence c.workflowId) with
    | none => some (s.setSend i { c with phase := .scanning })
    | some raw =>
      match storage.codec.decodeSequence raw with
      | none => some (s.setSend i { c with phase := .ended })
      | some next =>
        if next ≤ maxSafeInteger then
          some (s.setSend i { c with phase := .committing (some raw) next })
        else some (s.setSend i { c with phase := .ended })
  | .scanning =>
    match scanNextAnonymousSignalSequence storage.codec s.store c.workflowId with
    | none => some (s.setSend i { c with phase := .ended })
    | some next => some (s.setSend i { c with phase := .committing none next })
  | .checking =>
    match c.request with
    | .explicit name signalId _ =>
      if (s.store.get (KEYS.signalAcceptedResponse c.workflowId name signalId)).isSome then
        some (s.setSend i { c with phase := .ended })
      else some (s.setSend i { c with phase := .marking })
    | _ => none
  | .committing .. | .marking => some (s.commitSend storage i c)
  | .ended => none

/-- The conditions and deletes that the waits of a workflow have staged. -/
def stagedConditions (entries : List (Staged V)) : List (ConditionalBatchCondition V) :=
  entries.map fun entry => ⟨entry.key, some entry.value⟩

def stagedOperations (entries : List (Staged V)) : List (BatchOperation V) :=
  entries.map fun entry => .delete entry.key

/-- A commit that is refused or fails forgets what was staged for it. -/
def State.persist [DecidableEq V] (s : State V) (workflowId : Component) : State V :=
  let entries := s.staged.filter fun entry => entry.workflowId = workflowId
  let others := s.staged.filter fun entry => entry.workflowId ≠ workflowId
  match writeBatch storage s.store (stagedConditions entries) (stagedOperations entries) with
  | some (true, after) =>
    { s with
      store := after
      staged := others
      buffer := s.buffer.filter fun x => x.key ∉ entries.map Staged.key
      consumed := s.consumed ++ entries }
  | _ => { s with staged := others }

/-- A wait does not look at what earlier waits have staged: a body of `ctx.speculate` waits again
without a checkpoint between. -/
def step [DecidableEq V] (s : State V) : Label V → Option (State V)
  | .send process workflowId request cleanupTracked =>
    (request.firstPhase storage).map fun phase =>
      { s with sends := s.sends ++
        [{ process := process, workflowId := workflowId, request := request,
           cleanupTracked := cleanupTracked, phase := phase }] }
  | .advance i => s.sends[i]?.bind (s.advance storage i)
  | .fail i => s.sends[i]?.map fun c => s.setSend i { c with phase := .ended }
  | .wait workflowId signalName =>
    match findBufferedSignalRecord s.store workflowId signalName with
    | none => some s
    | some (key, value) =>
      some { s with staged := s.staged ++
        [⟨workflowId, signalName, key, value, s.buffer.find? fun x => x.key = key⟩] }
  | .persist workflowId => some (s.persist storage workflowId)
  | .drop workflowId =>
    some { s with staged := s.staged.filter fun entry => entry.workflowId ≠ workflowId }

def signalMachine [DecidableEq V] : Machine (State V) (Label V) := ⟨step storage⟩

end

/-- A wait starts only while nothing that an earlier wait of the workflow found under its name is
still to be committed. -/
def InTurn (s : State V) : Label V → Prop
  | .wait workflowId signalName =>
    ∀ entry ∈ s.staged, ¬ (entry.workflowId = workflowId ∧ entry.name = signalName)
  | _ => True

instance (s : State V) : (a : Label V) → Decidable (InTurn s a)
  | .wait .. => inferInstanceAs (Decidable (∀ _ ∈ _, _))
  | .send .. | .advance .. | .fail .. | .persist .. | .drop .. => isTrue trivial

end Weft.Signals
