import Weft.Storage.Keys

/-! The event log of a workflow. Entries are chained by the hash of their bytes, a head record
names the last of them, and compaction deletes the oldest entries and leaves a watermark
that names the first survivor and the hash it is chained to. -/

namespace Weft.EventLog
open Weft.Js Weft.Storage

universe u

/-! ## Records -/

def GENESIS_HASH : JsString := js "0000000000000000"

structure WorkflowLogEntry (P T : Type u) where
  type : JsString
  workflowId : JsString
  sequence : Int
  prevHash : JsString
  payload : P
  timestamp : JsNumber
  versionTuple : Option T := none
deriving DecidableEq

structure EventHeadRecord where
  sequence : Int
  lastHash : JsString
deriving DecidableEq

def EMPTY_EVENT_HEAD : EventHeadRecord := ⟨-1, GENESIS_HASH⟩

structure EventLogWatermark (R : Type u) where
  sequence : Int
  prevHash : JsString
  deletedThrough : Int
  checkpointReplay : Option R := none
deriving DecidableEq

/-- How records are stored. The decoders return `none` for values of another shape, and
`hashBytes` is never empty. -/
structure LogCodec (V P T R : Type u) where
  encodeEntry : WorkflowLogEntry P T → V
  decodeEntry : V → Option (WorkflowLogEntry P T)
  encodeHead : EventHeadRecord → V
  decodeHead : V → Option EventHeadRecord
  encodeWatermark : EventLogWatermark R → V
  decodeWatermark : V → Option (EventLogWatermark R)
  hashBytes : V → JsString
  readCheckpointReplayPayload : P → Option R
  mergeCheckpointReplayPayloads : Option R → Option R → Option R
  decodeEntry_encode : ∀ entry, decodeEntry (encodeEntry entry) = some entry
  decodeHead_encode : ∀ head, decodeHead (encodeHead head) = some head
  decodeWatermark_encode : ∀ mark, decodeWatermark (encodeWatermark mark) = some mark
  decodeEntry_head : ∀ head, decodeEntry (encodeHead head) = none
  decodeEntry_watermark : ∀ mark, decodeEntry (encodeWatermark mark) = none
  hashBytes_ne_nil : ∀ v, hashBytes v ≠ []

variable {V P T R : Type u} (codec : LogCodec V P T R)

def MAX_SAFE_INTEGER : Int := 2 ^ 53 - 1

def isEventLogWatermark (mark : EventLogWatermark R) : Bool :=
  mark.prevHash ≠ [] && mark.sequence ≤ MAX_SAFE_INTEGER && 0 < mark.sequence &&
    mark.deletedThrough = mark.sequence - 1

def readEventHead (s : Store V) (workflowId : Component) : EventHeadRecord :=
  ((s.get (KEYS.eventHead workflowId)).bind codec.decodeHead).getD EMPTY_EVENT_HEAD

def readEventLogWatermark (s : Store V) (workflowId : Component) :
    Option (EventLogWatermark R) :=
  ((s.get (KEYS.eventWatermark workflowId)).bind codec.decodeWatermark).filter isEventLogWatermark

/-! ## Appending -/

structure LogEvent (P T : Type u) where
  type : JsString
  payload : P
  /-- `Date.now()` at the time of the append. -/
  timestamp : JsNumber
  versionTuple : Option T := none
deriving DecidableEq

def buildEntry (workflowId : Component) (event : LogEvent P T) (head : EventHeadRecord) :
    WorkflowLogEntry P T where
  type := event.type
  workflowId := workflowId.text
  sequence := head.sequence + 1
  prevHash := head.lastHash
  payload := event.payload
  timestamp := event.timestamp
  versionTuple := event.versionTuple

def newHead (workflowId : Component) (event : LogEvent P T) (head : EventHeadRecord) :
    EventHeadRecord where
  sequence := head.sequence + 1
  lastHash := codec.hashBytes (codec.encodeEntry (buildEntry workflowId event head))

def appendToBatch (workflowId : Component) (event : LogEvent P T) (head : EventHeadRecord) :
    List (BatchOperation V) :=
  [.put (KEYS.event workflowId (head.sequence + 1))
      (codec.encodeEntry (buildEntry workflowId event head)),
    .put (KEYS.eventHead workflowId) (codec.encodeHead (newHead codec workflowId event head))]

/-! ## Compaction -/

def MAX_COMPACTION_BATCH : Int := 1000

/-- The sequence after the last of the records, if these are entries without a gap. -/
def contiguousFrom (expected : Int) : List V → Option Int
  | [] => some expected
  | bytes :: rest =>
    match codec.decodeEntry bytes with
    | some entry => if entry.sequence = expected then contiguousFrom (expected + 1) rest else none
    | none => none

structure CollectedDeleteRange (V : Type u) where
  deletedEntries : List V
  lastDeletedBytes : V

def collectDeleteRange (s : Store V) (workflowId : Component)
    (currentFloor batchFirstSurviving : Int) : Option (CollectedDeleteRange V) :=
  let deletedEntries := (scan s (KEYS.eventPrefix workflowId)
    { gte := some (KEYS.event workflowId currentFloor)
      lt := some (KEYS.event workflowId batchFirstSurviving) }).map (·.2)
  if contiguousFrom codec currentFloor deletedEntries = some batchFirstSurviving then
    deletedEntries.getLast?.map fun lastDeletedBytes => ⟨deletedEntries, lastDeletedBytes⟩
  else none

def mergeDeletedCheckpointReplayPayloads (existing : Option R) (deletedEntries : List V) :
    Option R :=
  deletedEntries.foldl (fun merged bytes =>
    match codec.decodeEntry bytes with
    | none => merged
    | some entry => codec.mergeCheckpointReplayPayloads merged
        (codec.readCheckpointReplayPayload entry.payload)) existing

/-- The integers from `a` up to `b`, without `b`. -/
def integersFrom (a b : Int) : List Int := (List.range (b - a).toNat).map fun i : Nat => a + i

/-- The operations of one compaction; none of them where the source returns `null`. -/
def appendCompactionOperations (s : Store V) (workflowId : Component) (headSequence : Int)
    (retentionWindow : Option Int) : List (BatchOperation V) :=
  match retentionWindow with
  | none => []
  | some window =>
    let targetFirstSurviving := max 0 (headSequence - window + 1)
    let existing := readEventLogWatermark codec s workflowId
    let currentFloor := (existing.map (·.sequence)).getD 0
    let batchFirstSurviving := min targetFirstSurviving (currentFloor + MAX_COMPACTION_BATCH)
    if batchFirstSurviving ≤ currentFloor then []
    else match collectDeleteRange codec s workflowId currentFloor batchFirstSurviving with
      | none => []
      | some collected =>
        let watermark : EventLogWatermark R :=
          { sequence := batchFirstSurviving
            prevHash := codec.hashBytes collected.lastDeletedBytes
            deletedThrough := batchFirstSurviving - 1
            checkpointReplay := mergeDeletedCheckpointReplayPayloads codec
              (existing.bind (·.checkpointReplay)) collected.deletedEntries }
        (integersFrom currentFloor batchFirstSurviving).map
            (fun sequence => .delete (KEYS.event workflowId sequence)) ++
          [.put (KEYS.eventWatermark workflowId) (codec.encodeWatermark watermark)]

/-! ## Commits -/

/-- A window of `0` is disabled, as one that is not given. -/
def normalizePositiveCountOrDisabled (value : Option Nat) : Option Int :=
  (value.filter (· ≠ 0)).map (↑)

/-- One checkpoint of one workflow. -/
structure LogCommit (P T : Type u) where
  workflowId : Component
  event : LogEvent P T
  retentionWindow : Option Nat

/-- The event-log part of `commitCheckpoint`, in one batch. Sequences are safe integers: a
commit that would leave them is not taken. -/
def commitCheckpoint (s : Store V) (commit : LogCommit P T) : Option (Store V) :=
  let head := readEventHead codec s commit.workflowId
  if head.sequence + 1 ≤ MAX_SAFE_INTEGER then
    batch s (appendToBatch codec commit.workflowId commit.event head ++
      appendCompactionOperations codec s commit.workflowId (head.sequence + 1)
        (normalizePositiveCountOrDisabled commit.retentionWindow))
  else none

end Weft.EventLog

/-! A codec that keeps records as they are, with their text for a hash: an injective one, and
never the hash that a log begins with. -/

namespace Weft.EventLog
open Weft.Js Weft.Storage

inductive LogValue where
  | entry (x : WorkflowLogEntry JsString JsString)
  | head (x : EventHeadRecord)
  | watermark (x : EventLogWatermark JsString)
deriving DecidableEq

/-! ## Texts -/

/-- A field whose end can be told: `0` ends it, and a unit of it follows a `1`. -/
def field (s : JsString) : JsString := s.flatMap (fun u => [1, u]) ++ [0]

theorem field_append_inj {a b x y : JsString} (h : field a ++ x = field b ++ y) :
    a = b ∧ x = y := by
  induction a generalizing b with
  | nil =>
    cases b with
    | nil => exact ⟨rfl, (List.cons.inj h).2⟩
    | cons v b => exact absurd (List.cons.inj h).1 (by decide)
  | cons u a ih =>
    cases b with
    | nil => exact absurd (List.cons.inj h).1 (by decide)
    | cons v b =>
      have h' : 1 :: u :: (field a ++ x) = 1 :: v :: (field b ++ y) := h
      obtain ⟨rfl, htail⟩ := List.cons.inj (List.cons.inj h').2
      obtain ⟨rfl, hxy⟩ := ih htail
      exact ⟨rfl, hxy⟩

def integerField (n : Int) : JsString := field ((if n < 0 then 1 else 0) :: decimalUnits n.natAbs)

theorem decimalUnits_inj {n m : Nat} (h : decimalUnits n = decimalUnits m) : n = m := by
  have hpad : ∀ k, paddedNat 0 k = decimalUnits k := fun k => by simp [paddedNat, padStart]
  exact paddedNat_inj ((hpad n).trans (h.trans (hpad m).symm))

theorem integerField_append_inj {n m : Int} {x y : JsString}
    (h : integerField n ++ x = integerField m ++ y) : n = m ∧ x = y := by
  obtain ⟨htext, hxy⟩ := field_append_inj h
  obtain ⟨hsign, hdigits⟩ := List.cons.inj htext
  have habs := decimalUnits_inj hdigits
  refine ⟨?_, hxy⟩
  split_ifs at hsign with hn hm hm
  · omega
  · exact absurd hsign (by decide)
  · exact absurd hsign (by decide)
  · omega

def optionField : Option JsString → JsString
  | none => [0]
  | some s => 1 :: field s

theorem optionField_inj {a b : Option JsString} (h : optionField a = optionField b) : a = b := by
  cases a with
  | none =>
    cases b with
    | none => rfl
    | some t => exact absurd (List.cons.inj h).1 (by decide)
  | some s =>
    cases b with
    | none => exact absurd (List.cons.inj h).1 (by decide)
    | some t =>
      have hfield : field s ++ [] = field t ++ [] := by
        rw [List.append_nil, List.append_nil]
        exact (List.cons.inj h).2
      rw [(field_append_inj hfield).1]

def LogValue.text : LogValue → JsString
  | .entry x => 2 :: (field x.type ++ (field x.workflowId ++ (integerField x.sequence ++
      (field x.prevHash ++ (field x.payload ++ (integerField x.timestamp.mantissa ++
        (integerField x.timestamp.exponent ++ optionField x.versionTuple)))))))
  | .head x => 3 :: (integerField x.sequence ++ field x.lastHash)
  | .watermark x => 4 :: (integerField x.sequence ++ (field x.prevHash ++
      (integerField x.deletedThrough ++ optionField x.checkpointReplay)))

theorem LogValue.text_injective : Function.Injective LogValue.text := by
  intro a b h
  cases a with
  | entry x =>
    cases b with
    | entry y =>
      obtain ⟨-, h⟩ := List.cons.inj h
      obtain ⟨h1, h⟩ := field_append_inj h
      obtain ⟨h2, h⟩ := field_append_inj h
      obtain ⟨h3, h⟩ := integerField_append_inj h
      obtain ⟨h4, h⟩ := field_append_inj h
      obtain ⟨h5, h⟩ := field_append_inj h
      obtain ⟨h6, h⟩ := integerField_append_inj h
      obtain ⟨h7, h⟩ := integerField_append_inj h
      have h8 := optionField_inj h
      obtain ⟨_, _, _, _, _, ⟨_, _, _⟩, _⟩ := x
      obtain ⟨_, _, _, _, _, ⟨_, _, _⟩, _⟩ := y
      simp_all
    | head y | watermark y => exact absurd (List.cons.inj h).1 (by decide)
  | head x =>
    cases b with
    | head y =>
      obtain ⟨-, h⟩ := List.cons.inj h
      obtain ⟨h1, h⟩ := integerField_append_inj h
      have h2 : field x.lastHash ++ [] = field y.lastHash ++ [] := by rw [h]
      have h3 := (field_append_inj h2).1
      obtain ⟨_, _⟩ := x
      obtain ⟨_, _⟩ := y
      simp_all
    | entry y | watermark y => exact absurd (List.cons.inj h).1 (by decide)
  | watermark x =>
    cases b with
    | watermark y =>
      obtain ⟨-, h⟩ := List.cons.inj h
      obtain ⟨h1, h⟩ := integerField_append_inj h
      obtain ⟨h2, h⟩ := field_append_inj h
      obtain ⟨h3, h⟩ := integerField_append_inj h
      have h4 := optionField_inj h
      obtain ⟨_, _, _, _⟩ := x
      obtain ⟨_, _, _, _⟩ := y
      simp_all
    | entry y | head y => exact absurd (List.cons.inj h).1 (by decide)

/-! ## The codec -/

/-- Checkpoint events carry no replay payload here. -/
def plainLogCodec (hash : LogValue → JsString) (hne : ∀ v, hash v ≠ []) :
    LogCodec LogValue JsString JsString JsString where
  encodeEntry := .entry
  decodeEntry
    | .entry x => some x
    | _ => none
  encodeHead := .head
  decodeHead
    | .head x => some x
    | _ => none
  encodeWatermark := .watermark
  decodeWatermark
    | .watermark x => some x
    | _ => none
  hashBytes := hash
  readCheckpointReplayPayload _ := none
  mergeCheckpointReplayPayloads existing next := existing.or next
  decodeEntry_encode _ := rfl
  decodeHead_encode _ := rfl
  decodeWatermark_encode _ := rfl
  decodeEntry_head _ := rfl
  decodeEntry_watermark _ := rfl
  hashBytes_ne_nil := hne

theorem LogValue.text_ne_nil (v : LogValue) : v.text ≠ [] := by
  cases v <;> exact List.cons_ne_nil _ _

theorem LogValue.text_ne_genesis (v : LogValue) : v.text ≠ GENESIS_HASH := by
  have hgenesis : GENESIS_HASH = 48 :: GENESIS_HASH.tail := by decide
  rw [hgenesis]
  cases v <;> exact fun h => absurd (List.cons.inj h).1 (by decide)

def textLogCodec : LogCodec LogValue JsString JsString JsString :=
  plainLogCodec LogValue.text LogValue.text_ne_nil

end Weft.EventLog
