import Weft.Storage.Interface
import Weft.Js.Number

/-! The key registry. Identifiers are percent-encoded, so that a key splits at its colons,
and keys of different families never meet. -/

namespace Weft.Storage
open Weft.Js

/-! ## Key components -/

/-- A string that `encodeStorageKeyComponent` accepts. -/
def Component : Type := { s : JsString // (encodeURIComponent s).isSome }
deriving DecidableEq

theorem isSome_encode_run : (encodeURIComponent (js "run-1")).isSome := by decide +kernel

theorem isSome_encode_next_run : (encodeURIComponent (js "run-2")).isSome := by decide +kernel

theorem isSome_encode_empty : (encodeURIComponent []).isSome := rfl

theorem isSome_encode_order : (encodeURIComponent (js "order")).isSome := by decide +kernel

namespace Component

def text (c : Component) : JsString := c.1

def enc (c : Component) : JsString := (encodeURIComponent c.1).get c.2

/-- The empty string. -/
def empty : Component := ⟨[], isSome_encode_empty⟩

/-- `none` where `encodeStorageKeyComponent` would throw. -/
def of? (s : JsString) : Option Component :=
  if h : (encodeURIComponent s).isSome then some ⟨s, h⟩ else none

theorem encode_text (c : Component) : encodeURIComponent c.text = some c.enc :=
  (Option.some_get c.2).symm

theorem decode_enc (c : Component) : decodeURIComponent c.enc = some c.text :=
  decodeURIComponent_encode c.encode_text

theorem enc_injective {c d : Component} (h : c.enc = d.enc) : c = d := by
  have hc := c.encode_text
  rw [h] at hc
  exact Subtype.ext (encodeURIComponent_injective hc d.encode_text)

theorem of?_text (c : Component) : of? c.text = some c := by
  have h : (encodeURIComponent c.text).isSome := c.2
  simp only [of?, h, dif_pos]
  rfl

theorem of?_eq_some {s : JsString} {c : Component} (h : of? s = some c) : c.text = s := by
  unfold of? at h
  split_ifs at h with hs
  obtain rfl := Option.some.inj h
  rfl

theorem enc_units (c : Component) {u : CodeUnit} (hu : u ∈ c.enc) : u.val < 128 ∧ u.val ≠ 58 :=
  encodeURIComponent_units c.encode_text hu

end Component

def colon : CodeUnit := 58

theorem Component.colon_notMem (c : Component) : colon ∉ c.enc := by
  intro h
  exact (c.enc_units h).2 rfl

theorem paddedNat_unescaped (n : Nat) : ∀ u ∈ paddedNat 16 n, isUnescaped u.val = true := by
  intro u hu
  obtain ⟨d, hd, rfl⟩ := mem_paddedNat hu
  have hall : ∀ m : Fin 10, isUnescaped (digitUnit m.val).val = true := by decide
  exact hall ⟨d, hd⟩

theorem isSome_encode_padded (n : Nat) : (encodeURIComponent (paddedNat 16 n)).isSome := by
  have h := encodeURIComponent_append (paddedNat_unescaped n) []
  rw [List.append_nil] at h
  rw [h]
  rfl

/-- A number as an identifier. -/
def Component.numbered (n : Nat) : Component := ⟨paddedNat 16 n, isSome_encode_padded n⟩

/-- `key.slice(key.lastIndexOf(':') + 1)`. -/
def afterLastColon (key : JsString) : JsString :=
  (key.reverse.takeWhile fun u => u ≠ colon).reverse

theorem afterLastColon_append {e : JsString} (h : colon ∉ e) (a : JsString) :
    afterLastColon (a ++ colon :: e) = e := by
  have hall : ∀ u ∈ e.reverse, (decide (u ≠ colon)) = true := by
    intro u hu
    simp only [ne_eq, decide_eq_true_eq]
    rintro rfl
    exact h (List.mem_reverse.1 hu)
  unfold afterLastColon
  rw [List.reverse_append, List.reverse_cons, List.append_assoc,
    List.takeWhile_append_of_pos hall]
  simp

def tryDecodeStorageKeyComponent (s : JsString) : Option JsString := decodeURIComponent s

def formatSortableTimestamp (timestamp : JsNumber) : JsString :=
  padStart timestamp.toJsString 16 (digitUnit 0)

/-! ## The registry -/

namespace KEYS

def workflow (id : Component) : JsString := js "wf:" ++ id.enc

def checkpoint (id : Component) : JsString := js "wf:" ++ id.enc ++ js ":ckpt"

def checkpointHistory (id : Component) (step : Int) : JsString :=
  js "wf:" ++ id.enc ++ js ":ckpt:" ++ padStart (integerUnits step) 10 (digitUnit 0)

def workflowVisibilityStatus (status : Component) (id : Component) : JsString :=
  js "wf-idx-status:" ++ status.enc ++ colon :: id.enc

def workflowVisibilityType (type : Component) (id : Component) : JsString :=
  js "wf-idx-type:" ++ type.enc ++ colon :: id.enc

def workflowVisibilityCreated (createdAt : JsNumber) (id : Component) : JsString :=
  js "wf-idx-created:" ++ formatSortableTimestamp createdAt ++ colon :: id.enc

def workflowVisibilityUpdated (updatedAt : JsNumber) (id : Component) : JsString :=
  js "wf-idx-updated:" ++ formatSortableTimestamp updatedAt ++ colon :: id.enc

def workflowVisibilityDeadline (deadline : JsNumber) (id : Component) : JsString :=
  js "wf-idx-deadline:" ++ formatSortableTimestamp deadline ++ colon :: id.enc

def workflowVisibilityManifest (id : Component) : JsString := js "wf-idx-manifest:" ++ id.enc

def attributes (workflowId : Component) : JsString := js "attr:" ++ workflowId.enc

def attributeIndex (attributeName encodedValue : JsString) (workflowId : Component) : JsString :=
  js "idx:" ++ attributeName ++ colon :: encodedValue ++ colon :: workflowId.enc

def tagIndex (tag workflowId : Component) : JsString :=
  js "tag:" ++ tag.enc ++ colon :: workflowId.enc

def childWorkflowByParent (parentWorkflowId : Component)
    (parentWorkflowExecutionToken : Option Component) (childWorkflowId : Component) : JsString :=
  js "child-by-parent:" ++ parentWorkflowId.enc ++ colon ::
    ((parentWorkflowExecutionToken.map fun token => token.enc ++ [colon]).getD [] ++
      childWorkflowId.enc)

def eventPrefix (workflowId : Component) : JsString := js "ev:" ++ workflowId.enc ++ [colon]

def event (workflowId : Component) (sequence : Int) : JsString :=
  eventPrefix workflowId ++ padStart (integerUnits sequence) 10 (digitUnit 0)

def eventHead (workflowId : Component) : JsString := eventPrefix workflowId ++ js "head"

def eventWatermark (workflowId : Component) : JsString :=
  eventPrefix workflowId ++ js "watermark"

/-- The key of a buffered signal; a signal that starts its run has class `0`, any other `1`. -/
def signalStorageKey (workflowId name id : Component) (sortClass : JsString) : JsString :=
  js "sig:" ++ workflowId.enc ++ [colon] ++ name.enc ++ [colon] ++ sortClass ++ [colon] ++ id.enc

def signal (workflowId name id : Component) : JsString :=
  signalStorageKey workflowId name id (js "1")

def startSignal (workflowId name id : Component) : JsString :=
  signalStorageKey workflowId name id (js "0")

def signalSequence (workflowId : Component) : JsString := js "sigseq:v1:" ++ workflowId.enc

def signalAcceptedResponse (workflowId name signalId : Component) : JsString :=
  js "sigres:v1:" ++ workflowId.enc ++ [colon] ++ name.enc ++ [colon] ++ signalId.enc

def terminalCleanupNeeded (workflowId : Component) : JsString :=
  js "wf-cleanup-needed:" ++ workflowId.enc

def workflowConcurrency (workflowType partitionKey : Component) : JsString :=
  js "wf-concurrency:" ++ workflowType.enc ++ [colon] ++ partitionKey.enc

def workflowConcurrencyHolder (workflowId : Component) : JsString :=
  js "wf-concurrency-holder:" ++ workflowId.enc

def deadline (fireAt : Nat) (timerId : Component) : JsString :=
  js "wf-deadline:" ++ paddedNat 16 fireAt ++ colon :: timerId.enc

def delayedStart (startAt : Nat) (workflowId : Component) : JsString :=
  js "wf-delayed:" ++ paddedNat 16 startAt ++ colon :: workflowId.enc

def scheduleTick (fireAt : Nat) (scheduleId : Component) : JsString :=
  js "schedule-due:" ++ paddedNat 16 fireAt ++ colon :: scheduleId.enc

def terminalCleanup (fireAt : Nat) (timerId : Component) : JsString :=
  js "wf-cleanup:" ++ paddedNat 16 fireAt ++ colon :: timerId.enc

def teardownTimer (fireAt : Nat) (timerId : Component) : JsString :=
  js "wf-teardown:" ++ paddedNat 16 fireAt ++ colon :: timerId.enc

def workflowVisibilityMetaVersion : JsString := js "wf-idx-meta:version"

def workflowVisibilityMetaBuiltAt : JsString := js "wf-idx-meta:built-at"

def workflowVisibilityMetaCursor : JsString := js "wf-idx-meta:cursor"

end KEYS

/-! ## Families of keys do not meet -/

/-- Neither literal begins the other. -/
def Apart (p q : JsString) : Prop := ¬ p <+: q ∧ ¬ q <+: p

instance (p q : JsString) : Decidable (Apart p q) := inferInstanceAs (Decidable (_ ∧ _))

theorem ne_of_apart {p q : JsString} (h : Apart p q) (x y : JsString) : p ++ x ≠ q ++ y := by
  intro heq
  have hp : p <+: q ++ y := heq ▸ List.prefix_append p x
  rcases List.prefix_or_prefix_of_prefix hp (List.prefix_append q y) with hpq | hqp
  · exact h.1 hpq
  · exact h.2 hqp

theorem not_prefix_of_apart {p q : JsString} (h : Apart p q) (x : JsString) : ¬ p <+: q ++ x := by
  rintro ⟨y, hy⟩
  exact ne_of_apart h y x hy

theorem KEYS.workflow_injective {i j : Component} (h : KEYS.workflow i = KEYS.workflow j) :
    i = j :=
  Component.enc_injective (List.append_cancel_left h)

theorem KEYS.workflowVisibilityManifest_injective {i j : Component}
    (h : KEYS.workflowVisibilityManifest i = KEYS.workflowVisibilityManifest j) : i = j :=
  Component.enc_injective (List.append_cancel_left h)

end Weft.Storage
