import Weft.Storage.Keys

/-! The workflow visibility index: presence-only rows derived from the workflow state, and
a manifest per workflow that lists them. A state write replaces the rows of the previous
state by those of the next one and rewrites the manifest. -/

namespace Weft.Visibility
open Weft.Js Weft.Storage Weft.Lib

universe u

inductive WorkflowStatus where
  | pending
  | running
  | completed
  | failed
  | cancelled
  | timedOut
  | suspended
deriving DecidableEq, Repr

def WorkflowStatus.component : WorkflowStatus → Component
  | .pending => ⟨js "pending", by decide +kernel⟩
  | .running => ⟨js "running", by decide +kernel⟩
  | .completed => ⟨js "completed", by decide +kernel⟩
  | .failed => ⟨js "failed", by decide +kernel⟩
  | .cancelled => ⟨js "cancelled", by decide +kernel⟩
  | .timedOut => ⟨js "timed-out", by decide +kernel⟩
  | .suspended => ⟨js "suspended", by decide +kernel⟩

structure WorkflowState where
  id : Component
  type : Component
  status : WorkflowStatus
  createdAt : JsNumber
  updatedAt : JsNumber
  executionDeadline : Option JsNumber := none
  parentWorkflowId : Option Component := none
  parentWorkflowExecutionToken : Option Component := none
  tags : Option (List Component) := none
  workflowVersion : JsString := js "1"
deriving DecidableEq

structure WorkflowVisibilityManifest where
  version : JsNumber
  keys : List JsString
deriving DecidableEq

def WORKFLOW_VISIBILITY_INDEX_VERSION : JsNumber := ⟨1, 0, canonical_one⟩

/-- How records are stored. A decoder answers `none` for bytes it does not accept. -/
structure Codec (V : Type u) where
  encodeState : WorkflowState → V
  decodeState : V → Option WorkflowState
  encodeManifest : WorkflowVisibilityManifest → V
  decodeManifest : V → Option WorkflowVisibilityManifest
  encodeCursor : JsString → V
  decodeCursor : V → Option JsString
  encodeNumber : JsNumber → V
  emptyIndexValue : V
  decodeState_encode : ∀ x, decodeState (encodeState x) = some x
  decodeManifest_encode : ∀ x, decodeManifest (encodeManifest x) = some x
  decodeCursor_encode : ∀ x, decodeCursor (encodeCursor x) = some x

def deriveWorkflowVisibilityIndexKeys (state : WorkflowState) : List JsString :=
  let keys := [
    KEYS.workflowVisibilityStatus state.status.component state.id,
    KEYS.workflowVisibilityType state.type state.id,
    KEYS.workflowVisibilityCreated state.createdAt state.id,
    KEYS.workflowVisibilityUpdated state.updatedAt state.id]
  let deadlineKeys := state.executionDeadline.toList.map fun deadline =>
    KEYS.workflowVisibilityDeadline deadline state.id
  (keys ++ deadlineKeys).insertionSort (· ≤ ·)

variable {V : Type u} (codec : Codec V)

def decodeWorkflowVisibilityManifest (bytes : Option V) : Option WorkflowVisibilityManifest :=
  bytes.bind codec.decodeManifest

def buildWorkflowVisibilityIndexOperationsInternal (workflowId : Component)
    (previousKeys : List JsString) (hadPriorManifest : Bool)
    (nextState : Option WorkflowState) : List (BatchOperation V) :=
  let manifestKey := KEYS.workflowVisibilityManifest workflowId
  match nextState with
  | none =>
    previousKeys.map .delete ++ (if hadPriorManifest then [.delete manifestKey] else [])
  | some state =>
    let nextKeys := deriveWorkflowVisibilityIndexKeys state
    (previousKeys.filter (· ∉ nextKeys)).map .delete ++
      (nextKeys.filter (· ∉ previousKeys)).map (fun key => .put key codec.emptyIndexValue) ++
      [.put manifestKey (codec.encodeManifest ⟨WORKFLOW_VISIBILITY_INDEX_VERSION, nextKeys⟩)]

def buildWorkflowVisibilityIndexOperations (workflowId : Component)
    (currentManifest : Option WorkflowVisibilityManifest) (nextState : Option WorkflowState) :
    List (BatchOperation V) :=
  buildWorkflowVisibilityIndexOperationsInternal codec workflowId
    ((currentManifest.map (·.keys)).getD []) currentManifest.isSome nextState

def buildWorkflowVisibilityIndexTransition (workflowId : Component)
    (previousState nextState : Option WorkflowState) : List (BatchOperation V) :=
  buildWorkflowVisibilityIndexOperationsInternal codec workflowId
    ((previousState.map deriveWorkflowVisibilityIndexKeys).getD []) previousState.isSome nextState

/-! ## State writes of the engine -/

def startOperations (state : WorkflowState) : List (BatchOperation V) :=
  .put (KEYS.workflow state.id) (codec.encodeState state) ::
    buildWorkflowVisibilityIndexTransition codec state.id none (some state)

def transitionOperations (previous next : WorkflowState) : List (BatchOperation V) :=
  .put (KEYS.workflow next.id) (codec.encodeState next) ::
    buildWorkflowVisibilityIndexTransition codec next.id (some previous) (some next)

def purgeOperations (previous : WorkflowState) : List (BatchOperation V) :=
  .delete (KEYS.workflow previous.id) ::
    buildWorkflowVisibilityIndexTransition codec previous.id (some previous) none

/-! ## Index keys -/

/-- The prefixes that the rows of the current layout start with. -/
def rowPrefixes : List JsString :=
  [js "wf-idx-status:", js "wf-idx-type:", js "wf-idx-created:", js "wf-idx-updated:",
    js "wf-idx-deadline:"]

/-- A row key of workflow `id`. -/
def IsRowOf (id : Component) (key : JsString) : Prop :=
  ∃ p ∈ rowPrefixes, ∃ middle, key = p ++ middle ++ colon :: id.enc

theorem mem_derive_iff (state : WorkflowState) (key : JsString) :
    key ∈ deriveWorkflowVisibilityIndexKeys state ↔
      key = KEYS.workflowVisibilityStatus state.status.component state.id ∨
      key = KEYS.workflowVisibilityType state.type state.id ∨
      key = KEYS.workflowVisibilityCreated state.createdAt state.id ∨
      key = KEYS.workflowVisibilityUpdated state.updatedAt state.id ∨
      ∃ deadline, state.executionDeadline = some deadline ∧
        key = KEYS.workflowVisibilityDeadline deadline state.id := by
  rw [deriveWorkflowVisibilityIndexKeys, List.mem_insertionSort, List.mem_append, List.mem_map]
  simp only [List.mem_cons, List.not_mem_nil, or_false, Option.mem_toList, or_assoc,
    eq_comm]

variable {key : JsString}

theorem mem_derive_isRowOf {state : WorkflowState}
    (h : key ∈ deriveWorkflowVisibilityIndexKeys state) : IsRowOf state.id key := by
  rcases (mem_derive_iff state key).1 h with rfl | rfl | rfl | rfl | ⟨deadline, -, rfl⟩
  · exact ⟨js "wf-idx-status:", by simp [rowPrefixes], _, rfl⟩
  · exact ⟨js "wf-idx-type:", by simp [rowPrefixes], _, rfl⟩
  · exact ⟨js "wf-idx-created:", by simp [rowPrefixes], _, rfl⟩
  · exact ⟨js "wf-idx-updated:", by simp [rowPrefixes], _, rfl⟩
  · exact ⟨js "wf-idx-deadline:", by simp [rowPrefixes], _, rfl⟩

variable {i j : Component}

/-- A row belongs to one workflow. -/
theorem IsRowOf.owner (hi : IsRowOf i key) (hj : IsRowOf j key) : i = j := by
  obtain ⟨p, -, m, rfl⟩ := hi
  obtain ⟨q, -, n, heq⟩ := hj
  apply Component.enc_injective
  rw [← afterLastColon_append i.colon_notMem (p ++ m), heq,
    afterLastColon_append j.colon_notMem]

theorem rowPrefixes_apart : ∀ p ∈ rowPrefixes, Apart p (js "wf-idx-manifest:") ∧
    Apart p (js "wf:") ∧ Apart p (js "wf-idx-meta:") := by
  decide +kernel

theorem IsRowOf.ne_manifest (h : IsRowOf i key) : key ≠ KEYS.workflowVisibilityManifest j := by
  obtain ⟨p, hp, m, rfl⟩ := h
  rw [List.append_assoc]
  exact ne_of_apart (rowPrefixes_apart p hp).1 _ _

theorem IsRowOf.ne_workflow (h : IsRowOf i key) : key ≠ KEYS.workflow j := by
  obtain ⟨p, hp, m, rfl⟩ := h
  rw [List.append_assoc]
  exact ne_of_apart (rowPrefixes_apart p hp).2.1 _ _

theorem manifest_ne_workflow (i j : Component) :
    KEYS.workflowVisibilityManifest i ≠ KEYS.workflow j :=
  ne_of_apart (by decide +kernel) _ _

instance (id : Component) (key : JsString) : Decidable (IsRowOf id key) :=
  decidable_of_iff (∃ p ∈ rowPrefixes, p <+: key ∧ (colon :: id.enc) <:+ key.drop p.length) (by
    refine exists_congr fun p => and_congr_right fun _ => ?_
    constructor
    · rintro ⟨⟨rest, rfl⟩, middle, hmiddle⟩
      rw [List.drop_left] at hmiddle
      exact ⟨middle, by rw [List.append_assoc, hmiddle]⟩
    · rintro ⟨middle, rfl⟩
      rw [List.append_assoc]
      refine ⟨List.prefix_append _ _, middle, ?_⟩
      rw [List.drop_left])

/-! ## A plain codec -/

/-- Stored values as they are before encoding. -/
inductive StoredValue where
  | state (x : WorkflowState)
  | manifest (x : WorkflowVisibilityManifest)
  | text (x : JsString)
  | number (x : JsNumber)
  | empty
deriving DecidableEq

def plainCodec : Codec StoredValue where
  encodeState := .state
  decodeState
    | .state x => some x
    | _ => none
  encodeManifest := .manifest
  decodeManifest
    | .manifest x => some x
    | _ => none
  encodeCursor := .text
  decodeCursor
    | .text x => some x
    | _ => none
  encodeNumber := .number
  emptyIndexValue := .empty
  decodeState_encode _ := rfl
  decodeManifest_encode _ := rfl
  decodeCursor_encode _ := rfl

/-! ## What index operations write -/

theorem get_indexOperations_remove (s : Store V) (workflowId : Component)
    (previousKeys : List JsString) (k : JsString) :
    (applyBatchOperations s (buildWorkflowVisibilityIndexOperationsInternal codec workflowId
        previousKeys true none)).get k =
      if k ∈ previousKeys ∨ k = KEYS.workflowVisibilityManifest workflowId then none
      else s.get k := by
  simp only [buildWorkflowVisibilityIndexOperationsInternal, if_true,
    applyBatchOperations_append]
  rw [applyBatchOperations_cons]
  by_cases hm : k = KEYS.workflowVisibilityManifest workflowId
  · simp [hm, applyBatchOperations, applyBatchOperation]
  · simp [hm, applyBatchOperations, applyBatchOperation]
    exact get_applyBatchOperations_deletes s previousKeys k

theorem get_indexOperations_manifest (s : Store V) (workflowId : Component)
    (previousKeys : List JsString) (had : Bool) (state : WorkflowState) :
    (applyBatchOperations s (buildWorkflowVisibilityIndexOperationsInternal codec workflowId
        previousKeys had (some state))).get (KEYS.workflowVisibilityManifest workflowId) =
      some (codec.encodeManifest
        ⟨WORKFLOW_VISIBILITY_INDEX_VERSION, deriveWorkflowVisibilityIndexKeys state⟩) := by
  simp [buildWorkflowVisibilityIndexOperationsInternal, applyBatchOperations,
    applyBatchOperation]

variable {k : JsString}

theorem get_indexOperations_row (s : Store V) (workflowId : Component)
    (previousKeys : List JsString) (had : Bool) (state : WorkflowState)
    (hk : k ≠ KEYS.workflowVisibilityManifest workflowId) :
    (applyBatchOperations s (buildWorkflowVisibilityIndexOperationsInternal codec workflowId
        previousKeys had (some state))).get k =
      if k ∈ deriveWorkflowVisibilityIndexKeys state then
        (if k ∈ previousKeys then s.get k else some codec.emptyIndexValue)
      else if k ∈ previousKeys then none else s.get k := by
  simp only [buildWorkflowVisibilityIndexOperationsInternal, applyBatchOperations_append]
  rw [applyBatchOperations_cons]
  simp only [applyBatchOperation, applyBatchOperations, List.foldl_nil,
    OrderedStore.get_put, hk, if_false]
  rw [← applyBatchOperations, get_applyBatchOperations_puts, ← applyBatchOperations,
    get_applyBatchOperations_deletes]
  simp only [List.mem_filter, decide_eq_true_eq]
  by_cases hn : k ∈ deriveWorkflowVisibilityIndexKeys state
  · by_cases hp : k ∈ previousKeys
    · simp [hn, hp]
    · simp [hn, hp]
  · by_cases hp : k ∈ previousKeys
    · simp [hn, hp]
    · simp [hn, hp]

/-- Operations on one workflow leave every key but its rows and its manifest alone. -/
theorem get_indexOperations_other (s : Store V) (workflowId : Component)
    (previousKeys : List JsString) (had : Bool) (nextState : Option WorkflowState)
    (hprev : ∀ p ∈ previousKeys, IsRowOf workflowId p)
    (hnext : ∀ state, nextState = some state → state.id = workflowId)
    (hm : k ≠ KEYS.workflowVisibilityManifest workflowId) (hr : ¬ IsRowOf workflowId k) :
    (applyBatchOperations s (buildWorkflowVisibilityIndexOperationsInternal codec workflowId
        previousKeys had nextState)).get k = s.get k := by
  have hp : k ∉ previousKeys := fun h => hr (hprev k h)
  cases nextState with
  | none =>
    cases had with
    | false =>
      simp only [buildWorkflowVisibilityIndexOperationsInternal, Bool.false_eq_true, if_false,
        List.append_nil]
      rw [get_applyBatchOperations_deletes, if_neg hp]
    | true =>
      rw [get_indexOperations_remove, if_neg]
      rintro (h | h)
      · exact hp h
      · exact hm h
  | some state =>
    have hn : k ∉ deriveWorkflowVisibilityIndexKeys state := by
      intro h
      have hrow := mem_derive_isRowOf h
      rw [hnext state rfl] at hrow
      exact hr hrow
    rw [get_indexOperations_row codec s workflowId previousKeys had state hm, if_neg hn,
      if_neg hp]

theorem get_indexTransition_other (s : Store V) (workflowId : Component)
    (previousState nextState : Option WorkflowState)
    (hprev : ∀ state, previousState = some state → state.id = workflowId)
    (hnext : ∀ state, nextState = some state → state.id = workflowId)
    (hm : k ≠ KEYS.workflowVisibilityManifest workflowId) (hr : ¬ IsRowOf workflowId k) :
    (applyBatchOperations s (buildWorkflowVisibilityIndexTransition codec workflowId
        previousState nextState)).get k = s.get k := by
  refine get_indexOperations_other codec s workflowId _ _ nextState ?_ hnext hm hr
  intro p hp
  cases previousState with
  | none => simp at hp
  | some state =>
    have hrow := mem_derive_isRowOf hp
    rwa [hprev state rfl] at hrow

end Weft.Visibility
