import Weft.Visibility.Indexes

/-! Coverage of a workflow by the index, and what the writes of the engine do to it. -/

namespace Weft.Visibility
open Weft.Js Weft.Storage Weft.Lib

universe u

/-! ## Keys of records -/

def isTopLevelKey (key : JsString) : Bool :=
  (js "wf:").isPrefixOf key && !(key.drop 3).contains colon

theorem drop_workflow (id : Component) : (KEYS.workflow id).drop 3 = id.enc := by
  have hlen : (js "wf:").length = 3 := rfl
  rw [KEYS.workflow, ← hlen, List.drop_left]

theorem isTopLevelKey_workflow (id : Component) : isTopLevelKey (KEYS.workflow id) = true := by
  simp only [isTopLevelKey, drop_workflow, Bool.and_eq_true, List.isPrefixOf_iff_prefix,
    Bool.not_eq_true', List.contains_eq_mem, decide_eq_false_iff_not]
  exact ⟨List.prefix_append _ _, id.colon_notMem⟩

variable {V : Type u} (codec : Codec V)

/-! ## Coverage -/

def stateOf (s : Store V) (id : Component) : Option WorkflowState :=
  (s.get (KEYS.workflow id)).bind codec.decodeState

def manifestOf (s : Store V) (id : Component) : Option WorkflowVisibilityManifest :=
  decodeWorkflowVisibilityManifest codec (s.get (KEYS.workflowVisibilityManifest id))

def rowsPresent (s : Store V) (keys : List JsString) : Bool := keys.all fun k => (s.get k).isSome

/-- The manifest lists the keys of the stored state at the current version, and each of
them is a row. -/
def covered (s : Store V) (id : Component) : Bool :=
  (stateOf codec s id).any fun state =>
    manifestOf codec s id =
        some ⟨WORKFLOW_VISIBILITY_INDEX_VERSION, deriveWorkflowVisibilityIndexKeys state⟩ &&
      rowsPresent s (deriveWorkflowVisibilityIndexKeys state)

/-- A row of the store under a record key is the record of that identifier. -/
def RowNamed (key : JsString) (value : V) : Prop :=
  isTopLevelKey key = true → ∃ id, key = KEYS.workflow id ∧
    ∀ state, codec.decodeState value = some state → state.id = id

def StoreNamed (s : Store V) : Prop := ∀ k v, s.get k = some v → RowNamed codec k v

/-- A record carries the identifier of the key it is stored under. -/
def RecordsNamed (s : Store V) : Prop :=
  ∀ id state, stateOf codec s id = some state → state.id = id

theorem covered_iff (s : Store V) (id : Component) :
    covered codec s id = true ↔ ∃ state, stateOf codec s id = some state ∧
      manifestOf codec s id =
        some ⟨WORKFLOW_VISIBILITY_INDEX_VERSION, deriveWorkflowVisibilityIndexKeys state⟩ ∧
      ∀ k ∈ deriveWorkflowVisibilityIndexKeys state, (s.get k).isSome := by
  cases h : stateOf codec s id with
  | none => simp [covered, h]
  | some state => simp [covered, h, rowsPresent]

/-- Records without an index, as an engine of an earlier version left them. -/
def legacyStore : List WorkflowState → Store V
  | [] => OrderedStore.empty
  | state :: states => (legacyStore states).put (KEYS.workflow state.id) (codec.encodeState state)

theorem legacyStore_named (codec : Codec V) (states : List WorkflowState) :
    StoreNamed codec (legacyStore codec states) := by
  induction states with
  | nil =>
    intro k v h
    simp [legacyStore] at h
  | cons state states ih =>
    intro k v h htop
    simp only [legacyStore, OrderedStore.get_put] at h
    split_ifs at h with hkey
    · cases h
      refine ⟨state.id, hkey, fun state' hd => ?_⟩
      rw [codec.decodeState_encode] at hd
      rw [Option.some.inj hd]
    · exact ih k v h htop

variable {codec} in
theorem StoreNamed.recordsNamed {s : Store V} (hs : StoreNamed codec s) :
    RecordsNamed codec s := by
  intro id state h
  obtain ⟨v, hv, hd⟩ := Option.bind_eq_some_iff.1 h
  obtain ⟨id', heq, hid⟩ := hs _ v hv (isTopLevelKey_workflow id)
  rw [hid state hd, KEYS.workflow_injective heq]

/-! ## Writes of the engine -/

inductive EngineWrite where
  | start (state : WorkflowState)
  | transition (next : WorkflowState)
  | purge (id : Component)

def EngineWrite.id : EngineWrite → Component
  | .start state => state.id
  | .transition next => next.id
  | .purge id => id

def applyWrite (s : Store V) : EngineWrite → Option (Store V)
  | .start state => some (applyBatchOperations s (startOperations codec state))
  | .transition next => (stateOf codec s next.id).map fun previous =>
      applyBatchOperations s (transitionOperations codec previous next)
  | .purge id => (stateOf codec s id).map fun previous =>
      applyBatchOperations s (purgeOperations codec previous)

/-- What an index repair or a state write leaves of its own workflow: the manifest of the
next state, and its rows but for those that were taken for granted. -/
structure Indexed (codec : Codec V) (s t : Store V) (next : WorkflowState)
    (previousKeys : List JsString) : Prop where
  manifest : manifestOf codec t next.id =
    some ⟨WORKFLOW_VISIBILITY_INDEX_VERSION, deriveWorkflowVisibilityIndexKeys next⟩
  row : ∀ k ∈ deriveWorkflowVisibilityIndexKeys next,
    t.get k = if k ∈ previousKeys then s.get k else some codec.emptyIndexValue

/-- Only the record, the manifest and the rows of `id` may differ. -/
def OnlyTouches (id : Component) (s t : Store V) : Prop :=
  ∀ k, k ≠ KEYS.workflow id → k ≠ KEYS.workflowVisibilityManifest id → ¬ IsRowOf id k →
    t.get k = s.get k

variable {codec}

variable (codec) in
theorem indexed_of_operations (s : Store V) (previousKeys : List JsString) (had : Bool)
    (next : WorkflowState) :
    Indexed codec s (applyBatchOperations s (buildWorkflowVisibilityIndexOperationsInternal
      codec next.id previousKeys had (some next))) next previousKeys where
  manifest := by
    rw [manifestOf, get_indexOperations_manifest]
    simp [decodeWorkflowVisibilityManifest, codec.decodeManifest_encode]
  row := by
    intro k hk
    rw [get_indexOperations_row codec s _ _ _ _ (mem_derive_isRowOf hk).ne_manifest, if_pos hk]

/-- Writing the record beside the index operations changes nothing of the index. -/
theorem indexed_with_record (s : Store V) (previous : Option WorkflowState)
    (next : WorkflowState) :
    Indexed codec s
      (applyBatchOperations s (.put (KEYS.workflow next.id) (codec.encodeState next) ::
        buildWorkflowVisibilityIndexTransition codec next.id previous (some next)))
      next ((previous.map deriveWorkflowVisibilityIndexKeys).getD []) := by
  have h := indexed_of_operations codec
    (applyBatchOperation s (.put (KEYS.workflow next.id) (codec.encodeState next)))
    ((previous.map deriveWorkflowVisibilityIndexKeys).getD []) previous.isSome next
  refine ⟨h.manifest, fun k hk => ?_⟩
  rw [applyBatchOperations_cons, buildWorkflowVisibilityIndexTransition, h.row k hk]
  simp [applyBatchOperation, (mem_derive_isRowOf hk).ne_workflow]

theorem stateOf_with_record (s : Store V) (previous : Option WorkflowState)
    (next : WorkflowState) (hprev : ∀ state, previous = some state → state.id = next.id) :
    stateOf codec
      (applyBatchOperations s (.put (KEYS.workflow next.id) (codec.encodeState next) ::
        buildWorkflowVisibilityIndexTransition codec next.id previous (some next))) next.id =
      some next := by
  have hm : KEYS.workflow next.id ≠ KEYS.workflowVisibilityManifest next.id :=
    (manifest_ne_workflow _ _).symm
  have hr : ¬ IsRowOf next.id (KEYS.workflow next.id) := fun h => h.ne_workflow rfl
  rw [stateOf, applyBatchOperations_cons,
    get_indexTransition_other codec _ _ _ _ hprev (by rintro st ⟨⟩; rfl) hm hr]
  simp [applyBatchOperation, codec.decodeState_encode]

theorem onlyTouches_with_record (s : Store V) (id : Component) (op : BatchOperation V)
    (hop : op.key = KEYS.workflow id) (previous next : Option WorkflowState)
    (hprev : ∀ state, previous = some state → state.id = id)
    (hnext : ∀ state, next = some state → state.id = id) :
    OnlyTouches id s (applyBatchOperations s
      (op :: buildWorkflowVisibilityIndexTransition codec id previous next)) := by
  intro k hw hm hr
  rw [applyBatchOperations_cons, get_indexTransition_other codec _ _ _ _ hprev hnext hm hr]
  rw [← hop] at hw
  cases op with
  | put key value =>
    simp only [BatchOperation.key] at hw
    simp [applyBatchOperation, hw]
  | delete key =>
    simp only [BatchOperation.key] at hw
    simp [applyBatchOperation, hw]

variable {s t : Store V}

theorem applyWrite_onlyTouches (hs : RecordsNamed codec s) {w : EngineWrite}
    (h : applyWrite codec s w = some t) : OnlyTouches w.id s t := by
  cases w with
  | start state =>
    cases h
    exact onlyTouches_with_record s state.id _ rfl none (some state) (by rintro _ ⟨⟩)
      (by rintro _ ⟨⟩; rfl)
  | transition next =>
    obtain ⟨previous, hst, rfl⟩ := Option.map_eq_some_iff.1 h
    have hid := hs next.id previous hst
    exact onlyTouches_with_record s next.id _ rfl (some previous) (some next)
      (by rintro _ ⟨⟩; exact hid) (by rintro _ ⟨⟩; rfl)
  | purge id =>
    obtain ⟨previous, hst, rfl⟩ := Option.map_eq_some_iff.1 h
    obtain rfl := hs id previous hst
    exact onlyTouches_with_record s previous.id _ rfl (some previous) none
      (by rintro _ ⟨⟩; rfl) (by rintro _ ⟨⟩)

theorem purge_removes (hs : RecordsNamed codec s) {id : Component}
    (h : applyWrite codec s (.purge id) = some t) :
    t.get (KEYS.workflow id) = none ∧ t.get (KEYS.workflowVisibilityManifest id) = none := by
  obtain ⟨previous, hst, rfl⟩ := Option.map_eq_some_iff.1 h
  obtain rfl := hs id previous hst
  have hrow : KEYS.workflow previous.id ∉ deriveWorkflowVisibilityIndexKeys previous :=
    fun h => (mem_derive_isRowOf h).ne_workflow rfl
  have hm : KEYS.workflow previous.id ≠ KEYS.workflowVisibilityManifest previous.id :=
    (manifest_ne_workflow _ _).symm
  simp only [purgeOperations, applyBatchOperations_cons, buildWorkflowVisibilityIndexTransition,
    Option.map_some, Option.getD_some, Option.isSome_some]
  constructor
  · rw [get_indexOperations_remove, if_neg (by simp [hrow, hm])]
    simp [applyBatchOperation]
  · rw [get_indexOperations_remove, if_pos (Or.inr rfl)]

/-- Reads of another workflow do not see the difference. -/
theorem OnlyTouches.other {i j : Component} (h : OnlyTouches i s t) (hij : j ≠ i) :
    t.get (KEYS.workflow j) = s.get (KEYS.workflow j) ∧
      t.get (KEYS.workflowVisibilityManifest j) = s.get (KEYS.workflowVisibilityManifest j) ∧
      ∀ k, IsRowOf j k → t.get k = s.get k := by
  refine ⟨h _ ?_ ?_ ?_, h _ ?_ ?_ ?_, fun k hk => h k hk.ne_workflow hk.ne_manifest ?_⟩
  · exact fun heq => hij (KEYS.workflow_injective heq)
  · exact (manifest_ne_workflow _ _).symm
  · exact fun hr => hr.ne_workflow rfl
  · exact manifest_ne_workflow _ _
  · exact fun heq => hij (KEYS.workflowVisibilityManifest_injective heq)
  · exact fun hr => hr.ne_manifest rfl
  · exact fun hr => hij (hk.owner hr)

/-- Coverage reads the record, the manifest and the rows of its own workflow. -/
theorem covered_congr (hs : RecordsNamed codec s) {j : Component}
    (hrec : t.get (KEYS.workflow j) = s.get (KEYS.workflow j))
    (hman : t.get (KEYS.workflowVisibilityManifest j) = s.get (KEYS.workflowVisibilityManifest j))
    (hrow : ∀ k, IsRowOf j k → t.get k = s.get k) : covered codec t j = covered codec s j := by
  rw [Bool.eq_iff_iff, covered_iff, covered_iff]
  simp only [stateOf, manifestOf, hrec, hman]
  refine exists_congr fun state => and_congr_right fun hst => and_congr_right fun _ => ?_
  have hid : state.id = j := hs j state hst
  refine forall₂_congr fun k hk => ?_
  have hk' := mem_derive_isRowOf hk
  rw [hid] at hk'
  rw [hrow k hk']

theorem OnlyTouches.covered_other {i j : Component} (hs : RecordsNamed codec s)
    (h : OnlyTouches i s t) (hij : j ≠ i) : covered codec t j = covered codec s j := by
  obtain ⟨hrec, hman, hrow⟩ := h.other hij
  exact covered_congr hs hrec hman hrow

theorem start_indexed {state : WorkflowState} (h : applyWrite codec s (.start state) = some t) :
    Indexed codec s t state [] ∧ stateOf codec t state.id = some state := by
  cases h
  exact ⟨indexed_with_record s none state, stateOf_with_record s none state (by rintro _ ⟨⟩)⟩

theorem transition_indexed (hs : RecordsNamed codec s) {next : WorkflowState}
    (h : applyWrite codec s (.transition next) = some t) :
    ∃ previous, stateOf codec s next.id = some previous ∧
      Indexed codec s t next (deriveWorkflowVisibilityIndexKeys previous) ∧
      stateOf codec t next.id = some next := by
  obtain ⟨previous, hst, rfl⟩ := Option.map_eq_some_iff.1 h
  have hid := hs next.id previous hst
  exact ⟨previous, hst, indexed_with_record s (some previous) next,
    stateOf_with_record s (some previous) next (by rintro _ ⟨⟩; exact hid)⟩

/-- The rows taken for granted were there, so the workflow is covered. -/
theorem Indexed.covered {next : WorkflowState} {previousKeys : List JsString}
    (h : Indexed codec s t next previousKeys) (hst : stateOf codec t next.id = some next)
    (hrows : ∀ k ∈ deriveWorkflowVisibilityIndexKeys next, k ∈ previousKeys → (s.get k).isSome) :
    covered codec t next.id = true := by
  rw [covered_iff]
  refine ⟨next, hst, h.manifest, fun k hk => ?_⟩
  rw [h.row k hk]
  split_ifs with hp
  · exact hrows k hk hp
  · rfl

theorem applyWrite_recordsNamed (hs : RecordsNamed codec s) {w : EngineWrite}
    (h : applyWrite codec s w = some t) : RecordsNamed codec t := by
  intro id state hst
  by_cases hid : id = w.id
  · subst hid
    cases w with
    | start st =>
      rw [EngineWrite.id, (start_indexed h).2] at hst
      cases hst
      rfl
    | transition next =>
      obtain ⟨previous, -, -, hnext⟩ := transition_indexed hs h
      rw [EngineWrite.id, hnext] at hst
      cases hst
      rfl
    | purge id =>
      rw [EngineWrite.id, stateOf, (purge_removes hs h).1] at hst
      cases hst
  · refine hs id state ?_
    rwa [stateOf, ((applyWrite_onlyTouches hs h).other hid).1] at hst

/-- A covered workflow stays covered under the writes of the engine until it is removed, and
a started one is covered at once. -/
theorem applyWrite_covered (hs : RecordsNamed codec s) {w : EngineWrite}
    (h : applyWrite codec s w = some t)
    (hcov : (s.get (KEYS.workflow w.id)).isSome → covered codec s w.id = true)
    (hpresent : (t.get (KEYS.workflow w.id)).isSome) : covered codec t w.id = true := by
  cases w with
  | start state =>
    obtain ⟨hindexed, hst⟩ := start_indexed h
    exact hindexed.covered hst (by simp)
  | transition next =>
    obtain ⟨previous, hprev, hindexed, hst⟩ := transition_indexed hs h
    have hrec : (s.get (KEYS.workflow next.id)).isSome := by
      obtain ⟨v, hv, -⟩ := Option.bind_eq_some_iff.1 hprev
      simp [hv]
    obtain ⟨state, hst', -, hrows⟩ := (covered_iff codec s next.id).1 (hcov hrec)
    rw [hprev] at hst'
    obtain rfl := Option.some.inj hst'
    exact hindexed.covered hst fun k _ hk => hrows k hk
  | purge id =>
    rw [EngineWrite.id, (purge_removes hs h).1] at hpresent
    cases hpresent

end Weft.Visibility
