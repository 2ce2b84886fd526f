import Weft.Listing.Query
import Weft.Visibility.Coverage
import Weft.Lib.Except

/-! What the two ways of collecting return. A full scan returns the stored states that match,
the constrained path those of them that are candidates, and a page shows the difference. -/

namespace Weft.Listing
open Weft.Js Weft.Storage Weft.Visibility Weft.Attributes Weft.Lib

universe u

variable {V : Type u}

section

variable (codec : ListCodec V) (s : Store V)

def Stored (state : WorkflowState) : Prop := stateOf codec.toCodec s state.id = some state

def RecordsDecode : Prop :=
  ∀ id v, s.get (KEYS.workflow id) = some v → (codec.decodeState v).isSome

def records : List (JsString × V) :=
  (scan s (js "wf:") {}).filter fun row => isTopLevelWorkflowStateKey row.1

/-- What a full scan keeps. -/
def Matches (filter : Option ListFilter) (tags : Option (List JsString)) (state : WorkflowState) :
    Prop :=
  matchesListFilter state filter none tags (attributesOf codec s state.id) = true

end

variable {codec : ListCodec V} {s : Store V}

/-! ## The full scan -/

theorem mem_records {k : JsString} {v : V} :
    (k, v) ∈ records s ↔ s.get k = some v ∧ isTopLevelKey k = true := by
  have hscan : (k, v) ∈ scan s (js "wf:") {} ↔ _ :=
    mem_scan (u := 58) (by decide) (by decide) rfl rfl
  rw [records, List.mem_filter, hscan]
  simp [matchesScanOptions, isTopLevelKey, isTopLevelWorkflowStateKey, and_assoc]

theorem records_keys_sorted : (records s).Pairwise fun a b => a.1 < b.1 := by
  rw [records, scan_unlimited s _ _ rfl rfl]
  exact (OrderedStore.range_sorted _ _).filter _

variable {state : WorkflowState}

theorem decodeWorkflowState_eq_ok {v : V} :
    decodeWorkflowState codec v = .ok state ↔ codec.decodeState v = some state := by
  unfold decodeWorkflowState
  split
  · rename_i h
    simp [h]
  · rename_i h
    simp [h]

/-- The states of all records, in the order of their keys. -/
theorem states_of_records (hnamed : StoreNamed codec.toCodec s) {states : List WorkflowState}
    (h : List.Forall₂ (fun row state => codec.decodeState row.2 = some state) (records s) states) :
    states.map (fun state => KEYS.workflow state.id) = (records s).map (·.1) := by
  have hmem : ∀ row ∈ records s, ∀ state, codec.decodeState row.2 = some state →
      KEYS.workflow state.id = row.1 := by
    rintro ⟨k, v⟩ hrow state hd
    obtain ⟨hget, htop⟩ := mem_records.1 hrow
    obtain ⟨id, hkey, hid⟩ := hnamed k v hget htop
    rw [hid state hd, hkey]
  generalize records s = rows at h hmem
  induction h with
  | nil => rfl
  | cons hd _ ih =>
    rw [List.map_cons, List.map_cons, hmem _ List.mem_cons_self _ hd,
      ih fun row hrow => hmem row (List.mem_cons_of_mem _ hrow)]

variable {filter : Option ListFilter} {tags : Option (List JsString)} {items : List WorkflowState}

theorem fullScan_spec (hnamed : StoreNamed codec.toCodec s)
    (h : collectFromFullScan codec s filter tags = .ok items) :
    (records s).length ≤ MAX_LIST_SCAN_ROWS ∧ RecordsDecode codec s ∧ items.Nodup ∧
      ∀ state, state ∈ items ↔ Stored codec s state ∧ Matches codec s filter tags state := by
  simp only [collectFromFullScan, ← records.eq_1] at h
  obtain ⟨states, hstates, h⟩ := bind_eq_ok.1 h
  split_ifs at h with hcap
  · cases h
  · cases h
    have hlen : (records s).length ≤ MAX_LIST_SCAN_ROWS := not_lt.1 hcap
    rw [List.take_of_length_le hlen, mapM_eq_ok] at hstates
    simp only [decodeWorkflowState_eq_ok] at hstates
    have hkeys := states_of_records hnamed hstates
    have hnodup : states.Nodup := by
      refine List.Nodup.of_map (fun state => KEYS.workflow state.id) ?_
      rw [hkeys, List.Nodup, List.pairwise_map]
      exact records_keys_sorted.imp fun hlt => ne_of_lt hlt
    have hrow : ∀ id v, s.get (KEYS.workflow id) = some v →
        ∃ state ∈ states, codec.decodeState v = some state := by
      intro id v hv
      have hmem : (KEYS.workflow id, v) ∈ records s :=
        mem_records.2 ⟨hv, isTopLevelKey_workflow id⟩
      obtain ⟨i, hi, heq⟩ := List.getElem_of_mem hmem
      have hi' : i < states.length := by rw [← hstates.length_eq]; exact hi
      have hd := (List.forall₂_iff_get.1 hstates).2 i hi hi'
      refine ⟨states.get ⟨i, hi'⟩, List.get_mem _ _, ?_⟩
      simpa [heq] using hd
    refine ⟨hlen, ?_, hnodup.filter _, fun state => ?_⟩
    · intro id v hv
      obtain ⟨state, -, hd⟩ := hrow id v hv
      simp [hd]
    · rw [List.mem_filter]
      refine and_congr_left fun _ => ⟨fun hmem => ?_, fun hstored => ?_⟩
      · obtain ⟨i, hi, heq⟩ := List.getElem_of_mem hmem
        have hi' : i < (records s).length := by rw [hstates.length_eq]; exact hi
        have hd := (List.forall₂_iff_get.1 hstates).2 i hi' hi
        simp only [List.get_eq_getElem, heq] at hd
        obtain ⟨hget, htop⟩ := mem_records.1 (List.getElem_mem hi')
        obtain ⟨id, hkey, hid⟩ := hnamed _ _ hget htop
        rw [Stored, stateOf, hid state hd, ← hkey, hget]
        exact hd
      · obtain ⟨v, hv, hd⟩ := Option.bind_eq_some_iff.1 hstored
        obtain ⟨state', hmem, hd'⟩ := hrow _ v hv
        rw [hd] at hd'
        obtain rfl := Option.some.inj hd'
        exact hmem

/-! ## The constrained path -/

theorem encodeStorageKeyComponent_ok {text e : JsString} :
    encodeStorageKeyComponent text = .ok e ↔ encodeURIComponent text = some e := by
  unfold encodeStorageKeyComponent
  split
  · rename_i h
    simp [h]
  · rename_i h
    simp [h]

theorem loadCandidate_eq (hdecode : RecordsDecode codec s) (id : Component) :
    loadCandidate codec s id.text = .ok (stateOf codec.toCodec s id) := by
  have he : encodeStorageKeyComponent id.text = .ok id.enc := by
    rw [encodeStorageKeyComponent, id.encode_text]
  have hkey : KEYS.workflow id = js "wf:" ++ id.enc := rfl
  simp only [loadCandidate, he, stateOf, hkey, bind, Except.bind]
  cases hv : s.get (js "wf:" ++ id.enc) with
  | none => rfl
  | some v =>
    obtain ⟨state, hd⟩ := Option.isSome_iff_exists.1 (hdecode id v hv)
    simp only [Option.bind, hd, decodeWorkflowState_eq_ok.2 hd]
    rfl

/-- The stored state of a candidate. -/
def candidateState (codec : ListCodec V) (s : Store V) (id : JsString) : Option WorkflowState :=
  (Component.of? id).bind (stateOf codec.toCodec s)

theorem candidateState_eq_some (hnamed : RecordsNamed codec.toCodec s) {id : JsString} :
    candidateState codec s id = some state ↔ Stored codec s state ∧ state.id.text = id := by
  constructor
  · intro h
    obtain ⟨c, hc, hst⟩ := Option.bind_eq_some_iff.1 h
    have hid := hnamed c state hst
    refine ⟨?_, ?_⟩
    · rw [Stored, hid]
      exact hst
    · rw [hid]
      exact Component.of?_eq_some hc
  · rintro ⟨hst, rfl⟩
    rw [candidateState, Component.of?_text]
    exact hst

variable {ids : List JsString}

theorem constrained_spec (hnamed : RecordsNamed codec.toCodec s) (hdecode : RecordsDecode codec s)
    (hnodup : ids.Nodup) (hcap : ids.length ≤ MAX_LIST_SCAN_ROWS)
    (hencode : ∀ id ∈ ids, (encodeURIComponent id).isSome) (filter : Option ListFilter)
    (tags : Option (List JsString)) :
    ∃ items, collectFromConstrainedIds codec s ids filter tags = .ok items ∧ items.Nodup ∧
      ∀ state, state ∈ items ↔ (Stored codec s state ∧ Matches codec s filter tags state) ∧
        state.id.text ∈ ids := by
  have hload : ids.mapM (loadCandidate codec s) = .ok (ids.map (candidateState codec s)) := by
    refine mapM_eq_ok_map fun id hid => ?_
    have hof : Component.of? id = some ⟨id, hencode id hid⟩ := by
      rw [Component.of?, dif_pos (hencode id hid)]
    rw [candidateState, hof]
    exact loadCandidate_eq hdecode ⟨id, hencode id hid⟩
  refine ⟨((ids.map (candidateState codec s)).filterMap id).filter fun state =>
    matchesListFilter state filter (some ids) tags (attributesOf codec s state.id), ?_, ?_, ?_⟩
  · simp only [collectFromConstrainedIds, not_lt.2 hcap, if_false, hload]
    rfl
  · refine List.Nodup.filter _ ?_
    rw [List.filterMap_map]
    refine hnodup.filterMap fun x y state hx hy => ?_
    rw [← ((candidateState_eq_some hnamed).1 hx).2, ← ((candidateState_eq_some hnamed).1 hy).2]
  · intro state
    rw [List.mem_filter, List.filterMap_map, List.mem_filterMap]
    simp only [Function.id_comp, candidateState_eq_some hnamed, matchesListFilter, Option.all_some,
      Option.all_none, Bool.true_and, Bool.and_eq_true, decide_eq_true_eq, Matches]
    constructor
    · rintro ⟨⟨x, hx, hst, rfl⟩, ⟨hid, htags⟩, hf⟩
      exact ⟨⟨hst, htags, hf⟩, hid⟩
    · rintro ⟨⟨hst, htags, hf⟩, hid⟩
      exact ⟨⟨_, hid, hst, rfl⟩, ⟨hid, htags⟩, hf⟩

/-- Candidates that load can be written as keys. -/
theorem encodable_of_collect (h : collectFromConstrainedIds codec s ids filter tags = .ok items) :
    ∀ id ∈ ids, (encodeURIComponent id).isSome := by
  intro id hid
  unfold collectFromConstrainedIds at h
  split_ifs at h with hcap
  · cases h
  · obtain ⟨states, hstates, -⟩ := bind_eq_ok.1 h
    obtain ⟨i, hi, rfl⟩ := List.getElem_of_mem hid
    have hload := mapM_eq_ok.1 hstates
    have hi' : i < states.length := by rw [← hload.length_eq]; exact hi
    obtain ⟨e, he, -⟩ := bind_eq_ok.1 ((List.forall₂_iff_get.1 hload).2 i hi hi')
    have he := encodeStorageKeyComponent_ok.1 he
    simp only [List.get_eq_getElem] at he
    rw [he]
    rfl

/-! ## Pages -/

theorem listedBefore_iff (a b : WorkflowSummary) :
    listedBefore a b = true ↔ b.createdAt.value < a.createdAt.value ∨
      a.createdAt.value = b.createdAt.value ∧ a.id.text ≤ b.id.text := by
  unfold listedBefore
  split_ifs with h
  · rw [decide_eq_true_eq]
    constructor
    · intro hle
      exact .inl (lt_of_le_of_ne hle fun heq => h heq.symm)
    · rintro (hlt | ⟨heq, -⟩)
      · exact hlt.le
      · exact (h heq).elim
  · rw [ne_eq, not_not] at h
    rw [decide_eq_true_eq, h]
    simp

theorem listedBefore_trans (a b c : WorkflowSummary) (hab : listedBefore a b = true)
    (hbc : listedBefore b c = true) : listedBefore a c = true := by
  rw [listedBefore_iff] at *
  rcases hab with hab | ⟨heq, hab⟩
  · rcases hbc with hbc | ⟨heq, -⟩
    · exact .inl (hbc.trans hab)
    · exact .inl (heq ▸ hab)
  · rcases hbc with hbc | ⟨heq', hbc⟩
    · exact .inl (heq ▸ hbc)
    · exact .inr ⟨heq.trans heq', hab.trans hbc⟩

theorem listedBefore_total (a b : WorkflowSummary) :
    (listedBefore a b || listedBefore b a) = true := by
  rw [Bool.or_eq_true, listedBefore_iff, listedBefore_iff]
  rcases lt_trichotomy a.createdAt.value b.createdAt.value with h | h | h
  · exact .inr (.inl h)
  · rcases le_total a.id.text b.id.text with hid | hid
    · exact .inl (.inr ⟨h, hid⟩)
    · exact .inr (.inr ⟨h.symm, hid⟩)
  · exact .inl (.inl h)

theorem listedBefore_antisymm {a b : WorkflowSummary} (hab : listedBefore a b = true)
    (hba : listedBefore b a = true) : a.id = b.id := by
  rw [listedBefore_iff] at *
  refine Subtype.ext ?_
  rcases hab with hab | ⟨heq, hab⟩
  · rcases hba with hba | ⟨heq, -⟩
    · exact (lt_asymm hab hba).elim
    · exact (ne_of_gt hab heq.symm).elim
  · rcases hba with hba | ⟨-, hba⟩
    · exact (ne_of_gt hba heq.symm).elim
    · exact le_antisymm hab hba

variable {items items' : List WorkflowState}

/-- The order of a page is that of its states, however they were collected. -/
theorem page_of_perm (h : items'.Perm items) (hstored : ∀ state ∈ items, Stored codec s state)
    (filter : Option ListFilter) : page items' filter = page items filter := by
  have hsort : sortSummariesByCreatedAtDescending (items'.map summaryFromState) =
      sortSummariesByCreatedAtDescending (items.map summaryFromState) := by
    have hperm := (List.mergeSort_perm (items'.map summaryFromState) listedBefore).trans
      ((h.map summaryFromState).trans
        (List.mergeSort_perm (items.map summaryFromState) listedBefore).symm)
    refine List.Perm.eq_of_pairwise ?_
      (List.pairwise_mergeSort listedBefore_trans listedBefore_total _)
      (List.pairwise_mergeSort listedBefore_trans listedBefore_total _) hperm
    intro a b ha hb hab hba
    obtain ⟨x, hx, rfl⟩ := List.mem_map.1 (List.mem_mergeSort.1 ha)
    obtain ⟨y, hy, rfl⟩ := List.mem_map.1 (List.mem_mergeSort.1 hb)
    have hid : x.id = y.id := listedBefore_antisymm hab hba
    have hxs := hstored x (h.mem_iff.1 hx)
    have hys := hstored y hy
    rw [Stored, hid] at hxs
    rw [Option.some.inj (hxs.symm.trans hys)]
  rw [page, page, hsort]

theorem page_total (items : List WorkflowState) (filter : Option ListFilter) :
    (page items filter).total = items.length := by
  simp [page, paginateWorkflowSummaries, sortSummariesByCreatedAtDescending]

variable (codec s) in
/-- Leaving out a matching state shows in the total. -/
theorem page_eq_iff (hnodup : items.Nodup) (hnodup' : items'.Nodup) (hsub : items' ⊆ items)
    (hstored : ∀ state ∈ items, Stored codec s state) (filter : Option ListFilter) :
    page items' filter = page items filter ↔ ∀ state ∈ items, state ∈ items' := by
  constructor
  · intro h
    have hlen : items'.length = items.length := by
      rw [← page_total items' filter, h, page_total]
    have hperm := (List.subperm_of_subset hnodup' hsub).perm_of_length_le hlen.ge
    exact fun state hstate => hperm.mem_iff.2 hstate
  · intro h
    refine page_of_perm ?_ hstored filter
    exact (List.perm_ext_iff_of_nodup hnodup' hnodup).2 fun state =>
      ⟨fun hstate => hsub hstate, h state⟩

/-! ## Both paths -/

variable {localeLe : JsString → JsString → Bool} {filter : Option ListFilter}
  {p : PaginatedResult}

theorem fullScanList_ok (hfull : fullScanList codec localeLe s filter = .ok p) :
    ∃ items, collectFromFullScan codec s filter
      (normalizeWorkflowTags localeLe (filter.bind (·.tags))) = .ok items ∧
        page items filter = p := by
  obtain ⟨items, hitems, h⟩ := bind_eq_ok.1 hfull
  exact ⟨items, hitems, Except.ok.inj h⟩

/-- Where the candidates can be loaded, the two pages agree if every match is a candidate. -/
theorem list_eq_fullScan_iff (hnamed : StoreNamed codec.toCodec s)
    (hfull : fullScanList codec localeLe s filter = .ok p) {watermark : WorkflowVisibilityWatermark}
    (hresolve : resolveListCandidateIds s watermark filter (normalizeWorkflowTags localeLe
      (filter.bind (·.tags))) = .ok (some ids))
    (hnodup : ids.Nodup) (hcap : ids.length ≤ MAX_LIST_SCAN_ROWS)
    (hencode : ∀ id ∈ ids, (encodeURIComponent id).isSome) :
    list codec localeLe s watermark filter = .ok p ↔ ∀ state, Stored codec s state →
        Matches codec s filter (normalizeWorkflowTags localeLe (filter.bind (·.tags))) state →
          state.id.text ∈ ids := by
  obtain ⟨items, hitems, rfl⟩ := fullScanList_ok hfull
  obtain ⟨-, hdecode, hitemsNodup, hmem⟩ := fullScan_spec hnamed hitems
  obtain ⟨items', hitems', hnodup', hmem'⟩ := constrained_spec hnamed.recordsNamed hdecode hnodup
    hcap hencode filter (normalizeWorkflowTags localeLe (filter.bind (·.tags)))
  have hlist : list codec localeLe s watermark filter = .ok (page items' filter) := by
    rw [list, hresolve]
    simp only [bind, Except.bind, hitems']
    rfl
  rw [hlist, Except.ok.injEq, page_eq_iff codec s hitemsNodup hnodup'
    (fun state h => (hmem state).2 ((hmem' state).1 h).1) fun state h => ((hmem state).1 h).1]
  constructor
  · intro h state hst hm
    exact ((hmem' state).1 (h state ((hmem state).2 ⟨hst, hm⟩))).2
  · intro h state hstate
    obtain ⟨hst, hm⟩ := (hmem state).1 hstate
    exact (hmem' state).2 ⟨⟨hst, hm⟩, h state hst hm⟩

end Weft.Listing
