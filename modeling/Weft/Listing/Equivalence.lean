import Weft.Listing.Answers

/-! The indexed path against the full scan. Over exact indexes the two pages agree if and only
if the looked-up strings can be encoded and every match lies in the time ranges read as
text. Integer timestamps and bounds always do. -/

namespace Weft.Listing
open Weft.Js Weft.Storage Weft.Visibility Weft.Attributes Weft.Lib

universe u

variable {V : Type u} {codec : ListCodec V} {s : Store V}

/-! ## Which queries cover the matches -/

section

variable {filter : ListFilter} {tags : Option (List JsString)}

theorem Matches.facts {state : WorkflowState} (h : Matches codec s (some filter) tags state) :
    matchesWorkflowTagFilter state.tags tags = true ∧
      matchesListFilterIdentity state filter = true ∧
      matchesListFilterTimeRanges state filter = true := by
  simp only [Matches, matchesListFilter, Option.all_none, Option.all_some, Bool.true_and,
    Bool.and_eq_true] at h
  exact ⟨h.1, h.2.1.1, h.2.1.2⟩

theorem covers_status (hexact : IndexExact codec s) {statuses : OneOrMany WorkflowStatus}
    (hf : filter.status = some statuses) :
    Covers codec s filter tags (.ok (queryWorkflowStatusIndex s statuses.toList)) := by
  refine ⟨_, rfl, fun state hst hm => status_covers hexact hst ?_⟩
  obtain ⟨-, hid, -⟩ := hm.facts
  simp only [matchesListFilterIdentity, matchesListFilterStatus, hf, Option.all_some,
    Bool.and_eq_true, decide_eq_true_eq] at hid
  exact hid.1.1.1.1

theorem covers_type_iff (hexact : IndexExact codec s) {type : JsString}
    (hf : filter.type = some type) : Covers codec s filter tags (queryWorkflowTypeIndex s type) ↔
      (encodeURIComponent type).isSome := by
  constructor
  · rintro ⟨ids, hids, -⟩
    obtain ⟨e, he, -⟩ := bind_eq_ok.1 hids
    rw [encodeStorageKeyComponent_ok.1 he]
    rfl
  · intro h
    obtain ⟨e, he⟩ := Option.isSome_iff_exists.1 h
    have hquery : queryWorkflowTypeIndex s type =
        .ok (collectWorkflowIdsFromIndex s (js "wf-idx-type:" ++ e ++ [colon]) {}) := by
      rw [queryWorkflowTypeIndex, encodeStorageKeyComponent_ok.2 he]
      rfl
    refine ⟨_, hquery, fun state hst hm => type_covers hexact hquery hst ?_⟩
    obtain ⟨-, hid, -⟩ := hm.facts
    simp only [matchesListFilterIdentity, hf, Option.all_some, Bool.and_eq_true,
      decide_eq_true_eq] at hid
    exact hid.1.1.1.2

theorem covers_time_iff (hexact : IndexExact codec s) (kind : TimeKind) (range : TimeRange) :
    Covers codec s filter tags (.ok (queryWorkflowTimeRangeIndex s kind range)) ↔
      ∀ state, Stored codec s state → Matches codec s (some filter) tags state →
        ∃ x, kind.stamp state = some x ∧ inTextRange x range = true := by
  constructor
  · rintro ⟨ids, hids, hcov⟩ state hst hm
    cases hids
    exact (time_mem_iff hexact kind range hst).1 (hcov state hst hm)
  · intro h
    exact ⟨_, rfl, fun state hst hm => (time_mem_iff hexact kind range hst).2 (h state hst hm)⟩

theorem covers_idPrefix {pre : JsString} (hpre : pre.all isIdPrefixUnit = true)
    (hf : filter.idPrefix = some pre) :
    Covers codec s filter tags (queryWorkflowIdPrefixCandidates s pre) := by
  obtain ⟨ids, hids, -⟩ := idPrefix_answers (s := s) hpre
  refine ⟨ids, hids, fun state hst hm => ?_⟩
  obtain ⟨-, hid, -⟩ := hm.facts
  simp only [matchesListFilterIdentity, hf, Option.all_some, Bool.and_eq_true,
    List.isPrefixOf_iff_prefix] at hid
  obtain ⟨ids', hids', hmem⟩ := idPrefix_covers hpre hst hid.2
  rw [hids] at hids'
  obtain rfl := Except.ok.inj hids'
  exact hmem

theorem covers_tag_iff (hexact : IndexExact codec s) {tag : JsString} (htag : tag ∈ tags.getD []) :
    Covers codec s filter tags (queryTagIndex s tag) ↔ (encodeURIComponent tag).isSome := by
  constructor
  · rintro ⟨ids, hids, -⟩
    obtain ⟨e, he, -⟩ := bind_eq_ok.1 hids
    rw [encodeStorageKeyComponent_ok.1 he]
    rfl
  · intro h
    obtain ⟨e, he⟩ := Option.isSome_iff_exists.1 h
    have hquery : ∃ ids, queryTagIndex s tag = .ok ids := by
      rw [queryTagIndex, encodeStorageKeyComponent_ok.2 he]
      exact ⟨_, rfl⟩
    obtain ⟨ids, hids⟩ := hquery
    refine ⟨ids, hids, fun state hst hm => ?_⟩
    obtain ⟨htags, -⟩ := hm.facts
    simp only [matchesWorkflowTagFilter, List.all_eq_true, decide_eq_true_eq] at htags
    obtain ⟨c, hc, hctext⟩ := List.mem_map.1 (htags tag htag)
    exact ((tag_answers hexact hids).2 _).2 ⟨state, hst, rfl, c, hc, hctext⟩

theorem covers_child_iff (hexact : IndexExact codec s)
    (hcap : (records s).length ≤ MAX_LIST_SCAN_ROWS) {parent : JsString}
    (hf : filter.parentWorkflowId = some parent) : Covers codec s filter tags
        (queryChildWorkflowIndex s parent filter.parentWorkflowExecutionToken) ↔
      (encodeURIComponent parent).isSome ∧
        ∀ token ∈ filter.parentWorkflowExecutionToken, (encodeURIComponent token).isSome := by
  constructor
  · rintro ⟨ids, hids, -⟩
    obtain ⟨p, t, rfl, ht⟩ := child_query_ok hids
    refine ⟨p.2, fun token htoken => ?_⟩
    rw [← ht] at htoken
    obtain ⟨c, -, rfl⟩ := Option.map_eq_some_iff.1 htoken
    exact c.2
  · rintro ⟨hp, ht⟩
    obtain ⟨token, htoken⟩ : ∃ t : Option Component,
        t.map (·.text) = filter.parentWorkflowExecutionToken := by
      cases hft : filter.parentWorkflowExecutionToken with
      | none => exact ⟨none, rfl⟩
      | some t => exact ⟨some ⟨t, ht t hft⟩, rfl⟩
    obtain ⟨ids, hids, -, hmem⟩ := child_answers hexact hcap ⟨parent, hp⟩ token
    rw [htoken] at hids
    refine ⟨ids, hids, fun state hst hm => (hmem _).2 ⟨state, hst, rfl, ?_, ?_⟩⟩
    · obtain ⟨-, hid, -⟩ := hm.facts
      simp only [matchesListFilterIdentity, hf, Option.all_some, Bool.and_eq_true,
        decide_eq_true_eq] at hid
      obtain ⟨c, hc, hctext⟩ := Option.map_eq_some_iff.1 hid.1.1.2
      rw [hc]
      exact congrArg some (Subtype.ext hctext)
    · cases token with
      | none => exact .inl rfl
      | some t =>
        right
        obtain ⟨-, hid, -⟩ := hm.facts
        simp only [matchesListFilterIdentity, ← htoken, Option.map_some, Option.all_some,
          Bool.and_eq_true, decide_eq_true_eq] at hid
        obtain ⟨c, hc, hctext⟩ := Option.map_eq_some_iff.1 hid.1.2
        rw [hc]
        exact congrArg some (Subtype.ext hctext)

end

/-! ## Both paths -/

/-- The strings of the filter that are looked up in an index can be encoded. -/
def LookupsEncode (filter : ListFilter) (tags : Option (List JsString)) : Prop :=
  (∀ type ∈ filter.type, (encodeURIComponent type).isSome) ∧
    (∀ id ∈ filter.parentWorkflowId, (encodeURIComponent id).isSome) ∧
    (∀ token ∈ filter.parentWorkflowExecutionToken, (encodeURIComponent token).isSome) ∧
    ∀ tag ∈ tags.getD [], (encodeURIComponent tag).isSome

/-- The time ranges of the filter hold of the state when they are read as text. -/
def InTextRanges (filter : ListFilter) (state : WorkflowState) : Prop :=
  (∀ range ∈ filter.createdAt, inTextRange state.createdAt range = true) ∧
    (∀ range ∈ filter.updatedAt, inTextRange state.updatedAt range = true) ∧
    ∀ range ∈ filter.executionDeadline, ∀ deadline ∈ state.executionDeadline,
      inTextRange deadline range = true

variable {filter : ListFilter}

theorem accepted_idPrefix (h : normalizeListFilter filter = some filter) {pre : JsString}
    (hf : filter.idPrefix = some pre) : pre.all isIdPrefixUnit = true := by
  unfold normalizeListFilter at h
  split_ifs at h with hok
  have := hok.1
  simp only [listFilterObjectSchema, hf, Option.all_some, Bool.and_eq_true,
    decide_eq_true_eq] at this
  exact this.1.1.1.2.2

theorem accepted_token (h : normalizeListFilter filter = some filter) {token : JsString}
    (hf : filter.parentWorkflowExecutionToken = some token) :
    ∃ id, filter.parentWorkflowId = some id := by
  unfold normalizeListFilter at h
  split_ifs at h with hok
  cases hp : filter.parentWorkflowId with
  | none => exact (hok.2 (by simp [hf, hp])).elim
  | some id => exact ⟨id, rfl⟩

section

variable {filter : ListFilter} {tags : Option (List JsString)}

theorem candidateQueries_idSet (hnamed : StoreNamed codec.toCodec s)
    (hexact : IndexExact codec s) (hdecode : RecordsDecode codec s)
    (hcap : (records s).length ≤ MAX_LIST_SCAN_ROWS)
    (haccepted : normalizeListFilter filter = some filter) (hattr : filter.attributes = []) :
    ∀ query ∈ candidateQueries s .current filter tags, ∀ ids, query = .ok ids →
      IdSet codec s ids := by
  intro query hquery ids hids
  simp only [candidateQueries, constrainedIdQueries, visibilityQueries, idPrefixQueries, hattr,
    List.map_nil, List.append_nil, List.mem_append, List.mem_map, Option.mem_toList] at hquery
  rcases hquery with (⟨id, -, rfl⟩ | ⟨tag, -, rfl⟩) | ((((⟨x, -, rfl⟩ | ⟨x, -, rfl⟩) |
    ⟨x, -, rfl⟩) | ⟨x, -, rfl⟩) | ⟨x, -, rfl⟩) | ⟨pre, hpre, rfl⟩
  · exact child_idSet hexact hcap hids
  · exact tag_idSet hexact hids
  · cases hids
    exact status_idSet hexact _
  · exact type_idSet hexact hids
  · cases hids
    exact time_idSet hexact _ _
  · cases hids
    exact time_idSet hexact _ _
  · cases hids
    exact time_idSet hexact _ _
  · exact idPrefix_idSet hnamed hdecode (accepted_idPrefix haccepted hpre) hids

theorem candidateQueries_cover_iff (hexact : IndexExact codec s)
    (hcap : (records s).length ≤ MAX_LIST_SCAN_ROWS)
    (haccepted : normalizeListFilter filter = some filter) (hattr : filter.attributes = []) :
    (∀ query ∈ candidateQueries s .current filter tags, Covers codec s filter tags query) ↔
      LookupsEncode filter tags ∧ ∀ state, Stored codec s state →
        Matches codec s (some filter) tags state → InTextRanges filter state := by
  simp only [candidateQueries, constrainedIdQueries, visibilityQueries, idPrefixQueries, hattr,
    List.map_nil, List.append_nil, List.mem_append, List.mem_map, Option.mem_toList]
  constructor
  · intro h
    refine ⟨⟨fun type ht => ?_, fun id hid => ?_, fun token htoken => ?_, fun tag htag => ?_⟩,
      fun state hst hm => ⟨fun range hr => ?_, fun range hr => ?_, fun range hr d hd => ?_⟩⟩
    · exact (covers_type_iff hexact ht).1
        (h _ (.inr (.inl (.inl (.inl (.inl (.inr ⟨type, ht, rfl⟩)))))))
    · exact ((covers_child_iff hexact hcap hid).1 (h _ (.inl (.inl ⟨id, hid, rfl⟩)))).1
    · obtain ⟨id, hid⟩ := accepted_token haccepted htoken
      exact ((covers_child_iff hexact hcap hid).1 (h _ (.inl (.inl ⟨id, hid, rfl⟩)))).2 token
        htoken
    · exact (covers_tag_iff hexact htag).1 (h _ (.inl (.inr ⟨tag, htag, rfl⟩)))
    · obtain ⟨x, hx, hin⟩ := (covers_time_iff hexact .created range).1
        (h _ (.inr (.inl (.inl (.inl (.inr ⟨range, hr, rfl⟩)))))) state hst hm
      cases hx
      exact hin
    · obtain ⟨x, hx, hin⟩ := (covers_time_iff hexact .updated range).1
        (h _ (.inr (.inl (.inl (.inr ⟨range, hr, rfl⟩))))) state hst hm
      cases hx
      exact hin
    · obtain ⟨x, hx, hin⟩ := (covers_time_iff hexact .deadline range).1
        (h _ (.inr (.inl (.inr ⟨range, hr, rfl⟩)))) state hst hm
      cases hd.symm.trans hx
      exact hin
  · rintro ⟨⟨htype, hparent, htoken, htags⟩, hranges⟩ query hquery
    rcases hquery with (⟨id, hid, rfl⟩ | ⟨tag, htag, rfl⟩) | ((((⟨x, hx, rfl⟩ | ⟨x, hx, rfl⟩) |
      ⟨x, hx, rfl⟩) | ⟨x, hx, rfl⟩) | ⟨x, hx, rfl⟩) | ⟨pre, hpre, rfl⟩
    · exact (covers_child_iff hexact hcap hid).2 ⟨hparent id hid, htoken⟩
    · exact (covers_tag_iff hexact htag).2 (htags tag htag)
    · exact covers_status hexact hx
    · exact (covers_type_iff hexact hx).2 (htype x hx)
    · exact (covers_time_iff hexact .created x).2 fun state hst hm =>
        ⟨_, rfl, (hranges state hst hm).1 x hx⟩
    · exact (covers_time_iff hexact .updated x).2 fun state hst hm =>
        ⟨_, rfl, (hranges state hst hm).2.1 x hx⟩
    · refine (covers_time_iff hexact .deadline x).2 fun state hst hm => ?_
      obtain ⟨-, -, htime⟩ := hm.facts
      have hx' : filter.executionDeadline = some x := hx
      simp only [matchesListFilterTimeRanges, hx', Option.all_some, Bool.and_eq_true,
        Option.any_eq_true] at htime
      obtain ⟨d, hd, -⟩ := htime.2
      exact ⟨d, hd, (hranges state hst hm).2.2 x hx d hd⟩
    · exact covers_idPrefix (accepted_idPrefix haccepted hpre) hpre

end

/-- The indexed path returns the page of the full scan if and only if the looked-up strings
can be encoded and every match lies in the time ranges read as text. -/
theorem indexed_list_eq_full_scan_iff (codec : ListCodec V)
    (localeLe : JsString → JsString → Bool) (s : Store V) (filter : ListFilter)
    (p : PaginatedResult) (hnamed : StoreNamed codec.toCodec s) (hexact : IndexExact codec s)
    (haccepted : normalizeListFilter filter = some filter) (hattr : filter.attributes = [])
    (hfull : fullScanList codec localeLe s (some filter) = .ok p) :
    list codec localeLe s .current (some filter) = .ok p ↔
      LookupsEncode filter (normalizeWorkflowTags localeLe filter.tags) ∧
        ∀ state, Stored codec s state →
          Matches codec s (some filter) (normalizeWorkflowTags localeLe filter.tags) state →
            InTextRanges filter state := by
  obtain ⟨items, hitems, -⟩ := fullScanList_ok hfull
  obtain ⟨hcap, hdecode, -⟩ := fullScan_spec hnamed hitems
  rw [list_eq_fullScan_iff_covers hnamed hfull .current
    (candidateQueries_idSet hnamed hexact hdecode hcap haccepted hattr)]
  exact candidateQueries_cover_iff hexact hcap haccepted hattr

/-! ## Two listings -/

def indexedStore : List WorkflowState → Store ListedValue
  | [] => OrderedStore.empty
  | state :: states => applyBatchOperations (indexedStore states)
      (.put (KEYS.workflow state.id) (plainListCodec.encodeState state) ::
        (indexRows state).map fun k => .put k plainListCodec.emptyIndexValue)

def parentRun : WorkflowState where
  id := ⟨js "run-1", isSome_encode_run⟩
  type := ⟨js "order", isSome_encode_order⟩
  status := .completed
  createdAt := ⟨15, 2, canonical_1500⟩
  updatedAt := ⟨16, 2, canonical_1600⟩

def childRun : WorkflowState where
  id := ⟨js "run-2", by decide +kernel⟩
  type := ⟨js "order", isSome_encode_order⟩
  status := .running
  createdAt := ⟨16, 2, canonical_1600⟩
  updatedAt := ⟨17, 2, by decide⟩
  parentWorkflowId := some parentRun.id
  tags := some [⟨js "new", by decide⟩]

def runsStore : Store ListedValue := indexedStore [parentRun, childRun]

def childFilter : ListFilter where
  status := some (.one .running)
  type := some (js "order")
  parentWorkflowId := some (js "run-1")
  tags := some [js " new "]
  idPrefix := some (js "run-")
  createdAt := some { gte := some ⟨16, 2, canonical_1600⟩ }
  limit := some 10

/-- The bound 1500.5 is between the two creation times. -/
def fractionFilter : ListFilter where
  createdAt := some { gte := some ⟨15005, -1, by decide⟩ }

def childPage (filter : ListFilter) : PaginatedResult where
  items := [summaryFromState childRun]
  total := 1
  offset := 0
  limit := filter.limit.getD 1

theorem runsStore_named : StoreNamed plainListCodec.toCodec runsStore :=
  storeNamed_of_check (by decide +kernel)

theorem runsStore_exact : IndexExact plainListCodec runsStore :=
  indexExact_of_check runsStore_named (by decide +kernel)

theorem indexed_list_eq_full_scan_child :
    list plainListCodec codeUnitLe runsStore .current (some childFilter) =
        .ok (childPage childFilter) ∧
      (LookupsEncode childFilter (normalizeWorkflowTags codeUnitLe childFilter.tags) ∧
        ∀ state, Stored plainListCodec runsStore state →
          Matches plainListCodec runsStore (some childFilter)
            (normalizeWorkflowTags codeUnitLe childFilter.tags) state →
              InTextRanges childFilter state) := by
  have hlist : list plainListCodec codeUnitLe runsStore .current (some childFilter) =
      .ok (childPage childFilter) := by decide +kernel
  exact ⟨hlist, (indexed_list_eq_full_scan_iff plainListCodec codeUnitLe runsStore childFilter _
    runsStore_named runsStore_exact (by decide +kernel) rfl (by decide +kernel)).1 hlist⟩

/-- A workflow created at 1600 is lost by the bound 1500.5, which is longer as a numeral. -/
theorem fraction_bound_loses_workflow :
    StoreNamed plainListCodec.toCodec runsStore ∧ IndexExact plainListCodec runsStore ∧
      normalizeListFilter fractionFilter = some fractionFilter ∧
      fullScanList plainListCodec codeUnitLe runsStore (some fractionFilter) =
        .ok (childPage fractionFilter) ∧
      list plainListCodec codeUnitLe runsStore .current (some fractionFilter) =
        .ok ⟨[], 0, 0, 0⟩ :=
  ⟨runsStore_named, runsStore_exact, by decide +kernel, by decide +kernel, by decide +kernel⟩

end Weft.Listing
