import Weft.Listing.Candidates

/-! What the queries answer over exact indexes: the workflows that they should, except that
a time range compares padded numerals as text. -/

namespace Weft.Listing
open Weft.Js Weft.Storage Weft.Visibility Weft.Attributes Weft.Lib

universe u

variable {V : Type u} {codec : ListCodec V} {s : Store V}

/-! ## Visibility rows -/

variable {state : WorkflowState}

theorem row_id {k : JsString} (hk : k ∈ deriveWorkflowVisibilityIndexKeys state) :
    tryDecodeStorageKeyComponent (afterLastColon k) = some state.id.text := by
  obtain ⟨p, -, middle, rfl⟩ := mem_derive_isRowOf hk
  rw [afterLastColon_append state.id.colon_notMem]
  exact state.id.decode_enc

variable {pre : JsString}

variable {o : ScanOptions}

/-- A scan of visibility rows answers the workflows with a row in its range. -/
theorem mem_collect (hexact : IndexExact codec s) (hpre : ∃ p ∈ rowPrefixes, p <+: pre)
    (hlast : pre.getLast? = some 58) (hr : o.reverse = false) (hl : o.limit = none)
    (text : JsString) : text ∈ collectWorkflowIdsFromIndex s pre o ↔ ∃ state, Stored codec s state ∧
      state.id.text = text ∧ ∃ k ∈ deriveWorkflowVisibilityIndexKeys state, pre <+: k ∧
        matchesScanOptions k o = true := by
  obtain ⟨p, hp, hpp⟩ := hpre
  simp only [collectWorkflowIdsFromIndex, mem_toSet, List.mem_filterMap]
  constructor
  · rintro ⟨⟨k, v⟩, hrow, hid⟩
    obtain ⟨hget, hk, ho⟩ := (mem_scan hlast (by decide) hr hl).1 hrow
    obtain ⟨state, hst, hmem⟩ := (hexact.visibility k ⟨p, hp, hpp.trans hk⟩).1 (by simp [hget])
    rw [row_id hmem] at hid
    exact ⟨state, hst, Option.some.inj hid, k, hmem, hk, ho⟩
  · rintro ⟨state, hst, rfl, k, hmem, hk, ho⟩
    obtain ⟨v, hv⟩ := Option.isSome_iff_exists.1
      ((hexact.visibility k ⟨p, hp, hpp.trans hk⟩).2 ⟨state, hst, hmem⟩)
    exact ⟨(k, v), (mem_scan hlast (by decide) hr hl).2 ⟨hv, hk, ho⟩, row_id hmem⟩

theorem collect_idSet (hexact : IndexExact codec s) (hpre : ∃ p ∈ rowPrefixes, p <+: pre)
    (hlast : pre.getLast? = some 58) (hr : o.reverse = false) (hl : o.limit = none) :
    IdSet codec s (collectWorkflowIdsFromIndex s pre o) := by
  refine ⟨nodup_toSet _, fun text htext => ?_⟩
  obtain ⟨state, hst, hid, -⟩ := (mem_collect hexact hpre hlast hr hl text).1 htext
  exact ⟨state, hst, hid⟩

/-- For a stored workflow the answer depends on its own rows. -/
theorem stored_mem_collect (hexact : IndexExact codec s) (hpre : ∃ p ∈ rowPrefixes, p <+: pre)
    (hlast : pre.getLast? = some 58) (hr : o.reverse = false) (hl : o.limit = none)
    (hst : Stored codec s state) : state.id.text ∈ collectWorkflowIdsFromIndex s pre o ↔
      ∃ k ∈ deriveWorkflowVisibilityIndexKeys state, pre <+: k ∧ matchesScanOptions k o = true := by
  rw [mem_collect hexact hpre hlast hr hl]
  constructor
  · rintro ⟨state', hst', hid, hk⟩
    rwa [← hst'.eq_of_text hst hid]
  · intro hk
    exact ⟨state, hst, rfl, hk⟩

/-! ### Status and type -/

theorem getLast?_append_colon (a : JsString) : (a ++ [colon]).getLast? = some 58 := by
  rw [List.getLast?_append]
  rfl

theorem status_prefixed (status : WorkflowStatus) :
    ∃ p ∈ rowPrefixes, p <+: js "wf-idx-status:" ++ status.component.enc ++ [colon] :=
  ⟨js "wf-idx-status:", by simp [rowPrefixes], by
    rw [List.append_assoc]
    exact List.prefix_append _ _⟩

theorem status_idSet (hexact : IndexExact codec s) (statuses : List WorkflowStatus) :
    IdSet codec s (queryWorkflowStatusIndex s statuses) := by
  refine ⟨nodup_toSet _, fun text htext => ?_⟩
  obtain ⟨status, -, hmem⟩ := List.mem_flatMap.1 (mem_toSet.1 htext)
  exact (collect_idSet hexact (status_prefixed status) (getLast?_append_colon _) rfl rfl).stored
    text hmem

theorem status_covers (hexact : IndexExact codec s) {statuses : List WorkflowStatus}
    (hst : Stored codec s state) (hstatus : state.status ∈ statuses) :
    state.id.text ∈ queryWorkflowStatusIndex s statuses := by
  rw [queryWorkflowStatusIndex, mem_toSet, List.mem_flatMap]
  refine ⟨state.status, hstatus, ?_⟩
  rw [stored_mem_collect hexact (status_prefixed _) (getLast?_append_colon _) rfl rfl hst]
  refine ⟨_, (mem_derive_iff _ _).2 (.inl rfl), ?_, rfl⟩
  exact ⟨state.id.enc, by simp [KEYS.workflowVisibilityStatus]⟩

theorem type_prefixed (e : JsString) : ∃ p ∈ rowPrefixes, p <+: js "wf-idx-type:" ++ e ++ [colon] :=
  ⟨js "wf-idx-type:", by simp [rowPrefixes], by
    rw [List.append_assoc]
    exact List.prefix_append _ _⟩

variable {ids : List JsString}

theorem type_idSet (hexact : IndexExact codec s) {type : JsString}
    (h : queryWorkflowTypeIndex s type = .ok ids) : IdSet codec s ids := by
  obtain ⟨e, -, h⟩ := bind_eq_ok.1 h
  cases h
  exact collect_idSet hexact (type_prefixed e) (getLast?_append_colon _) rfl rfl

theorem type_covers (hexact : IndexExact codec s) {type : JsString}
    (h : queryWorkflowTypeIndex s type = .ok ids) (hst : Stored codec s state)
    (htype : state.type.text = type) : state.id.text ∈ ids := by
  obtain ⟨e, he, h⟩ := bind_eq_ok.1 h
  cases h
  rw [encodeStorageKeyComponent_ok, ← htype, state.type.encode_text] at he
  cases he
  rw [stored_mem_collect hexact (type_prefixed _) (getLast?_append_colon _) rfl rfl hst]
  refine ⟨_, (mem_derive_iff _ _).2 (.inr (.inl rfl)), ?_, rfl⟩
  exact ⟨state.id.enc, by simp [KEYS.workflowVisibilityType]⟩

/-! ### Time ranges -/

/-- The text that stands for a timestamp in a key, up to the colon. -/
def sortableText (x : JsNumber) : JsString := sortableTimestamp x ++ [colon]

/-- The range as the index reads it: bounds from zero on, compared as text. -/
def inTextRange (value : JsNumber) (range : TimeRange) : Bool :=
  (range.gt.filter isFinitePositive).all (fun b => ¬ sortableText value ≤ sortableText b) &&
    (range.gte.filter isFinitePositive).all (fun b => ¬ sortableText value < sortableText b) &&
    (range.lt.filter isFinitePositive).all (fun b => ¬ sortableText value ≥ sortableText b) &&
    (range.lte.filter isFinitePositive).all (fun b => ¬ sortableText value > sortableText b)

theorem sortableTimestamp_no_colon (x : JsNumber) : colon ∉ sortableTimestamp x := by
  intro h
  rcases List.mem_append.1 h with h | h
  · exact absurd (List.mem_replicate.1 h).2 (by decide)
  · exact absurd (toJsString_numeral x colon h) (by decide)

/-- Text of an identifier comes before the mark that closes a bucket. -/
theorem not_bucketEnd_lt (id : Component) : ¬ [(0xff : CodeUnit)] < id.enc := by
  have hunits := fun u (hu : u ∈ id.enc) => (id.enc_units hu).1
  cases henc : id.enc with
  | nil => simp
  | cons c rest =>
    have hc : c.val < 128 := hunits c (by simp [henc])
    rw [List.cons_lt_cons_iff]
    rintro (h | ⟨rfl, -⟩)
    · have : (255 : Nat) < c.val := h
      omega
    · exact absurd hc (by decide)

section

variable (pre : JsString) (x b : JsNumber) (id : Component)

theorem key_lt_bound (y : JsString) :
    pre ++ sortableTimestamp x ++ colon :: id.enc < pre ++ sortableTimestamp b ++ colon :: y ↔
      sortableText x < sortableText b ∨ sortableTimestamp x = sortableTimestamp b ∧ id.enc < y := by
  rw [List.append_assoc, List.append_assoc, Lex.append_lt_append_iff]
  exact Lex.marked_lt_iff (sortableTimestamp_no_colon x) (sortableTimestamp_no_colon b) _ _

theorem bound_lt_key (y : JsString) :
    pre ++ sortableTimestamp b ++ colon :: y < pre ++ sortableTimestamp x ++ colon :: id.enc ↔
      sortableText b < sortableText x ∨ sortableTimestamp b = sortableTimestamp x ∧ y < id.enc := by
  rw [List.append_assoc, List.append_assoc, Lex.append_lt_append_iff]
  exact Lex.marked_lt_iff (sortableTimestamp_no_colon b) (sortableTimestamp_no_colon x) _ _

theorem key_lt_bucket : pre ++ sortableTimestamp x ++ colon :: id.enc <
    pre ++ sortableTimestamp b ++ [colon] ↔ sortableText x < sortableText b := by
  rw [key_lt_bound]
  simp

theorem bucketEnd_lt_key : pre ++ sortableTimestamp b ++ [colon, 0xff] <
    pre ++ sortableTimestamp x ++ colon :: id.enc ↔ sortableText b < sortableText x := by
  rw [bound_lt_key]
  simp [not_bucketEnd_lt id]

end

theorem matches_timeRange (kind : TimeKind) (range : TimeRange) (x : JsNumber) (id : Component) :
    matchesScanOptions (kind.indexPrefix ++ sortableTimestamp x ++ colon :: id.enc)
      (timeRangeScanOptions kind range) = inTextRange x range := by
  simp only [matchesScanOptions, timeRangeScanOptions, inTextRange, Option.all_map]
  congr 1
  · congr 1
    · congr 1
      · congr 1
        funext b
        rw [decide_eq_decide, not_le, bucketEnd_lt_key, not_le]
      · congr 1
        funext b
        rw [decide_eq_decide, key_lt_bucket]
    · congr 1
      funext b
      rw [decide_eq_decide, ge_iff_le, not_le, key_lt_bucket, ge_iff_le, not_le]
  · congr 1
    funext b
    rw [decide_eq_decide, gt_iff_lt, bucketEnd_lt_key, gt_iff_lt]

def TimeKind.stamp (state : WorkflowState) : TimeKind → Option JsNumber
  | .created => some state.createdAt
  | .updated => some state.updatedAt
  | .deadline => state.executionDeadline

theorem timeKind_prefixed (kind : TimeKind) : kind.indexPrefix ∈ rowPrefixes ∧
    kind.indexPrefix.getLast? = some 58 := by
  cases kind with
  | created => decide
  | updated => decide
  | deadline => decide

theorem TimeKind.indexPrefix_injective {i j : TimeKind} (h : i.indexPrefix = j.indexPrefix) :
    i = j := by
  revert h
  cases i with
  | created => cases j <;> decide
  | updated => cases j <;> decide
  | deadline => cases j <;> decide

theorem rowPrefix_eq {p q : JsString} (hp : p ∈ rowPrefixes) (hq : q ∈ rowPrefixes)
    {rest : JsString} (h : p <+: q ++ rest) : q = p := by
  have happart : ∀ p ∈ rowPrefixes, ∀ q ∈ rowPrefixes, q = p ∨ Apart p q := by decide
  rcases happart p hp q hq with heq | hapart
  · exact heq
  · exact (not_prefix_of_apart hapart rest h).elim

/-- The row of a kind is the one that carries the stamp. -/
theorem mem_derive_kind (state : WorkflowState) (kind : TimeKind) (k : JsString) :
    (k ∈ deriveWorkflowVisibilityIndexKeys state ∧ kind.indexPrefix <+: k) ↔
      ∃ x, kind.stamp state = some x ∧
        k = kind.indexPrefix ++ sortableTimestamp x ++ colon :: state.id.enc := by
  have hkind := (timeKind_prefixed kind).1
  constructor
  · rintro ⟨hk, hpre⟩
    rcases (mem_derive_iff state k).1 hk with rfl | rfl | rfl | rfl | ⟨deadline, hd, rfl⟩
    · rw [KEYS.workflowVisibilityStatus, List.append_assoc] at hpre
      have h := rowPrefix_eq hkind (by simp [rowPrefixes]) hpre
      exact absurd h (by cases kind <;> decide)
    · rw [KEYS.workflowVisibilityType, List.append_assoc] at hpre
      have h := rowPrefix_eq hkind (by simp [rowPrefixes]) hpre
      exact absurd h (by cases kind <;> decide)
    · rw [KEYS.workflowVisibilityCreated, List.append_assoc] at hpre
      have h := rowPrefix_eq hkind (by simp [rowPrefixes]) hpre
      obtain rfl := TimeKind.indexPrefix_injective (i := .created) h
      exact ⟨_, rfl, rfl⟩
    · rw [KEYS.workflowVisibilityUpdated, List.append_assoc] at hpre
      have h := rowPrefix_eq hkind (by simp [rowPrefixes]) hpre
      obtain rfl := TimeKind.indexPrefix_injective (i := .updated) h
      exact ⟨_, rfl, rfl⟩
    · rw [KEYS.workflowVisibilityDeadline, List.append_assoc] at hpre
      have h := rowPrefix_eq hkind (by simp [rowPrefixes]) hpre
      obtain rfl := TimeKind.indexPrefix_injective (i := .deadline) h
      exact ⟨_, hd, rfl⟩
  · rintro ⟨x, hx, rfl⟩
    refine ⟨(mem_derive_iff _ _).2 ?_, ?_⟩
    · cases kind with
      | created =>
        cases hx
        exact .inr (.inr (.inl rfl))
      | updated =>
        cases hx
        exact .inr (.inr (.inr (.inl rfl)))
      | deadline => exact .inr (.inr (.inr (.inr ⟨x, hx, rfl⟩)))
    · rw [List.append_assoc]
      exact List.prefix_append _ _

theorem time_idSet (hexact : IndexExact codec s) (kind : TimeKind) (range : TimeRange) :
    IdSet codec s (queryWorkflowTimeRangeIndex s kind range) :=
  collect_idSet hexact ⟨_, (timeKind_prefixed kind).1, List.prefix_refl _⟩
    (timeKind_prefixed kind).2
    rfl rfl

/-- A workflow is in the answer if and only if its stamp is in the range read as text. -/
theorem time_mem_iff (hexact : IndexExact codec s) (kind : TimeKind) (range : TimeRange)
    (hst : Stored codec s state) : state.id.text ∈ queryWorkflowTimeRangeIndex s kind range ↔
      ∃ x, kind.stamp state = some x ∧ inTextRange x range = true := by
  rw [queryWorkflowTimeRangeIndex, stored_mem_collect hexact
    ⟨_, (timeKind_prefixed kind).1, List.prefix_refl _⟩ (timeKind_prefixed kind).2 rfl rfl hst]
  constructor
  · rintro ⟨k, hk, hpre, ho⟩
    obtain ⟨x, hx, rfl⟩ := (mem_derive_kind state kind k).1 ⟨hk, hpre⟩
    rw [matches_timeRange] at ho
    exact ⟨x, hx, ho⟩
  · rintro ⟨x, hx, ho⟩
    obtain ⟨hk, hpre⟩ := (mem_derive_kind state kind _).2 ⟨x, hx, rfl⟩
    exact ⟨_, hk, hpre, by rwa [matches_timeRange]⟩

/-! ## Records under a prefix -/

theorem isUnescaped_of_idPrefixUnit {u : CodeUnit} (h : isIdPrefixUnit u = true) :
    isUnescaped u.val = true := by
  simp only [isIdPrefixUnit, isUnescaped, Bool.or_eq_true, Bool.and_eq_true, decide_eq_true_eq,
    List.contains_cons, beq_iff_eq, List.contains_nil, Bool.false_eq_true, or_false] at h ⊢
  omega

theorem encode_idPrefix (h : pre.all isIdPrefixUnit = true) :
    encodeURIComponent pre = some pre := by
  have hunits : ∀ u ∈ pre, isUnescaped u.val = true := fun u hu =>
    isUnescaped_of_idPrefixUnit (List.all_eq_true.1 h u hu)
  have := encodeURIComponent_append hunits []
  simpa [encodeURIComponent, codePoints] using this

theorem idPrefix_answers (h : pre.all isIdPrefixUnit = true) :
    ∃ ids, queryWorkflowIdPrefixCandidates s pre = .ok ids ∧ ids.Nodup ∧
      ∀ text, text ∈ ids ↔ ∃ k, (s.get k).isSome ∧ js "wf:" ++ pre <+: k ∧
        isTopLevelWorkflowStateKey k = true ∧
          tryDecodeStorageKeyComponent (k.drop 3) = some text := by
  have hlast : ∃ u : CodeUnit, (js "wf:" ++ pre).getLast? = some u ∧ u.val < 65535 := by
    cases hp : pre.getLast? with
    | none =>
      refine ⟨58, ?_, by decide⟩
      rw [List.getLast?_append, hp]
      decide
    | some u =>
      refine ⟨u, by rw [List.getLast?_append, hp]; rfl, ?_⟩
      have hu := isUnescaped_of_idPrefixUnit
        (List.all_eq_true.1 h u (List.mem_of_getLast? hp))
      have := (isUnescaped_bounds hu).1
      omega
  obtain ⟨u, hlast, hu⟩ := hlast
  have hquery : queryWorkflowIdPrefixCandidates s pre =
      .ok (toSet ((scan s (js "wf:" ++ pre) {}).filterMap fun row =>
        if isTopLevelWorkflowStateKey row.1 then tryDecodeStorageKeyComponent (row.1.drop 3)
        else none)) := by
    rw [queryWorkflowIdPrefixCandidates, encodeStorageKeyComponent_ok.2 (encode_idPrefix h)]
    rfl
  refine ⟨_, hquery, nodup_toSet _, fun text => ?_⟩
  rw [mem_toSet, List.mem_filterMap]
  constructor
  · rintro ⟨⟨k, v⟩, hrow, hid⟩
    obtain ⟨hget, hk, -⟩ := (mem_scan hlast hu rfl rfl).1 hrow
    split_ifs at hid with htop
    exact ⟨k, by simp [hget], hk, htop, hid⟩
  · rintro ⟨k, hget, hk, htop, hid⟩
    obtain ⟨v, hv⟩ := Option.isSome_iff_exists.1 hget
    exact ⟨(k, v), (mem_scan hlast hu rfl rfl).2 ⟨hv, hk, rfl⟩, by rw [if_pos htop]; exact hid⟩

theorem idPrefix_idSet (hnamed : StoreNamed codec.toCodec s) (hdecode : RecordsDecode codec s)
    (hpre : pre.all isIdPrefixUnit = true) (h : queryWorkflowIdPrefixCandidates s pre = .ok ids) :
    IdSet codec s ids := by
  obtain ⟨ids', hids', hnodup, hmem⟩ := idPrefix_answers (s := s) hpre
  rw [h] at hids'
  obtain rfl := Except.ok.inj hids'
  refine ⟨hnodup, fun text htext => ?_⟩
  obtain ⟨k, hget, hk, htop, hid⟩ := (hmem text).1 htext
  obtain ⟨v, hv⟩ := Option.isSome_iff_exists.1 hget
  have htop' : isTopLevelKey k = true := by
    rw [isTopLevelKey, Bool.and_eq_true, List.isPrefixOf_iff_prefix]
    exact ⟨(List.prefix_append _ _).trans hk, htop⟩
  obtain ⟨id, rfl, hidstate⟩ := hnamed k v hv htop'
  obtain ⟨state, hd⟩ := Option.isSome_iff_exists.1 (hdecode id v hv)
  have hsid := hidstate state hd
  rw [drop_workflow] at hid
  refine ⟨state, ?_, ?_⟩
  · rw [Stored, hsid, stateOf, hv]
    exact hd
  · rw [hsid]
    exact Option.some.inj (id.decode_enc.symm.trans hid)

theorem idPrefix_covers (hpre : pre.all isIdPrefixUnit = true) (hst : Stored codec s state)
    (hstart : pre <+: state.id.text) :
    ∃ ids, queryWorkflowIdPrefixCandidates s pre = .ok ids ∧ state.id.text ∈ ids := by
  obtain ⟨ids, hids, -, hmem⟩ := idPrefix_answers (s := s) hpre
  refine ⟨ids, hids, (hmem _).2 ⟨KEYS.workflow state.id, ?_, ?_, ?_, ?_⟩⟩
  · obtain ⟨v, hv, -⟩ := Option.bind_eq_some_iff.1 hst
    simp [hv]
  · obtain ⟨rest, hrest⟩ := hstart
    have henc := state.id.encode_text
    rw [← hrest, encodeURIComponent_append fun u hu =>
      isUnescaped_of_idPrefixUnit (List.all_eq_true.1 hpre u hu)] at henc
    obtain ⟨e, -, he⟩ := Option.map_eq_some_iff.1 henc
    rw [KEYS.workflow, ← he, ← List.append_assoc]
    exact List.prefix_append _ _
  · have := isTopLevelKey_workflow state.id
    rw [isTopLevelKey, Bool.and_eq_true] at this
    exact this.2
  · rw [drop_workflow]
    exact state.id.decode_enc

/-! ## Tags -/

theorem component_of_encode {text e : JsString} (h : encodeStorageKeyComponent text = .ok e) :
    ∃ c : Component, c.text = text ∧ c.enc = e := by
  rw [encodeStorageKeyComponent_ok] at h
  have hsome : (encodeURIComponent text).isSome := by simp [h]
  refine ⟨⟨text, hsome⟩, rfl, ?_⟩
  exact Option.some.inj ((Component.encode_text ⟨text, hsome⟩).symm.trans h)

/-- A colon after a component marks it off from any other. -/
theorem component_eq_of_prefixed {c d : Component} {rest : JsString}
    (h : c.enc ++ [colon] <+: d.enc ++ colon :: rest) : c = d :=
  Component.enc_injective (Lex.eq_of_marked_prefixed c.colon_notMem d.colon_notMem h)

theorem tagIndex_eq (tag id : Component) :
    KEYS.tagIndex tag id = js "tag:" ++ tag.enc ++ [colon] ++ id.enc := by
  simp [KEYS.tagIndex]

theorem tag_answers (hexact : IndexExact codec s) {tag : JsString}
    (h : queryTagIndex s tag = .ok ids) : ids.Nodup ∧ ∀ text, text ∈ ids ↔
      ∃ state, Stored codec s state ∧ state.id.text = text ∧
        ∃ c ∈ state.tags.getD [], c.text = tag := by
  obtain ⟨e, he, h⟩ := bind_eq_ok.1 h
  cases h
  obtain ⟨t, rfl, rfl⟩ := component_of_encode he
  have hlast := getLast?_append_colon (js "tag:" ++ t.enc)
  have htag : ∀ k, js "tag:" ++ t.enc ++ [colon] <+: k → js "tag:" <+: k := by
    intro k hk
    rw [List.append_assoc] at hk
    exact (List.prefix_append _ _).trans hk
  refine ⟨nodup_toSet _, fun text => ?_⟩
  rw [mem_toSet, List.mem_filterMap]
  constructor
  · rintro ⟨⟨k, v⟩, hrow, hid⟩
    obtain ⟨hget, hk, -⟩ := (mem_scan hlast (by decide) rfl rfl).1 hrow
    obtain ⟨state, hst, c, hc, rfl⟩ := (hexact.tags k (htag k hk)).1 (by simp [hget])
    have hct : t = c := by
      rw [KEYS.tagIndex, List.append_assoc, List.append_assoc, List.prefix_append_right_inj] at hk
      exact component_eq_of_prefixed hk
    subst hct
    rw [tagIndex_eq, List.drop_left] at hid
    exact ⟨state, hst, Option.some.inj (state.id.decode_enc.symm.trans hid), t, hc, rfl⟩
  · rintro ⟨state, hst, rfl, c, hc, hct⟩
    obtain rfl : t = c := Subtype.ext hct.symm
    have hpre : js "tag:" ++ t.enc ++ [colon] <+: KEYS.tagIndex t state.id := by
      rw [tagIndex_eq]
      exact List.prefix_append _ _
    obtain ⟨v, hv⟩ := Option.isSome_iff_exists.1
      ((hexact.tags _ (htag _ hpre)).2 ⟨state, hst, t, hc, rfl⟩)
    refine ⟨(KEYS.tagIndex t state.id, v), (mem_scan hlast (by decide) rfl rfl).2 ⟨hv, hpre, rfl⟩,
      ?_⟩
    rw [tagIndex_eq, List.drop_left]
    exact state.id.decode_enc

theorem tag_idSet (hexact : IndexExact codec s) {tag : JsString}
    (h : queryTagIndex s tag = .ok ids) : IdSet codec s ids := by
  obtain ⟨hnodup, hmem⟩ := tag_answers hexact h
  refine ⟨hnodup, fun text htext => ?_⟩
  obtain ⟨state, hst, hid, -⟩ := (hmem text).1 htext
  exact ⟨state, hst, hid⟩

/-! ## Children -/

theorem length_toSet_le (xs : List JsString) : (toSet xs).length ≤ xs.length :=
  (List.subperm_of_subset (nodup_toSet xs) fun _ h => mem_toSet.1 h).length_le

/-- While the rows fit the cap, the set never fills up. -/
theorem foldlM_addChild (keys acc : List JsString)
    (hlen : acc.length + keys.length ≤ MAX_LIST_SCAN_ROWS) (hnodup : acc.Nodup) :
    ∃ ids, keys.foldlM addChild acc = .ok ids ∧ ids.Nodup ∧ ∀ x, x ∈ ids ↔
      x ∈ acc ∨ ∃ k ∈ keys, tryDecodeStorageKeyComponent (afterLastColon k) = some x := by
  induction keys generalizing acc with
  | nil => exact ⟨acc, rfl, hnodup, by simp⟩
  | cons k keys ih =>
    rw [List.length_cons] at hlen
    rw [List.foldlM_cons, addChild, if_neg (by omega)]
    split
    · rename_i id hid
      have hlen' := length_toSet_le (acc ++ [id])
      rw [List.length_append, List.length_singleton] at hlen'
      obtain ⟨ids, hids, hn, hmem⟩ := ih (toSet (acc ++ [id])) (by omega) (nodup_toSet _)
      refine ⟨ids, hids, hn, fun x => ?_⟩
      rw [hmem, mem_toSet, List.mem_append, List.mem_singleton, eq_comm (a := x) (b := id)]
      simp only [List.mem_cons, exists_eq_or_imp, hid, Option.some.injEq, or_assoc]
    · rename_i hid
      obtain ⟨ids, hids, hn, hmem⟩ := ih acc (by omega) hnodup
      refine ⟨ids, hids, hn, fun x => ?_⟩
      rw [hmem]
      simp [hid]

/-- The prefix of the rows of one parent, or of one of its runs. -/
def childPrefix (parent : Component) (token : Option Component) : JsString :=
  js "child-by-parent:" ++ parent.enc ++ [colon] ++
    (token.map fun t => t.enc ++ [colon]).getD []

theorem childKey_eq (parent : Component) (token : Option Component) (id : Component) :
    KEYS.childWorkflowByParent parent token id = childPrefix parent token ++ id.enc := by
  simp [KEYS.childWorkflowByParent, childPrefix]

theorem childPrefix_last (parent : Component) (token : Option Component) :
    (childPrefix parent token).getLast? = some 58 := by
  cases token with
  | none =>
    rw [childPrefix, Option.map_none, Option.getD_none, List.append_nil]
    exact getLast?_append_colon _
  | some t =>
    rw [childPrefix, Option.map_some, Option.getD_some, ← List.append_assoc]
    exact getLast?_append_colon _

theorem childKey_id (parent : Component) (token : Option Component) (id : Component) :
    tryDecodeStorageKeyComponent
      (afterLastColon (KEYS.childWorkflowByParent parent token id)) = some id.text := by
  obtain ⟨a, ha⟩ : ∃ a, childPrefix parent token = a ++ [colon] := by
    have hlast := childPrefix_last parent token
    exact ⟨_, (List.dropLast_append_getLast? _ hlast).symm⟩
  rw [childKey_eq, ha, List.append_assoc, List.singleton_append,
    afterLastColon_append id.colon_notMem]
  exact id.decode_enc

/-- Under the prefix of a parent stand its children, and with a token those of that run. -/
theorem childPrefix_iff (parent : Component) (token : Option Component) (parent' : Component)
    (token' : Option Component) (id : Component) :
    childPrefix parent token <+: KEYS.childWorkflowByParent parent' token' id ↔
      parent' = parent ∧ (token = none ∨ token' = token) := by
  rw [childKey_eq, childPrefix, childPrefix]
  simp only [List.append_assoc, List.prefix_append_right_inj]
  constructor
  · intro h
    obtain rfl : parent = parent' := by
      refine component_eq_of_prefixed (List.IsPrefix.trans ?_ h)
      rw [← List.append_assoc]
      exact List.prefix_append _ _
    refine ⟨rfl, ?_⟩
    simp only [List.prefix_append_right_inj] at h
    cases token with
    | none => exact .inl rfl
    | some t =>
      right
      simp only [Option.map_some, Option.getD_some] at h
      cases token' with
      | none =>
        exact (id.colon_notMem (h.subset (by simp))).elim
      | some t' =>
        simp only [Option.map_some, Option.getD_some, List.append_assoc,
          List.singleton_append] at h
        rw [component_eq_of_prefixed h]
  · rintro ⟨rfl, rfl | rfl⟩
    · simp
    · simp

theorem child_rows (hexact : IndexExact codec s) (parent : Component) (token : Option Component)
    {k : JsString} {v : V} (hrow : (k, v) ∈ scan s (childPrefix parent token) {}) :
    ∃ state, Stored codec s state ∧ state.parentWorkflowId = some parent ∧
      (token = none ∨ state.parentWorkflowExecutionToken = token) ∧
      k = KEYS.childWorkflowByParent parent state.parentWorkflowExecutionToken state.id := by
  obtain ⟨hget, hk, -⟩ := (mem_scan (childPrefix_last parent token) (by decide) rfl rfl).1 hrow
  have hfamily : js "child-by-parent:" <+: k := by
    refine List.IsPrefix.trans ?_ hk
    rw [childPrefix, List.append_assoc, List.append_assoc]
    exact List.prefix_append _ _
  obtain ⟨state, hst, parent', hparent, rfl⟩ := (hexact.children k hfamily).1 (by simp [hget])
  obtain ⟨rfl, htoken⟩ := (childPrefix_iff _ _ _ _ _).1 hk
  exact ⟨state, hst, hparent, htoken, rfl⟩

/-- Each child has one row, so the rows are no more than the records. -/
theorem child_rows_length (hexact : IndexExact codec s) (parent : Component)
    (token : Option Component) :
    (scan s (childPrefix parent token) {}).length ≤ (records s).length := by
  have hsorted : (scan s (childPrefix parent token) {}).Pairwise fun a b => a.1 < b.1 := by
    rw [scan_unlimited s _ _ rfl rfl]
    exact OrderedStore.range_sorted _ _
  have hset : IdSet codec s ((scan s (childPrefix parent token) {}).map fun row =>
      (tryDecodeStorageKeyComponent (afterLastColon row.1)).getD []) := by
    constructor
    · rw [List.Nodup, List.pairwise_map]
      refine hsorted.imp_of_mem ?_
      rintro ⟨k, v⟩ ⟨k', v'⟩ hrow hrow' hlt heq
      obtain ⟨state, hst, -, -, rfl⟩ := child_rows hexact parent token hrow
      obtain ⟨state', hst', -, -, rfl⟩ := child_rows hexact parent token hrow'
      simp only [childKey_id, Option.getD_some] at heq
      rw [hst.eq_of_text hst' heq] at hlt
      exact lt_irrefl _ hlt
    · intro text htext
      obtain ⟨⟨k, v⟩, hrow, rfl⟩ := List.mem_map.1 htext
      obtain ⟨state, hst, -, -, rfl⟩ := child_rows hexact parent token hrow
      exact ⟨state, hst, by simp [childKey_id]⟩
  simpa using hset.length_le

theorem encode_component (c : Component) : encodeStorageKeyComponent c.text = .ok c.enc :=
  encodeStorageKeyComponent_ok.2 c.encode_text

theorem child_query_eq (parent : Component) (token : Option Component) :
    queryChildWorkflowIndex s parent.text (token.map (·.text)) =
      ((scan s (childPrefix parent token) {}).map (·.1)).foldlM addChild [] := by
  cases token with
  | none =>
    rw [queryChildWorkflowIndex, encode_component]
    rfl
  | some t =>
    simp only [queryChildWorkflowIndex, encode_component, Option.map_some]
    rfl

variable {token : Option JsString}

theorem child_query_ok {parent : JsString} (h : queryChildWorkflowIndex s parent token = .ok ids) :
    ∃ (p : Component) (t : Option Component), p.text = parent ∧ t.map (·.text) = token := by
  obtain ⟨e, he, hrest⟩ := bind_eq_ok.1 h
  obtain ⟨p, rfl, -⟩ := component_of_encode he
  cases token with
  | none => exact ⟨p, none, rfl, rfl⟩
  | some token =>
    obtain ⟨e', he', -⟩ := bind_eq_ok.1 hrest
    cases hok : encodeStorageKeyComponent token with
    | error err =>
      rw [hok] at he'
      cases he'
    | ok e'' =>
      obtain ⟨t, rfl, -⟩ := component_of_encode hok
      exact ⟨p, some t, rfl, rfl⟩

theorem child_answers (hexact : IndexExact codec s)
    (hcap : (records s).length ≤ MAX_LIST_SCAN_ROWS) (parent : Component)
    (token : Option Component) :
    ∃ ids, queryChildWorkflowIndex s parent.text (token.map (·.text)) = .ok ids ∧ ids.Nodup ∧
      ∀ text, text ∈ ids ↔ ∃ state, Stored codec s state ∧ state.id.text = text ∧
        state.parentWorkflowId = some parent ∧
        (token = none ∨ state.parentWorkflowExecutionToken = token) := by
  have hlen := (child_rows_length hexact parent token).trans hcap
  obtain ⟨ids, hids, hnodup, hmem⟩ := foldlM_addChild
    ((scan s (childPrefix parent token) {}).map (·.1)) [] (by simpa using hlen) List.nodup_nil
  refine ⟨ids, by rw [child_query_eq]; exact hids, hnodup, fun text => ?_⟩
  rw [hmem]
  constructor
  · rintro (h | ⟨k, hk, hid⟩)
    · cases h
    · obtain ⟨⟨k, v⟩, hrow, rfl⟩ := List.mem_map.1 hk
      obtain ⟨state, hst, hparent, htoken, rfl⟩ := child_rows hexact parent token hrow
      rw [childKey_id] at hid
      exact ⟨state, hst, Option.some.inj hid, hparent, htoken⟩
  · rintro ⟨state, hst, rfl, hparent, htoken⟩
    right
    have hpre := (childPrefix_iff parent token parent state.parentWorkflowExecutionToken
      state.id).2 ⟨rfl, htoken⟩
    have hfamily : js "child-by-parent:" <+:
        KEYS.childWorkflowByParent parent state.parentWorkflowExecutionToken state.id := by
      rw [KEYS.childWorkflowByParent, List.append_assoc]
      exact List.prefix_append _ _
    obtain ⟨v, hv⟩ := Option.isSome_iff_exists.1
      ((hexact.children _ hfamily).2 ⟨state, hst, parent, hparent, rfl⟩)
    have hrow := (mem_scan (childPrefix_last parent token) (by decide) (o := {}) rfl rfl).2
      ⟨hv, hpre, rfl⟩
    exact ⟨_, List.mem_map.2 ⟨_, hrow, rfl⟩, childKey_id _ _ _⟩

theorem child_idSet (hexact : IndexExact codec s) (hcap : (records s).length ≤ MAX_LIST_SCAN_ROWS)
    {parent : JsString} (h : queryChildWorkflowIndex s parent token = .ok ids) :
    IdSet codec s ids := by
  obtain ⟨p, t, rfl, rfl⟩ := child_query_ok h
  obtain ⟨ids', hids', hnodup, hmem⟩ := child_answers hexact hcap p t
  rw [h] at hids'
  obtain rfl := Except.ok.inj hids'
  refine ⟨hnodup, fun text htext => ?_⟩
  obtain ⟨state, hst, hid, -⟩ := (hmem text).1 htext
  exact ⟨state, hst, hid⟩

end Weft.Listing
