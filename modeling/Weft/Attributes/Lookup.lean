import Weft.Listing.Candidates

/-! What the attribute index answers. A row carries a name, a value and an identifier in one
text, and the lookup compares that text: it may differ from the comparison of the values where
one text begins the other, where two zeros are equal, or where a colon is part of a name or of
a value. -/

namespace Weft.Attributes
open Weft.Js Weft.Storage Weft.Visibility Weft.Listing Weft.Lib

universe u

variable {V : Type u}

/-- The rows of the index are those of the stored attributes. -/
def AttributeIndexExact (codec : ListCodec V) (s : Store V) : Prop :=
  ∀ k, js "idx:" <+: k → ((s.get k).isSome ↔ ∃ id record, attributesOf codec s id = some record ∧
    k ∈ attributeRows id record)

/-! ## What a lookup reads -/

/-- The text of the row inside the bounds, given that the value is: where one text begins the
other, the separator stands in the place of the next unit. -/
structure Separated (filter : AttributeFilter) (id : Component) (e : JsString) : Prop where
  gte : ∀ b ∈ filter.gte, ∀ c w, e = encodeAttributeValue b ++ c :: w → colon ≤ c
  gt : ∀ b ∈ filter.gt, ∀ c w, e = encodeAttributeValue b ++ c :: w →
    colon < c ∨ c = colon ∧ [0xff] < w ++ colon :: id.enc
  lte : ∀ b ∈ filter.lte, ∀ c w, encodeAttributeValue b = e ++ c :: w →
    colon < c ∨ c = colon ∧ id.enc ≤ w ++ [colon, 0xff]
  lt : ∀ b ∈ filter.lt, ∀ c w, encodeAttributeValue b = e ++ c :: w →
    colon < c ∨ c = colon ∧ id.enc < w ++ [colon]

/-- A stored value that the filter wants and the lookup reaches. -/
def Reaches (filter : AttributeFilter) (id : Component) (scalar : Scalar) : Prop :=
  match attributeFilterExactValues filter with
  | some values => ∃ value ∈ values, encodeAttributeValue value = encodeAttributeValue scalar
  | none => encodedAttributeValueSatisfiesRange (encodeAttributeValue scalar) filter = true ∧
      Separated filter id (encodeAttributeValue scalar)

/-- A row that the lookup reads as `text` although it carries another name or value. -/
def Strays (codec : ListCodec V) (s : Store V) (filter : AttributeFilter) (text : JsString) :
    Prop :=
  match attributeFilterExactValues filter with
  | some values => ∃ value ∈ values, ∃ id record name scalar more,
      attributesOf codec s id = some record ∧ HasValue record name scalar ∧
        (name ≠ filter.key ∨ more ≠ []) ∧
        rowText name scalar ++ [colon] = rowText filter.key value ++ colon :: more ∧
        tryDecodeStorageKeyComponent (more ++ id.enc) = some text
  | none => ∃ id record name scalar, attributesOf codec s id = some record ∧
      HasValue record name scalar ∧
        (name ≠ filter.key ∨
          encodedAttributeValueSatisfiesRange (encodeAttributeValue scalar) filter = false) ∧
        filter.key ++ [colon] <+: rowText name scalar ∧
        matchesScanOptions (KEYS.attributeIndex name (encodeAttributeValue scalar) id)
          (attributeRangeScanOptions filter) = true ∧ id.text = text

/-! ### Bounds -/

section

variable {b e : JsString} (i : JsString)

theorem gte_separated (h : b ≤ e) :
    b ++ [colon] ≤ e ++ colon :: i ↔ ∀ c w, e = b ++ c :: w → colon ≤ c := by
  rcases h.eq_or_lt with rfl | hlt
  · rw [Lex.append_le_append_iff]
    exact iff_of_true (Lex.le_append [colon] i) fun c w heq => (Lex.ne_append_cons b c w heq).elim
  · simp only [Lex.append_le_append_iff_of_lt hlt, Lex.cons_le_cons_iff, Lex.nil_le, and_true,
      ← le_iff_lt_or_eq]

theorem gt_separated (h : b < e) : b ++ [colon, 0xff] < e ++ colon :: i ↔
      ∀ c w, e = b ++ c :: w → colon < c ∨ c = colon ∧ [0xff] < w ++ colon :: i := by
  simp only [Lex.append_lt_append_iff_of_lt h, List.cons_lt_cons_iff, eq_comm (a := colon)]

theorem lte_separated (h : e ≤ b) (hi : i ≤ [0xff]) : e ++ colon :: i ≤ b ++ [colon, 0xff] ↔
      ∀ c w, b = e ++ c :: w → colon < c ∨ c = colon ∧ i ≤ w ++ [colon, 0xff] := by
  rcases h.eq_or_lt with rfl | hlt
  · rw [Lex.append_le_append_iff, Lex.cons_le_cons_iff]
    exact iff_of_true (.inr ⟨rfl, hi⟩) fun c w heq => (Lex.ne_append_cons e c w heq).elim
  · simp only [Lex.append_le_append_iff_of_lt hlt, Lex.cons_le_cons_iff, eq_comm (a := colon)]

theorem lt_separated (h : e < b) : e ++ colon :: i < b ++ [colon] ↔
      ∀ c w, b = e ++ c :: w → colon < c ∨ c = colon ∧ i < w ++ [colon] := by
  simp only [Lex.append_lt_append_iff_of_lt h, List.cons_lt_cons_iff, eq_comm (a := colon)]

end

theorem enc_le (id : Component) : id.enc ≤ [0xff] := by
  cases h : id.enc with
  | nil => exact Lex.nil_le _
  | cons u e =>
    have hu := (id.enc_units (h ▸ List.mem_cons_self)).1
    rw [Lex.cons_le_cons_iff]
    left
    rw [Fin.lt_def]
    show u.val < 255
    omega

variable {filter : AttributeFilter} {id : Component} {scalar : Scalar}

/-- A value inside the bounds has its row in the scan if and only if the separator keeps it
there. -/
theorem inScan_iff_separated
    (h : encodedAttributeValueSatisfiesRange (encodeAttributeValue scalar) filter = true) :
    matchesScanOptions (KEYS.attributeIndex filter.key (encodeAttributeValue scalar) id)
        (attributeRangeScanOptions filter) = true ↔
      Separated filter id (encodeAttributeValue scalar) := by
  have hkey : KEYS.attributeIndex filter.key (encodeAttributeValue scalar) id =
      (js "idx:" ++ filter.key ++ [colon]) ++ (encodeAttributeValue scalar ++ colon :: id.enc) := by
    simp [KEYS.attributeIndex]
  simp only [encodedAttributeValueSatisfiesRange, Bool.and_eq_true, Option.all_eq_true,
    decide_eq_true_eq, not_lt, not_le, gt_iff_lt, ge_iff_le] at h
  obtain ⟨⟨⟨hgte, hgt⟩, hlte⟩, hlt⟩ := h
  simp only [matchesScanOptions, attributeRangeScanOptions, Bool.and_eq_true, Option.all_eq_true,
    Option.map_eq_some_iff, forall_exists_index, and_imp, forall_apply_eq_imp_iff₂,
    decide_eq_true_eq, not_lt, not_le, gt_iff_lt, ge_iff_le, hkey]
  simp only [List.append_assoc _ _ [colon], List.append_assoc _ _ [colon, 0xff],
    Lex.append_lt_append_iff, Lex.append_le_append_iff]
  constructor
  · rintro ⟨⟨⟨h1, h2⟩, h3⟩, h4⟩
    exact ⟨fun b hb => (gte_separated _ (hgte b hb)).1 (h2 b hb),
      fun b hb => (gt_separated _ (hgt b hb)).1 (h1 b hb),
      fun b hb => (lte_separated _ (hlte b hb) (enc_le id)).1 (h4 b hb),
      fun b hb => (lt_separated _ (hlt b hb)).1 (h3 b hb)⟩
  · intro hsep
    exact ⟨⟨⟨fun b hb => (gt_separated _ (hgt b hb)).2 (hsep.gt b hb),
      fun b hb => (gte_separated _ (hgte b hb)).2 (hsep.gte b hb)⟩,
      fun b hb => (lt_separated _ (hlt b hb)).2 (hsep.lt b hb)⟩,
      fun b hb => (lte_separated _ (hlte b hb) (enc_le id)).2 (hsep.lte b hb)⟩

/-! ### Rows under a prefix -/

theorem lookup_last (key : JsString) : (js "idx:" ++ key ++ [colon]).getLast? = some 58 := by
  rw [List.getLast?_append]
  rfl

/-- A lookup for a text that ends at a colon meets a row up to the identifier. -/
theorem prefix_row_iff {p name : JsString} :
    js "idx:" ++ p ++ [colon] <+: KEYS.attributeIndex name (encodeAttributeValue scalar) id ↔
      ∃ more, rowText name scalar ++ [colon] = p ++ colon :: more := by
  rw [attributeIndex_eq, List.append_assoc, List.prefix_append_right_inj,
    Lex.marked_prefix_iff id.colon_notMem]
  constructor
  · rintro ⟨more, h⟩
    exact ⟨more, by rw [← h]; simp⟩
  · rintro ⟨more, h⟩
    exact ⟨more, by rw [h]; simp⟩

theorem drop_row {p name more : JsString}
    (h : rowText name scalar ++ [colon] = p ++ colon :: more) :
    (KEYS.attributeIndex name (encodeAttributeValue scalar) id).drop
      (js "idx:" ++ p ++ [colon]).length = more ++ id.enc := by
  have hrow : KEYS.attributeIndex name (encodeAttributeValue scalar) id =
      (js "idx:" ++ p ++ [colon]) ++ (more ++ id.enc) := by
    have hid : rowText name scalar ++ colon :: id.enc = rowText name scalar ++ [colon] ++
      id.enc := by
      simp
    rw [attributeIndex_eq, hid, h]
    simp
  rw [hrow, List.drop_left]

variable {codec : ListCodec V} {s : Store V}

/-- The rows that a scan for a text finds, in an exact index. -/
theorem mem_scan_rows (hexact : AttributeIndexExact codec s) {p : JsString} {o : ScanOptions}
    (hr : o.reverse = false) (hl : o.limit = none) {k : JsString} :
    (∃ v, (k, v) ∈ scan s (js "idx:" ++ p ++ [colon]) o) ↔
      ∃ id record name scalar more, attributesOf codec s id = some record ∧
        HasValue record name scalar ∧ rowText name scalar ++ [colon] = p ++ colon :: more ∧
        k = KEYS.attributeIndex name (encodeAttributeValue scalar) id ∧
        matchesScanOptions k o = true := by
  have hidx : js "idx:" <+: js "idx:" ++ p ++ [colon] := by
    rw [List.append_assoc]
    exact List.prefix_append _ _
  constructor
  · rintro ⟨v, hmem⟩
    obtain ⟨hget, hpre, ho⟩ := (mem_scan (lookup_last p) (by decide) hr hl).1 hmem
    obtain ⟨id, record, hrec, hrow⟩ := (hexact k (hidx.trans hpre)).1 (by simp [hget])
    obtain ⟨name, scalar, hvalue, rfl⟩ := mem_attributeRows.1 hrow
    obtain ⟨more, hmore⟩ := prefix_row_iff.1 hpre
    exact ⟨id, record, name, scalar, more, hrec, hvalue, hmore, rfl, ho⟩
  · rintro ⟨id, record, name, scalar, more, hrec, hvalue, hmore, rfl, ho⟩
    have hpre : js "idx:" ++ p ++ [colon] <+:
        KEYS.attributeIndex name (encodeAttributeValue scalar) id := prefix_row_iff.2 ⟨more, hmore⟩
    obtain ⟨v, hv⟩ := Option.isSome_iff_exists.1 ((hexact _ (hidx.trans hpre)).2
      ⟨id, record, hrec, mem_attributeRows.2 ⟨name, scalar, hvalue, rfl⟩⟩)
    exact ⟨v, (mem_scan (lookup_last p) (by decide) hr hl).2 ⟨hv, hpre, ho⟩⟩

/-! ### Answers -/

variable {text : JsString}

theorem mem_exactMatches (hexact : AttributeIndexExact codec s) {key : JsString}
    {values : List Scalar} : text ∈ collectExactAttributeMatches s key values ↔ ∃ value ∈ values,
      ∃ id record name scalar more, attributesOf codec s id = some record ∧
        HasValue record name scalar ∧
        rowText name scalar ++ [colon] = rowText key value ++ colon :: more ∧
        tryDecodeStorageKeyComponent (more ++ id.enc) = some text := by
  simp only [collectExactAttributeMatches, List.mem_flatMap, List.mem_filterMap]
  refine exists_congr fun value => and_congr_right fun _ => ?_
  have hpre : js "idx:" ++ key ++ [colon] ++ encodeAttributeValue value ++ [colon] =
      js "idx:" ++ rowText key value ++ [colon] := by
    simp [rowText]
  rw [hpre]
  constructor
  · rintro ⟨⟨k, v⟩, hmem, hdec⟩
    obtain ⟨id, record, name, scalar, more, hrec, hvalue, hmore, rfl, -⟩ :=
      (mem_scan_rows hexact rfl rfl).1 ⟨v, hmem⟩
    rw [drop_row hmore] at hdec
    exact ⟨id, record, name, scalar, more, hrec, hvalue, hmore, hdec⟩
  · rintro ⟨id, record, name, scalar, more, hrec, hvalue, hmore, hdec⟩
    obtain ⟨v, hmem⟩ := (mem_scan_rows hexact (o := {}) rfl rfl).2
      ⟨id, record, name, scalar, more, hrec, hvalue, hmore, rfl, rfl⟩
    refine ⟨(_, v), hmem, ?_⟩
    rw [drop_row hmore]
    exact hdec

/-- A row is read by a range only if its name is followed by a value. -/
theorem range_reading {key name more : JsString} (id : Component)
    (h : rowText name scalar ++ [colon] = key ++ colon :: more) (text : JsString) :
    (if (more ++ id.enc).contains colon then
        tryDecodeStorageKeyComponent (afterLastColon (more ++ id.enc)) else none) = some text ↔
      key ++ [colon] <+: rowText name scalar ∧ id.text = text := by
  cases hlast : more.getLast? with
  | none =>
    obtain rfl := List.getLast?_eq_none_iff.1 hlast
    have hkey : rowText name scalar = key := List.append_cancel_right h
    have hno : ([] ++ id.enc).contains colon = false := by
      rw [List.nil_append, List.contains_eq_mem, decide_eq_false_iff_not]
      exact id.colon_notMem
    rw [hno, hkey]
    simp only [Bool.false_eq_true, if_false, reduceCtorEq, false_iff, not_and]
    intro hpre
    have hlen := hpre.length_le
    rw [List.length_append, List.length_singleton] at hlen
    omega
  | some u =>
    have hu : u = colon := by
      have hl := congrArg List.getLast? h
      rw [List.getLast?_concat, List.getLast?_append, List.getLast?_cons, hlast] at hl
      exact (Option.some.inj hl).symm
    obtain ⟨middle, rfl⟩ : ∃ middle, more = middle ++ [colon] :=
      ⟨more.dropLast, by rw [← hu, List.dropLast_append_getLast? u hlast]⟩
    have hrow : rowText name scalar = key ++ colon :: middle := by
      have h' : rowText name scalar ++ [colon] = key ++ colon :: middle ++ [colon] := by
        rw [h]
        simp
      exact List.append_cancel_right h'
    have hpre : key ++ [colon] <+: rowText name scalar := ⟨middle, by rw [hrow]; simp⟩
    have hyes : (middle ++ [colon] ++ id.enc).contains colon = true := by
      simp
    rw [hyes, if_pos rfl, List.append_assoc, List.singleton_append,
      afterLastColon_append id.colon_notMem]
    have hdec : tryDecodeStorageKeyComponent id.enc = some id.text := id.decode_enc
    rw [hdec, Option.some.injEq]
    exact ⟨fun htext => ⟨hpre, htext⟩, fun h => h.2⟩

theorem mem_rangeMatches (hexact : AttributeIndexExact codec s) :
    text ∈ collectRangeAttributeMatches s filter ↔ ∃ id record name scalar,
      attributesOf codec s id = some record ∧ HasValue record name scalar ∧
        filter.key ++ [colon] <+: rowText name scalar ∧
        matchesScanOptions (KEYS.attributeIndex name (encodeAttributeValue scalar) id)
          (attributeRangeScanOptions filter) = true ∧ id.text = text := by
  simp only [collectRangeAttributeMatches, List.mem_filterMap]
  constructor
  · rintro ⟨⟨k, v⟩, hmem, hread⟩
    obtain ⟨id, record, name, scalar, more, hrec, hvalue, hmore, rfl, ho⟩ :=
      (mem_scan_rows hexact rfl rfl).1 ⟨v, hmem⟩
    rw [drop_row hmore] at hread
    obtain ⟨hpre, htext⟩ := (range_reading id hmore text).1 hread
    exact ⟨id, record, name, scalar, hrec, hvalue, hpre, ho, htext⟩
  · rintro ⟨id, record, name, scalar, hrec, hvalue, ⟨middle, hmiddle⟩, ho, htext⟩
    have hmore : rowText name scalar ++ [colon] = filter.key ++ colon :: (middle ++ [colon]) := by
      rw [← hmiddle]
      simp
    obtain ⟨v, hmem⟩ := (mem_scan_rows hexact rfl rfl).2
      ⟨id, record, name, scalar, _, hrec, hvalue, hmore, rfl, ho⟩
    refine ⟨(_, v), hmem, ?_⟩
    rw [drop_row hmore]
    exact (range_reading id hmore text).2 ⟨⟨middle, hmiddle⟩, htext⟩

/-- The lookup answers with the workflows that it reaches and with those it strays to. -/
theorem mem_queryAttributeIndex (hexact : AttributeIndexExact codec s) :
    text ∈ queryAttributeIndex s filter ↔
      (∃ id record scalar, attributesOf codec s id = some record ∧
        HasValue record filter.key scalar ∧ Reaches filter id scalar ∧ id.text = text) ∨
      Strays codec s filter text := by
  rw [queryAttributeIndex, mem_toSet]
  cases hvalues : attributeFilterExactValues filter with
  | some values =>
    simp only [mem_exactMatches hexact, Reaches, Strays, hvalues]
    constructor
    · rintro ⟨value, hmem, id, record, name, scalar, more, hrec, hvalue, hmore, hdec⟩
      by_cases hplain : name ≠ filter.key ∨ more ≠ []
      · exact .inr ⟨value, hmem, id, record, name, scalar, more, hrec, hvalue, hplain, hmore, hdec⟩
      · rw [not_or, not_ne_iff, not_ne_iff] at hplain
        obtain ⟨rfl, rfl⟩ := hplain
        have htext : rowText filter.key scalar = rowText filter.key value :=
          List.append_cancel_right hmore
        have henc := List.tail_eq_of_cons_eq (List.append_cancel_left htext)
        rw [List.nil_append] at hdec
        exact .inl ⟨id, record, scalar, hrec, hvalue, ⟨value, hmem, henc.symm⟩,
          Option.some.inj (id.decode_enc.symm.trans hdec)⟩
    · rintro (⟨id, record, scalar, hrec, hvalue, ⟨value, hmem, henc⟩, rfl⟩ |
        ⟨value, hmem, id, record, name, scalar, more, hrec, hvalue, -, hmore, hdec⟩)
      · refine ⟨value, hmem, id, record, filter.key, scalar, [], hrec, hvalue, ?_, id.decode_enc⟩
        rw [rowText, rowText, henc]
      · exact ⟨value, hmem, id, record, name, scalar, more, hrec, hvalue, hmore, hdec⟩
  | none =>
    simp only [mem_rangeMatches hexact, Reaches, Strays, hvalues]
    constructor
    · rintro ⟨id, record, name, scalar, hrec, hvalue, hpre, ho, htext⟩
      by_cases hplain : name ≠ filter.key ∨
          encodedAttributeValueSatisfiesRange (encodeAttributeValue scalar) filter = false
      · exact .inr ⟨id, record, name, scalar, hrec, hvalue, hplain, hpre, ho, htext⟩
      · rw [not_or, not_ne_iff, Bool.not_eq_false] at hplain
        obtain ⟨rfl, hrange⟩ := hplain
        exact .inl ⟨id, record, scalar, hrec, hvalue,
          ⟨hrange, (inScan_iff_separated hrange).1 ho⟩, htext⟩
    · rintro (⟨id, record, scalar, hrec, hvalue, ⟨hrange, hsep⟩, htext⟩ |
        ⟨id, record, name, scalar, hrec, hvalue, -, hpre, ho, htext⟩)
      · exact ⟨id, record, filter.key, scalar, hrec, hvalue,
          ⟨encodeAttributeValue scalar, by simp [rowText]⟩,
          (inScan_iff_separated hrange).2 hsep, htext⟩
      · exact ⟨id, record, name, scalar, hrec, hvalue, hpre, ho, htext⟩

/-! ## Lookups that lose nothing -/

/-- Every matching workflow is reached by the index, or strayed to. -/
def NothingLost (codec : ListCodec V) (s : Store V) (filter : AttributeFilter) : Prop :=
  ∀ id record, attributesOf codec s id = some record →
    matchesAttributeFilter record filter = true →
      (∃ scalar, HasValue record filter.key scalar ∧ Reaches filter id scalar) ∨
        Strays codec s filter id.text

theorem covers_iff_nothingLost (hexact : AttributeIndexExact codec s) (filter : AttributeFilter) :
    (∀ id record, attributesOf codec s id = some record →
        matchesAttributeFilter record filter = true → id.text ∈ queryAttributeIndex s filter) ↔
      NothingLost codec s filter := by
  refine forall_congr' fun id => forall_congr' fun record => forall_congr' fun hrec =>
    forall_congr' fun _ => ?_
  rw [mem_queryAttributeIndex hexact]
  refine or_congr_left ⟨?_, ?_⟩
  · rintro ⟨id', record', scalar, hrec', hvalue, hreach, htext⟩
    obtain rfl : id' = id := Subtype.ext htext
    rw [hrec] at hrec'
    obtain rfl := Option.some.inj hrec'
    exact ⟨scalar, hvalue, hreach⟩
  · rintro ⟨scalar, hvalue, hreach⟩
    exact ⟨id, record, scalar, hrec, hvalue, hreach, rfl⟩

section

variable {localeLe : JsString → JsString → Bool} {watermark : WorkflowVisibilityWatermark}
  {filter : AttributeFilter}

def attributeListFilter (filter : AttributeFilter) : ListFilter := { attributes := [filter] }

theorem resolve_attribute : resolveListCandidateIds s watermark (some (attributeListFilter filter))
    (normalizeWorkflowTags localeLe none) = .ok (some (queryAttributeIndex s filter)) := by
  have hqueries : candidateQueries s watermark (attributeListFilter filter)
      (normalizeWorkflowTags localeLe none) = [queryAttributeIndex s filter].map .ok := by
    cases watermark with
    | current => rfl
    | stale => rfl
  exact resolve_eq watermark hqueries

theorem encodable_of_list {p : PaginatedResult}
    (h : list codec localeLe s watermark (some (attributeListFilter filter)) = .ok p) :
    ∀ text ∈ queryAttributeIndex s filter, (encodeURIComponent text).isSome := by
  obtain ⟨ids, hids, h⟩ := bind_eq_ok.1 h
  rw [Option.bind_some, attributeListFilter.eq_1] at hids
  cases resolve_attribute.symm.trans hids
  obtain ⟨items, hitems, -⟩ := bind_eq_ok.1 h
  exact encodable_of_collect hitems

theorem matches_attribute {state : WorkflowState} {tags : Option (List JsString)}
    (h : Matches codec s (some (attributeListFilter filter)) tags state) :
    ∃ record, attributesOf codec s state.id = some record ∧
      matchesAttributeFilter record filter = true := by
  simp only [Matches, matchesListFilter, matchesListFilterAttributes, attributeListFilter,
    Option.all_some, Bool.and_eq_true, Bool.or_eq_true, decide_eq_true_eq, reduceCtorEq,
    false_or, Option.any_eq_true, List.all_cons, List.all_nil, Bool.and_true] at h
  exact h.2.2

end

/-- Over an exact index, the lookup finds every matching workflow and the listing returns
them all, if and only if no match is lost to the order of the texts or to the sign of a zero,
and the rows strayed to carry identifiers. -/
theorem attribute_listing_exact_iff (codec : ListCodec V)
    (localeLe : JsString → JsString → Bool) (s : Store V)
    (watermark : WorkflowVisibilityWatermark) (filter : AttributeFilter) (p : PaginatedResult)
    (hnamed : StoreNamed codec.toCodec s) (hexact : AttributeIndexExact codec s)
    (hcap : (queryAttributeIndex s filter).length ≤ MAX_LIST_SCAN_ROWS)
    (hfull : fullScanList codec localeLe s (some (attributeListFilter filter)) = .ok p) :
    ((∀ id record, attributesOf codec s id = some record →
        matchesAttributeFilter record filter = true → id.text ∈ queryAttributeIndex s filter) ∧
      list codec localeLe s watermark (some (attributeListFilter filter)) = .ok p) ↔
    NothingLost codec s filter ∧
      ∀ text, Strays codec s filter text → (encodeURIComponent text).isSome := by
  rw [covers_iff_nothingLost hexact]
  refine and_congr_right fun hnothing => ⟨fun hlist text hstray => ?_, fun hencode => ?_⟩
  · exact encodable_of_list hlist text ((mem_queryAttributeIndex hexact).2 (.inr hstray))
  · have hids : ∀ text ∈ queryAttributeIndex s filter, (encodeURIComponent text).isSome := by
      intro text hmem
      rcases (mem_queryAttributeIndex hexact).1 hmem with ⟨id, -, -, -, -, -, rfl⟩ | hstray
      · exact id.2
      · exact hencode text hstray
    refine (list_eq_fullScan_iff hnamed hfull resolve_attribute (nodup_toSet _) hcap hids).2
      fun state _ hm => ?_
    obtain ⟨record, hrec, hmatch⟩ := matches_attribute hm
    exact (covers_iff_nothingLost hexact filter).2 hnothing state.id record hrec hmatch

/-! ## Two listings -/

/-- The attributes in a store, with the workflows they belong to. -/
def attributeRecords (codec : ListCodec V) (s : Store V) : List (Component × AttributeRecord) :=
  (s.range fun _ => true).filterMap fun row =>
    ((tryDecodeStorageKeyComponent (row.1.drop 5)).bind Component.of?).bind fun id =>
      if row.1 = KEYS.attributes id then (codec.decodeAttributes row.2).map (id, ·) else none

theorem mem_attributeRecords {record : AttributeRecord} :
    (id, record) ∈ attributeRecords codec s ↔ attributesOf codec s id = some record := by
  rw [attributeRecords, List.mem_filterMap]
  constructor
  · rintro ⟨⟨k, v⟩, hrow, h⟩
    obtain ⟨id', -, h⟩ := Option.bind_eq_some_iff.1 h
    split_ifs at h with hk
    obtain ⟨record', hd, heq⟩ := Option.map_eq_some_iff.1 h
    obtain ⟨rfl, rfl⟩ := Prod.mk.inj heq
    rw [attributesOf, ← hk, ((OrderedStore.mem_range _ _ _ _).1 hrow).1]
    exact hd
  · intro h
    obtain ⟨v, hv, hd⟩ := Option.bind_eq_some_iff.1 h
    refine ⟨(_, v), (OrderedStore.mem_range _ _ _ _).2 ⟨hv, rfl⟩, ?_⟩
    have hdrop : (KEYS.attributes id).drop 5 = id.enc := List.drop_left' (by decide)
    have hid : tryDecodeStorageKeyComponent id.enc = some id.text := id.decode_enc
    rw [hdrop, hid, Option.bind_some, Component.of?_text, Option.bind_some, if_pos rfl, hd]
    rfl

def attributeCheck (codec : ListCodec V) (s : Store V) : Bool :=
  (s.range fun _ => true).all (fun row => !(js "idx:").isPrefixOf row.1 ||
      (attributeRecords codec s).any fun x => row.1 ∈ attributeRows x.1 x.2) &&
    (attributeRecords codec s).all fun x => (attributeRows x.1 x.2).all fun k => (s.get k).isSome

theorem attributeIndexExact_of_check (h : attributeCheck codec s = true) :
    AttributeIndexExact codec s := by
  simp only [attributeCheck, Bool.and_eq_true, List.all_eq_true, Bool.or_eq_true,
    Bool.not_eq_true', List.any_eq_true, decide_eq_true_eq] at h
  obtain ⟨hrows, hrecords⟩ := h
  intro k hk
  constructor
  · intro hget
    obtain ⟨v, hv⟩ := Option.isSome_iff_exists.1 hget
    rcases hrows (k, v) ((OrderedStore.mem_range _ _ _ _).2 ⟨hv, rfl⟩) with hno | ⟨x, hx, hmem⟩
    · rw [List.isPrefixOf_iff_prefix.2 hk] at hno
      cases hno
    · exact ⟨x.1, x.2, mem_attributeRecords.1 hx, hmem⟩
  · rintro ⟨id, record, hrec, hmem⟩
    exact hrecords (id, record) (mem_attributeRecords.2 hrec) k hmem

def attributedStore : List (WorkflowState × AttributeRecord) → Store ListedValue
  | [] => OrderedStore.empty
  | (state, record) :: rest => applyBatchOperations (attributedStore rest)
      (.put (KEYS.workflow state.id) (plainListCodec.encodeState state) ::
        .put (KEYS.attributes state.id) (.attributes record) ::
        (attributeRows state.id record).map fun k => .put k plainListCodec.emptyIndexValue)

def orderRun : WorkflowState where
  id := ⟨js "run-1", isSome_encode_run⟩
  type := ⟨js "order", isSome_encode_order⟩
  status := .running
  createdAt := ⟨15, 2, canonical_1500⟩
  updatedAt := ⟨16, 2, canonical_1600⟩

def orderRecord : AttributeRecord where
  entries := [(js "sku", .scalar (.string (js "abc1")))]
  nodup := by decide +kernel

def orderStore : Store ListedValue := attributedStore [(orderRun, orderRecord)]

def orderPage : PaginatedResult where
  items := [summaryFromState orderRun]
  total := 1
  offset := 0
  limit := 1

def skuFrom (bound : JsString) : AttributeFilter where
  key := js "sku"
  gte := some (.string bound)

theorem orderStore_named : StoreNamed plainListCodec.toCodec orderStore :=
  storeNamed_of_check (by decide)

theorem orderStore_exact : AttributeIndexExact plainListCodec orderStore :=
  attributeIndexExact_of_check (by decide)

theorem attribute_listing_exact_order :
    list plainListCodec codeUnitLe orderStore .current
        (some (attributeListFilter (skuFrom (js "abb")))) = .ok orderPage ∧
      NothingLost plainListCodec orderStore (skuFrom (js "abb")) := by
  have hlist : list plainListCodec codeUnitLe orderStore .current
      (some (attributeListFilter (skuFrom (js "abb")))) = .ok orderPage := by decide +kernel
  have hall : (attributeRecords plainListCodec orderStore).all (fun x =>
      x.1.text ∈ queryAttributeIndex orderStore (skuFrom (js "abb"))) = true := by decide
  have h := (attribute_listing_exact_iff plainListCodec codeUnitLe orderStore .current
    (skuFrom (js "abb")) orderPage orderStore_named orderStore_exact (by decide)
    (by decide +kernel)).1 ⟨fun id record hrec _ =>
      of_decide_eq_true (List.all_eq_true.1 hall _ (mem_attributeRecords.2 hrec)), hlist⟩
  exact ⟨hlist, h.1⟩

/-- The text `abc1` is above the bound `abc`, and its row `abc1:` is below `abc:`. -/
theorem digit_after_bound_loses_workflow :
    StoreNamed plainListCodec.toCodec orderStore ∧
      AttributeIndexExact plainListCodec orderStore ∧
      attributesOf plainListCodec orderStore orderRun.id = some orderRecord ∧
      matchesAttributeFilter orderRecord (skuFrom (js "abc")) = true ∧
      orderRun.id.text ∉ queryAttributeIndex orderStore (skuFrom (js "abc")) ∧
      fullScanList plainListCodec codeUnitLe orderStore
        (some (attributeListFilter (skuFrom (js "abc")))) = .ok orderPage ∧
      list plainListCodec codeUnitLe orderStore .current
        (some (attributeListFilter (skuFrom (js "abc")))) = .ok ⟨[], 0, 0, 0⟩ :=
  ⟨orderStore_named, orderStore_exact, by decide, by decide, by decide,
    by decide +kernel, by decide +kernel⟩

end Weft.Attributes
