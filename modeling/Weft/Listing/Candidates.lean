import Weft.Listing.Collect

/-! Candidate sets. Where the queries answer with identifiers of stored workflows, their
intersection fits the scan cap, and the indexed page is the full one if and only if every
query covers the matches. -/

namespace Weft.Listing
open Weft.Js Weft.Storage Weft.Visibility Weft.Attributes Weft.Lib

universe u

variable {V : Type u}

section

variable (codec : ListCodec V) (s : Store V)

/-- The rows of every index are those derived from the stored states. -/
structure IndexExact : Prop where
  visibility : ∀ k, (∃ p ∈ rowPrefixes, p <+: k) →
    ((s.get k).isSome ↔ ∃ state, Stored codec s state ∧ k ∈ deriveWorkflowVisibilityIndexKeys state)
  tags : ∀ k, js "tag:" <+: k → ((s.get k).isSome ↔ ∃ state, Stored codec s state ∧
    ∃ tag ∈ state.tags.getD [], k = KEYS.tagIndex tag state.id)
  children : ∀ k, js "child-by-parent:" <+: k → ((s.get k).isSome ↔ ∃ state, Stored codec s state ∧
    ∃ parent, state.parentWorkflowId = some parent ∧
      k = KEYS.childWorkflowByParent parent state.parentWorkflowExecutionToken state.id)

/-- A set of identifiers of stored workflows. -/
structure IdSet (ids : List JsString) : Prop where
  nodup : ids.Nodup
  stored : ∀ text ∈ ids, ∃ state, Stored codec s state ∧ state.id.text = text

/-- The query answers, and every match is among its answers. -/
def Covers (filter : ListFilter) (tags : Option (List JsString))
    (query : Except ListError (List JsString)) : Prop :=
  ∃ ids, query = .ok ids ∧ ∀ state, Stored codec s state →
    Matches codec s (some filter) tags state → state.id.text ∈ ids

end

variable {codec : ListCodec V} {s : Store V}

theorem Stored.eq_of_text {x y : WorkflowState} (hx : Stored codec s x) (hy : Stored codec s y)
    (h : x.id.text = y.id.text) : x = y := by
  have hid : x.id = y.id := Subtype.ext h
  rw [Stored, hid] at hx
  exact Option.some.inj (hx.symm.trans hy)

/-! ## Checking the indexes -/

/-- Stored values as they are before encoding. -/
inductive ListedValue where
  | stored (x : StoredValue)
  | attributes (x : AttributeRecord)
deriving DecidableEq

def plainListCodec : ListCodec ListedValue where
  encodeState x := .stored (.state x)
  decodeState
    | .stored (.state x) => some x
    | _ => none
  encodeManifest x := .stored (.manifest x)
  decodeManifest
    | .stored (.manifest x) => some x
    | _ => none
  encodeCursor x := .stored (.text x)
  decodeCursor
    | .stored (.text x) => some x
    | _ => none
  encodeNumber x := .stored (.number x)
  emptyIndexValue := .stored .empty
  decodeState_encode _ := rfl
  decodeManifest_encode _ := rfl
  decodeCursor_encode _ := rfl
  decodeAttributes
    | .attributes x => some x
    | _ => none

def codeUnitLe (a b : JsString) : Bool := a ≤ b

/-- Every record decodes to a state that carries the identifier of its key. -/
def namedCheck (codec : ListCodec V) (s : Store V) : Bool :=
  (s.range fun _ => true).all fun row => !isTopLevelKey row.1 ||
    (codec.decodeState row.2).any fun state => row.1 = KEYS.workflow state.id

theorem storeNamed_of_check (h : namedCheck codec s = true) : StoreNamed codec.toCodec s := by
  intro k v hv htop
  have hrow := List.all_eq_true.1 h (k, v) ((OrderedStore.mem_range _ _ _ _).2 ⟨hv, rfl⟩)
  simp only [htop, Bool.not_true, Bool.false_or, Option.any_eq_true, decide_eq_true_eq] at hrow
  obtain ⟨state, hd, hkey⟩ := hrow
  refine ⟨state.id, hkey, fun state' hd' => ?_⟩
  rw [hd] at hd'
  rw [Option.some.inj hd']

def storedStates (codec : ListCodec V) (s : Store V) : List WorkflowState :=
  (records s).filterMap fun row => codec.decodeState row.2

theorem mem_storedStates (hnamed : StoreNamed codec.toCodec s) {state : WorkflowState} :
    state ∈ storedStates codec s ↔ Stored codec s state := by
  rw [storedStates, List.mem_filterMap]
  constructor
  · rintro ⟨⟨k, v⟩, hrow, hd⟩
    obtain ⟨hget, htop⟩ := mem_records.1 hrow
    obtain ⟨id, rfl, hid⟩ := hnamed k v hget htop
    rw [Stored, stateOf, hid state hd, hget]
    exact hd
  · intro hst
    obtain ⟨v, hv, hd⟩ := Option.bind_eq_some_iff.1 hst
    exact ⟨(_, v), mem_records.2 ⟨hv, isTopLevelKey_workflow state.id⟩, hd⟩

/-- The rows of one state in all indexes. -/
def indexRows (state : WorkflowState) : List JsString :=
  deriveWorkflowVisibilityIndexKeys state ++
    (state.tags.getD []).map (fun tag => KEYS.tagIndex tag state.id) ++
    state.parentWorkflowId.toList.map fun parent =>
      KEYS.childWorkflowByParent parent state.parentWorkflowExecutionToken state.id

def indexFamilies : List JsString := rowPrefixes ++ [js "tag:", js "child-by-parent:"]

/-- Every row of an index family belongs to a stored state, and every state has its rows. -/
def indexCheck (codec : ListCodec V) (s : Store V) : Bool :=
  (s.range fun _ => true).all (fun row =>
      !indexFamilies.any (fun p => p.isPrefixOf row.1) ||
        (storedStates codec s).any fun state => row.1 ∈ indexRows state) &&
    (storedStates codec s).all fun state => (indexRows state).all fun k => (s.get k).isSome

theorem indexRows_families (state : WorkflowState) (k : JsString) (hk : k ∈ indexRows state) :
    (k ∈ deriveWorkflowVisibilityIndexKeys state ∧ ∃ p ∈ rowPrefixes, p <+: k) ∨
      ((∃ tag ∈ state.tags.getD [], k = KEYS.tagIndex tag state.id) ∧ js "tag:" <+: k) ∨
      ((∃ parent, state.parentWorkflowId = some parent ∧ k = KEYS.childWorkflowByParent parent
        state.parentWorkflowExecutionToken state.id) ∧ js "child-by-parent:" <+: k) := by
  simp only [indexRows, List.mem_append, List.mem_map, Option.mem_toList] at hk
  rcases hk with (hk | ⟨tag, htag, rfl⟩) | ⟨parent, hparent, rfl⟩
  · obtain ⟨p, hp, middle, heq⟩ := mem_derive_isRowOf hk
    rw [List.append_assoc] at heq
    exact .inl ⟨hk, p, hp, middle ++ colon :: state.id.enc, heq.symm⟩
  · refine .inr (.inl ⟨⟨tag, htag, rfl⟩, ?_⟩)
    rw [KEYS.tagIndex, List.append_assoc]
    exact List.prefix_append _ _
  · refine .inr (.inr ⟨⟨parent, hparent, rfl⟩, ?_⟩)
    rw [KEYS.childWorkflowByParent, List.append_assoc]
    exact List.prefix_append _ _

theorem families_apart : (∀ p ∈ rowPrefixes, Apart p (js "tag:") ∧
    Apart p (js "child-by-parent:")) ∧
    Apart (js "tag:") (js "child-by-parent:") := by
  decide

theorem not_both_prefixes {p q k : JsString} (h : Apart p q) (hp : p <+: k) (hq : q <+: k) :
    False := by
  obtain ⟨rest, rfl⟩ := hq
  exact not_prefix_of_apart h rest hp

theorem indexExact_of_check (hnamed : StoreNamed codec.toCodec s)
    (h : indexCheck codec s = true) : IndexExact codec s := by
  simp only [indexCheck, Bool.and_eq_true, List.all_eq_true, Bool.or_eq_true, Bool.not_eq_true',
    List.any_eq_true, decide_eq_true_eq] at h
  obtain ⟨hrows, hstates⟩ := h
  obtain ⟨hapart, htc⟩ := families_apart
  have hforward : ∀ k, (s.get k).isSome → (∃ p ∈ indexFamilies, p <+: k) →
      ∃ state, Stored codec s state ∧ k ∈ indexRows state := by
    rintro k hk ⟨p, hp, hpk⟩
    obtain ⟨v, hv⟩ := Option.isSome_iff_exists.1 hk
    rcases hrows (k, v) ((OrderedStore.mem_range _ _ _ _).2 ⟨hv, rfl⟩) with hno | hany
    · have : indexFamilies.any (fun p => p.isPrefixOf k) = true :=
        List.any_eq_true.2 ⟨p, hp, List.isPrefixOf_iff_prefix.2 hpk⟩
      rw [this] at hno
      cases hno
    · obtain ⟨state, hst, hmem⟩ := hany
      exact ⟨state, (mem_storedStates hnamed).1 hst, hmem⟩
  have hback : ∀ state, Stored codec s state → ∀ k ∈ indexRows state, (s.get k).isSome :=
    fun state hst => hstates state ((mem_storedStates hnamed).2 hst)
  refine ⟨fun k hk => ⟨fun hget => ?_, ?_⟩, fun k hk => ⟨fun hget => ?_, ?_⟩,
    fun k hk => ⟨fun hget => ?_, ?_⟩⟩
  · obtain ⟨p, hp, hpk⟩ := hk
    obtain ⟨state, hst, hmem⟩ := hforward k hget ⟨p, List.mem_append_left _ hp, hpk⟩
    rcases indexRows_families state k hmem with ⟨hd, -⟩ | ⟨-, hq⟩ | ⟨-, hq⟩
    · exact ⟨state, hst, hd⟩
    · exact (not_both_prefixes (hapart p hp).1 hpk hq).elim
    · exact (not_both_prefixes (hapart p hp).2 hpk hq).elim
  · rintro ⟨state, hst, hmem⟩
    exact hback state hst k (by simp [indexRows, hmem])
  · obtain ⟨state, hst, hmem⟩ := hforward k hget ⟨_, by simp [indexFamilies], hk⟩
    rcases indexRows_families state k hmem with ⟨-, p, hp, hpk⟩ | ⟨htag, -⟩ | ⟨-, hq⟩
    · exact (not_both_prefixes (hapart p hp).1 hpk hk).elim
    · exact ⟨state, hst, htag⟩
    · exact (not_both_prefixes htc hk hq).elim
  · rintro ⟨state, hst, tag, htag, rfl⟩
    refine hback state hst _ ?_
    simp only [indexRows, List.mem_append, List.mem_map]
    exact .inl (.inr ⟨tag, htag, rfl⟩)
  · obtain ⟨state, hst, hmem⟩ := hforward k hget ⟨_, by simp [indexFamilies], hk⟩
    rcases indexRows_families state k hmem with ⟨-, p, hp, hpk⟩ | ⟨-, hq⟩ | ⟨hchild, -⟩
    · exact (not_both_prefixes (hapart p hp).2 hpk hk).elim
    · exact (not_both_prefixes htc hq hk).elim
    · exact ⟨state, hst, hchild⟩
  · rintro ⟨state, hst, parent, hparent, rfl⟩
    refine hback state hst _ ?_
    simp only [indexRows, List.mem_append, List.mem_map, Option.mem_toList]
    exact .inr ⟨parent, hparent, rfl⟩

/-! ## Counting -/

variable {ids : List JsString}

/-- Identifiers of stored workflows are no more than the records. -/
theorem IdSet.length_le (h : IdSet codec s ids) : ids.length ≤ (records s).length := by
  have hsub : ids ⊆ (records s).filterMap fun row =>
      tryDecodeStorageKeyComponent (row.1.drop 3) := by
    intro text htext
    obtain ⟨state, hstored, rfl⟩ := h.stored text htext
    obtain ⟨v, hv, -⟩ := Option.bind_eq_some_iff.1 hstored
    refine List.mem_filterMap.2 ⟨(KEYS.workflow state.id, v),
      mem_records.2 ⟨hv, isTopLevelKey_workflow _⟩, ?_⟩
    rw [drop_workflow]
    exact state.id.decode_enc
  exact (List.subperm_of_subset h.nodup hsub).length_le.trans (List.length_filterMap_le _ _)

theorem IdSet.encodable (h : IdSet codec s ids) : ∀ id ∈ ids, (encodeURIComponent id).isSome := by
  intro text htext
  obtain ⟨state, -, rfl⟩ := h.stored text htext
  exact state.id.2

/-! ## Combining queries -/

variable {sets : List (List JsString)}

theorem mem_intersect (h : intersectIdentifierSets sets = some ids) (x : JsString) :
    x ∈ ids ↔ ∀ set ∈ sets, x ∈ set := by
  cases sets with
  | nil => cases h
  | cons first rest =>
    cases h
    have hfold : ∀ (rest : List (List JsString)) (acc : List JsString),
        x ∈ rest.foldl (fun ids next => ids.filter (· ∈ next)) acc ↔
          x ∈ acc ∧ ∀ set ∈ rest, x ∈ set := by
      intro rest
      induction rest with
      | nil => simp
      | cons set rest ih =>
        intro acc
        rw [List.foldl_cons, ih, List.mem_filter, List.forall_mem_cons]
        simp only [decide_eq_true_eq, and_assoc]
    rw [hfold, List.forall_mem_cons]

theorem intersect_nodup (h : intersectIdentifierSets sets = some ids)
    (hsets : ∀ set ∈ sets, set.Nodup) : ids.Nodup := by
  cases sets with
  | nil => cases h
  | cons first rest =>
    cases h
    have hfold : ∀ (rest : List (List JsString)) (acc : List JsString), acc.Nodup →
        (rest.foldl (fun ids next => ids.filter (· ∈ next)) acc).Nodup := by
      intro rest
      induction rest with
      | nil => exact fun _ hacc => hacc
      | cons set rest ih =>
        intro acc hacc
        rw [List.foldl_cons]
        exact ih _ (hacc.filter _)
    exact hfold rest first (hsets first List.mem_cons_self)

variable {localeLe : JsString → JsString → Bool} {filter : ListFilter} {p : PaginatedResult}

theorem resolve_eq (watermark : WorkflowVisibilityWatermark) {tags : Option (List JsString)}
    (h : candidateQueries s watermark filter tags = sets.map .ok) :
    resolveListCandidateIds s watermark (some filter) tags =
      .ok (intersectIdentifierSets sets) := by
  simp only [resolveListCandidateIds, Option.map_some, Option.getD_some, mapM_id_eq_ok.2 h]
  rfl

theorem list_eq_fullScan_iff_sets (hnamed : StoreNamed codec.toCodec s)
    (hfull : fullScanList codec localeLe s (some filter) = .ok p)
    {watermark : WorkflowVisibilityWatermark}
    (hqueries : candidateQueries s watermark filter (normalizeWorkflowTags localeLe filter.tags) =
      sets.map .ok) (hsets : ∀ set ∈ sets, IdSet codec s set) :
    list codec localeLe s watermark (some filter) = .ok p ↔
      ∀ set ∈ sets, ∀ state, Stored codec s state →
        Matches codec s (some filter) (normalizeWorkflowTags localeLe filter.tags) state →
          state.id.text ∈ set := by
  have hresolve := resolve_eq watermark hqueries
  cases hinter : intersectIdentifierSets sets with
  | none =>
    cases sets with
    | nil =>
      rw [hinter] at hresolve
      have hlist : list codec localeLe s watermark (some filter) =
          fullScanList codec localeLe s (some filter) := by
        simp only [list, fullScanList, Option.bind_some, hresolve]
        rfl
      rw [hlist, hfull]
      simp
    | cons first rest => cases hinter
  | some ids =>
    rw [hinter] at hresolve
    have hidset : IdSet codec s ids := by
      refine ⟨intersect_nodup hinter fun set h => (hsets set h).nodup, fun text htext => ?_⟩
      cases sets with
      | nil => cases hinter
      | cons first rest =>
        exact (hsets first List.mem_cons_self).stored text
          ((mem_intersect hinter text).1 htext first List.mem_cons_self)
    obtain ⟨items, hitems, -⟩ := fullScanList_ok hfull
    have hcap := (fullScan_spec hnamed hitems).1
    rw [list_eq_fullScan_iff hnamed hfull hresolve hidset.nodup (hidset.length_le.trans hcap)
      hidset.encodable]
    constructor
    · intro h set hset state hst hm
      exact (mem_intersect hinter _).1 (h state hst hm) set hset
    · intro h state hst hm
      exact (mem_intersect hinter _).2 fun set hset => h set hset state hst hm

/-- Where every query answers with stored workflows, the pages agree if and only if every
query covers the matches. -/
theorem list_eq_fullScan_iff_covers (hnamed : StoreNamed codec.toCodec s)
    (hfull : fullScanList codec localeLe s (some filter) = .ok p)
    (watermark : WorkflowVisibilityWatermark) (hids : ∀ query ∈ candidateQueries s watermark filter
      (normalizeWorkflowTags localeLe filter.tags), ∀ ids, query = .ok ids → IdSet codec s ids) :
    list codec localeLe s watermark (some filter) = .ok p ↔
      ∀ query ∈ candidateQueries s watermark filter (normalizeWorkflowTags localeLe filter.tags),
        Covers codec s filter (normalizeWorkflowTags localeLe filter.tags) query := by
  constructor
  · intro hlist query hquery
    obtain ⟨resolved, hres, -⟩ := bind_eq_ok.1 hlist
    obtain ⟨sets, hsets, -⟩ := bind_eq_ok.1 hres
    have hqueries := mapM_id_eq_ok.1 hsets
    simp only [Option.map_some, Option.getD_some, Option.bind_some] at hqueries
    rw [hqueries] at hquery hids
    obtain ⟨set, hset, rfl⟩ := List.mem_map.1 hquery
    have hall := (list_eq_fullScan_iff_sets hnamed hfull hqueries
      fun set h => hids _ (List.mem_map.2 ⟨set, h, rfl⟩) set rfl).1 hlist
    exact ⟨set, rfl, hall set hset⟩
  · intro hcovers
    obtain ⟨sets, hqueries⟩ := exists_eq_map_ok fun query hquery => by
      obtain ⟨ids, hok, -⟩ := hcovers query hquery
      exact ⟨ids, hok⟩
    rw [hqueries] at hcovers hids
    refine (list_eq_fullScan_iff_sets hnamed hfull hqueries
      fun set h => hids _ (List.mem_map.2 ⟨set, h, rfl⟩) set rfl).2 fun set hset => ?_
    obtain ⟨ids, hok, hcov⟩ := hcovers _ (List.mem_map.2 ⟨set, hset, rfl⟩)
    cases hok
    exact hcov

end Weft.Listing
