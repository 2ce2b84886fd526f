import Weft.Visibility.Backfill

/-! When the backfill is complete. A commit made after the pass has skipped a workflow moves
the cursor past it, and the next pass then resumes behind the gap and writes the watermark.
As long as no pass commits after a skip, and each repair finds the rows it takes for
granted, every workflow up to the cursor is covered and the watermark tells the truth. -/

namespace Weft.Visibility
open Weft.Js Weft.Storage Weft.Lib

universe u

variable {V : Type u}

/-! ## Keys of records -/

theorem topLevelWorkflowId_workflow (id : Component) :
    topLevelWorkflowId (KEYS.workflow id) = some id.text := by
  rw [topLevelWorkflowId, if_pos (isTopLevelKey_workflow id), drop_workflow]
  exact id.decode_enc

theorem topLevel_of_workflowId {key text : JsString} (h : topLevelWorkflowId key = some text) :
    isTopLevelKey key = true := by
  unfold topLevelWorkflowId at h
  split_ifs at h with htop
  exact htop

theorem meta_apart (key : JsString) (hkey : js "wf-idx-meta:" <+: key) (id : Component) :
    key ≠ KEYS.workflow id ∧ key ≠ KEYS.workflowVisibilityManifest id ∧ ¬ IsRowOf id key := by
  obtain ⟨rest, rfl⟩ := hkey
  refine ⟨ne_of_apart (by decide) _ _, ne_of_apart (by decide) _ _, ?_⟩
  rintro ⟨p, hp, middle, heq⟩
  rw [List.append_assoc] at heq
  exact ne_of_apart (rowPrefixes_apart p hp).2.2 _ _ heq.symm

theorem cursor_not_index (id : Component) : KEYS.workflowVisibilityMetaCursor ≠ KEYS.workflow id ∧
      KEYS.workflowVisibilityMetaCursor ≠ KEYS.workflowVisibilityManifest id ∧
      ¬ IsRowOf id KEYS.workflowVisibilityMetaCursor :=
  meta_apart _ (by decide) id

theorem topLevel_not_meta {key : JsString} (h : isTopLevelKey key = true) :
    ¬ js "wf-idx-meta:" <+: key := by
  simp only [isTopLevelKey, Bool.and_eq_true, List.isPrefixOf_iff_prefix] at h
  obtain ⟨rest, rfl⟩ := h.1
  exact not_prefix_of_apart (by decide) rest

theorem topLevel_not_index {key : JsString} (h : isTopLevelKey key = true) (id : Component) :
    key ≠ KEYS.workflowVisibilityManifest id ∧ ¬ IsRowOf id key ∧
      key ≠ KEYS.workflowVisibilityMetaCursor := by
  have hmeta := topLevel_not_meta h
  simp only [isTopLevelKey, Bool.and_eq_true, List.isPrefixOf_iff_prefix] at h
  obtain ⟨rest, rfl⟩ := h.1
  refine ⟨ne_of_apart (by decide) _ _, ?_, ?_⟩
  · rintro ⟨p, hp, middle, heq⟩
    rw [List.append_assoc] at heq
    exact ne_of_apart (rowPrefixes_apart p hp).2.1 _ _ heq.symm
  · intro heq
    rw [heq] at hmeta
    exact hmeta (by decide)

/-! ## The condition and the properties -/

section

variable (codec : Codec V)

/-- A commit that goes through: the pass has skipped nothing before it, the manifest it read
names rows of this workflow only, and the rows it keeps are there. -/
def CommitSafe (s : State V) : Label V → Prop
  | .backfill .commit => ∀ p ∈ s.pass, ∀ c ∈ p.current, GoesThrough codec s.store c →
      (p.conflicts = 0 ∧ p.oversized = 0) ∧
        ∀ k ∈ currentKeys c, IsRowOf c.workflowId k ∧
          (k ∈ deriveWorkflowVisibilityIndexKeys c.state → (s.store.get k).isSome)
  | _ => True

/-- Every workflow record up to the cursor has its manifest and its rows. -/
def CursorBehindGaps (s : State V) : Prop :=
  ∀ cursor, cursorOf codec s.store = some cursor → ∀ id,
    (s.store.get (KEYS.workflow id)).isSome → KEYS.workflow id ≤ cursor →
      covered codec s.store id = true

def Label.finishes : Label V → Bool
  | .backfill (.finish _) => true
  | _ => false

/-- A pass that reports the watermark written leaves every workflow record covered. -/
def WatermarkComplete [DecidableEq V] (s : State V) (a : Label V) : Prop :=
  a.finishes = true → ∀ t ∈ step codec s a,
    (∀ r ∈ t.report, r.watermarkWritten = true) → ∀ id,
      (t.store.get (KEYS.workflow id)).isSome → covered codec t.store id = true

instance [DecidableEq V] (s : State V) : (a : Label V) → Decidable (CommitSafe codec s a)
  | .backfill .commit => by
      unfold CommitSafe GoesThrough
      infer_instance
  | .write _ | .recordWrite _ _ => isTrue trivial
  | .backfill .loadCursor | .backfill .openScan | .backfill (.next _) | .backfill .readManifest
  | .backfill (.finish _) | .backfill .interrupt => isTrue trivial

/-- What a pass with an open scan keeps: the rows ahead are in order and behind nothing the
cursor has passed, and while nothing was skipped every gap is still ahead. -/
structure Ahead (s : Store V) (p : Pass V) (rows : List (JsString × V)) : Prop where
  sorted : rows.Pairwise fun a b => a.1 < b.1
  named : ∀ r ∈ rows, RowNamed codec r.1 r.2
  current : ∀ c ∈ p.current, c.key = KEYS.workflow c.workflowId ∧ c.state.id = c.workflowId ∧
    codec.decodeState c.value = some c.state ∧ ∀ r ∈ rows, c.key < r.1
  cursor : ∀ k, cursorOf codec s = some k →
    (∀ c ∈ p.current, k < c.key) ∧ ∀ r ∈ rows, k < r.1
  gaps : p.conflicts = 0 → p.oversized = 0 → ∀ id, (s.get (KEYS.workflow id)).isSome →
    covered codec s id = true ∨ (∃ c ∈ p.current, c.key = KEYS.workflow id) ∨
      ∃ r ∈ rows, r.1 = KEYS.workflow id

def PassOk (s : Store V) (p : Pass V) : Prop :=
  match p.rows with
  | none => p.startCursor = cursorOf codec s ∧ p.current = none
  | some rows => Ahead codec s p rows

structure Inv (s : State V) : Prop where
  named : StoreNamed codec s.store
  cursor : CursorBehindGaps codec s
  pass : ∀ p, s.pass = some p → PassOk codec s.store p

end

variable {codec : Codec V}

theorem OnlyTouches.cursorOf {s t : Store V} {id : Component} (h : OnlyTouches id s t) :
    cursorOf codec t = cursorOf codec s := by
  obtain ⟨h1, h2, h3⟩ := cursor_not_index id
  rw [Visibility.cursorOf, Visibility.cursorOf, h _ h1 h2 h3]

theorem OnlyTouches.storeNamed {s t : Store V} {id : Component} (h : OnlyTouches id s t)
    (hs : StoreNamed codec s) (hid : ∀ v, t.get (KEYS.workflow id) = some v →
      ∀ state, codec.decodeState v = some state → state.id = id) : StoreNamed codec t := by
  intro k v hk htop
  by_cases hkey : k = KEYS.workflow id
  · subst hkey
    exact ⟨id, rfl, hid v hk⟩
  · obtain ⟨h1, h2, -⟩ := topLevel_not_index htop id
    rw [h k hkey h1 h2] at hk
    exact hs k v hk htop

/-! ## Writes -/

/-- A write of one workflow keeps the invariant, if it leaves the workflow covered, or if
the workflow was a gap or in flight already. -/
theorem inv_of_write {s : State V} (hs : Inv codec s) {t : Store V} {id : Component}
    (h : OnlyTouches id s.store t) (hid : ∀ v, t.get (KEYS.workflow id) = some v →
      ∀ state, codec.decodeState v = some state → state.id = id)
    (hself : (t.get (KEYS.workflow id)).isSome → covered codec t id = true ∨
      (s.store.get (KEYS.workflow id)).isSome ∧ (covered codec s.store id = false ∨
        ∃ p ∈ s.pass, ∃ c ∈ p.current, c.key = KEYS.workflow id)) :
    Inv codec { s with store := t } := by
  have hnamed := hs.named.recordsNamed
  have hrec : ∀ j, j ≠ id → t.get (KEYS.workflow j) = s.store.get (KEYS.workflow j) :=
    fun j hj => (h.other hj).1
  have hcov : ∀ j, j ≠ id → covered codec t j = covered codec s.store j :=
    fun j hj => h.covered_other hnamed hj
  refine ⟨h.storeNamed hs.named hid, ?_, ?_⟩
  · intro k hk j hj hle
    rw [h.cursorOf] at hk
    by_cases hji : j = id
    · subst hji
      rcases hself hj with hc | ⟨hpresent, hgap | ⟨p, hp, c, hc, hkey⟩⟩
      · exact hc
      · have := hs.cursor k hk j hpresent hle
        rw [hgap] at this
        cases this
      · have hpass := hs.pass p hp
        unfold PassOk at hpass
        split at hpass
        · rw [hpass.2] at hc
          cases hc
        · have := (hpass.cursor k hk).1 c hc
          rw [hkey] at this
          exact (not_lt.2 hle this).elim
    · simp only at hj ⊢
      rw [hrec j hji] at hj
      rw [hcov j hji]
      exact hs.cursor k hk j hj hle
  · intro p hp
    have hpass := hs.pass p hp
    unfold PassOk at hpass ⊢
    split at hpass
    · rw [h.cursorOf]
      exact hpass
    · rename_i rows hrows
      refine ⟨hpass.sorted, hpass.named, hpass.current, ?_, ?_⟩
      · rw [h.cursorOf]
        exact hpass.cursor
      · intro hconf hover j hj
        by_cases hji : j = id
        · subst hji
          rcases hself hj with hc | ⟨hpresent, hgap | ⟨q, hq, c, hc, hkey⟩⟩
          · exact .inl hc
          · rcases hpass.gaps hconf hover j hpresent with hcov | hahead
            · rw [hgap] at hcov
              cases hcov
            · exact .inr hahead
          · simp only at hp
            rw [hp] at hq
            cases hq
            exact .inr (.inl ⟨c, hc, hkey⟩)
        · rw [hrec j hji] at hj
          rw [hcov j hji]
          exact hpass.gaps hconf hover j hj

theorem write_inv {s : State V} (hs : Inv codec s) {w : EngineWrite} {t : Store V}
    (h : applyWrite codec s.store w = some t) : Inv codec { s with store := t } := by
  have hnamed := hs.named.recordsNamed
  refine inv_of_write hs (applyWrite_onlyTouches hnamed h) ?_ ?_
  · intro v hv state hd
    refine applyWrite_recordsNamed hnamed h w.id state ?_
    rw [stateOf, hv]
    exact hd
  · intro hpresent
    by_cases hgap : (s.store.get (KEYS.workflow w.id)).isSome ∧
        covered codec s.store w.id = false
    · exact .inr ⟨hgap.1, .inl hgap.2⟩
    · refine .inl (applyWrite_covered hnamed h ?_ hpresent)
      intro hp
      by_contra hc
      exact hgap ⟨hp, by simpa using hc⟩

theorem recordWrite_inv {s : State V} (hs : Inv codec s) {id : Component} {value : V}
    (hrace : mayRace s id = true)
    (hid : (codec.decodeState value).all (fun state => state.id = id) = true) :
    Inv codec { s with store := s.store.put (KEYS.workflow id) value } := by
  have hput : OnlyTouches id s.store (s.store.put (KEYS.workflow id) value) := by
    intro k hk _ _
    simp [hk]
  refine inv_of_write hs hput ?_ ?_
  · intro v hv state hd
    simp only [OrderedStore.get_put, if_true, Option.some.injEq] at hv
    subst hv
    simpa [hd] using hid
  · intro _
    simp only [mayRace, Bool.and_eq_true, Bool.or_eq_true] at hrace
    obtain ⟨hpresent, hflight | hmanifest⟩ := hrace
    · refine .inr ⟨hpresent, .inr ?_⟩
      obtain ⟨c, hc, hkey⟩ := Option.any_eq_true _ _ |>.1 hflight
      obtain ⟨p, hp, hpc⟩ := Option.bind_eq_some_iff.1 hc
      exact ⟨p, hp, c, hpc, by simpa using hkey⟩
    · refine .inr ⟨hpresent, .inl ?_⟩
      by_contra hcov
      rw [Bool.not_eq_false, covered_iff] at hcov
      obtain ⟨state, -, hm, -⟩ := hcov
      rw [manifestOf, Option.isNone_iff_eq_none.1 hmanifest] at hm
      cases hm

/-! ## Steps of a pass -/

theorem openScan_ahead {s : State V} (hs : Inv codec s) {p : Pass V}
    (hstart : p.startCursor = cursorOf codec s.store) (hcurrent : p.current = none) :
    Ahead codec s.store p (scan s.store (js "wf:") { gt := p.startCursor }) := by
  have hlast : (js "wf:").getLast? = some 58 := by decide
  rw [scan_unlimited _ _ _ rfl rfl]
  have hmem : ∀ r ∈ s.store.range fun k =>
      decide (js "wf:" ≤ k ∧ k < resolvePrefixRangeEnd (js "wf:")) &&
        matchesScanOptions k { gt := p.startCursor },
      s.store.get r.1 = some r.2 ∧ ∀ k, p.startCursor = some k → k < r.1 := by
    rintro ⟨k, v⟩ hr
    obtain ⟨hget, hrange⟩ := (OrderedStore.mem_range _ _ _ _).1 hr
    refine ⟨hget, fun b hb => ?_⟩
    simp only [matchesScanOptions, hb, Option.all_some, Option.all_none, Bool.and_true,
      Bool.and_eq_true, decide_eq_true_eq, not_le] at hrange
    exact hrange.2
  refine ⟨OrderedStore.range_sorted _ _, ?_, ?_, ?_, ?_⟩
  · intro r hr
    exact hs.named _ _ (hmem r hr).1
  · intro c hc
    rw [hcurrent] at hc
    cases hc
  · intro k hk
    refine ⟨fun c hc => ?_, fun r hr => (hmem r hr).2 k (hstart.trans hk)⟩
    rw [hcurrent] at hc
    cases hc
  · intro _ _ id hpresent
    by_cases hbehind : ∃ k, p.startCursor = some k ∧ KEYS.workflow id ≤ k
    · obtain ⟨k, hk, hle⟩ := hbehind
      exact .inl (hs.cursor k (hstart.symm.trans hk) id hpresent hle)
    · refine .inr (.inr ?_)
      obtain ⟨v, hv⟩ := Option.isSome_iff_exists.1 hpresent
      refine ⟨(KEYS.workflow id, v), (OrderedStore.mem_range _ _ _ _).2 ⟨hv, ?_⟩, rfl⟩
      have hin : js "wf:" ≤ KEYS.workflow id ∧
          KEYS.workflow id < resolvePrefixRangeEnd (js "wf:") :=
        (between_prefix_iff hlast (by decide) _).2 (List.prefix_append _ _)
      cases hc : p.startCursor with
      | none => simp [matchesScanOptions, hin]
      | some k =>
        have hlt : k < KEYS.workflow id := by
          by_contra hnot
          exact hbehind ⟨k, hc, not_lt.1 hnot⟩
        simp [matchesScanOptions, hin, hlt]

variable {rest : List (JsString × V)}

/-- A row that is not taken up can only be given up if its record is no gap. -/
theorem Ahead.skipRow {s : Store V} {p : Pass V} {r : JsString × V}
    (h : Ahead codec s p (r :: rest))
    (hgap : ∀ id, r.1 = KEYS.workflow id → (s.get (KEYS.workflow id)).isSome → False) :
    Ahead codec s { p with rows := some rest } rest := by
  refine ⟨(List.pairwise_cons.1 h.sorted).2, fun r' hr' => h.named r' (by simp [hr']), ?_, ?_, ?_⟩
  · intro c hc
    obtain ⟨h1, h2, h3, h4⟩ := h.current c hc
    exact ⟨h1, h2, h3, fun r' hr' => h4 r' (by simp [hr'])⟩
  · intro k hk
    obtain ⟨h1, h2⟩ := h.cursor k hk
    exact ⟨h1, fun r' hr' => h2 r' (by simp [hr'])⟩
  · intro hconf hover id hpresent
    rcases h.gaps hconf hover id hpresent with hc | hc | ⟨r', hr', hkey⟩
    · exact .inl hc
    · exact .inr (.inl hc)
    · rcases List.mem_cons.1 hr' with rfl | hr'
      · exact (hgap id hkey hpresent).elim
      · exact .inr (.inr ⟨r', hr', hkey⟩)

variable {p q : Pass V}

/-- A row is passed over, if it is not a record, or taken up. -/
theorem take_cases {key : JsString} {value : V} (hnamed : RowNamed codec key value)
    (h : p.take codec rest key value = some q) :
    ((∀ id, key ≠ KEYS.workflow id) ∧ q = { p with rows := some rest }) ∨
      ∃ id state, key = KEYS.workflow id ∧ state.id = id ∧ codec.decodeState value = some state ∧
        q = { p with rows := some rest, current := some ⟨key, value, id, state, none⟩ } := by
  unfold Pass.take at h
  split at h
  · rename_i hnone
    refine .inl ⟨fun id hkey => ?_, (Option.some.inj h).symm⟩
    rw [hkey, topLevelWorkflowId_workflow] at hnone
    cases hnone
  · rename_i text htext
    split at h
    · rename_i state id hstate hof
      obtain ⟨id', hkey, hid⟩ := hnamed (topLevel_of_workflowId htext)
      have hsame : id' = id := by
        rw [hkey, topLevelWorkflowId_workflow] at htext
        have := Component.of?_text id'
        rw [Option.some.inj htext, hof] at this
        exact (Option.some.inj this).symm
      subst hsame
      exact .inr ⟨id', state, hkey, hid state hstate, hstate, (Option.some.inj h).symm⟩
    · cases h

theorem Ahead.take {s : Store V} {key : JsString} {old value : V}
    (h : Ahead codec s p ((key, old) :: rest)) (hcurrent : p.current = none)
    (hnamed : RowNamed codec key value) (htake : p.take codec rest key value = some q) :
    PassOk codec s q := by
  rcases take_cases hnamed htake with ⟨hnot, rfl⟩ | ⟨id, state, hkey, hid, hstate, rfl⟩
  · exact h.skipRow fun id hkey _ => hnot id hkey
  · obtain ⟨hlt, hsorted⟩ := List.pairwise_cons.1 h.sorted
    refine ⟨hsorted, fun r hr => h.named r (by simp [hr]), ?_, ?_, ?_⟩
    · rintro c ⟨⟩
      exact ⟨hkey, hid, hstate, hlt⟩
    · intro k hk
      obtain ⟨-, hrows⟩ := h.cursor k hk
      refine ⟨?_, fun r hr => hrows r (by simp [hr])⟩
      rintro c ⟨⟩
      exact hrows _ List.mem_cons_self
    · intro hconf hover j hpresent
      rcases h.gaps hconf hover j hpresent with hc | ⟨c, hc, -⟩ | ⟨r, hr, hrkey⟩
      · exact .inl hc
      · rw [hcurrent] at hc
        cases hc
      · rcases List.mem_cons.1 hr with rfl | hr
        · exact .inr (.inl ⟨_, rfl, hrkey⟩)
        · exact .inr (.inr ⟨r, hr, hrkey⟩)

/-- After a skip nothing more is asked of the gaps. -/
theorem Ahead.skipCurrent {s : Store V} {rows : List (JsString × V)} (h : Ahead codec s p rows)
    (hcurrent : q.current = none) (hskip : q.conflicts ≠ 0 ∨ q.oversized ≠ 0) :
    Ahead codec s q rows := by
  refine ⟨h.sorted, h.named, ?_, ?_, ?_⟩
  · intro c hc
    rw [hcurrent] at hc
    cases hc
  · intro k hk
    refine ⟨fun c hc => ?_, (h.cursor k hk).2⟩
    rw [hcurrent] at hc
    cases hc
  · intro hconf hover
    rcases hskip with hn | hn
    · exact (hn hconf).elim
    · exact (hn hover).elim

variable {c : InFlight V} {manifest : Option WorkflowVisibilityManifest}

variable (codec) in
/-- What a repair that goes through leaves in the store. -/
theorem indexOne_effect (s : Store V) (hid : c.state.id = c.workflowId)
    (hown : ∀ k ∈ (manifest.map (·.keys)).getD [], IsRowOf c.workflowId k) :
    Indexed codec s (applyBatchOperations s (indexOneOperations codec c manifest)) c.state
        ((manifest.map (·.keys)).getD []) ∧ (∀ k, k ≠ KEYS.workflowVisibilityMetaCursor →
        k ≠ KEYS.workflowVisibilityManifest c.workflowId → ¬ IsRowOf c.workflowId k →
        (applyBatchOperations s (indexOneOperations codec c manifest)).get k = s.get k) ∧
      cursorOf codec (applyBatchOperations s (indexOneOperations codec c manifest)) =
        some c.key := by
  have hget : ∀ k, k ≠ KEYS.workflowVisibilityMetaCursor →
      (applyBatchOperations s (indexOneOperations codec c manifest)).get k =
        (applyBatchOperations s (buildWorkflowVisibilityIndexOperations codec c.workflowId
          manifest (some c.state))).get k := by
    intro k hk
    rw [indexOneOperations, applyBatchOperations_append, applyBatchOperations_cons]
    simp [applyBatchOperations, applyBatchOperation, hk]
  have hindexed := indexed_of_operations codec s ((manifest.map (·.keys)).getD [])
    manifest.isSome c.state
  rw [hid] at hindexed
  refine ⟨⟨?_, ?_⟩, ?_, ?_⟩
  · rw [manifestOf, hid, hget _ (cursor_not_index c.workflowId).2.1.symm]
    have := hindexed.manifest
    rwa [hid] at this
  · intro k hk
    have hrow := mem_derive_isRowOf hk
    rw [hid] at hrow
    have hne : k ≠ KEYS.workflowVisibilityMetaCursor := by
      rintro rfl
      exact (cursor_not_index c.workflowId).2.2 hrow
    rw [hget k hne]
    exact hindexed.row k hk
  · intro k hk hm hr
    rw [hget k hk]
    exact get_indexOperations_other codec s _ _ _ _ hown (by rintro _ ⟨⟩; exact hid) hm hr
  · rw [cursorOf, indexOneOperations, applyBatchOperations_append, applyBatchOperations_cons]
    simp [applyBatchOperations, applyBatchOperation, codec.decodeCursor_encode]

theorem indexOne_storeNamed {s : Store V} (hs : StoreNamed codec s)
    (hid : c.state.id = c.workflowId)
    (hown : ∀ k ∈ (manifest.map (·.keys)).getD [], IsRowOf c.workflowId k) :
    StoreNamed codec (applyBatchOperations s (indexOneOperations codec c manifest)) := by
  intro k v hk htop
  obtain ⟨h1, h2, h3⟩ := topLevel_not_index htop c.workflowId
  rw [(indexOne_effect codec s hid hown).2.1 k h3 h1 h2] at hk
  exact hs k v hk htop

variable (codec) in
theorem indexOne_record (s : Store V) (hid : c.state.id = c.workflowId)
    (hown : ∀ k ∈ (manifest.map (·.keys)).getD [], IsRowOf c.workflowId k) (j : Component) :
    (applyBatchOperations s (indexOneOperations codec c manifest)).get (KEYS.workflow j) =
      s.get (KEYS.workflow j) :=
  (indexOne_effect codec s hid hown).2.1 _ (cursor_not_index j).1.symm
    (manifest_ne_workflow _ _).symm fun hr => hr.ne_workflow rfl

variable (codec) in
/-- What a repair leaves of another workflow. -/
theorem indexOne_other (s : Store V) (hid : c.state.id = c.workflowId)
    (hown : ∀ k ∈ (manifest.map (·.keys)).getD [], IsRowOf c.workflowId k) {j : Component}
    (hj : j ≠ c.workflowId) :
    (applyBatchOperations s (indexOneOperations codec c manifest)).get (KEYS.workflow j) =
        s.get (KEYS.workflow j) ∧ (applyBatchOperations s (indexOneOperations codec c manifest)).get
          (KEYS.workflowVisibilityManifest j) = s.get (KEYS.workflowVisibilityManifest j) ∧
      ∀ k, IsRowOf j k →
        (applyBatchOperations s (indexOneOperations codec c manifest)).get k = s.get k := by
  obtain ⟨-, hother, -⟩ := indexOne_effect codec s hid hown
  refine ⟨indexOne_record codec s hid hown j, hother _ (cursor_not_index j).2.1.symm ?_ ?_,
    fun k hk => ?_⟩
  · exact fun heq => hj (KEYS.workflowVisibilityManifest_injective heq)
  · exact fun hr => hr.ne_manifest rfl
  · refine hother k ?_ hk.ne_manifest fun hr => hj (hk.owner hr)
    rintro rfl
    exact (cursor_not_index j).2.2 hk

/-- A repair that goes through closes the gap in flight and moves the cursor onto it. -/
theorem committed_inv {s : State V} (hs : Inv codec s) {p : Pass V} (hp : s.pass = some p)
    (hc : p.current = some c) (hvalue : s.store.get c.key = some c.value)
    (hskip : p.conflicts = 0 ∧ p.oversized = 0)
    (hkept : ∀ k ∈ currentKeys c, IsRowOf c.workflowId k ∧
      (k ∈ deriveWorkflowVisibilityIndexKeys c.state → (s.store.get k).isSome)) : Inv codec { s with
      store := applyBatchOperations s.store (indexOneOperations codec c (c.manifest.getD none))
      pass := some { p with current := none, processed := p.processed + 1 } } := by
  have hpass := hs.pass p hp
  unfold PassOk at hpass
  split at hpass
  · rw [hpass.2] at hc
    cases hc
  · rename_i rows hrows
    obtain ⟨hkey, hid, hdecode, hahead⟩ := hpass.current c hc
    have hown : ∀ k ∈ ((c.manifest.getD none).map (·.keys)).getD [], IsRowOf c.workflowId k :=
      fun k hk => (hkept k hk).1
    obtain ⟨hindexed, -, hcursor⟩ := indexOne_effect codec s.store hid hown
    have hrec := fun j => indexOne_record codec s.store hid hown j
    have hself : covered codec (applyBatchOperations s.store
        (indexOneOperations codec c (c.manifest.getD none))) c.workflowId = true := by
      rw [← hid]
      refine hindexed.covered ?_ fun k hk hmem => (hkept k hmem).2 hk
      rw [stateOf, hid, hrec, ← hkey, hvalue]
      exact hdecode
    have hcov : ∀ j, j ≠ c.workflowId → covered codec (applyBatchOperations s.store
        (indexOneOperations codec c (c.manifest.getD none))) j = covered codec s.store j := by
      intro j hj
      obtain ⟨hr, hm, hrow⟩ := indexOne_other codec s.store hid hown hj
      exact covered_congr hs.named.recordsNamed hr hm hrow
    have hgaps : ∀ j, (s.store.get (KEYS.workflow j)).isSome →
        covered codec (applyBatchOperations s.store
          (indexOneOperations codec c (c.manifest.getD none))) j = true ∨
        ∃ r ∈ rows, r.1 = KEYS.workflow j := by
      intro j hj
      by_cases hjc : j = c.workflowId
      · subst hjc
        exact .inl hself
      · rcases hpass.gaps hskip.1 hskip.2 j hj with hc' | ⟨c', hc', hkey'⟩ | hrow
        · rw [hcov j hjc]
          exact .inl hc'
        · rw [hc] at hc'
          obtain rfl := Option.some.inj hc'
          exact (hjc (KEYS.workflow_injective (hkey'.symm.trans hkey))).elim
        · exact .inr hrow
    refine ⟨indexOne_storeNamed hs.named hid hown, ?_, ?_⟩
    · intro k hk j hj hle
      rw [hcursor] at hk
      cases hk
      simp only [hrec] at hj
      rcases hgaps j hj with hc' | ⟨r, hr, hrkey⟩
      · exact hc'
      · have := hahead r hr
        rw [hrkey] at this
        exact (not_lt.2 hle this).elim
    · rintro q ⟨⟩
      simp only [PassOk, hrows]
      refine ⟨hpass.sorted, hpass.named, by simp, ?_, ?_⟩
      · intro k hk
        rw [hcursor] at hk
        cases hk
        exact ⟨by simp, hahead⟩
      · intro _ _ j hj
        rw [hrec] at hj
        rcases hgaps j hj with hc' | hrow
        · exact .inl hc'
        · exact .inr (.inr hrow)

/-- A repair that does not go through is counted as skipped. -/
theorem skipped_inv {s : State V} (hs : Inv codec s) (hp : s.pass = some p)
    (hc : p.current = some c) (hrows : q.rows = p.rows) (hcurrent : q.current = none)
    (hskip : q.conflicts ≠ 0 ∨ q.oversized ≠ 0) : Inv codec { s with pass := some q } := by
  refine ⟨hs.named, hs.cursor, ?_⟩
  rintro _ ⟨⟩
  have hpass := hs.pass p hp
  unfold PassOk at hpass ⊢
  rw [hrows]
  split at hpass
  · rw [hpass.2] at hc
    cases hc
  · exact hpass.skipCurrent hcurrent hskip

/-! ## The end of a pass -/

theorem watermark_keys (now : JsNumber) :
    ∀ op ∈ watermarkOperations codec now, js "wf-idx-meta:" <+: op.key := by
  intro op hop
  simp only [watermarkOperations, List.mem_cons, List.not_mem_nil, or_false] at hop
  rcases hop with rfl | rfl | rfl
  · show js "wf-idx-meta:" <+: KEYS.workflowVisibilityMetaVersion
    decide
  · show js "wf-idx-meta:" <+: KEYS.workflowVisibilityMetaBuiltAt
    decide
  · show js "wf-idx-meta:" <+: KEYS.workflowVisibilityMetaCursor
    decide

theorem watermark_untouched (s : Store V) (now : JsNumber) {k : JsString}
    (hk : ¬ js "wf-idx-meta:" <+: k) :
    (applyBatchOperations s (watermarkOperations codec now)).get k = s.get k := by
  refine get_applyBatchOperations_of_untouched s _ k fun op hop heq => hk ?_
  rw [← heq]
  exact watermark_keys now op hop

theorem watermark_storeNamed {s : Store V} (hs : StoreNamed codec s) (now : JsNumber) :
    StoreNamed codec (applyBatchOperations s (watermarkOperations codec now)) := by
  intro k v hk htop
  rw [watermark_untouched s now (topLevel_not_meta htop)] at hk
  exact hs k v hk htop

theorem watermark_covered {s : Store V} (hs : RecordsNamed codec s) (now : JsNumber)
    (id : Component) : covered codec (applyBatchOperations s (watermarkOperations codec now)) id =
      covered codec s id := by
  refine covered_congr hs (watermark_untouched s now fun h => ?_)
    (watermark_untouched s now fun h => ?_) fun k hk => watermark_untouched s now fun h => ?_
  · exact (meta_apart _ h id).1 rfl
  · exact (meta_apart _ h id).2.1 rfl
  · exact (meta_apart _ h id).2.2 hk

theorem watermark_cursor (s : Store V) (now : JsNumber) :
    cursorOf codec (applyBatchOperations s (watermarkOperations codec now)) = none := by
  simp [cursorOf, watermarkOperations, applyBatchOperations, applyBatchOperation]

/-- With nothing ahead, in flight or skipped, no gap is left. -/
theorem Ahead.complete {s : Store V} {p : Pass V} (h : Ahead codec s p [])
    (hcurrent : p.current = none) (hskip : p.conflicts = 0 ∧ p.oversized = 0) (id : Component)
    (hpresent : (s.get (KEYS.workflow id)).isSome) : covered codec s id = true := by
  rcases h.gaps hskip.1 hskip.2 id hpresent with hc | ⟨c, hc, -⟩ | ⟨r, hr, -⟩
  · exact hc
  · rw [hcurrent] at hc
    cases hc
  · cases hr

variable {s t : State V}

theorem finish_inv [DecidableEq V] (hs : Inv codec s) {now : JsNumber}
    (h : backfillStep codec s (.finish now) = some t) :
    Inv codec t ∧ ((∀ r ∈ t.report, r.watermarkWritten = true) → ∀ id,
      (t.store.get (KEYS.workflow id)).isSome → covered codec t.store id = true) := by
  obtain ⟨p, hp, hrows, hcurrent, rfl⟩ := finish_cases h
  have hpass := hs.pass p hp
  simp only [PassOk, hrows] at hpass
  split_ifs with hskip
  · have hrec : ∀ id, (applyBatchOperations s.store (watermarkOperations codec now)).get
        (KEYS.workflow id) = s.store.get (KEYS.workflow id) := fun id =>
      watermark_untouched s.store now fun h => (meta_apart _ h id).1 rfl
    refine ⟨⟨watermark_storeNamed hs.named now, ?_, by simp⟩, ?_⟩
    · intro k hk
      rw [watermark_cursor] at hk
      cases hk
    · intro _ id hpresent
      simp only [hrec] at hpresent
      rw [watermark_covered hs.named.recordsNamed]
      exact hpass.complete hcurrent hskip id hpresent
  · refine ⟨⟨hs.named, hs.cursor, by simp⟩, fun hreport => ?_⟩
    have := hreport _ rfl
    simp only [Pass.report, decide_eq_true_eq] at this
    exact (hskip this).elim

/-! ## Whole runs -/

theorem next_inv {s : State V} (hs : Inv codec s) {p : Pass V} {key : JsString} {old value : V}
    (hp : s.pass = some p) (hrows : p.rows = some ((key, old) :: rest))
    (hcurrent : p.current = none) (hnamed : RowNamed codec key value) :
    Inv codec { s with pass := p.take codec rest key value } := by
  have hpass := hs.pass p hp
  simp only [PassOk, hrows] at hpass
  exact ⟨hs.named, hs.cursor, fun q hq => hpass.take hcurrent hnamed hq⟩

theorem vanished_inv {s : State V} (hs : Inv codec s) {p : Pass V} {key : JsString} {old : V}
    (hp : s.pass = some p) (hrows : p.rows = some ((key, old) :: rest))
    (hgone : s.store.get key = none) :
    Inv codec { s with pass := some { p with rows := some rest } } := by
  have hpass := hs.pass p hp
  simp only [PassOk, hrows] at hpass
  refine ⟨hs.named, hs.cursor, ?_⟩
  rintro _ ⟨⟩
  refine hpass.skipRow fun id hkey hpresent => ?_
  simp only at hkey
  rw [← hkey, hgone] at hpresent
  cases hpresent

theorem readManifest_inv {s : State V} (hs : Inv codec s) {p : Pass V} (hp : s.pass = some p)
    (hc : p.current = some c) (manifest : Option (Option WorkflowVisibilityManifest)) :
    Inv codec { s with pass := some { p with current := some { c with manifest := manifest } }
      } := by
  have hpass := hs.pass p hp
  refine ⟨hs.named, hs.cursor, ?_⟩
  rintro _ ⟨⟩
  unfold PassOk at hpass ⊢
  split at hpass
  · rw [hpass.2] at hc
    cases hc
  · rename_i rows hrows
    simp only [hrows]
    refine ⟨hpass.sorted, hpass.named, ?_, ?_, ?_⟩
    · rintro _ ⟨⟩
      exact hpass.current c hc
    · intro k hk
      refine ⟨?_, (hpass.cursor k hk).2⟩
      rintro _ ⟨⟩
      exact (hpass.cursor k hk).1 c hc
    · intro hconf hover j hj
      rcases hpass.gaps hconf hover j hj with h | ⟨c', hc', hkey⟩ | h
      · exact .inl h
      · rw [hc] at hc'
        obtain rfl := Option.some.inj hc'
        exact .inr (.inl ⟨_, rfl, hkey⟩)
      · exact .inr (.inr h)

theorem commit_inv [DecidableEq V] (hs : Inv codec s)
    (hok : CommitSafe codec s (.backfill .commit)) (h : backfillStep codec s .commit = some t) :
    Inv codec t := by
  obtain ⟨p, c, hp, hc, -, ⟨hgo, rfl⟩ | ⟨-, q, hrows, hcurrent, hskip, rfl⟩⟩ := commit_cases h
  · obtain ⟨hskip, hkept⟩ := hok p hp c hc hgo
    exact committed_inv hs hp hc hgo.1 hskip hkept
  · exact skipped_inv hs hp hc hrows hcurrent hskip

theorem backfillStep_inv [DecidableEq V] (hs : Inv codec s) {b : BackfillStep}
    (hok : CommitSafe codec s (.backfill b)) (h : backfillStep codec s b = some t) :
    Inv codec t := by
  cases b with
  | loadCursor =>
    obtain rfl := loadCursor_cases h
    refine ⟨hs.named, hs.cursor, ?_⟩
    rintro _ ⟨⟩
    exact ⟨rfl, rfl⟩
  | openScan =>
    obtain ⟨p, hp, hrows, rfl⟩ := openScan_cases h
    have hpass := hs.pass p hp
    simp only [PassOk, hrows] at hpass
    refine ⟨hs.named, hs.cursor, ?_⟩
    rintro _ ⟨⟩
    exact openScan_ahead (p := { p with rows := some _ }) hs hpass.1 hpass.2
  | next live =>
    obtain ⟨p, key, old, rest, hp, hrows, hcurrent, ⟨hgone, rfl⟩ | ⟨value, hvalue, rfl⟩⟩ :=
      next_cases h
    · exact vanished_inv hs hp hrows hgone
    · refine next_inv hs hp hrows hcurrent ?_
      rcases hvalue with rfl | hvalue
      · have hpass := hs.pass p hp
        simp only [PassOk, hrows] at hpass
        exact hpass.named (key, value) List.mem_cons_self
      · exact hs.named key value hvalue
  | readManifest =>
    obtain ⟨p, c, hp, hc, rfl⟩ := readManifest_cases h
    exact readManifest_inv hs hp hc _
  | commit => exact commit_inv hs hok h
  | finish now => exact (finish_inv hs h).1
  | interrupt =>
    cases h
    exact ⟨hs.named, hs.cursor, by simp⟩

theorem step_inv [DecidableEq V] {a : Label V} (hs : Inv codec s) (hok : CommitSafe codec s a)
    (h : step codec s a = some t) : Inv codec t ∧ WatermarkComplete codec s a := by
  have hinv : Inv codec t := by
    cases a with
    | write w =>
      obtain ⟨store, hw, rfl⟩ := Option.map_eq_some_iff.1 h
      exact write_inv hs hw
    | recordWrite id value =>
      simp only [step] at h
      split_ifs at h with hrace
      cases h
      exact recordWrite_inv hs hrace.1 hrace.2
    | backfill b => exact backfillStep_inv hs hok h
  refine ⟨hinv, fun hfin t' h' => ?_⟩
  unfold Label.finishes at hfin
  split at hfin
  · exact (finish_inv hs h').2
  · cases hfin

/-- Over any passes, interruptions and racing writes, while every commit that goes through is
safe the cursor passes no gap and the watermark is written only when there is none. -/
theorem backfill_complete_of_safe_commits [DecidableEq V] (codec : Codec V) (s : State V)
    (run : List (Label V)) (hnamed : StoreNamed codec s.store) (hpass : s.pass = none)
    (hcursor : cursorOf codec s.store = none)
    (hok : (backfillMachine codec).EveryStep (CommitSafe codec) s run) :
    (backfillMachine codec).EveryState (CursorBehindGaps codec) s run ∧
      (backfillMachine codec).EveryStep (WatermarkComplete codec) s run := by
  have hinit : Inv codec s := by
    refine ⟨hnamed, fun k hk => ?_, fun p hp => ?_⟩
    · rw [hcursor] at hk
      cases hk
    · rw [hpass] at hp
      cases hp
  have hstep : ∀ s a t, Inv codec s → CommitSafe codec s a →
      (backfillMachine codec).step s a = some t → Inv codec t ∧ WatermarkComplete codec s a :=
    fun _ _ _ hs ha h => step_inv hs ha h
  constructor
  · have hinv := Machine.everyState_of_invariant
      (fun s a t hs ha h => (hstep s a t hs ha h).1) hinit hok
    exact hinv.mono fun _ hs => hs.cursor
  · exact Machine.everyStep_of_invariant hstep hinit hok

/-! ## A clean run and a run that skips -/

def legacyWorkflow (id : Component) : WorkflowState where
  id := id
  type := ⟨js "order", isSome_encode_order⟩
  status := .running
  createdAt := ⟨1, 0, canonical_one⟩
  updatedAt := ⟨1, 0, canonical_one⟩

def workflowA : Component := ⟨js "a", by decide⟩

def workflowB : Component := ⟨js "b", by decide⟩

def legacyStart : State StoredValue where
  store := legacyStore plainCodec [legacyWorkflow workflowA, legacyWorkflow workflowB]

def repairNext : List (Label StoredValue) :=
  [.backfill (.next false), .backfill .readManifest, .backfill .commit]

def openPass : List (Label StoredValue) := [.backfill .loadCursor, .backfill .openScan]

/-- Interrupted after the first workflow, resumed, and finished while the second one is
written. -/
def interruptedRun : List (Label StoredValue) :=
  openPass ++ repairNext ++ [Label.backfill .interrupt] ++ openPass ++ repairNext ++
    [Label.write (.transition { legacyWorkflow workflowB with status := .completed }),
      .backfill (.finish ⟨1, 1, canonical_ten⟩)]

/-- The first workflow conflicts, the second commits, and the next pass starts behind both. -/
def skippedRun : List (Label StoredValue) :=
  openPass ++ [Label.backfill (.next false), .backfill .readManifest,
      .recordWrite workflowA (.state { legacyWorkflow workflowA with status := .completed }),
      .backfill .commit] ++
    repairNext ++ [Label.backfill (.finish ⟨1, 1, canonical_ten⟩)] ++
    openPass ++ [Label.backfill (.finish ⟨1, 1, canonical_ten⟩)]

theorem backfill_complete_interrupted :
    ((backfillMachine plainCodec).final legacyStart interruptedRun).report.map
        (·.watermarkWritten) = some true ∧
      (backfillMachine plainCodec).EveryState (CursorBehindGaps plainCodec) legacyStart
        interruptedRun ∧
      (backfillMachine plainCodec).EveryStep (WatermarkComplete plainCodec) legacyStart
        interruptedRun :=
  ⟨by decide +kernel,
    backfill_complete_of_safe_commits plainCodec legacyStart interruptedRun
      (legacyStore_named plainCodec _) rfl (by decide +kernel) (by decide +kernel)⟩

/-- A pass that conflicts on one workflow and commits the next one leaves the cursor past a
gap, and the pass after it writes the watermark over it. -/
theorem skipped_workflow_passed_by_cursor :
    StoreNamed plainCodec legacyStart.store ∧ legacyStart.pass = none ∧
      cursorOf plainCodec legacyStart.store = none ∧
      ¬ (backfillMachine plainCodec).EveryState (CursorBehindGaps plainCodec) legacyStart
        skippedRun ∧
      ¬ (backfillMachine plainCodec).EveryStep (WatermarkComplete plainCodec) legacyStart
        skippedRun := by
  refine ⟨legacyStore_named plainCodec _, rfl, by decide, fun h => ?_, fun h => ?_⟩
  · have hweak := h.mono (R := fun s =>
      cursorOf plainCodec s.store = some (KEYS.workflow workflowB) →
        (s.store.get (KEYS.workflow workflowA)).isSome →
          covered plainCodec s.store workflowA = true) fun s hs hc hp =>
            hs _ hc workflowA hp (by decide)
    revert hweak
    decide
  · have hweak := h.mono (R := fun s a => a.finishes = true → ∀ t ∈ step plainCodec s a,
      (∀ r ∈ t.report, r.watermarkWritten = true) →
        (t.store.get (KEYS.workflow workflowA)).isSome →
          covered plainCodec t.store workflowA = true) fun s a hs hf t ht hr hp =>
            hs hf t ht hr workflowA hp
    revert hweak
    decide

end Weft.Visibility
