import Weft.Visibility.Completeness

/-! When manifests are sound. A transition and a repair write only the rows they take to be
new but list all of them, and a drop sweeps rows before the manifests that list them. The
manifests stay sound along a run exactly as long as every step finds the rows it keeps, and
sweeps no row of a manifest that stays. -/

namespace Weft.Visibility
open Weft.Js Weft.Storage Weft.Lib

universe u

variable {V : Type u}

section

variable (codec : Codec V)

/-- The manifest of `id`, if there is one, lists exactly the keys of the stored state, and
each of them is a row. -/
def SoundAt (s : Store V) (id : Component) : Prop :=
  ∀ manifest, manifestOf codec s id = some manifest → ∃ state, stateOf codec s id = some state ∧
    (∀ k, k ∈ manifest.keys ↔ k ∈ deriveWorkflowVisibilityIndexKeys state) ∧
    ∀ k ∈ manifest.keys, (s.get k).isSome

def ManifestsSound (s : IndexState V) : Prop := ∀ id, SoundAt codec s.base.store id

/-- The step finds the rows it keeps, and sweeps no row that a remaining manifest lists. -/
def KeepsListedRows (s : IndexState V) : IndexLabel → Prop
  | .write (.transition next) => ∀ previous ∈ stateOf codec s.base.store next.id,
      ∀ k ∈ deriveWorkflowVisibilityIndexKeys next,
        k ∈ deriveWorkflowVisibilityIndexKeys previous → (s.base.store.get k).isSome
  | .backfill .commit => ∀ p ∈ s.base.pass, ∀ c ∈ p.current, GoesThrough codec s.base.store c →
      ∀ k ∈ deriveWorkflowVisibilityIndexKeys c.state,
        k ∈ currentKeys c → (s.base.store.get k).isSome
  | .drop d => ∀ id, droppedBy s d (KEYS.workflowVisibilityManifest id) = false →
      ∀ manifest ∈ manifestOf codec s.base.store id, ∀ k ∈ manifest.keys,
        droppedBy s d k = false
  | _ => True

/-- The workflow a manifest row belongs to. -/
def manifestOwner (key : JsString) : Option Component :=
  (tryDecodeStorageKeyComponent (key.drop (js "wf-idx-manifest:").length)).bind Component.of?

theorem manifestOwner_manifest (id : Component) :
    manifestOwner (KEYS.workflowVisibilityManifest id) = some id := by
  rw [manifestOwner, KEYS.workflowVisibilityManifest, List.drop_left,
    tryDecodeStorageKeyComponent, id.decode_enc, Option.bind_some, Component.of?_text]

/-- Only the workflows that have a manifest row matter. -/
theorem forall_manifest_iff (s : Store V) (P : Component → WorkflowVisibilityManifest → Prop) :
    (∀ id, ∀ manifest ∈ manifestOf codec s id, P id manifest) ↔
      ∀ r ∈ s.range fun _ => true, ∀ id ∈ manifestOwner r.1,
        ∀ manifest ∈ manifestOf codec s id, P id manifest := by
  refine ⟨fun h r _ id _ => h id, fun h id manifest hm => ?_⟩
  obtain ⟨v, hv, -⟩ := Option.bind_eq_some_iff.1 hm
  exact h _ ((OrderedStore.mem_range _ _ _ _).2 ⟨hv, rfl⟩) id (manifestOwner_manifest id)
    manifest hm

instance [DecidableEq V] (s : IndexState V) : (a : IndexLabel) →
    Decidable (KeepsListedRows codec s a)
  | .write (.transition _) => by
      unfold KeepsListedRows
      infer_instance
  | .backfill .commit => by
      unfold KeepsListedRows GoesThrough
      infer_instance
  | .drop d => decidable_of_iff
      (∀ r ∈ s.base.store.range fun _ => true, ∀ id ∈ manifestOwner r.1,
        ∀ manifest ∈ manifestOf codec s.base.store id,
          droppedBy s d (KEYS.workflowVisibilityManifest id) = false →
            ∀ k ∈ manifest.keys, droppedBy s d k = false) (by
      rw [← forall_manifest_iff]
      exact forall_congr' fun id => ⟨fun h hkeep manifest hm => h manifest hm hkeep,
        fun h manifest hm hkeep => h hkeep manifest hm⟩)
  | .write (.start _) | .write (.purge _) => isTrue trivial
  | .backfill .loadCursor | .backfill .openScan | .backfill (.next _) | .backfill .readManifest
  | .backfill (.finish _) | .backfill .interrupt => isTrue trivial

def SweepsIndex : Option Drop → Prop
  | some (.sweeping _ pending toDelete) => (∀ p ∈ pending, p ∈ VISIBILITY_INDEX_PREFIXES) ∧
      ∀ keys ∈ toDelete, ∀ k ∈ keys, js "wf-idx-" <+: k
  | _ => True

/-- What the steps rely on: records are named, the pass works on named records and has read a
manifest of its own workflow, and a drop sweeps index keys. -/
structure Tracked (s : IndexState V) : Prop where
  named : StoreNamed codec s.base.store
  rows : ∀ p ∈ s.base.pass, ∀ rows ∈ p.rows, ∀ r ∈ rows, RowNamed codec r.1 r.2
  current : ∀ p ∈ s.base.pass, ∀ c ∈ p.current, c.key = KEYS.workflow c.workflowId ∧
    c.state.id = c.workflowId ∧ codec.decodeState c.value = some c.state ∧
      ∀ k ∈ currentKeys c, IsRowOf c.workflowId k
  drop : SweepsIndex s.drop

end

variable {codec : Codec V}

/-! ## Soundness at one workflow -/

variable {s : Store V} {id : Component} {k : JsString}

theorem SoundAt.keys_isRowOf (hs : RecordsNamed codec s) (h : SoundAt codec s id)
    {manifest : WorkflowVisibilityManifest} (hm : manifestOf codec s id = some manifest)
    (hk : k ∈ manifest.keys) : IsRowOf id k := by
  obtain ⟨state, hst, hkeys, -⟩ := h manifest hm
  rw [← hs id state hst]
  exact mem_derive_isRowOf ((hkeys k).1 hk)

theorem SoundAt.congr {s t : Store V} (hs : RecordsNamed codec s) (h : SoundAt codec s id)
    (hrec : t.get (KEYS.workflow id) = s.get (KEYS.workflow id))
    (hman : t.get (KEYS.workflowVisibilityManifest id) = s.get (KEYS.workflowVisibilityManifest id))
    (hrow : ∀ k, IsRowOf id k → t.get k = s.get k) : SoundAt codec t id := by
  intro manifest hm
  rw [manifestOf, hman] at hm
  obtain ⟨state, hst, hkeys, hpresent⟩ := h manifest hm
  refine ⟨state, by rw [stateOf, hrec]; exact hst, hkeys, fun k hk => ?_⟩
  rw [hrow k (h.keys_isRowOf hs hm hk)]
  exact hpresent k hk

/-- A write of the whole manifest is sound exactly if the rows it did not write were there. -/
theorem Indexed.soundAt_iff {s t : Store V} {next : WorkflowState} {previousKeys : List JsString}
    (h : Indexed codec s t next previousKeys) (hst : stateOf codec t next.id = some next) :
    SoundAt codec t next.id ↔ ∀ k ∈ deriveWorkflowVisibilityIndexKeys next,
      k ∈ previousKeys → (s.get k).isSome := by
  constructor
  · intro hsound k hk hprev
    obtain ⟨-, -, -, hpresent⟩ := hsound _ h.manifest
    have := hpresent k hk
    rwa [h.row k hk, if_pos hprev] at this
  · intro hrows manifest hm
    rw [h.manifest] at hm
    cases hm
    refine ⟨next, hst, fun _ => Iff.rfl, fun k hk => ?_⟩
    rw [h.row k hk]
    split_ifs with hprev
    · exact hrows k hk hprev
    · rfl

theorem soundAt_of_no_manifest (h : manifestOf codec s id = none) : SoundAt codec s id := by
  intro manifest hm
  rw [h] at hm
  cases hm

/-- Where the other workflows are left alone, soundness is up to the one that was written. -/
theorem sound_iff_self {s t : Store V} (hs : RecordsNamed codec s)
    (hsound : ∀ id, SoundAt codec s id) (id : Component)
    (hother : ∀ j, j ≠ id → t.get (KEYS.workflow j) = s.get (KEYS.workflow j) ∧
      t.get (KEYS.workflowVisibilityManifest j) = s.get (KEYS.workflowVisibilityManifest j) ∧
      ∀ k, IsRowOf j k → t.get k = s.get k) : (∀ j, SoundAt codec t j) ↔ SoundAt codec t id := by
  refine ⟨fun h => h id, fun h j => ?_⟩
  by_cases hj : j = id
  · rwa [hj]
  · obtain ⟨hrec, hman, hrow⟩ := hother j hj
    exact (hsound j).congr hs hrec hman hrow

/-! ## Writes of the engine -/

theorem write_sound_iff {s t : IndexState V} (hs : Tracked codec s)
    (hsound : ManifestsSound codec s) {w : EngineWrite}
    (h : applyWrite codec s.base.store w = some t.base.store) :
    ManifestsSound codec t ↔ KeepsListedRows codec s (.write w) := by
  have hnamed := hs.named.recordsNamed
  have honly := applyWrite_onlyTouches hnamed h
  unfold ManifestsSound
  rw [sound_iff_self hnamed hsound w.id fun j hj => honly.other hj]
  cases w with
  | start state =>
    obtain ⟨hindexed, hst⟩ := start_indexed h
    have hself := hindexed.soundAt_iff hst
    exact ⟨fun _ => trivial, fun _ => hself.2 (by simp)⟩
  | transition next =>
    obtain ⟨previous, hprev, hindexed, hst⟩ := transition_indexed hnamed h
    show SoundAt codec t.base.store next.id ↔ _
    rw [hindexed.soundAt_iff hst]
    simp only [KeepsListedRows, hprev, Option.mem_def, Option.some.injEq, forall_eq']
  | purge id =>
    refine ⟨fun _ => trivial, fun _ => soundAt_of_no_manifest ?_⟩
    show manifestOf codec t.base.store id = none
    rw [manifestOf, (purge_removes hnamed h).2]
    rfl

theorem write_tracked {s t : IndexState V} (hs : Tracked codec s) {w : EngineWrite}
    (h : applyWrite codec s.base.store w = some t.base.store)
    (hpass : t.base.pass = s.base.pass) (hdrop : t.drop = s.drop) : Tracked codec t := by
  have hnamed := hs.named.recordsNamed
  refine ⟨?_, ?_, ?_, ?_⟩
  · refine (applyWrite_onlyTouches hnamed h).storeNamed hs.named fun v hv state hd => ?_
    refine applyWrite_recordsNamed hnamed h w.id state ?_
    rw [stateOf, hv]
    exact hd
  · rw [hpass]
    exact hs.rows
  · rw [hpass]
    exact hs.current
  · rw [hdrop]
    exact hs.drop

/-! ## Steps of a drop -/

theorem indexPrefixes_start : ∀ p ∈ VISIBILITY_INDEX_PREFIXES, js "wf-idx-" <+: p ∧
    p.getLast? = some 58 := by
  decide +kernel

theorem droppedBy_index {s : IndexState V} (hs : Tracked codec s) {d : DropStep}
    (h : droppedBy s d k = true) : js "wf-idx-" <+: k := by
  unfold droppedBy at h
  split at h
  · rw [of_decide_eq_true h]
    decide +kernel
  · rw [of_decide_eq_true h]
    decide +kernel
  · rename_i size p pending hdrop
    have hsweeps := hs.drop
    rw [hdrop] at hsweeps
    obtain ⟨hpending, -⟩ := hsweeps
    obtain ⟨hstart, hlast⟩ := indexPrefixes_start p (hpending p List.mem_cons_self)
    have hin := (between_prefix_iff hlast (by decide +kernel) k).1 (of_decide_eq_true h)
    exact hstart.trans hin
  · rename_i size pending toDelete hdrop
    have hsweeps := hs.drop
    rw [hdrop] at hsweeps
    obtain ⟨-, hkeys⟩ := hsweeps
    exact hkeys toDelete rfl k (List.mem_of_mem_take (of_decide_eq_true h))
  · rw [of_decide_eq_true h]
    decide +kernel
  · cases h

theorem droppedBy_record {s : IndexState V} (hs : Tracked codec s) (d : DropStep)
    (hk : js "wf:" <+: k) : droppedBy s d k = false := by
  rw [Bool.eq_false_iff]
  intro h
  obtain ⟨rest, rfl⟩ := hk
  exact not_prefix_of_apart (by decide) rest (droppedBy_index hs h)

theorem drop_sound_iff {s t : IndexState V} (hs : Tracked codec s)
    (hsound : ManifestsSound codec s) {d : DropStep} (h : dropStep s d = some t) :
    ManifestsSound codec t ↔ KeepsListedRows codec s (.drop d) := by
  obtain ⟨-, hget⟩ := dropStep_effect h
  have hman : ∀ id, droppedBy s d (KEYS.workflowVisibilityManifest id) = false →
      manifestOf codec t.base.store id = manifestOf codec s.base.store id := by
    intro id hkeep
    rw [manifestOf, hget, hkeep]
    rfl
  have hrec : ∀ id, stateOf codec t.base.store id = stateOf codec s.base.store id := by
    intro id
    have hkeep : droppedBy s d (KEYS.workflow id) = false :=
      droppedBy_record hs d (List.prefix_append _ _)
    rw [stateOf, hget, hkeep]
    rfl
  constructor
  · intro ht id hkeep manifest hm k hk
    obtain ⟨-, -, -, hpresent⟩ := ht id manifest ((hman id hkeep).trans hm)
    have := hpresent k hk
    rw [hget] at this
    by_contra hdropped
    rw [Bool.not_eq_false] at hdropped
    rw [if_pos hdropped] at this
    cases this
  · intro hok id manifest hm
    cases hgone : droppedBy s d (KEYS.workflowVisibilityManifest id) with
    | true =>
      rw [manifestOf, hget, if_pos hgone] at hm
      cases hm
    | false =>
      rw [hman id hgone] at hm
      obtain ⟨state, hst, hkeys, hpresent⟩ := hsound id manifest hm
      refine ⟨state, (hrec id).trans hst, hkeys, fun k hk => ?_⟩
      rw [hget, hok id hgone manifest hm k hk]
      exact hpresent k hk

theorem dropStep_sweeps {s t : IndexState V} (hs : SweepsIndex s.drop) {d : DropStep}
    (h : dropStep s d = some t) : SweepsIndex t.drop := by
  cases d with
  | deleteVersion size =>
    simp only [dropStep] at h
    split at h
    · cases h
      trivial
    · cases h
  | deleteBuiltAt =>
    simp only [dropStep] at h
    split at h
    · cases h
      exact ⟨fun p hp => hp, by simp⟩
    · cases h
  | deletePrefix =>
    simp only [dropStep] at h
    split at h
    · rename_i size p pending hdrop
      cases h
      rw [hdrop] at hs
      exact ⟨fun q hq => hs.1 q (List.mem_cons_of_mem _ hq), by simp⟩
    · cases h
  | openSweep =>
    simp only [dropStep] at h
    split at h
    · rename_i size p pending hdrop
      cases h
      rw [hdrop] at hs
      refine ⟨hs.1, ?_⟩
      rintro keys ⟨⟩ k hk
      obtain ⟨⟨k', v⟩, hrow, rfl⟩ := List.mem_map.1 hk
      rw [scan_unlimited _ _ _ rfl rfl] at hrow
      obtain ⟨-, hin⟩ := (OrderedStore.mem_range _ _ _ _).1 hrow
      obtain ⟨hstart, hlast⟩ := indexPrefixes_start p (hs.1 p List.mem_cons_self)
      simp only [Bool.and_eq_true, decide_eq_true_eq] at hin
      exact hstart.trans ((between_prefix_iff hlast (by decide) k').1 hin.1)
    · cases h
  | sweepBatch =>
    simp only [dropStep] at h
    split at h
    · rename_i size p pending toDelete hdrop
      cases h
      rw [hdrop] at hs
      refine ⟨hs.1, ?_⟩
      rintro keys ⟨⟩ k hk
      exact hs.2 toDelete rfl k (List.mem_of_mem_drop hk)
    · cases h
  | closeSweep =>
    simp only [dropStep] at h
    split at h
    · rename_i size p pending hdrop
      cases h
      rw [hdrop] at hs
      exact ⟨fun q hq => hs.1 q (List.mem_cons_of_mem _ hq), by simp⟩
    · cases h
  | deleteCursor =>
    simp only [dropStep] at h
    split at h
    · cases h
      trivial
    · cases h
  | interrupt =>
    cases h
    trivial

theorem drop_tracked {s t : IndexState V} (hs : Tracked codec s) {d : DropStep}
    (h : dropStep s d = some t) : Tracked codec t := by
  obtain ⟨hpass, hget⟩ := dropStep_effect h
  refine ⟨?_, ?_, ?_, dropStep_sweeps hs.drop h⟩
  · intro k v hk htop
    rw [hget] at hk
    split_ifs at hk
    exact hs.named k v hk htop
  · rw [hpass]
    exact hs.rows
  · rw [hpass]
    exact hs.current

/-! ## Steps of the backfill -/

theorem watermark_soundAt (hs : RecordsNamed codec s) (now : JsNumber) (h : SoundAt codec s id) :
    SoundAt codec (applyBatchOperations s (watermarkOperations codec now)) id := by
  refine h.congr hs (watermark_untouched s now fun hmeta => ?_)
    (watermark_untouched s now fun hmeta => ?_) fun k hk =>
      watermark_untouched s now fun hmeta => ?_
  · exact (meta_apart _ hmeta id).1 rfl
  · exact (meta_apart _ hmeta id).2.1 rfl
  · exact (meta_apart _ hmeta id).2.2 hk

theorem commit_sound_iff [DecidableEq V] {s t : IndexState V} (hs : Tracked codec s)
    (hsound : ManifestsSound codec s) (h : backfillStep codec s.base .commit = some t.base) :
    ManifestsSound codec t ↔ KeepsListedRows codec s (.backfill .commit) := by
  have hnamed := hs.named.recordsNamed
  obtain ⟨p, c, hp, hc, -, ⟨hgo, hbase⟩ | ⟨hnot, q, -, -, -, hbase⟩⟩ := commit_cases h
  · obtain ⟨hkey, hid, hdecode, hown⟩ := hs.current p hp c hc
    obtain ⟨hindexed, -, -⟩ := indexOne_effect codec s.base.store hid hown
    have hst : stateOf codec (applyBatchOperations s.base.store
        (indexOneOperations codec c (c.manifest.getD none))) c.state.id = some c.state := by
      rw [stateOf, hid, indexOne_record codec s.base.store hid hown, ← hkey, hgo.1]
      exact hdecode
    simp only [ManifestsSound, hbase]
    rw [sound_iff_self hnamed hsound c.workflowId fun j hj =>
      indexOne_other codec s.base.store hid hown hj,
      ← hid, hindexed.soundAt_iff hst]
    constructor
    · intro hrows p' hp' c' hc' _
      rw [hp] at hp'
      obtain rfl := Option.some.inj hp'
      rw [hc] at hc'
      obtain rfl := Option.some.inj hc'
      exact hrows
    · intro hkeeps
      exact hkeeps p hp c hc hgo
  · simp only [ManifestsSound, hbase]
    refine ⟨fun _ => ?_, fun _ => hsound⟩
    intro p' hp' c' hc' hgo
    rw [hp] at hp'
    obtain rfl := Option.some.inj hp'
    rw [hc] at hc'
    obtain rfl := Option.some.inj hc'
    exact (hnot hgo).elim

theorem backfill_sound_iff [DecidableEq V] {s t : IndexState V} (hs : Tracked codec s)
    (hsound : ManifestsSound codec s) {b : BackfillStep}
    (h : backfillStep codec s.base b = some t.base) :
    ManifestsSound codec t ↔ KeepsListedRows codec s (.backfill b) := by
  have hsame : t.base.store = s.base.store → ManifestsSound codec t := by
    intro heq
    unfold ManifestsSound
    rw [heq]
    exact hsound
  cases b with
  | loadCursor =>
    have hbase := loadCursor_cases h
    exact ⟨fun _ => trivial, fun _ => hsame (by rw [hbase])⟩
  | openScan =>
    obtain ⟨p, -, -, hbase⟩ := openScan_cases h
    exact ⟨fun _ => trivial, fun _ => hsame (by rw [hbase])⟩
  | next live =>
    obtain ⟨p, key, old, rest, -, -, -, ⟨-, hbase⟩ | ⟨value, -, hbase⟩⟩ := next_cases h
    · exact ⟨fun _ => trivial, fun _ => hsame (by rw [hbase])⟩
    · exact ⟨fun _ => trivial, fun _ => hsame (by rw [hbase])⟩
  | readManifest =>
    obtain ⟨p, c, -, -, hbase⟩ := readManifest_cases h
    exact ⟨fun _ => trivial, fun _ => hsame (by rw [hbase])⟩
  | commit => exact commit_sound_iff hs hsound h
  | finish now =>
    obtain ⟨p, -, -, -, hbase⟩ := finish_cases h
    refine ⟨fun _ => trivial, fun _ => ?_⟩
    unfold ManifestsSound
    rw [hbase]
    split_ifs
    · exact fun id => watermark_soundAt hs.named.recordsNamed now (hsound id)
    · exact hsound
  | interrupt =>
    have hbase := (Option.some.inj h).symm
    exact ⟨fun _ => trivial, fun _ => hsame (by rw [hbase])⟩

theorem backfill_tracked [DecidableEq V] {s t : IndexState V} (hs : Tracked codec s)
    (hsound : ManifestsSound codec s) {b : BackfillStep}
    (h : backfillStep codec s.base b = some t.base) (hdrop : t.drop = s.drop) :
    Tracked codec t := by
  have hsweeps : SweepsIndex t.drop := by
    rw [hdrop]
    exact hs.drop
  obtain ⟨base, drop⟩ := t
  simp only at h
  cases b with
  | loadCursor =>
    obtain rfl := loadCursor_cases h
    exact ⟨hs.named, by simp, by simp, hsweeps⟩
  | openScan =>
    obtain ⟨p, hp, -, rfl⟩ := openScan_cases h
    refine ⟨hs.named, ?_, ?_, hsweeps⟩
    · rintro _ ⟨⟩ rows ⟨⟩ ⟨k, v⟩ hr
      rw [scan_unlimited _ _ _ rfl rfl] at hr
      exact hs.named k v ((OrderedStore.mem_range _ _ _ _).1 hr).1
    · rintro _ ⟨⟩ c hc
      exact hs.current p hp c hc
  | next live =>
    obtain ⟨p, key, old, rest, hp, hrows, hcurrent, htake⟩ := next_cases h
    have hrest : ∀ r ∈ (key, old) :: rest, RowNamed codec r.1 r.2 := hs.rows p hp _ hrows
    rcases htake with ⟨-, rfl⟩ | ⟨value, hvalue, rfl⟩
    · refine ⟨hs.named, ?_, ?_, hsweeps⟩
      · rintro _ ⟨⟩ rows ⟨⟩ r hr
        exact hrest r (List.mem_cons_of_mem _ hr)
      · rintro _ ⟨⟩ c hc
        exact hs.current p hp c hc
    · have hnamed : RowNamed codec key value := by
        rcases hvalue with rfl | hvalue
        · exact hrest _ List.mem_cons_self
        · exact hs.named key value hvalue
      refine ⟨hs.named, ?_, ?_, hsweeps⟩
      · intro q hq rows hr r hmem
        rcases take_cases hnamed hq with ⟨-, rfl⟩ | ⟨id, state, -, -, -, rfl⟩
        · cases hr
          exact hrest r (List.mem_cons_of_mem _ hmem)
        · cases hr
          exact hrest r (List.mem_cons_of_mem _ hmem)
      · intro q hq c hc
        rcases take_cases hnamed hq with ⟨-, rfl⟩ | ⟨id, state, hkey, hid, hstate, rfl⟩
        · exact hs.current p hp c hc
        · cases hc
          exact ⟨hkey, hid, hstate, by simp [currentKeys]⟩
  | readManifest =>
    obtain ⟨p, c, hp, hc, rfl⟩ := readManifest_cases h
    refine ⟨hs.named, ?_, ?_, hsweeps⟩
    · rintro _ ⟨⟩ rows hr
      exact hs.rows p hp rows hr
    · rintro _ ⟨⟩ _ ⟨⟩
      obtain ⟨hkey, hid, hstate, -⟩ := hs.current p hp c hc
      refine ⟨hkey, hid, hstate, fun k hk => ?_⟩
      -- the manifest just read is sound, so its keys are rows of this workflow
      cases hm : manifestOf codec s.base.store c.workflowId with
      | none => simp [currentKeys, hm] at hk
      | some manifest =>
        simp only [currentKeys, hm, Option.getD_some, Option.map_some] at hk
        exact (hsound c.workflowId).keys_isRowOf hs.named.recordsNamed hm hk
  | commit =>
    obtain ⟨p, c, hp, hc, -, ⟨-, rfl⟩ | ⟨-, q, hrows, hcurrent, -, rfl⟩⟩ := commit_cases h
    · obtain ⟨-, hid, -, hown⟩ := hs.current p hp c hc
      refine ⟨indexOne_storeNamed hs.named hid hown, ?_, ?_, hsweeps⟩
      · rintro _ ⟨⟩ rows hr
        exact hs.rows p hp rows hr
      · rintro _ ⟨⟩ _ ⟨⟩
    · refine ⟨hs.named, ?_, ?_, hsweeps⟩
      · rintro _ ⟨⟩ rows hr
        rw [hrows] at hr
        exact hs.rows p hp rows hr
      · rintro _ ⟨⟩ c' hc'
        rw [hcurrent] at hc'
        cases hc'
  | finish now =>
    obtain ⟨p, -, -, -, rfl⟩ := finish_cases h
    refine ⟨?_, by simp, by simp, hsweeps⟩
    simp only
    split_ifs
    · exact watermark_storeNamed hs.named now
    · exact hs.named
  | interrupt =>
    cases h
    exact ⟨hs.named, by simp, by simp, hsweeps⟩

/-! ## Whole runs -/

theorem indexStep_sound_iff [DecidableEq V] {s t : IndexState V} {a : IndexLabel}
    (hs : Tracked codec s) (hsound : ManifestsSound codec s) (h : indexStep codec s a = some t) :
    Tracked codec t ∧ (ManifestsSound codec t ↔ KeepsListedRows codec s a) := by
  cases a with
  | write w =>
    obtain ⟨store, hw, rfl⟩ := Option.map_eq_some_iff.1 h
    exact ⟨write_tracked hs hw rfl rfl, write_sound_iff hs hsound hw⟩
  | backfill b =>
    obtain ⟨base, hb, rfl⟩ := Option.map_eq_some_iff.1 h
    exact ⟨backfill_tracked hs hsound hb rfl, backfill_sound_iff hs hsound hb⟩
  | drop d => exact ⟨drop_tracked hs h, drop_sound_iff hs hsound h⟩

/-- Along any run of writes, backfill steps and drop steps, the manifests are sound in every
state exactly if they are sound at the start and every step keeps the rows they list. -/
theorem manifests_sound_iff_rows_kept [DecidableEq V] (codec : Codec V) (s : IndexState V)
    (run : List IndexLabel) (hnamed : StoreNamed codec s.base.store)
    (hpass : s.base.pass = none) (hdrop : s.drop = none) :
    (indexMachine codec).EveryState (ManifestsSound codec) s run ↔
      ManifestsSound codec s ∧ (indexMachine codec).EveryStep (KeepsListedRows codec) s run := by
  refine Machine.everyState_iff_everyStep (J := Tracked codec)
    (fun s a t hs hsound h => indexStep_sound_iff hs hsound h) ?_
  exact ⟨hnamed, by simp [hpass], by simp [hpass], by rw [hdrop]; trivial⟩

theorem legacyStore_manifestOf (states : List WorkflowState) (id : Component) :
    manifestOf codec (legacyStore codec states) id = none := by
  induction states with
  | nil => rfl
  | cons state states ih =>
    rw [manifestOf] at ih ⊢
    rw [legacyStore, OrderedStore.get_put, if_neg (manifest_ne_workflow id state.id)]
    exact ih

theorem legacy_sound (states : List WorkflowState) :
    ManifestsSound codec ⟨{ store := legacyStore codec states }, none⟩ :=
  fun id => soundAt_of_no_manifest (legacyStore_manifestOf states id)

/-! ## Three runs over records without an index -/

def completedA : IndexLabel :=
  .write (.transition { legacyWorkflow workflowA with status := .completed })

def dropRun : List IndexLabel :=
  [.drop (.deleteVersion (some 2)), .drop .deleteBuiltAt, .drop .deletePrefix, .drop .openSweep,
    .drop .sweepBatch, .drop .closeSweep, .drop .deletePrefix, .drop .deletePrefix,
    .drop .deletePrefix, .drop .deletePrefix, .drop .deletePrefix, .drop .deleteCursor]

def backfillRun : List IndexLabel :=
  [.backfill .loadCursor, .backfill .openScan, .backfill (.next false),
    .backfill .readManifest, .backfill .commit, .backfill (.finish ⟨1, 1, canonical_ten⟩)]

def legacyIndexStart : IndexState StoredValue where
  base := { store := legacyStore plainCodec [legacyWorkflow workflowA] }

theorem manifests_sound_rebuilt :
    (indexMachine plainCodec).EveryState (ManifestsSound plainCodec) legacyIndexStart
      (dropRun ++ backfillRun ++ [completedA, .write (.start (legacyWorkflow workflowB))]) :=
  (manifests_sound_iff_rows_kept plainCodec legacyIndexStart _
    (legacyStore_named plainCodec _) rfl rfl).2 ⟨legacy_sound _, by decide +kernel⟩

/-- A transition of a record without an index, and a drop that has swept the first prefix,
leave a manifest over missing rows. -/
theorem manifest_over_missing_rows :
    StoreNamed plainCodec legacyIndexStart.base.store ∧
      ¬ (indexMachine plainCodec).EveryState (ManifestsSound plainCodec) legacyIndexStart
        [completedA] ∧
      ¬ (indexMachine plainCodec).EveryState (ManifestsSound plainCodec) legacyIndexStart
        (backfillRun ++ dropRun) := by
  have hweak : ∀ s, ManifestsSound plainCodec s →
      (manifestOf plainCodec s.base.store workflowA).all
        (fun manifest => rowsPresent s.base.store manifest.keys) = true := by
    intro s hs
    rw [Option.all_eq_true]
    intro manifest hm
    obtain ⟨-, -, -, hpresent⟩ := hs workflowA manifest hm
    simpa [rowsPresent] using hpresent
  refine ⟨legacyStore_named plainCodec _, fun h => ?_, fun h => ?_⟩
  · have := h.mono hweak
    revert this
    decide +kernel
  · have := h.mono hweak
    revert this
    decide +kernel

end Weft.Visibility
