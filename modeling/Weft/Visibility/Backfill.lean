import Weft.Visibility.Coverage
import Weft.Lib.Machine

/-! `runWorkflowVisibilityBackfill` as a machine over the shared store. A pass loads the
cursor, opens a scan of the workflow records behind it, and repairs one workflow at a time
by a conditional batch on the record it read, which also moves the cursor. It can be
interrupted anywhere. Meanwhile the engine writes states. -/

namespace Weft.Visibility
open Weft.Js Weft.Storage Weft.Lib

universe u

/-- The workflow a pass is working on; `manifest` is set once it has been read. -/
structure InFlight (V : Type u) where
  key : JsString
  value : V
  workflowId : Component
  state : WorkflowState
  manifest : Option (Option WorkflowVisibilityManifest) := none

/-- `rows` is what is left of the scan, once it is open. -/
structure Pass (V : Type u) where
  startCursor : Option JsString
  rows : Option (List (JsString × V)) := none
  current : Option (InFlight V) := none
  processed : Nat := 0
  conflicts : Nat := 0
  oversized : Nat := 0

structure WorkflowVisibilityBackfillReport where
  processed : Nat
  conflicts : Nat
  oversized : Nat
  watermarkWritten : Bool
  resumedFrom : Option JsString

structure State (V : Type u) where
  store : Store V
  pass : Option (Pass V) := none
  /-- What the last finished pass returned. -/
  report : Option WorkflowVisibilityBackfillReport := none

inductive BackfillStep where
  | loadCursor
  | openScan
  /-- Takes the next row, with the value the scan opened with or the one there now. -/
  | next (live : Bool)
  | readManifest
  | commit
  | finish (now : JsNumber)
  | interrupt

def topLevelWorkflowId (key : JsString) : Option JsString :=
  if isTopLevelKey key then tryDecodeStorageKeyComponent (key.drop 3) else none

variable {V : Type u} (codec : Codec V)

def cursorOf (s : Store V) : Option JsString :=
  (s.get KEYS.workflowVisibilityMetaCursor).bind codec.decodeCursor

def currentKeys (c : InFlight V) : List JsString :=
  ((c.manifest.getD none).map (·.keys)).getD []

/-- The repair of one workflow together with the move of the cursor. -/
def indexOneOperations (c : InFlight V) (manifest : Option WorkflowVisibilityManifest) :
    List (BatchOperation V) :=
  buildWorkflowVisibilityIndexOperations codec c.workflowId manifest (some c.state) ++
    [.put KEYS.workflowVisibilityMetaCursor (codec.encodeCursor c.key)]

/-- Takes up the row `(key, value)`. A record that does not decode, or whose key cannot be
encoded again, ends the pass with an error. -/
def Pass.take (p : Pass V) (rest : List (JsString × V)) (key : JsString) (value : V) :
    Option (Pass V) :=
  match topLevelWorkflowId key with
  | none => some { p with rows := some rest }
  | some text =>
    match codec.decodeState value, Component.of? text with
    | some state, some id =>
      some { p with rows := some rest, current := some ⟨key, value, id, state, none⟩ }
    | _, _ => none

def watermarkOperations (now : JsNumber) : List (BatchOperation V) :=
  [.put KEYS.workflowVisibilityMetaVersion (codec.encodeNumber WORKFLOW_VISIBILITY_INDEX_VERSION),
    .put KEYS.workflowVisibilityMetaBuiltAt (codec.encodeNumber now),
    .delete KEYS.workflowVisibilityMetaCursor]

def Pass.report (p : Pass V) : WorkflowVisibilityBackfillReport where
  processed := p.processed
  conflicts := p.conflicts
  oversized := p.oversized
  watermarkWritten := p.conflicts = 0 ∧ p.oversized = 0
  resumedFrom := p.startCursor

def indexOneWorkflow [DecidableEq V] (s : State V) (p : Pass V) (c : InFlight V)
    (manifest : Option WorkflowVisibilityManifest) : Option (State V) :=
  let operations := indexOneOperations codec c manifest
  if operations.length > MAX_BATCH_OPERATIONS then
    some { s with pass := some { p with current := none, oversized := p.oversized + 1 } }
  else match conditionalBatch s.store [⟨c.key, some c.value⟩] operations with
    | some (true, store) =>
      some { s with
        store := store
        pass := some { p with current := none, processed := p.processed + 1 } }
    | some (false, _) =>
      some { s with pass := some { p with current := none, conflicts := p.conflicts + 1 } }
    | none => none

def backfillStep [DecidableEq V] (s : State V) : BackfillStep → Option (State V)
  | .loadCursor =>
    match s.pass with
    | none => some { s with pass := some { startCursor := cursorOf codec s.store } }
    | some _ => none
  | .openScan =>
    match s.pass with
    | some p =>
      match p.rows with
      | none => some { s with pass := some { p with
          rows := some (scan s.store (js "wf:") { gt := p.startCursor }) } }
      | some _ => none
    | none => none
  | .next live =>
    match s.pass with
    | some p =>
      match p.rows, p.current with
      | some ((key, value) :: rest), none =>
        match if live then s.store.get key else some value with
        | none => some { s with pass := some { p with rows := some rest } }
        | some value => some { s with pass := p.take codec rest key value }
      | _, _ => none
    | none => none
  | .readManifest =>
    match s.pass with
    | some p =>
      match p.current with
      | some c =>
        match c.manifest with
        | none => some { s with pass := some { p with current := some { c with
            manifest := some (manifestOf codec s.store c.workflowId) } } }
        | some _ => none
      | none => none
    | none => none
  | .commit =>
    match s.pass with
    | some p =>
      match p.current with
      | some c =>
        match c.manifest with
        | some manifest => indexOneWorkflow codec s p c manifest
        | none => none
      | none => none
    | none => none
  | .finish now =>
    match s.pass with
    | some p =>
      match p.rows, p.current with
      | some [], none =>
        some { store :=
                if p.conflicts = 0 ∧ p.oversized = 0 then
                  applyBatchOperations s.store (watermarkOperations codec now)
                else s.store
               pass := none
               report := some p.report }
      | _, _ => none
    | none => none
  | .interrupt => some { s with pass := none }

/-! ## The machine -/

inductive Label (V : Type u) where
  | write (w : EngineWrite)
  /-- A record write that does not maintain the index, racing the pass. -/
  | recordWrite (id : Component) (value : V)
  | backfill (b : BackfillStep)

/-- The record is the one in flight, so that its repair will conflict, or has no manifest. -/
def mayRace (s : State V) (id : Component) : Bool :=
  (s.store.get (KEYS.workflow id)).isSome &&
    ((s.pass.bind (·.current)).any (fun c => c.key = KEYS.workflow id) ||
      (s.store.get (KEYS.workflowVisibilityManifest id)).isNone)

def step [DecidableEq V] (s : State V) : Label V → Option (State V)
  | .write w => (applyWrite codec s.store w).map fun store => { s with store := store }
  | .recordWrite id value =>
    if mayRace s id ∧ (codec.decodeState value).all (fun state => state.id = id) then
      some { s with store := s.store.put (KEYS.workflow id) value }
    else none
  | .backfill b => backfillStep codec s b

def backfillMachine [DecidableEq V] : Machine (State V) (Label V) := ⟨step codec⟩

/-! ## What a step does -/

/-- The repair of the workflow in flight fits a batch, and its record is the one read. -/
def GoesThrough (s : Store V) (c : InFlight V) : Prop :=
  s.get c.key = some c.value ∧
    (indexOneOperations codec c (c.manifest.getD none)).length ≤ MAX_BATCH_OPERATIONS

variable {codec}

variable {s t : State V}

theorem loadCursor_cases [DecidableEq V] (h : backfillStep codec s .loadCursor = some t) :
    t = { s with pass := some { startCursor := cursorOf codec s.store } } := by
  simp only [backfillStep] at h
  split at h
  · exact (Option.some.inj h).symm
  · cases h

theorem openScan_cases [DecidableEq V] (h : backfillStep codec s .openScan = some t) :
    ∃ p, s.pass = some p ∧ p.rows = none ∧ t = { s with pass := some { p with
      rows := some (scan s.store (js "wf:") { gt := p.startCursor }) } } := by
  simp only [backfillStep] at h
  split at h
  · rename_i p hp
    split at h
    · rename_i hrows
      exact ⟨p, hp, hrows, (Option.some.inj h).symm⟩
    · cases h
  · cases h

theorem next_cases [DecidableEq V] {live : Bool} (h : backfillStep codec s (.next live) = some t) :
    ∃ p key old rest, s.pass = some p ∧ p.rows = some ((key, old) :: rest) ∧ p.current = none ∧
      ((s.store.get key = none ∧ t = { s with pass := some { p with rows := some rest } }) ∨
        ∃ value, (value = old ∨ s.store.get key = some value) ∧
          t = { s with pass := p.take codec rest key value }) := by
  simp only [backfillStep] at h
  split at h
  · rename_i p hp
    split at h
    · rename_i key old rest hrows hcurrent
      refine ⟨p, key, old, rest, hp, hrows, hcurrent, ?_⟩
      cases live with
      | true =>
        simp only [if_true] at h
        split at h
        · rename_i hgone
          exact .inl ⟨hgone, (Option.some.inj h).symm⟩
        · rename_i value hvalue
          exact .inr ⟨value, .inr hvalue, (Option.some.inj h).symm⟩
      | false =>
        simp only [Bool.false_eq_true, if_false] at h
        exact .inr ⟨old, .inl rfl, (Option.some.inj h).symm⟩
    · cases h
  · cases h

theorem readManifest_cases [DecidableEq V] (h : backfillStep codec s .readManifest = some t) :
    ∃ p c, s.pass = some p ∧ p.current = some c ∧
      t = { s with pass := some { p with current := some { c with
        manifest := some (manifestOf codec s.store c.workflowId) } } } := by
  simp only [backfillStep] at h
  split at h
  · rename_i p hp
    split at h
    · rename_i c hc
      split at h
      · exact ⟨p, c, hp, hc, (Option.some.inj h).symm⟩
      · cases h
    · cases h
  · cases h

/-- A commit goes through, or counts the workflow as skipped. -/
theorem commit_cases [DecidableEq V] (h : backfillStep codec s .commit = some t) :
    ∃ p c, s.pass = some p ∧ p.current = some c ∧ c.manifest.isSome ∧
      ((GoesThrough codec s.store c ∧ t = { s with
          store := applyBatchOperations s.store
            (indexOneOperations codec c (c.manifest.getD none))
          pass := some { p with current := none, processed := p.processed + 1 } }) ∨
        (¬ GoesThrough codec s.store c ∧ ∃ q : Pass V, q.rows = p.rows ∧ q.current = none ∧
          (q.conflicts ≠ 0 ∨ q.oversized ≠ 0) ∧ t = { s with pass := some q })) := by
  simp only [backfillStep] at h
  split at h
  · rename_i p hp
    split at h
    · rename_i c hc
      split at h
      · rename_i manifest hmanifest
        have hread : manifest = c.manifest.getD none := by rw [hmanifest, Option.getD_some]
        refine ⟨p, c, hp, hc, by simp [hmanifest], ?_⟩
        unfold GoesThrough
        rw [← hread]
        simp only [indexOneWorkflow] at h
        split_ifs at h with hlen
        · exact .inr ⟨fun hgo => not_le.2 hlen hgo.2,
            { p with current := none, oversized := p.oversized + 1 }, rfl, rfl,
            .inr (Nat.succ_ne_zero _), (Option.some.inj h).symm⟩
        · split at h
          · rename_i store hcommit
            obtain ⟨hcond, rfl⟩ := conditionalBatch_committed hcommit
            refine .inl ⟨⟨hcond _ (List.mem_singleton.2 rfl), not_lt.1 hlen⟩, ?_⟩
            exact (Option.some.inj h).symm
          · rename_i store hrefused
            refine .inr ⟨fun hgo => ?_,
              { p with current := none, conflicts := p.conflicts + 1 }, rfl, rfl,
              .inl (Nat.succ_ne_zero _), (Option.some.inj h).symm⟩
            have hhold : conditionsHold s.store [⟨c.key, some c.value⟩] = true := by
              simp [conditionsHold, hgo.1]
            simp [conditionalBatch, hhold, MAX_BATCH_OPERATIONS] at hrefused
          · cases h
      · cases h
    · cases h
  · cases h

theorem finish_cases [DecidableEq V] {now : JsNumber}
    (h : backfillStep codec s (.finish now) = some t) :
    ∃ p, s.pass = some p ∧ p.rows = some [] ∧ p.current = none ∧
      t = { store := if p.conflicts = 0 ∧ p.oversized = 0 then
              applyBatchOperations s.store (watermarkOperations codec now) else s.store
            pass := none
            report := some p.report } := by
  simp only [backfillStep] at h
  split at h
  · rename_i p hp
    split at h
    · rename_i hrows hcurrent
      exact ⟨p, hp, hrows, hcurrent, (Option.some.inj h).symm⟩
    · cases h
  · cases h

end Weft.Visibility

/-! `runWorkflowVisibilityDrop` and the machine of all four writers of the index. A drop
deletes the watermark, sweeps every index prefix, natively or by batches of scanned keys,
and deletes the cursor last. The manifests are the last prefix it sweeps. -/

namespace Weft.Visibility
open Weft.Js Weft.Storage Weft.Lib

universe u

def VISIBILITY_INDEX_PREFIXES : List JsString :=
  [js "wf-idx-status:", js "wf-idx-type:", js "wf-idx-tenant:", js "wf-idx-created:",
    js "wf-idx-updated:", js "wf-idx-deadline:", js "wf-idx-manifest:"]

def DEFAULT_CHECKPOINT_EVERY : Nat := 500

/-- Where a drop is. `toDelete` is what is left of an open sweep of the first prefix. -/
inductive Drop where
  | versionDeleted (fallbackBatchSize : Nat)
  | sweeping (fallbackBatchSize : Nat) (pending : List JsString)
      (toDelete : Option (List JsString))

inductive DropStep where
  | deleteVersion (fallbackBatchSize : Option Nat)
  | deleteBuiltAt
  /-- The sweep of one prefix by an adapter that has `deletePrefix`. -/
  | deletePrefix
  | openSweep
  | sweepBatch
  | closeSweep
  | deleteCursor
  | interrupt

structure IndexState (V : Type u) where
  base : State V
  drop : Option Drop := none

variable {V : Type u} (codec : Codec V)

def clampBatchSize (fallbackBatchSize : Option Nat) : Nat :=
  max 1 (min (fallbackBatchSize.getD DEFAULT_CHECKPOINT_EVERY) MAX_BATCH_OPERATIONS)

def IndexState.dropTo (s : IndexState V) (store : Store V) (drop : Option Drop) :
    IndexState V :=
  ⟨{ s.base with store := store }, drop⟩

def dropStep (s : IndexState V) : DropStep → Option (IndexState V)
  | .deleteVersion size =>
    match s.drop with
    | none => some (s.dropTo (s.base.store.delete KEYS.workflowVisibilityMetaVersion)
        (some (.versionDeleted (clampBatchSize size))))
    | some _ => none
  | .deleteBuiltAt =>
    match s.drop with
    | some (.versionDeleted size) =>
      some (s.dropTo (s.base.store.delete KEYS.workflowVisibilityMetaBuiltAt)
        (some (.sweeping size VISIBILITY_INDEX_PREFIXES none)))
    | _ => none
  | .deletePrefix =>
    match s.drop with
    | some (.sweeping size (p :: pending) none) =>
      some (s.dropTo (deletePrefix s.base.store p) (some (.sweeping size pending none)))
    | _ => none
  | .openSweep =>
    match s.drop with
    | some (.sweeping size (p :: pending) none) =>
      some (s.dropTo s.base.store
        (some (.sweeping size (p :: pending) (some ((scan s.base.store p {}).map (·.1))))))
    | _ => none
  | .sweepBatch =>
    match s.drop with
    | some (.sweeping size (p :: pending) (some toDelete)) =>
      some (s.dropTo
        (applyBatchOperations s.base.store ((toDelete.take size).map .delete))
        (some (.sweeping size (p :: pending) (some (toDelete.drop size)))))
    | _ => none
  | .closeSweep =>
    match s.drop with
    | some (.sweeping size (_ :: pending) (some [])) =>
      some (s.dropTo s.base.store (some (.sweeping size pending none)))
    | _ => none
  | .deleteCursor =>
    match s.drop with
    | some (.sweeping _ [] none) =>
      some (s.dropTo (s.base.store.delete KEYS.workflowVisibilityMetaCursor) none)
    | _ => none
  | .interrupt => some (s.dropTo s.base.store none)

/-- The keys that a step of a drop deletes. -/
def droppedBy (s : IndexState V) (d : DropStep) (k : JsString) : Bool :=
  match d, s.drop with
  | .deleteVersion _, _ => k = KEYS.workflowVisibilityMetaVersion
  | .deleteBuiltAt, _ => k = KEYS.workflowVisibilityMetaBuiltAt
  | .deletePrefix, some (.sweeping _ (p :: _) none) => p ≤ k ∧ k < resolvePrefixRangeEnd p
  | .sweepBatch, some (.sweeping size _ (some toDelete)) => k ∈ toDelete.take size
  | .deleteCursor, _ => k = KEYS.workflowVisibilityMetaCursor
  | _, _ => false

inductive IndexLabel where
  | write (w : EngineWrite)
  | backfill (b : BackfillStep)
  | drop (d : DropStep)

def indexStep [DecidableEq V] (s : IndexState V) : IndexLabel → Option (IndexState V)
  | .write w => (applyWrite codec s.base.store w).map fun store => s.dropTo store s.drop
  | .backfill b => (backfillStep codec s.base b).map fun base => { s with base := base }
  | .drop d => dropStep s d

def indexMachine [DecidableEq V] : Machine (IndexState V) IndexLabel := ⟨indexStep codec⟩

/-! ## What a drop does to the store -/

@[simp] theorem dropTo_store (s : IndexState V) (store : Store V) (drop : Option Drop) :
    (s.dropTo store drop).base.store = store := rfl

@[simp] theorem dropTo_pass (s : IndexState V) (store : Store V) (drop : Option Drop) :
    (s.dropTo store drop).base.pass = s.base.pass := rfl

theorem dropStep_effect {s t : IndexState V} {d : DropStep} (h : dropStep s d = some t) :
    t.base.pass = s.base.pass ∧ ∀ k, t.base.store.get k =
      if droppedBy s d k = true then none else s.base.store.get k := by
  cases d with
  | deleteVersion size =>
    simp only [dropStep] at h
    split at h
    · cases h
      simp [droppedBy]
    · cases h
  | deleteBuiltAt =>
    simp only [dropStep] at h
    split at h
    · cases h
      simp [droppedBy]
    · cases h
  | deletePrefix =>
    simp only [dropStep] at h
    split at h
    · rename_i size p pending hdrop
      cases h
      refine ⟨rfl, fun k => ?_⟩
      simp only [droppedBy, hdrop, dropTo_store, Storage.deletePrefix, OrderedStore.get_filter,
        decide_eq_true_eq, ite_not]
    · cases h
  | openSweep =>
    simp only [dropStep] at h
    split at h
    · cases h
      simp [droppedBy]
    · cases h
  | sweepBatch =>
    simp only [dropStep] at h
    split at h
    · rename_i size p pending toDelete hdrop
      cases h
      refine ⟨rfl, fun k => ?_⟩
      simp only [droppedBy, hdrop, dropTo_store, decide_eq_true_eq]
      exact get_applyBatchOperations_deletes _ _ k
    · cases h
  | closeSweep =>
    simp only [dropStep] at h
    split at h
    · cases h
      simp [droppedBy]
    · cases h
  | deleteCursor =>
    simp only [dropStep] at h
    split at h
    · cases h
      simp [droppedBy]
    · cases h
  | interrupt =>
    cases h
    simp [droppedBy]

end Weft.Visibility
