import Weft.Replay.Hydration

/-! Runs of checkpoints. Whatever is pruned and compacted on the way, hydrating the latest
checkpoint gives back what an unpruned one would hold, in exactly those runs in which no
checkpoint passes over an entry. -/

namespace Weft.Replay
open Weft.Js Weft.Lib Weft.Storage Weft.EventLog

universe u

variable {V T α : Type u} {codec : CheckpointCodec V T α} {mode : ExecutionMode}
  {workflowId : Component}

/-! ## What one checkpoint writes -/

/-- The replay watermark that the next checkpoint is pruned against. -/
def ReplayState.watermark (mode : ExecutionMode) (state : ReplayState V α) : Int :=
  match mode with
  | .inline => state.current.previousWatermark
  | .worker => state.worker.previousWatermark

/-- The step from which on entries stay in the checkpoint. A worker's checkpoint is pruned
twice. -/
def ReplayState.pendingStep (mode : ExecutionMode) (state : ReplayState V α)
    (request : CheckpointRequest T α) : Nat :=
  match mode with
  | .inline => resolvePendingOperationStep request.operationStep request.stepIndex
  | .worker => max request.stepIndex
      (resolvePendingOperationStep request.operationStep
        (workerCheckpoint state.worker request).step)

/-- The value of a step in the payloads that have been written. -/
def ReplayState.written (state : ReplayState V α) (kind : ReplayKind) (step : Nat) : Option α :=
  lastOf (eventEntries kind state.events) step

/-- An inline run has nothing but results. -/
def ResultsOnly (state : ReplayState V α) : Prop :=
  ∀ kind, kind ≠ .accumulatedResults → ∀ step, lastOf (state.held kind) step = none ∧
    lastOf (state.current.entries kind) step = none ∧ state.written kind step = none

theorem payloadEntries_attach {checkpoint : Checkpoint α} (h : checkpoint.replayPayload = none)
    (replayPayload : Option (CheckpointReplayPayload α)) :
    payloadEntries (attachTransientCheckpointReplayPayload checkpoint replayPayload).replayPayload =
      payloadEntries replayPayload := by
  cases replayPayload with
  | none =>
    show payloadEntries checkpoint.replayPayload = _
    rw [h]
  | some payload => rfl

@[simp] theorem attach_entries (checkpoint : Checkpoint α)
    (replayPayload : Option (CheckpointReplayPayload α)) :
    (attachTransientCheckpointReplayPayload checkpoint replayPayload).entries =
      checkpoint.entries := by
  cases replayPayload <;> rfl

@[simp] theorem attach_step (checkpoint : Checkpoint α)
    (replayPayload : Option (CheckpointReplayPayload α)) :
    (attachTransientCheckpointReplayPayload checkpoint replayPayload).step = checkpoint.step := by
  cases replayPayload <;> rfl

@[simp] theorem attach_previousWatermark (checkpoint : Checkpoint α)
    (replayPayload : Option (CheckpointReplayPayload α)) :
    (attachTransientCheckpointReplayPayload checkpoint replayPayload).previousWatermark =
      checkpoint.previousWatermark := by
  cases replayPayload <;> rfl

/-- The worker prunes all that it holds once, against its own watermark. -/
theorem workerCheckpoint_eq (worker : Checkpoint α) (request : CheckpointRequest T α) :
    ∃ base : Checkpoint α, base.entries = request.entries ∧
      base.previousWatermark = worker.previousWatermark ∧
      base.step = (if request.advances then worker.step + 1 else worker.step) ∧
      workerCheckpoint worker request = attachTransientCheckpointReplayPayload
        (pruneCheckpointReplayState base request.stepIndex).1
        (pruneCheckpointReplayState base request.stepIndex).2 := by
  simp only [workerCheckpoint]
  split_ifs with hadvances
  · exact ⟨{ advanceCheckpoint { worker with locals := request.locals } request.locals
        (request.entries .accumulatedResults) [] request.now with entries := request.entries },
      rfl, rfl, rfl, rfl⟩
  · exact ⟨{ worker with locals := request.locals, entries := request.entries },
      rfl, rfl, rfl, rfl⟩

variable {state : ReplayState V α}

theorem lastOf_heldAfter_inline (h : ResultsOnly state) (request : CheckpointRequest T α)
    (kind : ReplayKind) (step : Nat) :
    lastOf ((advanceCheckpoint state.current request.locals (request.entries .accumulatedResults)
        request.searchAttributes request.now).entries kind) step =
      lastOf (state.heldAfter .inline request kind) step := by
  by_cases hkind : kind = .accumulatedResults
  · subst hkind
    simp [advanceCheckpoint, ReplayState.heldAfter]
  · obtain ⟨hheld, hcurrent, -⟩ := h kind hkind step
    simp [advanceCheckpoint, ReplayState.heldAfter, Function.update_of_ne hkind, hheld, hcurrent]

theorem lastOf_persisted_entries (h : mode = .inline → ResultsOnly state)
    (request : CheckpointRequest T α) (kind : ReplayKind) (step : Nat) :
    lastOf ((state.persist mode request).checkpoint.entries kind) step =
      if state.pendingStep mode request ≤ step then lastOf (state.heldAfter mode request kind) step
      else none := by
  cases mode with
  | inline =>
    simp only [ReplayState.persist, inlineCheckpoint, lastOf_pruned_entries,
      lastOf_heldAfter_inline (h rfl) request kind step]
    rfl
  | worker =>
    obtain ⟨base, hentries, -, -, hworker⟩ := workerCheckpoint_eq state.worker request
    simp only [ReplayState.persist, persistedWorkerCheckpoint, lastOf_pruned_entries,
      ReplayState.pendingStep, ReplayState.heldAfter, max_le_iff]
    rw [hworker, attach_entries, lastOf_pruned_entries, hentries]
    by_cases hheld : request.stepIndex ≤ step <;> simp [hheld]

theorem lastOf_persisted_payload (h : mode = .inline → ResultsOnly state)
    (request : CheckpointRequest T α) (kind : ReplayKind) (step : Nat) :
    lastOf (payloadEntries (state.persist mode request).replayPayload kind) step =
      if step < state.pendingStep mode request ∧ state.watermark mode < step then
        lastOf (state.heldAfter mode request kind) step else none := by
  cases mode with
  | inline =>
    simp only [ReplayState.persist, inlineCheckpoint, lastOf_pruned_payload,
      lastOf_heldAfter_inline (h rfl) request kind step]
    rfl
  | worker =>
    obtain ⟨base, hentries, hwatermark, -, hworker⟩ := workerCheckpoint_eq state.worker request
    have hstrip : (pruneCheckpointReplayState base request.stepIndex).1.replayPayload = none := rfl
    simp only [ReplayState.persist, persistedWorkerCheckpoint, payloadEntries_merge,
      payloadEntries_read, lastOf_append, lastOf_pruned_payload, ReplayState.pendingStep,
      ReplayState.watermark, ReplayState.heldAfter, lt_max_iff]
    rw [hworker, payloadEntries_attach hstrip, attach_entries, attach_previousWatermark,
      attach_step, lastOf_pruned_payload, lastOf_pruned_entries, hentries, hwatermark]
    by_cases hbefore : step < request.stepIndex
    · simp [hbefore, not_le.2 hbefore]
    · have hafter := not_lt.1 hbefore
      have hsame := previousWatermark_pruned_lt base request.stepIndex hafter
      rw [hwatermark] at hsame
      simp [hbefore, hafter, hsame]

/-! ## What holds of every run -/

/-- A workflow that has a checkpoint and no events yet. -/
structure Started (codec : CheckpointCodec V T α) (mode : ExecutionMode) (workflowId : Component)
    (state : ReplayState V α) : Prop where
  noLog : ∀ k, KEYS.eventPrefix workflowId <+: k → state.store.get k = none
  noHistory : ∀ step : Nat, state.store.get (KEYS.checkpointHistory workflowId step) = none
  stored : state.store.get (KEYS.checkpoint workflowId) =
    some (codec.serializeCheckpoint state.current)
  unpruned : state.current.replayPayload = none
  worker : state.worker = state.current
  held : state.held = state.current.entries
  events : state.events = []
  results : mode = .inline → ∀ kind, kind ≠ .accumulatedResults → state.current.entries kind = []

/-- `stored` is the latest checkpoint: no event is later, and the payload that it carries is in
the log. -/
structure Latest (mode : ExecutionMode) (state : ReplayState V α) (stored : Checkpoint α) :
    Prop where
  current_step : state.current.step = stored.step
  worker_step : mode = .worker → state.worker.step = stored.step
  steps_le : ∀ event ∈ state.events, event.step ≤ stored.step
  carried : ∀ kind step value, lastOf (payloadEntries stored.replayPayload kind) step = some value →
    state.written kind step = some value
  results : mode = .inline → ∀ kind, kind ≠ .accumulatedResults → ∀ step,
    lastOf (stored.entries kind) step = none

structure Tracked (codec : CheckpointCodec V T α) (mode : ExecutionMode) (workflowId : Component)
    (state : ReplayState V α) : Prop where
  log : ∃ floor, HoldsEvents codec state.store workflowId state.events floor
  latest : ∃ stored, state.store.get (KEYS.checkpoint workflowId) =
    some (codec.serializeCheckpoint stored) ∧ Latest mode state stored
  sorted : state.events.Pairwise fun a b => a.step ≤ b.step
  results : mode = .inline → ResultsOnly state

theorem Started.tracked (h : Started codec mode workflowId state) :
    Tracked codec mode workflowId state where
  log := by
    refine ⟨0, [], .of_fresh h.noLog, .of_fresh h.noLog, ?_⟩
    rw [h.events]
    rfl
  latest := by
    refine ⟨state.current, h.stored, rfl, fun _ => by rw [h.worker], ?_, ?_, ?_⟩
    · rw [h.events]
      exact fun _ hevent => nomatch hevent
    · rw [h.unpruned]
      exact fun _ _ _ hnone => nomatch hnone
    · intro hmode kind hkind step
      rw [h.results hmode kind hkind, lastOf_nil]
  sorted := by
    rw [h.events]
    exact List.Pairwise.nil
  results := by
    intro hmode kind hkind step
    rw [ReplayState.written, h.held, h.events, h.results hmode kind hkind]
    exact ⟨rfl, rfl, rfl⟩

variable {stored : Checkpoint α}

theorem loadCheckpoint_of_get {s : Store V} {key : JsString}
    (hget : s.get key = some (codec.serializeCheckpoint stored)) :
    loadCheckpoint codec s workflowId key =
      some (hydrateCheckpointReplayState codec s workflowId stored) := by
  rw [loadCheckpoint, hget, Option.bind_some, codec.deserialize_serialize, Option.map_some]

theorem or_eq_left {a b : Option α} (h : ∀ value, b = some value → a = some value) :
    a.or b = a := by
  cases b with
  | none => exact Option.or_none
  | some value =>
    rw [h value rfl]
    rfl

/-- The latest checkpoint is hydrated with the payloads of all events. -/
theorem lastOf_latest {floor : Nat}
    (hlog : HoldsEvents codec state.store workflowId state.events floor)
    (hshort : state.events.length ≤ 10 ^ 10) (hlatest : Latest mode state stored)
    (kind : ReplayKind) (step : Nat) :
    lastOf ((hydrateCheckpointReplayState codec state.store workflowId stored).entries kind) step =
      (lastOf (stored.entries kind) step).or (state.written kind step) := by
  have hall : (state.events.drop floor).takeWhile (fun event => event.step ≤ stored.step) =
      state.events.drop floor := by
    rw [List.takeWhile_eq_self_iff]
    intro event hevent
    exact decide_eq_true (hlatest.steps_le event (List.mem_of_mem_drop hevent))
  have hwritten : (lastOf (eventEntries kind (state.events.drop floor)) step).or
      (lastOf (eventEntries kind (state.events.take floor)) step) = state.written kind step := by
    rw [← lastOf_append, eventEntries, eventEntries, ← List.flatMap_append, List.take_append_drop]
    rfl
  rw [hlog.lastOf_hydrated hshort, hall]
  congr 1
  rw [← Option.or_assoc, hwritten]
  exact or_eq_left (hlatest.carried kind step)

variable {state next : ReplayState V α}

theorem written_append {event : CheckpointEventPayload α}
    (hevents : next.events = state.events ++ [event]) (kind : ReplayKind) (step : Nat) :
    next.written kind step =
      (lastOf (payloadEntries event.replayPayload kind) step).or (state.written kind step) := by
  rw [ReplayState.written, hevents, eventEntries, List.flatMap_append, lastOf_append,
    List.flatMap_singleton]
  rfl

section

variable {state next : ReplayState V α} {request : CheckpointRequest T α}

theorem persist_step_le {stored : Checkpoint α} (h : Latest mode state stored)
    (request : CheckpointRequest T α) : stored.step ≤
      (state.persist mode request).checkpoint.step := by
  cases mode with
  | inline =>
    rw [← h.current_step]
    exact Nat.le_succ _
  | worker =>
    obtain ⟨base, -, -, hstep, hworker⟩ := workerCheckpoint_eq state.worker request
    have hsame : (state.persist .worker request).checkpoint.step =
        (workerCheckpoint state.worker request).step := rfl
    rw [← h.worker_step rfl, hsame, hworker, attach_step]
    show state.worker.step ≤ base.step
    rw [hstep]
    split_ifs
    · exact Nat.le_succ _
    · exact le_refl _

section

variable (h : Tracked codec mode workflowId state)

include h

theorem tracked_checkpoint
    (hstep : (replayMachine codec mode workflowId).step state (.checkpoint request) = some next) :
    Tracked codec mode workflowId next ∧ ∃ stored,
      next.store.get (KEYS.checkpoint workflowId) = some (codec.serializeCheckpoint stored) ∧
      Latest mode next stored ∧
      stored.entries = (state.persist mode request).checkpoint.entries := by
  obtain ⟨t, hcommit, hnext⟩ := Option.map_eq_some_iff.1 hstep
  obtain ⟨floor, hlog⟩ := h.log
  obtain ⟨previous, -, hprevious⟩ := h.latest
  have hevents : next.events = state.events ++ [⟨(state.persist mode request).checkpoint.step,
      (state.persist mode request).replayPayload⟩] := hnext ▸ rfl
  have hstore : next.store = t := hnext ▸ rfl
  have hcurrent : next.current = (state.persist mode request).checkpoint := hnext ▸ rfl
  have hheld : next.held = state.heldAfter mode request := hnext ▸ rfl
  have hget := get_checkpoint_commit hcommit
  have hle := persist_step_le hprevious request
  have hstrip : (state.persist mode request).checkpoint.replayPayload = none := by
    cases mode <;> rfl
  have hnone : mode = .inline → ∀ kind, kind ≠ .accumulatedResults → ∀ step,
      lastOf (state.heldAfter mode request kind) step = none := by
    rintro rfl kind hkind step
    rw [ReplayState.heldAfter, Function.update_of_ne hkind]
    exact (h.results rfl kind hkind step).1
  have hown : mode = .inline → ∀ kind, kind ≠ .accumulatedResults → ∀ step,
      lastOf ((state.persist mode request).checkpoint.entries kind) step = none := by
    intro hmode kind hkind step
    rw [lastOf_persisted_entries h.results, hnone hmode kind hkind, ite_self]
  have hlatest : Latest mode next (attachTransientCheckpointReplayPayload
      (state.persist mode request).checkpoint (state.persist mode request).replayPayload) := by
    refine ⟨?_, ?_, ?_, ?_, ?_⟩
    · rw [hcurrent, attach_step]
    · rintro rfl
      rw [← hnext, attach_step]
      rfl
    · intro event hevent
      rw [hevents, List.mem_append, List.mem_singleton] at hevent
      rw [attach_step]
      rcases hevent with hevent | rfl
      · exact (hprevious.steps_le event hevent).trans hle
      · exact le_refl _
    · intro kind step value hvalue
      rw [payloadEntries_attach hstrip] at hvalue
      rw [written_append hevents, hvalue]
      rfl
    · intro hmode kind hkind step
      rw [attach_entries]
      exact hown hmode kind hkind step
  refine ⟨⟨?_, ⟨_, hstore ▸ hget, hlatest⟩, ?_, ?_⟩, _, hstore ▸ hget, hlatest, attach_entries _ _⟩
  · rw [hstore, hevents]
    exact hlog.commit hcommit
  · rw [hevents, List.pairwise_append]
    refine ⟨h.sorted, List.pairwise_singleton _ _, fun event hevent last hlast => ?_⟩
    rw [List.mem_singleton.1 hlast]
    exact (hprevious.steps_le event hevent).trans hle
  · intro hmode kind hkind step
    refine ⟨?_, ?_, ?_⟩
    · rw [hheld]
      exact hnone hmode kind hkind step
    · rw [hcurrent]
      exact hown hmode kind hkind step
    · rw [written_append hevents, lastOf_persisted_payload h.results, hnone hmode kind hkind,
        ite_self, (h.results hmode kind hkind step).2.2]
      rfl

theorem tracked_resume (hshort : state.events.length ≤ 10 ^ 10)
    (hstep : (replayMachine codec mode workflowId).step state (.resume : ReplayStep T α) =
      some next) :
    Tracked codec mode workflowId next ∧ next.store = state.store ∧ next.held = state.held := by
  obtain ⟨loaded, hload, rfl⟩ := Option.map_eq_some_iff.1 hstep
  obtain ⟨floor, hlog⟩ := h.log
  obtain ⟨stored, hget, hlatest⟩ := h.latest
  rw [loadCheckpoint_of_get hget] at hload
  cases hload
  refine ⟨⟨h.log, ⟨stored, hget, rfl, fun _ => rfl, hlatest.steps_le, hlatest.carried,
    hlatest.results⟩, h.sorted, fun hmode kind hkind step => ?_⟩, rfl, rfl⟩
  obtain ⟨hheld, -, hwritten⟩ := h.results hmode kind hkind step
  refine ⟨hheld, ?_, hwritten⟩
  show lastOf ((hydrateCheckpointReplayState codec state.store workflowId stored).entries kind)
    step = none
  rw [lastOf_latest hlog hshort hlatest, hlatest.results hmode kind hkind, hwritten]
  rfl

theorem tracked_forget (step : Nat) : Tracked codec mode workflowId
      { state with store := state.store.delete (KEYS.checkpointHistory workflowId step) } := by
  obtain ⟨floor, hlog⟩ := h.log
  obtain ⟨stored, hget, hlatest⟩ := h.latest
  refine ⟨⟨floor, hlog.congr fun k hk => ?_⟩, ⟨stored, ?_, hlatest.current_step,
    hlatest.worker_step, hlatest.steps_le, hlatest.carried, hlatest.results⟩, h.sorted, h.results⟩
  · rw [OrderedStore.get_delete, if_neg]
    rintro rfl
    exact checkpointHistory_not_prefixed workflowId _ hk
  · rw [OrderedStore.get_delete, if_neg (checkpointHistory_ne_checkpoint workflowId _).symm]
    exact hget

end

end

/-! ## Reconstruction -/

/-- Hydrating the latest checkpoint gives what an unpruned one would hold. -/
def Reconstructs (codec : CheckpointCodec V T α) (workflowId : Component)
    (state : ReplayState V α) : Prop :=
  ∃ loaded, loadCheckpoint codec state.store workflowId (KEYS.checkpoint workflowId) = some loaded ∧
    ∀ kind step, lastOf (loaded.entries kind) step = lastOf (state.held kind) step

/-- Hydrating the latest checkpoint gives what it would give if nothing had been compacted. -/
def IgnoresCompaction (codec : CheckpointCodec V T α) (workflowId : Component)
    (state : ReplayState V α) : Prop :=
  ∃ stored loaded,
    (state.store.get (KEYS.checkpoint workflowId)).bind codec.deserializeCheckpoint = some stored ∧
    loadCheckpoint codec state.store workflowId (KEYS.checkpoint workflowId) = some loaded ∧
    ∀ kind step, lastOf (loaded.entries kind) step =
      lastOf ((hydrateCheckpointReplayStateFromPayloads stored
        (replayPayloadsUpTo stored.step state.events)).entries kind) step

/-- What was written to payloads is still held, and an entry that is dropped without being
written now was written before. -/
def PrunesSafely (mode : ExecutionMode) (state : ReplayState V α) : ReplayStep T α → Prop
  | .checkpoint request => ∀ kind step,
      (lastOf (state.heldAfter mode request kind) step = none → state.written kind step = none) ∧
      (step < state.pendingStep mode request → (step : Int) ≤ state.watermark mode →
        state.written kind step = lastOf (state.heldAfter mode request kind) step)
  | .resume | .forget _ => True

instance [DecidableEq α] (state : ReplayState V α) (step : ReplayStep T α) :
    Decidable (PrunesSafely mode state step) :=
  match step with
  | .checkpoint request => decidable_of_iff _
      (forall_congr' fun kind => (forall_lastOf_iff
        (P := fun step held written => (held = none → written = none) ∧
          (step < state.pendingStep mode request → (step : Int) ≤ state.watermark mode →
            written = held))
        (fun _ => ⟨fun _ => rfl, fun _ _ => rfl⟩)
        (state.heldAfter mode request kind) (eventEntries kind state.events)).symm)
  | .resume | .forget _ => isTrue trivial

/-- The log has room below the first sequence of eleven digits. -/
def ShortLog (state : ReplayState V α) (_ : ReplayStep T α) : Prop := state.events.length < 10 ^ 10

instance (state : ReplayState V α) (step : ReplayStep T α) : Decidable (ShortLog state step) :=
  inferInstanceAs (Decidable (_ < _))

theorem Tracked.ignoresCompaction (h : Tracked codec mode workflowId state)
    (hshort : state.events.length ≤ 10 ^ 10) : IgnoresCompaction codec workflowId state := by
  obtain ⟨floor, hlog⟩ := h.log
  obtain ⟨stored, hget, hlatest⟩ := h.latest
  refine ⟨stored, _, ?_, loadCheckpoint_of_get hget, fun kind step => ?_⟩
  · rw [hget, Option.bind_some, codec.deserialize_serialize]
  · rw [lastOf_latest hlog hshort hlatest, lastOf_hydrated, replayPayloadsUpTo_entries,
      List.takeWhile_eq_self_iff.2]
    · rfl
    · intro event hevent
      exact decide_eq_true (hlatest.steps_le event hevent)

theorem reconstructs_iff {floor : Nat}
    (hlog : HoldsEvents codec state.store workflowId state.events floor)
    (hshort : state.events.length ≤ 10 ^ 10)
    (hget : state.store.get (KEYS.checkpoint workflowId) = some (codec.serializeCheckpoint stored))
    (hlatest : Latest mode state stored) : Reconstructs codec workflowId state ↔ ∀ kind step,
      (lastOf (stored.entries kind) step).or (state.written kind step) =
        lastOf (state.held kind) step := by
  rw [Reconstructs, loadCheckpoint_of_get hget]
  constructor
  · rintro ⟨loaded, hload, hsame⟩ kind step
    cases hload
    rw [← hsame kind step, lastOf_latest hlog hshort hlatest]
  · intro hsame
    refine ⟨_, rfl, fun kind step => ?_⟩
    rw [lastOf_latest hlog hshort hlatest, hsame]

/-- Case by case: before the pending operation and after the watermark an entry is written now,
before both it had to be written, and from the pending operation on it stays. -/
theorem recovered_iff {p : Nat} {w : Int} {step : Nat} {held written : Option α} :
    ((if p ≤ step then held else none).or
        ((if step < p ∧ w < step then held else none).or written)) = held ↔
      (held = none → written = none) ∧ (step < p → (step : Int) ≤ w → written = held) := by
  by_cases hp : p ≤ step
  · cases held <;> simp [hp, not_lt.2 hp]
  · by_cases hw : w < step
    · cases held <;> simp [hp, hw, not_le.2 hw, not_le.1 hp]
    · have hle := not_lt.1 hw
      simp only [if_neg hp, hw, and_false, if_false, Option.none_or, not_le.1 hp, hle, true_imp_iff]
      exact ⟨fun heq => ⟨fun hnone => heq.trans hnone, heq⟩, fun hboth => hboth.2⟩

theorem reconstructs_checkpoint {request : CheckpointRequest T α}
    (h : Tracked codec mode workflowId state) (hshort : state.events.length < 10 ^ 10)
    (hstep : (replayMachine codec mode workflowId).step state (.checkpoint request) = some next) :
    Tracked codec mode workflowId next ∧
      (Reconstructs codec workflowId next ↔ PrunesSafely mode state (.checkpoint request)) := by
  obtain ⟨hnext, stored, hget, hlatest, hentries⟩ := tracked_checkpoint h hstep
  obtain ⟨floor, hlog⟩ := hnext.log
  obtain ⟨t, -, rfl⟩ := Option.map_eq_some_iff.1 hstep
  refine ⟨hnext, ?_⟩
  rw [reconstructs_iff hlog ?_ hget hlatest]
  · refine forall_congr' fun kind => forall_congr' fun step => ?_
    rw [written_append rfl, hentries, lastOf_persisted_entries h.results,
      lastOf_persisted_payload h.results]
    exact recovered_iff
  · show (state.events ++ [_]).length ≤ _
    rw [List.length_append]
    exact hshort

theorem reconstructs_forget (h : Tracked codec mode workflowId state)
    (hshort : state.events.length ≤ 10 ^ 10) (hheld : Reconstructs codec workflowId state)
    (step : Nat) : Reconstructs codec workflowId
      { state with store := state.store.delete (KEYS.checkpointHistory workflowId step) } := by
  obtain ⟨floor, hlog⟩ := h.log
  obtain ⟨stored, hget, hlatest⟩ := h.latest
  obtain ⟨floor', hlog'⟩ := (tracked_forget h step).log
  have hget' : (state.store.delete (KEYS.checkpointHistory workflowId step)).get
      (KEYS.checkpoint workflowId) = some (codec.serializeCheckpoint stored) := by
    rw [OrderedStore.get_delete, if_neg (checkpointHistory_ne_checkpoint workflowId _).symm]
    exact hget
  exact (reconstructs_iff hlog' hshort hget' ⟨hlatest.current_step, hlatest.worker_step,
    hlatest.steps_le, hlatest.carried, hlatest.results⟩).2
      ((reconstructs_iff hlog hshort hget hlatest).1 hheld)

/-- A step leaves a log that is short, and what it does to the latest checkpoint can be undone
exactly when it prunes safely. -/
theorem reconstructs_step {step : ReplayStep T α} (h : Tracked codec mode workflowId state)
    (hshort : ShortLog state step)
    (hstep : (replayMachine codec mode workflowId).step state step = some next) :
    Tracked codec mode workflowId next ∧ next.events.length ≤ 10 ^ 10 ∧
      (Reconstructs codec workflowId state →
        (Reconstructs codec workflowId next ↔ PrunesSafely mode state step)) := by
  have hle : state.events.length ≤ 10 ^ 10 := le_of_lt hshort
  cases step with
  | checkpoint request =>
    obtain ⟨hnext, hiff⟩ := reconstructs_checkpoint h hshort hstep
    obtain ⟨t, -, rfl⟩ := Option.map_eq_some_iff.1 hstep
    refine ⟨hnext, ?_, fun _ => hiff⟩
    show (state.events ++ [_]).length ≤ _
    rw [List.length_append]
    exact hshort
  | resume =>
    obtain ⟨hnext, hstore, hheld⟩ := tracked_resume h hle hstep
    obtain ⟨loaded, -, rfl⟩ := Option.map_eq_some_iff.1 hstep
    exact ⟨hnext, hle, fun hsame => iff_of_true hsame trivial⟩
  | forget k =>
    cases hstep
    exact ⟨tracked_forget h k, hle, fun hsame =>
      iff_of_true (reconstructs_forget h hle hsame k) trivial⟩

theorem Started.reconstructs (h : Started codec mode workflowId state) :
    Reconstructs codec workflowId state := by
  refine ⟨_, loadCheckpoint_of_get h.stored, fun kind step => ?_⟩
  have hempty : HoldsEvents codec state.store workflowId state.events 0 :=
    ⟨[], .of_fresh h.noLog, .of_fresh h.noLog, by rw [h.events]; rfl⟩
  rw [hempty.lastOf_hydrated (by rw [h.events]; exact Nat.zero_le _), h.events, h.unpruned, h.held]
  exact Option.or_none

/-- In every run with a log of ten digits, hydrating the latest checkpoint does not see
compaction, and gives back what an unpruned run would hold if and only if every checkpoint
prunes safely. -/
theorem replay_reconstructs_iff (codec : CheckpointCodec V T α) (mode : ExecutionMode)
    (workflowId : Component) (state : ReplayState V α)
    (hstart : Started codec mode workflowId state) (steps : List (ReplayStep T α))
    (hshort : (replayMachine codec mode workflowId).EveryStep ShortLog state steps) :
    (replayMachine codec mode workflowId).EveryState (IgnoresCompaction codec workflowId) state
        steps ∧
      ((replayMachine codec mode workflowId).EveryState (Reconstructs codec workflowId) state
        steps ↔
        (replayMachine codec mode workflowId).EveryStep (PrunesSafely mode) state steps) := by
  constructor
  · have htracked : (replayMachine codec mode workflowId).EveryState (fun state =>
        Tracked codec mode workflowId state ∧ state.events.length ≤ 10 ^ 10) state steps := by
      refine Machine.everyState_of_invariant (fun s step t hs hside hstep => ?_)
        ⟨hstart.tracked, by rw [hstart.events]; exact Nat.zero_le _⟩ hshort
      obtain ⟨ht, hlength, -⟩ := reconstructs_step hs.1 hside hstep
      exact ⟨ht, hlength⟩
    exact htracked.mono fun t ht => ht.1.ignoresCompaction ht.2
  · rw [Machine.everyState_iff_everyStep_of (J := Tracked codec mode workflowId)
      (fun s step t hs hsame hside hstep => ?_) hstart.tracked hshort]
    · exact and_iff_right hstart.reconstructs
    · obtain ⟨ht, -, hiff⟩ := reconstructs_step hs hside hstep
      exact ⟨ht, hiff hsame⟩

theorem started_inline : Started plainCheckpointCodec .inline replayRun startedRun where
  noLog := by
    intro k hk
    rw [startedRun, OrderedStore.get_put, if_neg]
    · rfl
    · rintro rfl
      exact checkpoint_not_prefixed replayRun hk
  noHistory := by
    intro step
    rw [startedRun, OrderedStore.get_put, if_neg (checkpointHistory_ne_checkpoint replayRun step)]
    rfl
  stored := by
    rw [startedRun, OrderedStore.get_put, if_pos rfl]
    rfl
  unpruned := rfl
  worker := rfl
  held := rfl
  events := rfl
  results := fun _ _ _ => rfl

/-- Three operations one after another, the log compacted at the last of them. -/
def steadyRun : List (ReplayStep JsString Nat) :=
  [.checkpoint (resultsAt [] 1 (some 0) none),
    .checkpoint (resultsAt [(0, 7)] 2 (some 1) none),
    .resume,
    .checkpoint (resultsAt [(0, 7), (1, 8)] 3 (some 2) (some 1))]

theorem replay_reconstructs_steady :
    (replayMachine plainCheckpointCodec .inline replayRun).EveryState
        (IgnoresCompaction plainCheckpointCodec replayRun) startedRun steadyRun ∧
      (replayMachine plainCheckpointCodec .inline replayRun).EveryState
        (Reconstructs plainCheckpointCodec replayRun) startedRun steadyRun := by
  have hboth := replay_reconstructs_iff plainCheckpointCodec .inline replayRun startedRun
    started_inline steadyRun (by decide +kernel)
  exact ⟨hboth.1, hboth.2.2 (by decide +kernel)⟩

/-- An activity at step 0 fails twice. Its backoffs are steps 1 and 2, and the first of them is
written to a payload before the activity has a result. -/
def retriedRun : List (ReplayStep JsString Nat) :=
  [.checkpoint (resultsAt [] 1 (some 0) none),
    .checkpoint (resultsAt [] 2 none none),
    .checkpoint (resultsAt [(1, 0)] 2 (some 0) none),
    .checkpoint (resultsAt [(1, 0)] 3 none none),
    .checkpoint (resultsAt [(1, 0), (2, 0)] 3 (some 0) none),
    .checkpoint (resultsAt [(1, 0), (2, 0), (0, 7)] 4 (some 3) none)]

theorem retried_result_is_lost :
    Started plainCheckpointCodec .inline replayRun startedRun ∧
      ¬ (replayMachine plainCheckpointCodec .inline replayRun).EveryState
        (Reconstructs plainCheckpointCodec replayRun) startedRun retriedRun := by
  refine ⟨started_inline, fun hall => ?_⟩
  obtain ⟨loaded, hload, hsame⟩ := hall.final
  have hlost : (loadCheckpoint plainCheckpointCodec
      ((replayMachine plainCheckpointCodec .inline replayRun).final startedRun retriedRun).store
      replayRun (KEYS.checkpoint replayRun)).map
        (fun loaded => lastOf (loaded.entries .accumulatedResults) 0) = some none := by
    decide +kernel
  have hheld : lastOf (((replayMachine plainCheckpointCodec .inline replayRun).final startedRun
      retriedRun).held .accumulatedResults) 0 = some 7 := by
    decide +kernel
  rw [hload, Option.map_some, hsame, hheld] at hlost
  cases hlost

end Weft.Replay
