import Weft.Replay.Persist

/-! Hydrating the latest checkpoint. The checkpoint, the events that are left and the watermark
have all that was pruned and compacted, unless pruning passes over an entry: one that lies before
the pending operation and not after the replay watermark, and has not been written before. -/

namespace Weft.Replay
open Weft.Js Weft.Lib Weft.Storage Weft.EventLog

universe u

variable {V T α : Type u} {codec : CheckpointCodec V T α} {workflowId : Component}

/-! ## What a store has of the events -/

/-- The event in the bytes of an entry. -/
def eventOf (codec : CheckpointCodec V T α) (bytes : V) : Option (CheckpointEventPayload α) :=
  (codec.log.decodeEntry bytes).map (·.payload)

/-- The log has the events from `floor` on, and the watermark has the payloads of the others. -/
def HoldsEvents (codec : CheckpointCodec V T α) (s : Store V) (workflowId : Component)
    (events : List (CheckpointEventPayload α)) (floor : Nat) : Prop :=
  ∃ history, Represents codec.log s workflowId history floor ∧
    KeepsReplay codec.log s workflowId history floor ∧
    history.map (eventOf codec) = events.map some

variable {s t : Store V} {events : List (CheckpointEventPayload α)} {floor : Nat}

theorem HoldsEvents.congr (h : HoldsEvents codec s workflowId events floor)
    (hsame : ∀ k, KEYS.eventPrefix workflowId <+: k → t.get k = s.get k) :
    HoldsEvents codec t workflowId events floor := by
  obtain ⟨history, hrepresents, hkeeps, hevents⟩ := h
  exact ⟨history, hrepresents.congr hsame,
    hkeeps.congr (hsame _ (prefix_eventWatermark workflowId)),
    hevents⟩

theorem payloadEntries_mergeDeleted (existing : Option (CheckpointReplayPayload α))
    (entries : List V) (kind : ReplayKind) :
    payloadEntries (mergeDeletedCheckpointReplayPayloads codec.log existing entries) kind =
      payloadEntries existing kind ++ eventEntries kind (entries.filterMap (eventOf codec)) := by
  induction entries generalizing existing with
  | nil => exact (List.append_nil _).symm
  | cons bytes entries ih =>
    rw [mergeDeletedCheckpointReplayPayloads, List.foldl_cons,
      ← mergeDeletedCheckpointReplayPayloads, ih]
    cases hentry : codec.log.decodeEntry bytes with
    | none => rw [List.filterMap_cons_none (by rw [eventOf, hentry, Option.map_none])]
    | some entry =>
      have hevent : eventOf codec bytes = some entry.payload := by rw [eventOf, hentry,
        Option.map_some]
      rw [List.filterMap_cons_some hevent]
      simp only [codec.log_merge, codec.log_read]
      rw [payloadEntries_merge, payloadEntries_read, List.append_assoc]
      rfl

theorem filterMap_eventOf {history : List V} (h : history.map (eventOf codec) = events.map some) :
    history.filterMap (eventOf codec) = events := by
  have hsome := congrArg (List.filterMap id) h
  rwa [List.filterMap_map, List.filterMap_map, Function.id_comp, Function.id_comp,
    List.filterMap_some] at hsome

section

variable (h : HoldsEvents codec s workflowId events floor)

include h

theorem HoldsEvents.compacted_entries (kind : ReplayKind) :
    payloadEntries (readCompactedCheckpointReplayPayload codec s workflowId) kind =
      eventEntries kind (events.take floor) := by
  obtain ⟨history, -, hkeeps, hevents⟩ := h
  have htake : (history.take floor).map (eventOf codec) = (events.take floor).map some := by
    rw [List.map_take, hevents, List.map_take]
  have hread : readCompactedCheckpointReplayPayload codec s workflowId =
      readCheckpointReplayPayload
        (mergeDeletedCheckpointReplayPayloads codec.log none (history.take floor)) := by
    rw [readCompactedCheckpointReplayPayload, hkeeps.stored, ← hkeeps.replay]
    cases readEventLogWatermark codec.log s workflowId <;> rfl
  rw [hread, payloadEntries_read, payloadEntries_mergeDeleted, filterMap_eventOf htake]
  rfl

theorem HoldsEvents.scannedEvents_eq (hshort : events.length ≤ 10 ^ 10) :
    scannedEvents codec s workflowId = events.drop floor := by
  obtain ⟨history, hrepresents, -, hevents⟩ := h
  have hlength : history.length = events.length := by
    have := congrArg List.length hevents
    rwa [List.length_map, List.length_map] at this
  have hdrop : (history.drop floor).map (eventOf codec) = (events.drop floor).map some := by
    rw [List.map_drop, hevents, List.map_drop]
  have hscan := hrepresents.scan_in_order (hlength.trans_le hshort)
  have hrows : scannedEvents codec s workflowId =
      (entriesOf codec.log ((scan s (KEYS.eventPrefix workflowId) {}).map (·.2))).filterMap
        (eventOf codec) := by
    rw [scannedEvents, entriesOf, List.filterMap_filter, List.filterMap_map]
    refine List.filterMap_congr fun row _ => ?_
    show (codec.log.decodeEntry row.2).map (·.payload) =
      if (codec.log.decodeEntry row.2).isSome then (codec.log.decodeEntry row.2).map (·.payload)
        else none
    cases codec.log.decodeEntry row.2 <;> rfl
  rw [hrows, hscan, filterMap_eventOf hdrop]

/-- Hydration reads the checkpoint, the events up to its step that are left, what was compacted,
and the payload that the checkpoint carries. -/
theorem HoldsEvents.lastOf_hydrated (hshort : events.length ≤ 10 ^ 10) (checkpoint : Checkpoint α)
    (kind : ReplayKind) (step : Nat) :
    lastOf ((hydrateCheckpointReplayState codec s workflowId checkpoint).entries kind) step =
      (lastOf (checkpoint.entries kind) step).or ((lastOf (eventEntries kind
            ((events.drop floor).takeWhile fun event => event.step ≤ checkpoint.step)) step).or
          ((lastOf (eventEntries kind (events.take floor)) step).or
            (lastOf (payloadEntries checkpoint.replayPayload kind) step))) := by
  rw [hydrateCheckpointReplayState, Replay.lastOf_hydrated, List.flatMap_append,
    List.flatMap_append, payloadEntries_toList, payloadEntries_toList, payloadEntries_read,
    h.compacted_entries, h.scannedEvents_eq hshort, replayPayloadsUpTo_entries, lastOf_append,
    lastOf_append]

end

/-! ## Committing -/

section

variable {checkpoint : Checkpoint α} {replayPayload : Option (CheckpointReplayPayload α)}
  {request : CheckpointRequest T α}

theorem checkpoint_not_prefixed (id : Component) :
    ¬ KEYS.eventPrefix workflowId <+: KEYS.checkpoint id := by
  rw [KEYS.eventPrefix, KEYS.checkpoint, List.append_assoc, List.append_assoc]
  exact fun h => not_prefix_of_apart (by decide) _ ((List.prefix_append _ _).trans h)

theorem checkpointHistory_not_prefixed (id : Component) (step : Int) :
    ¬ KEYS.eventPrefix workflowId <+: KEYS.checkpointHistory id step := by
  rw [KEYS.eventPrefix, KEYS.checkpointHistory, List.append_assoc, List.append_assoc,
    List.append_assoc]
  exact fun h => not_prefix_of_apart (by decide) _ ((List.prefix_append _ _).trans h)

theorem checkpointHistory_ne_checkpoint (id : Component) (step : Int) :
    KEYS.checkpointHistory id step ≠ KEYS.checkpoint id := by
  intro heq
  have hlength := congrArg List.length heq
  simp only [KEYS.checkpointHistory, KEYS.checkpoint, List.length_append] at hlength
  have hlonger : (js ":ckpt").length < (js ":ckpt:").length := by decide
  omega

theorem checkpointHistory_inj {id : Component} {step step' : Nat}
    (h : KEYS.checkpointHistory id step = KEYS.checkpointHistory id step') : step = step' := by
  have hpos : ∀ n : Nat, ¬ (n : Int) < 0 := fun n => by omega
  rw [KEYS.checkpointHistory, KEYS.checkpointHistory, integerUnits, integerUnits, if_neg (hpos _),
    if_neg (hpos _)] at h
  exact paddedNat_inj (List.append_cancel_left h)

theorem checkpointOperations_keys {checkpointHistory : Nat} :
    ∀ op ∈ checkpointOperations codec workflowId checkpoint replayPayload checkpointHistory,
      ¬ KEYS.eventPrefix workflowId <+: op.key := by
  intro op hop
  rw [checkpointOperations, List.mem_cons] at hop
  rcases hop with rfl | hop
  · exact checkpoint_not_prefixed workflowId
  · split_ifs at hop
    · obtain rfl := List.mem_singleton.1 hop
      exact checkpointHistory_not_prefixed workflowId _
    · cases hop

/-- On the keys of the log, committing a checkpoint is committing its event. -/
theorem commitCheckpoint_log
    (hstep : commitCheckpoint codec s workflowId checkpoint replayPayload request = some t) :
    ∃ t', EventLog.commitCheckpoint codec.log s
        (checkpointCommit workflowId checkpoint replayPayload request) = some t' ∧
      (∀ k, KEYS.eventPrefix workflowId <+: k → t.get k = t'.get k) ∧
      ∀ k, ¬ KEYS.eventPrefix workflowId <+: k → t.get k = (applyBatchOperations s
        (checkpointOperations codec workflowId checkpoint replayPayload
          request.checkpointHistory)).get k := by
  simp only [commitCheckpoint] at hstep
  split_ifs at hstep with hsafe
  unfold batch at hstep
  split_ifs at hstep with hsize
  obtain rfl := Option.some.inj hstep
  rw [List.length_append] at hsize
  refine ⟨applyBatchOperations s
    (appendToBatch codec.log workflowId (checkpointCommit workflowId checkpoint replayPayload
        request).event (readEventHead codec.log s workflowId) ++
      appendCompactionOperations codec.log s workflowId
        ((readEventHead codec.log s workflowId).sequence + 1)
        (normalizePositiveCountOrDisabled request.retentionWindow)), ?_, ?_, ?_⟩
  · simp only [EventLog.commitCheckpoint]
    rw [if_pos (by exact hsafe), batch, if_pos]
    · rfl
    · exact (Nat.le_add_left _ _).trans hsize
  · intro k hk
    rw [applyBatchOperations_append]
    refine get_applyBatchOperations_congr _ (get_applyBatchOperations_of_untouched _ _ _ ?_)
    rintro op hop rfl
    exact checkpointOperations_keys op hop hk
  · intro k hk
    rw [applyBatchOperations_append]
    refine get_applyBatchOperations_of_untouched _ _ _ ?_
    rintro op hop rfl
    rcases List.mem_append.1 hop with hop | hop
    · exact hk (appendToBatch_keys op hop)
    · exact hk (appendCompactionOperations_keys op hop)

/-- A commit appends its event, and loses none. -/
theorem HoldsEvents.commit (h : HoldsEvents codec s workflowId events floor)
    (hstep : commitCheckpoint codec s workflowId checkpoint replayPayload request = some t) :
    ∃ floor', HoldsEvents codec t workflowId (events ++ [⟨checkpoint.step, replayPayload⟩])
      floor' := by
  obtain ⟨history, hrepresents, hkeeps, hevents⟩ := h
  obtain ⟨t', hcommit, hsame, -⟩ := commitCheckpoint_log hstep
  obtain ⟨floor', hrepresents', hkeeps'⟩ := Represents.commit_keeps
    (c := checkpointCommit workflowId
    checkpoint replayPayload request) hrepresents hkeeps hcommit
  let event : CheckpointEventPayload α := ⟨checkpoint.step, replayPayload⟩
  have hevents' : (history ++ [committedBytes codec.log s (checkpointCommit workflowId checkpoint
      replayPayload request)]).map (eventOf codec) =
        (events ++ [event]).map some := by
    rw [List.map_append, List.map_append, hevents, List.map_singleton, List.map_singleton, eventOf,
      committedBytes, codec.log.decodeEntry_encode]
    rfl
  have hholds : HoldsEvents codec t' workflowId (events ++ [⟨checkpoint.step, replayPayload⟩])
    floor' :=
    ⟨_, hrepresents', hkeeps', hevents'⟩
  exact ⟨floor', hholds.congr hsame⟩

theorem get_checkpoint_commit
    (hstep : commitCheckpoint codec s workflowId checkpoint replayPayload request = some t) :
    t.get (KEYS.checkpoint workflowId) = some (codec.serializeCheckpoint
      (attachTransientCheckpointReplayPayload checkpoint replayPayload)) := by
  obtain ⟨-, -, -, hother⟩ := commitCheckpoint_log hstep
  rw [hother _ (checkpoint_not_prefixed workflowId), checkpointOperations,
    applyBatchOperations_cons]
  have hnot : KEYS.checkpoint workflowId ≠ KEYS.checkpointHistory workflowId checkpoint.step :=
    (checkpointHistory_ne_checkpoint workflowId _).symm
  split_ifs <;> simp [applyBatchOperations, applyBatchOperation, hnot]

end

end Weft.Replay
