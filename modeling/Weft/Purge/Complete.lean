import Weft.Storage.Layout

/-! What a purge leaves. By the registry of key constructors each row of a run is named by an
application to its id; the purge deletes those rows, and no row of another workflow. -/

namespace Weft.Purge.Keys
open Weft.Js Weft.Lib Weft.Storage Weft.Visibility

universe u

variable {V : Type u} (decoders : PurgeDecoders V) {s : Store V} {run : PurgedRun}
  {id : Component} {k : JsString}

/-! ## The rows of a run -/

/-- The application names a row that the run owns by its id. The sequence of anonymous signals and
the markers of child cancellations are left out, and so is the dead letter, which is kept. -/
def OwnedBy (id : Component) : Application → Prop
  | .own family workflowId => workflowId = id ∧ family ≠ .schedule ∧ family ≠ .teardownDeadLetter
  | .raw _ workflowId _ | .workflow workflowId | .checkpoint workflowId
  | .checkpointHistory workflowId _ | .timeline workflowId _ | .asyncActivity workflowId _
  | .asyncActivityResolution workflowId _ | .activityReconciliation workflowId _ _
  | .event workflowId _ | .eventHead workflowId | .eventWatermark workflowId
  | .fleetEventByWorkflow workflowId _ | .signal workflowId _ _ | .startSignal workflowId _ _
  | .signalAcceptedResponse workflowId _ _ | .stateExecution workflowId _
  | .streamChunk workflowId _ _ | .streamTail workflowId _ | .streamMetadata workflowId _
  | .toolEffect workflowId _ _ => workflowId = id
  | _ => False

/-- The rows that the engine writes for a run: those that it owns, the index rows of its state and
of its records, and the rows that its stored requests and links lead to. -/
inductive WrittenFor (s : Store V) (run : PurgedRun) : JsString → Prop where
  | owned (application : Application) (h : OwnedBy run.state.id application) :
      WrittenFor s run application.key
  | terminalWorkflow : WrittenFor s run (KEYS.terminalWorkflow run.state.updatedAt run.state.id)
  | childWorkflowByParent (parent : Component) (h : run.state.parentWorkflowId = some parent) :
      WrittenFor s run (Storage.KEYS.childWorkflowByParent parent
        run.state.parentWorkflowExecutionToken run.state.id)
  | tagIndex (tag : Component) (h : tag ∈ run.state.tags.getD []) :
      WrittenFor s run (Storage.KEYS.tagIndex tag run.state.id)
  | visibility (key : JsString) (h : key ∈ deriveWorkflowVisibilityIndexKeys run.state) :
      WrittenFor s run key
  | attributeIndex (record : V) (name value : JsString)
      (h : s.get (Storage.KEYS.attributes run.state.id) = some record)
      (hrow : (name, value) ∈ decoders.attributeRows record) :
      WrittenFor s run (Storage.KEYS.attributeIndex name value run.state.id)
  | scheduleRunBySchedule (link : V) (scheduleId : Component)
      (h : s.get (KEYS.scheduleRunLink run.state.id) = some link)
      (hschedule : decoders.decodeScheduleRunMetadata link = some scheduleId) :
      WrittenFor s run (KEYS.scheduleRunBySchedule scheduleId run.state.id)
  /-- A response whose request is stored. -/
  | updateResponse (updateId : JsString) (hid : updateId ≠ [])
      (h : (s.get (KEYS.update run.state.id updateId)).isSome = true) :
      WrittenFor s run (KEYS.updateResponse updateId)
  | fleetEvent (sequence : Nat) (hsafe : sequence ≤ maxSafeInteger)
      (h : (s.get (KEYS.fleetEventByWorkflow run.state.id sequence)).isSome = true) :
      WrittenFor s run (KEYS.fleetEvent sequence)

/-! ## Completeness -/

/-- A row in a family that the purge deletes by its prefix. -/
theorem get_purgeWorkflow_of_history (family suffix : JsString)
    (h : (family, suffix) ∈ historyFamilies) (rest : JsString)
    (hk : k = family ++ run.state.id.enc ++ colon :: (suffix ++ rest)) :
    (purgeWorkflow decoders s run).get k = none := by
  rw [hk]
  exact get_purgeWorkflow_of_deletes decoders (deletes_history decoders s run h rest)

/-- A row in a family with one key for each workflow. -/
theorem get_purgeWorkflow_of_single {family : JsString} (h : family ∈ singleFamilies) :
    (purgeWorkflow decoders s run).get (family ++ run.state.id.enc) = none := by
  refine get_purgeWorkflow_of_deletes decoders (.inr ?_)
  exact (mem_remainderKeys decoders).2 (.inl (List.mem_map_of_mem h))

theorem get_purgeWorkflow_of_owned {application : Application}
    (h : OwnedBy run.state.id application) :
    (purgeWorkflow decoders s run).get application.key = none := by
  cases application with
  | own family workflowId =>
    obtain ⟨rfl, hschedule, hkept⟩ := h
    have hsingle : family.literal ∈ singleFamilies := by
      cases family <;> simp_all [OwnFamily.literal, singleFamilies]
    rw [show (Application.own family run.state.id).key = family.literal ++ run.state.id.enc from
      family.key_eq run.state.id]
    exact get_purgeWorkflow_of_single decoders hsingle
  | raw family workflowId text =>
    obtain rfl := h
    cases family with
    | update =>
      refine get_purgeWorkflow_of_stored decoders fun hstored => (mem_remainderKeys decoders).2 ?_
      refine .inr (.inr (.inr (.inr (.inr (.inr (.inr (.inr (.inl ?_))))))))
      exact List.mem_flatMap.2 ⟨_, mem_scan_update hstored, List.mem_cons_self⟩
    | updateIdempotency =>
      exact get_purgeWorkflow_of_history decoders (js "upk:") [] (by simp [historyFamilies])
        text rfl
    | review =>
      exact get_purgeWorkflow_of_history decoders (js "review:") [] (by simp [historyFamilies])
        text rfl
    | offload =>
      exact get_purgeWorkflow_of_history decoders (js "offload:") [] (by simp [historyFamilies])
        text rfl
    | archive =>
      exact get_purgeWorkflow_of_history decoders (js "archive:") [] (by simp [historyFamilies])
        text rfl
  | workflow workflowId =>
    obtain rfl := h
    exact get_purgeWorkflow_of_single decoders
      (show js "wf:" ∈ singleFamilies by simp [singleFamilies])
  | checkpoint workflowId =>
    obtain rfl := h
    refine get_purgeWorkflow_of_deletes decoders (.inr ((mem_remainderKeys decoders).2 ?_))
    exact .inr (.inl (List.mem_singleton_self _))
  | checkpointHistory workflowId step =>
    obtain rfl := h
    exact get_purgeWorkflow_of_history decoders (js "wf:") (js "ckpt:") (by simp [historyFamilies])
      _ (List.append_assoc ..)
  | timeline workflowId step =>
    obtain rfl := h
    exact get_purgeWorkflow_of_history decoders (js "wf:") (js "timeline:")
      (by simp [historyFamilies]) _ (List.append_assoc ..)
  | fleetEventByWorkflow workflowId sequence =>
    obtain rfl := h
    refine get_purgeWorkflow_of_stored decoders fun hstored => (mem_remainderKeys decoders).2 ?_
    refine .inr (.inr (.inr (.inr (.inr (.inr (.inr (.inr (.inr (.inl ?_)))))))))
    exact List.mem_flatMap.2 ⟨_, mem_scan_fleetEvent hstored, List.mem_cons_self⟩
  | asyncActivity workflowId token =>
    obtain rfl := h
    exact get_purgeWorkflow_of_history decoders (js "async-act:v1:") [] (by simp [historyFamilies])
      _ rfl
  | asyncActivityResolution workflowId token =>
    obtain rfl := h
    exact get_purgeWorkflow_of_history decoders (js "async-act:v1:") [] (by simp [historyFamilies])
      _ (List.append_assoc ..)
  | activityReconciliation workflowId activityName idempotencyKeyDigest =>
    obtain rfl := h
    exact get_purgeWorkflow_of_history decoders (js "actrec:v1:") [] (by simp [historyFamilies])
      (activityName.enc ++ colon :: idempotencyKeyDigest)
      (by simp [Application.key, Storage.KEYS.activityReconciliation])
  | event workflowId sequence =>
    obtain rfl := h
    exact get_purgeWorkflow_of_history decoders (js "ev:") [] (by simp [historyFamilies])
      (padStart (integerUnits sequence.val) 10 (digitUnit 0))
      (by simp [Application.key, Storage.KEYS.event, Storage.KEYS.eventPrefix])
  | eventHead workflowId =>
    obtain rfl := h
    exact get_purgeWorkflow_of_history decoders (js "ev:") [] (by simp [historyFamilies])
      (js "head") (by simp [Application.key, Storage.KEYS.eventHead, Storage.KEYS.eventPrefix])
  | eventWatermark workflowId =>
    obtain rfl := h
    exact get_purgeWorkflow_of_history decoders (js "ev:") [] (by simp [historyFamilies])
      (js "watermark")
      (by simp [Application.key, Storage.KEYS.eventWatermark, Storage.KEYS.eventPrefix])
  | signal workflowId name signalId =>
    obtain rfl := h
    exact get_purgeWorkflow_of_history decoders (js "sig:") [] (by simp [historyFamilies])
      (name.enc ++ colon :: (js "1" ++ colon :: signalId.enc))
      (by simp [Application.key, Storage.KEYS.signal, Storage.KEYS.signalStorageKey])
  | startSignal workflowId name signalId =>
    obtain rfl := h
    exact get_purgeWorkflow_of_history decoders (js "sig:") [] (by simp [historyFamilies])
      (name.enc ++ colon :: (js "0" ++ colon :: signalId.enc))
      (by simp [Application.key, Storage.KEYS.startSignal, Storage.KEYS.signalStorageKey])
  | signalAcceptedResponse workflowId name signalId =>
    obtain rfl := h
    exact get_purgeWorkflow_of_history decoders (js "sigres:v1:") [] (by simp [historyFamilies])
      (name.enc ++ colon :: signalId.enc)
      (by simp [Application.key, Storage.KEYS.signalAcceptedResponse])
  | stateExecution workflowId key =>
    obtain rfl := h
    exact get_purgeWorkflow_of_history decoders (js "state:execution:") []
      (by simp [historyFamilies]) key.enc rfl
  | streamChunk workflowId key chunkIndex =>
    obtain rfl := h
    exact get_purgeWorkflow_of_history decoders (js "blob:") [] (by simp [historyFamilies])
      (key ++ js ":chunk:" ++ paddedNat 10 chunkIndex.val)
      (by simp [Application.key, Storage.KEYS.streamChunk])
  | streamTail workflowId key =>
    obtain rfl := h
    exact get_purgeWorkflow_of_history decoders (js "blob:") [] (by simp [historyFamilies])
      (key ++ js ":tail") (by simp [Application.key, Storage.KEYS.streamTail])
  | streamMetadata workflowId key =>
    obtain rfl := h
    exact get_purgeWorkflow_of_history decoders (js "blob:") [] (by simp [historyFamilies])
      (key ++ js ":meta") (by simp [Application.key, Storage.KEYS.streamMetadata])
  | toolEffect workflowId agentId semanticHash =>
    obtain rfl := h
    exact get_purgeWorkflow_of_history decoders (js "tool-effect:") [] (by simp [historyFamilies])
      (agentId ++ colon :: semanticHash) (by simp [Application.key, Storage.KEYS.toolEffect])
  | _ => exact h.elim

/-- Every row of the run is gone after its purge. -/
theorem get_purgeWorkflow_of_written (h : WrittenFor decoders s run k) :
    (purgeWorkflow decoders s run).get k = none := by
  have hremainder : k ∈ remainderKeys decoders s run →
    (purgeWorkflow decoders s run).get k = none :=
    fun hk => get_purgeWorkflow_of_deletes decoders (.inr hk)
  rw [mem_remainderKeys] at hremainder
  cases h with
  | owned application howned => exact get_purgeWorkflow_of_owned decoders howned
  | terminalWorkflow => exact hremainder (.inr (.inr (.inl (List.mem_singleton_self _))))
  | childWorkflowByParent parent hparent =>
    refine hremainder (.inr (.inr (.inr (.inl (List.mem_map.2 ⟨parent, ?_, rfl⟩)))))
    rw [hparent]
    exact List.mem_singleton_self _
  | tagIndex tag htag =>
    exact hremainder (.inr (.inr (.inr (.inr (.inl (List.mem_map.2 ⟨tag, htag, rfl⟩))))))
  | visibility key hkey => exact hremainder (.inr (.inr (.inr (.inr (.inr (.inl hkey))))))
  | attributeIndex record name value hrecord hrow =>
    refine hremainder (.inr (.inr (.inr (.inr (.inr (.inr (.inl ?_)))))))
    refine List.mem_map.2 ⟨(name, value), List.mem_flatMap.2 ⟨record, ?_, hrow⟩, rfl⟩
    rw [hrecord]
    exact List.mem_singleton_self _
  | scheduleRunBySchedule link scheduleId hlink hschedule =>
    refine hremainder (.inr (.inr (.inr (.inr (.inr (.inr (.inr (.inl ?_))))))))
    refine List.mem_map.2 ⟨scheduleId, ?_, rfl⟩
    rw [hlink, Option.bind_some, hschedule]
    exact List.mem_singleton_self _
  | updateResponse updateId hid hstored =>
    refine hremainder (.inr (.inr (.inr (.inr (.inr (.inr (.inr (.inr (.inl ?_)))))))))
    refine List.mem_flatMap.2 ⟨_, mem_scan_update hstored, List.mem_cons_of_mem _ ?_⟩
    rw [update_eq run.state.id updateId, List.drop_left, if_neg hid]
    exact List.mem_singleton_self _
  | fleetEvent sequence hsafe hstored =>
    refine hremainder (.inr (.inr (.inr (.inr (.inr (.inr (.inr (.inr (.inr (.inl ?_))))))))))
    refine List.mem_flatMap.2 ⟨_, mem_scan_fleetEvent hstored, List.mem_cons_of_mem _ ?_⟩
    rw [fleetEventByWorkflow_eq, List.drop_left, parseFleetEventSequence_padded hsafe]
    exact List.mem_singleton_self _

/-! ## Isolation -/

/-- What is reached after a purge was reached before. -/
theorem Reached.of_purge {other : PurgedRun}
    (h : Reached (purgeWorkflow decoders s other) run k) : Reached s run k := by
  have hearlier : ∀ key, ((purgeWorkflow decoders s other).get key).isSome = true →
      (s.get key).isSome = true := by
    intro key hsome
    by_contra hnone
    rw [Bool.not_eq_true, Option.isSome_eq_false_iff, Option.isNone_iff_eq_none] at hnone
    rw [get_purgeWorkflow_of_none decoders hnone] at hsome
    cases hsome
  cases h with
  | updateResponse updateId h => exact .updateResponse updateId (hearlier _ h)
  | fleetEvent rawSequence sequence h hsequence =>
    exact .fleetEvent rawSequence sequence (hearlier _ h) hsequence
  | deadline deadline h => exact .deadline deadline h
  | deadlineTimer h => exact .deadlineTimer h
  | terminalCleanup timer h => exact .terminalCleanup timer h

/-- A key that no purge of the sweep may delete stays what it is. -/
theorem get_purgeAll_of_apart {runs : List PurgedRun}
    (hown : ∀ run ∈ runs, ¬ BelongsTo run.state.id k) (hreached : ∀ run ∈ runs, ¬ Reached s run k) :
    (purgeAll decoders s runs).get k = s.get k := by
  induction runs generalizing s with
  | nil => rfl
  | cons run runs ih =>
    have hnot : ¬ Deletes decoders s run k := by
      intro hdeletes
      exact (deletes_own decoders hdeletes).elim (hown run List.mem_cons_self)
        (hreached run List.mem_cons_self)
    have hrest : (purgeAll decoders (purgeWorkflow decoders s run) runs).get k =
        (purgeWorkflow decoders s run).get k :=
      ih (fun r hr => hown r (List.mem_cons_of_mem _ hr)) fun r hr hnow =>
        hreached r (List.mem_cons_of_mem _ hr) (hnow.of_purge decoders)
    rw [purgeAll_cons, hrest, get_purgeWorkflow_of_not decoders hnot]

theorem shared_apart {family : JsString} (h : family ∈ sharedFamilies) (rest : JsString) :
    (∀ id, ¬ BelongsTo id (family ++ rest)) ∧ ¬ Linked (family ++ rest) := by
  constructor
  · intro id hbelongs
    exact hbelongs.ne_other (.inr h) rest rfl
  · rintro ⟨g, hg, y, heq⟩
    refine ne_of_mem (shared_mem h) (linked_mem hg) ?_ rest y heq
    rintro rfl
    exact families_disjoint.2.2.2.2.2 hg h

/-- A linked row belongs to no workflow by its id. -/
theorem Linked.not_belongsTo (h : Linked k) (id : Component) : ¬ BelongsTo id k := by
  intro hbelongs
  obtain ⟨g, hg, y, heq⟩ := h
  exact hbelongs.ne_other (.inl hg) y heq

/-- The mapping of an idempotency key outlives the run. -/
theorem get_startIdempotency (s : Store V) (run : PurgedRun) (key : Component) :
    (purgeWorkflow decoders s run).get (KEYS.startIdempotency key) =
      s.get (KEYS.startIdempotency key) := by
  have hmapping : js "start-idem:" ∈ sharedFamilies := by simp [sharedFamilies]
  obtain ⟨hown, hlinked⟩ := shared_apart hmapping key.enc
  refine get_purgeWorkflow_of_not decoders fun hdeletes => ?_
  exact (deletes_own decoders hdeletes).elim (hown run.state.id) fun hreached =>
    hlinked hreached.linked

theorem get_workflow (s : Store V) (run : PurgedRun) :
    (purgeWorkflow decoders s run).get (Storage.KEYS.workflow run.state.id) = none := by
  exact get_purgeWorkflow_of_single decoders
    (show js "wf:" ∈ singleFamilies by simp [singleFamilies])

/-- A run that was started under an idempotency key and has completed. -/
def keyedRun : PurgedRun where
  state :=
    { id := ⟨js "run-1", isSome_encode_run⟩
      type := ⟨js "order", isSome_encode_order⟩
      status := .completed
      createdAt := ⟨1, 0, canonical_one⟩
      updatedAt := ⟨1, 0, canonical_one⟩ }

def idempotencyKey : Component := ⟨js "order", isSome_encode_order⟩

/-- The batch of the start puts the state row and the mapping. -/
def keyedStore : Store Unit :=
  (OrderedStore.empty.put (Storage.KEYS.workflow keyedRun.state.id) ()).put
    (KEYS.startIdempotency idempotencyKey) ()

def plainDecoders : PurgeDecoders Unit where
  attributeRows := fun _ => []
  decodeScheduleRunMetadata := fun _ => none

end Weft.Purge.Keys
