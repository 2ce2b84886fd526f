import Weft.EventLog.Integrity

/-! Compaction loses nothing of the replay payloads: the watermark has those of the deleted
entries, merged in the order of the log, and the entries that are left are read in that order. -/

namespace Weft.EventLog
open Weft.Js Weft.Lib Weft.Lib.HashChain Weft.Storage

universe u

variable {V P T R : Type u} {codec : LogCodec V P T R} {s : Store V} {id : Component}
  {history : List V} {floor : Nat}

theorem contiguousFrom_sequences {expected next : Int} {rows : List V}
    (h : contiguousFrom codec expected rows = some next) : next = expected + rows.length ∧
      ∀ (i : Nat) v, rows[i]? = some v → sequenceOf codec v = some (expected + i) := by
  induction rows generalizing expected with
  | nil =>
    obtain rfl := Option.some.inj h
    exact ⟨by simp, nofun⟩
  | cons row rows ih =>
    rw [contiguousFrom] at h
    cases hentry : codec.decodeEntry row with
    | none =>
      rw [hentry] at h
      cases h
    | some entry =>
      rw [hentry] at h
      simp only at h
      split_ifs at h with hsequence
      obtain ⟨hnext, hrows⟩ := ih h
      refine ⟨?_, fun i v hv => ?_⟩
      · rw [hnext, List.length_cons]
        push_cast
        omega
      · cases i with
        | zero =>
          rw [List.getElem?_cons_zero, Option.some.injEq] at hv
          rw [← hv, sequenceOf, hentry, Option.map_some, hsequence]
          simp
        | succ i =>
          rw [hrows i v (by simpa using hv)]
          push_cast
          congr 1
          omega

/-- The entries that a compaction deletes are those of the log below the new floor. -/
theorem Represents.deletedEntries_eq (h : Represents codec s id history floor) {first : Nat}
    {collected : CollectedDeleteRange V}
    (hcollect : collectDeleteRange codec s id floor first = some collected) :
    collected.deletedEntries = (history.take first).drop floor := by
  simp only [collectDeleteRange] at hcollect
  split_ifs at hcollect with hcontiguous
  obtain ⟨last, -, rfl⟩ := Option.map_eq_some_iff.1 hcollect
  obtain ⟨hlength, hsequences⟩ := contiguousFrom_sequences hcontiguous
  have hrows : ∀ v ∈ (scan s (KEYS.eventPrefix id)
      { gte := some (KEYS.event id floor), lt := some (KEYS.event id first) }).map (·.2),
      ∃ i : Nat, history[i]? = some v ∨ sequenceOf codec v = none := by
    intro v hv
    obtain ⟨⟨k, v⟩, hrow, rfl⟩ := List.mem_map.1 hv
    obtain ⟨hget, hpre, -⟩ := (mem_scan (eventPrefix_last id) (by decide) rfl rfl).1 hrow
    rcases h.only k v hpre hget with ⟨i, -, hv, -⟩ | ⟨-, hnone⟩
    · exact ⟨i, .inl hv⟩
    · exact ⟨0, .inr (by rw [sequenceOf, hnone, Option.map_none])⟩
  generalize (scan s _ _).map _ = rows at hlength hsequences hrows
  show rows = _
  apply List.ext_getElem?
  intro i
  rw [List.getElem?_drop, List.getElem?_take]
  cases hv : rows[i]? with
  | none =>
    have hi := List.getElem?_eq_none_iff.1 hv
    rw [if_neg (by omega)]
  | some v =>
    have hi := (List.getElem?_eq_some_iff.1 hv).1
    have hsequence := hsequences i v hv
    rw [if_pos (by omega)]
    obtain ⟨j, hj | hnone⟩ := hrows v (List.mem_of_getElem? hv)
    · rw [h.sequences j v hj, Option.some.injEq] at hsequence
      obtain rfl : j = floor + i := by omega
      exact hj.symm
    · rw [hnone] at hsequence
      cases hsequence

/-! ## The watermark -/

/-- The watermark that is stored is a valid one, and has the payloads of the deleted entries. -/
structure KeepsReplay (codec : LogCodec V P T R) (s : Store V) (id : Component)
    (history : List V) (floor : Nat) : Prop where
  stored : (s.get (KEYS.eventWatermark id)).bind codec.decodeWatermark =
    readEventLogWatermark codec s id
  replay : (readEventLogWatermark codec s id).bind (·.checkpointReplay) =
    mergeDeletedCheckpointReplayPayloads codec none (history.take floor)

theorem KeepsReplay.congr {t : Store V} (h : KeepsReplay codec s id history floor)
    (hsame : t.get (KEYS.eventWatermark id) = s.get (KEYS.eventWatermark id)) :
    KeepsReplay codec t id history floor := by
  have hread : readEventLogWatermark codec t id = readEventLogWatermark codec s id := by
    rw [readEventLogWatermark, readEventLogWatermark, hsame]
  exact ⟨by rw [hsame, hread]; exact h.stored, by rw [hread]; exact h.replay⟩

theorem KeepsReplay.of_fresh (hfresh : ∀ k, KEYS.eventPrefix id <+: k → s.get k = none) :
    KeepsReplay codec s id [] 0 := by
  have hnone := hfresh _ (prefix_eventWatermark id)
  exact ⟨by rw [readEventLogWatermark, hnone]; rfl, by rw [readEventLogWatermark, hnone]; rfl⟩

theorem get_watermark_append (codec : LogCodec V P T R) (s : Store V) (id : Component)
    (event : LogEvent P T) {head : EventHeadRecord} {n : Nat} (hnext : head.sequence + 1 = n) :
    (applyBatchOperations s (appendToBatch codec id event head)).get (KEYS.eventWatermark id) =
      s.get (KEYS.eventWatermark id) := by
  refine get_applyBatchOperations_of_untouched _ _ _ fun op hop => ?_
  simp only [appendToBatch, hnext, List.mem_cons, List.not_mem_nil, or_false] at hop
  rcases hop with rfl | rfl
  · exact event_ne_eventWatermark id n
  · exact ne_of_lt (eventHead_lt_eventWatermark id)

theorem readEventLogWatermark_of_get {mark : EventLogWatermark R}
    (hget : s.get (KEYS.eventWatermark id) = some (codec.encodeWatermark mark))
    (hvalid : isEventLogWatermark mark = true) : readEventLogWatermark codec s id = some mark := by
  rw [readEventLogWatermark, hget, Option.bind_some, codec.decodeWatermark_encode,
    Option.filter_some, if_pos hvalid]

/-- A commit keeps the payloads of what it deletes. -/
theorem Represents.commit_keeps {t : Store V} {c : LogCommit P T}
    (h : Represents codec s c.workflowId history floor)
    (hkeeps : KeepsReplay codec s c.workflowId history floor)
    (hstep : commitCheckpoint codec s c = some t) :
    ∃ floor', Represents codec t c.workflowId (history ++ [committedBytes codec s c]) floor' ∧
      KeepsReplay codec t c.workflowId (history ++ [committedBytes codec s c]) floor' := by
  obtain ⟨floor', -, ht⟩ := h.commit hstep
  refine ⟨floor', ht, ?_⟩
  have hfirst := ht.expectedFirst_eq
  simp only [commitCheckpoint] at hstep
  split_ifs at hstep with hsafe
  unfold batch at hstep
  split_ifs at hstep
  obtain rfl := Option.some.inj hstep
  have happended := get_watermark_append codec s c.workflowId c.event h.head_sequence
  have hfloor : floor ≤ history.length := by
    have := h.floor_le
    omega
  have hlength : (history.length : Int) ≤ MAX_SAFE_INTEGER := h.head_sequence ▸ hsafe
  rw [applyBatchOperations_append, h.head_sequence] at hfirst ⊢
  rcases h.compaction_cases c.retentionWindow with hops | ⟨first, collected, hlt, hle, -, hcollect,
    hops⟩
  · rw [hops] at hfirst ⊢
    have hread : readEventLogWatermark codec (applyBatchOperations s (appendToBatch codec
        c.workflowId c.event (readEventHead codec s c.workflowId))) c.workflowId =
          readEventLogWatermark codec s c.workflowId := by
      rw [readEventLogWatermark, happended, readEventLogWatermark]
    obtain rfl : floor' = floor := by
      have hsame := h.expectedFirst_eq
      rw [← hread] at hsame
      exact_mod_cast hfirst.symm.trans hsame
    refine KeepsReplay.congr ⟨hkeeps.stored, ?_⟩ happended
    rw [List.take_append_of_le_length hfloor]
    exact hkeeps.replay
  · rw [hops] at hfirst ⊢
    have hget := get_compaction codec (applyBatchOperations s (appendToBatch codec c.workflowId
      c.event (readEventHead codec s c.workflowId))) c.workflowId floor first
      (tip codec.hashBytes GENESIS_HASH (history.take first))
      (mergeDeletedCheckpointReplayPayloads codec
        ((readEventLogWatermark codec s c.workflowId).bind (·.checkpointReplay))
        collected.deletedEntries) (KEYS.eventWatermark c.workflowId)
    rw [if_pos rfl] at hget
    generalize applyBatchOperations _ (compactionOperations codec _ _ _ _ _) = t at hget hfirst ⊢
    have hsmall : (first : Int) ≤ MAX_SAFE_INTEGER := by omega
    have hread := readEventLogWatermark_of_get hget
      (Represents.compacted_valid codec (history.take first) (by omega) hsmall _)
    obtain rfl : floor' = first := by
      rw [hread] at hfirst
      exact (Int.ofNat_inj.1 hfirst).symm
    refine ⟨?_, ?_⟩
    · rw [hread, hget, Option.bind_some, codec.decodeWatermark_encode]
    · rw [hread, Option.bind_some, List.take_append_of_le_length hle, hkeeps.replay,
        h.deletedEntries_eq hcollect, mergeDeletedCheckpointReplayPayloads,
        mergeDeletedCheckpointReplayPayloads, mergeDeletedCheckpointReplayPayloads,
        ← List.foldl_append]
      have htake : history.take floor = (history.take floor').take floor := by
        rw [List.take_take, min_eq_left hlt.le]
      rw [htake, List.take_append_drop]

/-- Up to ten digits, a scan of the whole prefix walks over the surviving entries in order. -/
theorem Represents.scan_in_order (h : Represents codec s id history floor)
    (hlength : history.length ≤ 10 ^ 10) :
    entriesOf codec ((scan s (KEYS.eventPrefix id) {}).map (·.2)) = history.drop floor := by
  have hrows : entryRows codec s id none = logRows id history floor := by
    have : Std.Irrefl fun a b : JsString × V => a.1 < b.1 := ⟨fun a => lt_irrefl a.1⟩
    have : Std.Antisymm fun a b : JsString × V => a.1 < b.1 :=
      ⟨fun a b hab hba => (lt_asymm hab hba).elim⟩
    refine List.Pairwise.eq_of_mem_iff (entryRows_sorted _) (logRows_sorted hlength) ?_
    rintro ⟨k, v⟩
    rw [entryRows, List.mem_filter, mem_scan (eventPrefix_last id) (by decide) rfl rfl, mem_logRows]
    constructor
    · rintro ⟨⟨hget, hpre, -⟩, hentry⟩
      rcases h.only k v hpre hget with hrow | ⟨-, hnone⟩
      · exact hrow
      · rw [hnone] at hentry
        cases hentry
    · rintro ⟨i, hi, hv, rfl⟩
      obtain ⟨entry, hentry, -⟩ := Option.map_eq_some_iff.1 (h.sequences i v hv)
      refine ⟨⟨h.entries i v hi hv, prefix_event id i, rfl⟩, ?_⟩
      rw [hentry]
      rfl
  have hscan : entriesOf codec ((scan s (KEYS.eventPrefix id) {}).map (·.2)) =
      (entryRows codec s id none).map (·.2) := entriesOf_scan none
  rw [hscan, hrows, logRows_values]

end Weft.EventLog
