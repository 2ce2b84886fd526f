import Weft.EventLog.Verify
import Weft.Lib.Machine

/-! The log that a store holds: everything ever committed for a workflow, of which the
entries from the watermark on are left. Commits append to it, and compaction moves the
watermark. -/

namespace Weft.EventLog
open Weft.Js Weft.Storage Weft.Lib Weft.Lib.HashChain

universe u

/-! ## Keys -/

theorem event_natCast (id : Component) (n : Nat) :
    KEYS.event id n = KEYS.eventPrefix id ++ paddedNat 10 n := by
  have hpos : ¬ (n : Int) < 0 := by omega
  rw [KEYS.event, integerUnits, if_neg hpos]
  rfl

variable {id : Component}

theorem event_inj {n m : Nat} (h : KEYS.event id n = KEYS.event id m) : n = m := by
  rw [event_natCast, event_natCast] at h
  exact paddedNat_inj (List.append_cancel_left h)

theorem prefix_event (id : Component) (n : Int) : KEYS.eventPrefix id <+: KEYS.event id n :=
  List.prefix_append _ _

theorem prefix_eventHead (id : Component) : KEYS.eventPrefix id <+: KEYS.eventHead id :=
  List.prefix_append _ _

theorem prefix_eventWatermark (id : Component) :
    KEYS.eventPrefix id <+: KEYS.eventWatermark id :=
  List.prefix_append _ _

/-- Logs of different workflows have no key in common. -/
theorem eventPrefix_unique {id id' : Component} {k : JsString} (h : KEYS.eventPrefix id <+: k)
    (h' : KEYS.eventPrefix id' <+: k) : id = id' := by
  obtain ⟨rest, rfl⟩ := h'
  have hsplit : KEYS.eventPrefix id' ++ rest = js "ev:" ++ (id'.enc ++ colon :: rest) := by
    simp [KEYS.eventPrefix]
  rw [hsplit, KEYS.eventPrefix, List.append_assoc, List.prefix_append_right_inj] at h
  exact Component.enc_injective (Lex.eq_of_marked_prefixed id.colon_notMem id'.colon_notMem h)

theorem eventPrefix_last (id : Component) : (KEYS.eventPrefix id).getLast? = some 58 := by
  rw [KEYS.eventPrefix, List.getLast?_append]
  rfl

/-- Every numeral of a key begins below the letters of `head` and `watermark`. -/
theorem paddedNat_head (n : Nat) : ∃ u rest, paddedNat 10 n = u :: rest ∧ u.val ≤ 101 := by
  cases h : paddedNat 10 n with
  | nil =>
    have hlen := congrArg List.length h
    rw [paddedNat, padStart, List.length_append, List.length_replicate, List.length_nil] at hlen
    omega
  | cons u rest =>
    refine ⟨u, rest, rfl, ?_⟩
    have hu : u ∈ paddedNat 10 n := h ▸ List.mem_cons_self
    have hnum : isNumeralUnit u = true := by
      rcases List.mem_append.1 hu with hu | hu
      · rw [(List.mem_replicate.1 hu).2]
        exact digitUnit_numeral (by decide)
      · exact decimalUnits_numeral n u hu
    simp only [isNumeralUnit, Bool.or_eq_true, Bool.and_eq_true, decide_eq_true_eq] at hnum
    rcases hnum with (((hdigit | rfl) | rfl) | rfl) | rfl
    · omega
    all_goals decide

theorem event_lt_eventHead (id : Component) (n : Nat) : KEYS.event id n < KEYS.eventHead id := by
  obtain ⟨u, rest, heq, hu⟩ := paddedNat_head n
  have hhead : js "head" = 104 :: js "ead" := by decide
  rw [event_natCast, heq, KEYS.eventHead, hhead, Lex.append_lt_append_iff, List.cons_lt_cons_iff]
  left
  rw [Fin.lt_def]
  show u.val < 104
  omega

theorem eventHead_lt_eventWatermark (id : Component) :
    KEYS.eventHead id < KEYS.eventWatermark id := by
  rw [KEYS.eventHead, KEYS.eventWatermark, Lex.append_lt_append_iff]
  decide

theorem event_ne_eventHead (id : Component) (n : Nat) : KEYS.event id n ≠ KEYS.eventHead id :=
  ne_of_lt (event_lt_eventHead id n)

theorem event_ne_eventWatermark (id : Component) (n : Nat) :
    KEYS.event id n ≠ KEYS.eventWatermark id :=
  ne_of_lt ((event_lt_eventHead id n).trans (eventHead_lt_eventWatermark id))

/-- Ten digits are compared as numbers are. -/
theorem event_lt_iff {n m : Nat} (hn : n < 10 ^ 10) (hm : m < 10 ^ 10) :
    KEYS.event id n < KEYS.event id m ↔ n < m := by
  rw [event_natCast, event_natCast, Lex.append_lt_append_iff,
    paddedNat_lt_iff (by decide) hn hm]

/-! ## The log in a store -/

variable {V P T R : Type u} {codec : LogCodec V P T R}

/-- The store holds the log of `id`: `history` was committed, and all of it from `floor` on is
still there, with the head at its end and the watermark at `floor`. -/
structure Represents (codec : LogCodec V P T R) (s : Store V) (id : Component) (history : List V)
    (floor : Nat) : Prop where
  linked : Linked (prevHashOf codec) codec.hashBytes GENESIS_HASH history
  sequences : ∀ (i : Nat) v, history[i]? = some v → sequenceOf codec v = some (i : Int)
  floor_le : floor ≤ history.length - 1
  length_le : (history.length : Int) ≤ MAX_SAFE_INTEGER + 1
  entries : ∀ (i : Nat) v, floor ≤ i → history[i]? = some v → s.get (KEYS.event id i) = some v
  only : ∀ k v, KEYS.eventPrefix id <+: k → s.get k = some v →
    (∃ i : Nat, floor ≤ i ∧ history[i]? = some v ∧ k = KEYS.event id i) ∨
      (k = KEYS.eventHead id ∨ k = KEYS.eventWatermark id) ∧ codec.decodeEntry v = none
  head : readEventHead codec s id =
    ⟨history.length - 1, tip codec.hashBytes GENESIS_HASH history⟩
  watermark : (readEventLogWatermark codec s id).map (fun mark => (mark.sequence, mark.prevHash)) =
    if floor = 0 then none
    else some ((floor : Int), tip codec.hashBytes GENESIS_HASH (history.take floor))

namespace Represents

variable {s : Store V} {id : Component} {history : List V} {floor : Nat}

theorem expectedFirst_eq (h : Represents codec s id history floor) :
    expectedFirst (readEventLogWatermark codec s id) = floor := by
  have hmark := h.watermark
  cases hread : readEventLogWatermark codec s id with
  | none =>
    rw [hread] at hmark
    split_ifs at hmark with hfloor
    · rw [hfloor]
      rfl
    · cases hmark
  | some mark =>
    rw [hread] at hmark
    split_ifs at hmark with hfloor
    · cases hmark
    · exact (Prod.mk.inj (Option.some.inj hmark)).1

theorem snapshotSeed_eq (h : Represents codec s id history floor) :
    snapshotSeed (readEventLogWatermark codec s id) =
      tip codec.hashBytes GENESIS_HASH (history.take floor) := by
  have hmark := h.watermark
  cases hread : readEventLogWatermark codec s id with
  | none =>
    rw [hread] at hmark
    split_ifs at hmark with hfloor
    · rw [hfloor]
      rfl
    · cases hmark
  | some mark =>
    rw [hread] at hmark
    split_ifs at hmark with hfloor
    · cases hmark
    · exact (Prod.mk.inj (Option.some.inj hmark)).2

/-- A log is untouched by whatever writes outside its prefix. -/
theorem congr {t : Store V} (h : Represents codec s id history floor)
    (hsame : ∀ k, KEYS.eventPrefix id <+: k → t.get k = s.get k) :
    Represents codec t id history floor := { h with
  entries i v hi hv := (hsame _ (prefix_event id i)).trans (h.entries i v hi hv)
  only k v hk hv := h.only k v hk ((hsame k hk).symm.trans hv)
  head := by
    rw [readEventHead, hsame _ (prefix_eventHead id)]
    exact h.head
  watermark := by
    rw [readEventLogWatermark, hsame _ (prefix_eventWatermark id)]
    exact h.watermark }

/-- A workflow that never committed anything has the empty log. -/
theorem of_fresh (hfresh : ∀ k, KEYS.eventPrefix id <+: k → s.get k = none) :
    Represents codec s id [] 0 where
  linked := trivial
  sequences := nofun
  floor_le := le_refl _
  length_le := by
    rw [List.length_nil]
    decide
  entries := nofun
  only k v hk hv := by
    rw [hfresh k hk] at hv
    cases hv
  head := by
    rw [readEventHead, hfresh _ (prefix_eventHead id)]
    rfl
  watermark := by
    rw [readEventLogWatermark, hfresh _ (prefix_eventWatermark id)]
    rfl

end Represents

/-! ## Compaction -/

theorem contiguousFrom_eq_some {expected next : Int} {rows : List V}
    (h : contiguousFrom codec expected rows = some next) :
    ∀ bytes, rows.getLast? = some bytes → sequenceOf codec bytes = some (next - 1) := by
  induction rows generalizing expected with
  | nil => exact nofun
  | cons row rows ih =>
    intro bytes hlast
    rw [contiguousFrom] at h
    cases hentry : codec.decodeEntry row with
    | none =>
      rw [hentry] at h
      cases h
    | some entry =>
      rw [hentry] at h
      simp only at h
      split_ifs at h with hsequence
      cases rows with
      | nil =>
        cases h
        rw [List.getLast?_singleton, Option.some.injEq] at hlast
        rw [← hlast, sequenceOf, hentry, Option.map_some, hsequence]
        congr 1
        omega
      | cons next' rows => exact ih h bytes (by rwa [List.getLast?_cons_cons] at hlast)

/-- The operations of a compaction of the entries from `floor` up to `first`. -/
def compactionOperations (codec : LogCodec V P T R) (id : Component) (floor first : Nat)
    (prevHash : JsString) (replay : Option R) : List (BatchOperation V) :=
  (integersFrom floor first).map (fun sequence => BatchOperation.delete (KEYS.event id sequence)) ++
    [BatchOperation.put (KEYS.eventWatermark id) (codec.encodeWatermark
      { sequence := first
        prevHash := prevHash
        deletedThrough := first - 1
        checkpointReplay := replay })]

variable {s : Store V}

theorem Represents.lastDeleted {history : List V} {floor : Nat}
    (h : Represents codec s id history floor) {first : Int} {collected : CollectedDeleteRange V}
    (hcollect : collectDeleteRange codec s id floor first = some collected) :
    ∃ i : Nat, floor ≤ i ∧ first = i + 1 ∧ history[i]? = some collected.lastDeletedBytes := by
  simp only [collectDeleteRange] at hcollect
  split_ifs at hcollect with hcontiguous
  obtain ⟨last, hlast, rfl⟩ := Option.map_eq_some_iff.1 hcollect
  have hsequence := contiguousFrom_eq_some hcontiguous last hlast
  obtain ⟨⟨k, v⟩, hrow, rfl⟩ := List.mem_map.1 (List.mem_of_getLast? hlast)
  obtain ⟨hget, hpre, -⟩ := (mem_scan (eventPrefix_last id) (by decide) rfl rfl).1 hrow
  rcases h.only k v hpre hget with ⟨i, hi, hv, -⟩ | ⟨-, hnone⟩
  · rw [h.sequences i v hv] at hsequence
    exact ⟨i, hi, by have := Option.some.inj hsequence; omega, hv⟩
  · rw [sequenceOf, hnone] at hsequence
    cases hsequence

/-- A compaction does nothing, or it deletes a contiguous range below the new head. -/
theorem Represents.compaction_cases {history : List V} {floor : Nat}
    (h : Represents codec s id history floor) (window : Option Nat) :
    appendCompactionOperations codec s id history.length
        (normalizePositiveCountOrDisabled window) = [] ∨
      ∃ (first : Nat) (collected : CollectedDeleteRange V), floor < first ∧
        first ≤ history.length ∧ first ≤ floor + 1000 ∧
        collectDeleteRange codec s id floor first = some collected ∧
        appendCompactionOperations codec s id history.length
          (normalizePositiveCountOrDisabled window) =
            compactionOperations codec id floor first
              (tip codec.hashBytes GENESIS_HASH (history.take first))
              (mergeDeletedCheckpointReplayPayloads codec
                ((readEventLogWatermark codec s id).bind (·.checkpointReplay))
                collected.deletedEntries) := by
  cases hwindow : normalizePositiveCountOrDisabled window with
  | none => exact .inl rfl
  | some w =>
    have hw : 0 < w := by
      obtain ⟨n, hn, rfl⟩ := Option.map_eq_some_iff.1 hwindow
      have hpos := (Option.filter_eq_some_iff.1 hn).2
      simp only [ne_eq, decide_eq_true_eq] at hpos
      omega
    have hfloor : ((readEventLogWatermark codec s id).map (·.sequence)).getD 0 = (floor : Int) :=
      h.expectedFirst_eq
    simp only [appendCompactionOperations, hfloor]
    split_ifs with hnothing
    · exact .inl rfl
    · generalize hfirst : min (max 0 ((history.length : Int) - w + 1))
        ((floor : Int) + MAX_COMPACTION_BATCH) = first at hnothing ⊢
      cases hcollect : collectDeleteRange codec s id floor first with
      | none => exact .inl rfl
      | some collected =>
        obtain ⟨i, hi, rfl, hlast⟩ := h.lastDeleted hcollect
        have hlt := (List.getElem?_eq_some_iff.1 hlast).1
        refine .inr ⟨i + 1, collected, by omega, by omega, ?_, by exact_mod_cast hcollect, ?_⟩
        · simp only [MAX_COMPACTION_BATCH] at hfirst
          omega
        · have htake : history.take (i + 1) = history.take i ++ [collected.lastDeletedBytes] := by
            rw [List.take_add_one, hlast]
            rfl
          rw [compactionOperations, htake, tip_concat]
          simp only [Nat.cast_add, Nat.cast_one]

/-! ## Commits -/

/-- The bytes of the entry that a commit appends. -/
def committedBytes (codec : LogCodec V P T R) (s : Store V) (commit : LogCommit P T) : V :=
  codec.encodeEntry (buildEntry commit.workflowId commit.event
    (readEventHead codec s commit.workflowId))

theorem mem_integersFrom {a b : Nat} {x : Int} :
    x ∈ integersFrom a b ↔ ∃ i : Nat, a ≤ i ∧ i < b ∧ x = i := by
  simp only [integersFrom, List.mem_map, List.mem_range]
  constructor
  · rintro ⟨j, hj, rfl⟩
    exact ⟨a + j, by omega, by omega, by push_cast; rfl⟩
  · rintro ⟨i, hai, hib, rfl⟩
    exact ⟨i - a, by omega, by omega⟩

theorem getElem?_concat_iff {α : Type*} {xs : List α} {x y : α} {i : Nat} :
    (xs ++ [x])[i]? = some y ↔ xs[i]? = some y ∨ i = xs.length ∧ y = x := by
  rcases lt_trichotomy i xs.length with hi | rfl | hi
  · rw [List.getElem?_append_left hi]
    exact ⟨.inl, fun hv => hv.resolve_right fun hv => hi.ne hv.1⟩
  · rw [List.getElem?_concat_length, List.getElem?_eq_none (le_refl _)]
    simp [eq_comm]
  · rw [List.getElem?_eq_none (by simp; omega), List.getElem?_eq_none (by omega)]
    simp [hi.ne']

theorem get_append (codec : LogCodec V P T R) (s : Store V) (id : Component)
    (event : LogEvent P T) (head : EventHeadRecord) (k : JsString) :
    (applyBatchOperations s (appendToBatch codec id event head)).get k =
      if k = KEYS.eventHead id then some (codec.encodeHead (newHead codec id event head))
      else if k = KEYS.event id (head.sequence + 1) then
        some (codec.encodeEntry (buildEntry id event head))
      else s.get k := by
  simp only [appendToBatch, applyBatchOperations, applyBatchOperation, List.foldl_cons,
    List.foldl_nil, OrderedStore.get_put]
  split_ifs <;> rfl

theorem get_compaction (codec : LogCodec V P T R) (s : Store V) (id : Component)
    (floor first : Nat) (prevHash : JsString)
    (replay : Option R) (k : JsString) :
    (applyBatchOperations s (compactionOperations codec id floor first prevHash replay)).get k =
      if k = KEYS.eventWatermark id then
        some (codec.encodeWatermark ⟨first, prevHash, first - 1, replay⟩)
      else if k ∈ (integersFrom floor first).map (KEYS.event id) then none
      else s.get k := by
  have hdeletes := get_applyBatchOperations_deletes s
    ((integersFrom floor first).map (KEYS.event id)) k
  rw [List.map_map] at hdeletes
  rw [compactionOperations, applyBatchOperations_append, applyBatchOperations_cons]
  show ((applyBatchOperations s _).put _ _).get k = _
  rw [OrderedStore.get_put]
  split_ifs with hmark hmem
  · rfl
  · rw [if_pos hmem] at hdeletes
    exact hdeletes
  · rw [if_neg hmem] at hdeletes
    exact hdeletes

variable {head : EventHeadRecord}

theorem appendToBatch_keys {event : LogEvent P T} :
    ∀ op ∈ appendToBatch codec id event head, KEYS.eventPrefix id <+: op.key := by
  intro op hop
  simp only [appendToBatch, List.mem_cons, List.not_mem_nil, or_false] at hop
  rcases hop with rfl | rfl
  · exact prefix_event id _
  · exact prefix_eventHead id

theorem appendCompactionOperations_keys {headSequence : Int} {window : Option Int} :
    ∀ op ∈ appendCompactionOperations codec s id headSequence window,
      KEYS.eventPrefix id <+: op.key := by
  intro op hop
  unfold appendCompactionOperations at hop
  simp only at hop
  split at hop
  · cases hop
  · split_ifs at hop
    · cases hop
    · split at hop
      · cases hop
      · rcases List.mem_append.1 hop with hop | hop
        · obtain ⟨sequence, -, rfl⟩ := List.mem_map.1 hop
          exact prefix_event id sequence
        · rw [List.mem_singleton.1 hop]
          exact prefix_eventWatermark id

theorem get_commit_other {s t : Store V} {c : LogCommit P T} (hid : id ≠ c.workflowId)
    (hstep : commitCheckpoint codec s c = some t) {k : JsString} (hk : KEYS.eventPrefix id <+: k) :
    t.get k = s.get k := by
  simp only [commitCheckpoint] at hstep
  split_ifs at hstep
  unfold batch at hstep
  split_ifs at hstep
  cases hstep
  refine get_applyBatchOperations_of_untouched _ _ _ fun op hop heq => hid ?_
  refine eventPrefix_unique hk ?_
  rw [← heq]
  rcases List.mem_append.1 hop with hop | hop
  · exact appendToBatch_keys op hop
  · exact appendCompactionOperations_keys op hop

theorem watermark_append (codec : LogCodec V P T R) (s : Store V) (id : Component)
    (event : LogEvent P T) {n : Nat} (hnext : head.sequence + 1 = n) :
    readEventLogWatermark codec (applyBatchOperations s (appendToBatch codec id event head)) id =
      readEventLogWatermark codec s id := by
  have hmark : ∀ op ∈ appendToBatch codec id event head, op.key ≠ KEYS.eventWatermark id := by
    intro op hop
    simp only [appendToBatch, hnext, List.mem_cons, List.not_mem_nil, or_false] at hop
    rcases hop with rfl | rfl
    · exact event_ne_eventWatermark id n
    · exact ne_of_lt (eventHead_lt_eventWatermark id)
  rw [readEventLogWatermark, get_applyBatchOperations_of_untouched _ _ _ hmark,
    readEventLogWatermark]

namespace Represents

variable {s : Store V} {id : Component} {history : List V} {floor : Nat}

theorem head_sequence (h : Represents codec s id history floor) :
    (readEventHead codec s id).sequence + 1 = history.length := by
  rw [h.head]
  show (history.length : Int) - 1 + 1 = history.length
  omega

theorem append (h : Represents codec s id history floor) (event : LogEvent P T)
    (hsafe : (readEventHead codec s id).sequence + 1 ≤ MAX_SAFE_INTEGER) :
    Represents codec
      (applyBatchOperations s (appendToBatch codec id event (readEventHead codec s id))) id
      (history ++ [codec.encodeEntry (buildEntry id event (readEventHead codec s id))]) floor := by
  have hhead := h.head
  have hkey := h.head_sequence
  have hfloor := h.floor_le
  generalize hbytes : codec.encodeEntry (buildEntry id event (readEventHead codec s id)) = bytes
  have hdecode : codec.decodeEntry bytes = some
    (buildEntry id event (readEventHead codec s id)) := by
    rw [← hbytes, codec.decodeEntry_encode]
  have hget := get_append codec s id event (readEventHead codec s id)
  rw [hkey, hbytes] at hget
  refine ⟨?_, ?_, ?_, ?_, ?_, ?_, ?_, ?_⟩
  · refine linked_concat.2 ⟨h.linked, ?_⟩
    rw [prevHashOf, hdecode, Option.map_some]
    show some (readEventHead codec s id).lastHash = _
    rw [hhead]
  · intro i v hv
    rcases getElem?_concat_iff.1 hv with hv | ⟨rfl, rfl⟩
    · exact h.sequences i v hv
    · rw [sequenceOf, hdecode, Option.map_some, ← hkey]
      rfl
  · rw [List.length_append, List.length_singleton]
    omega
  · rw [hkey] at hsafe
    rw [List.length_append, List.length_singleton]
    push_cast
    omega
  · intro i v hi hv
    rw [hget, if_neg (event_ne_eventHead id i)]
    rcases getElem?_concat_iff.1 hv with hv | ⟨rfl, rfl⟩
    · have hne : KEYS.event id i ≠ KEYS.event id history.length := by
        intro heq
        have hlt := (List.getElem?_eq_some_iff.1 hv).1
        exact hlt.ne (event_inj heq)
      rw [if_neg hne]
      exact h.entries i v hi hv
    · rw [if_pos rfl]
  · intro k v hk hv
    rw [hget] at hv
    split_ifs at hv with hheadKey heventKey
    · cases hv
      exact .inr ⟨.inl hheadKey, codec.decodeEntry_head _⟩
    · cases hv
      exact .inl ⟨history.length, by omega, getElem?_concat_iff.2 (.inr ⟨rfl, rfl⟩), heventKey⟩
    · rcases h.only k v hk hv with ⟨i, hi, hvi, hki⟩ | hother
      · exact .inl ⟨i, hi, getElem?_concat_iff.2 (.inl hvi), hki⟩
      · exact .inr hother
  · rw [readEventHead, hget, if_pos rfl, Option.bind_some, codec.decodeHead_encode]
    show newHead codec id event (readEventHead codec s id) = _
    rw [newHead, hbytes, hkey, tip_concat, List.length_append, List.length_singleton]
    congr 1
    push_cast
    omega
  · rw [watermark_append codec s id event hkey, List.take_append_of_le_length (by omega)]
    exact h.watermark

theorem tip_ne_nil (entries : List V) : tip codec.hashBytes GENESIS_HASH entries ≠ [] := by
  rcases List.eq_nil_or_concat' entries with rfl | ⟨entries, bytes, rfl⟩
  · show GENESIS_HASH ≠ []
    decide
  · rw [tip_concat]
    exact codec.hashBytes_ne_nil bytes

theorem compacted_valid (codec : LogCodec V P T R) (entries : List V) {first : Nat}
    (hpos : 0 < first)
    (hfirst : (first : Int) ≤ MAX_SAFE_INTEGER) (replay : Option R) :
    isEventLogWatermark (R := R) ⟨first, tip codec.hashBytes GENESIS_HASH entries, first - 1,
      replay⟩ = true := by
  simp only [isEventLogWatermark, Bool.and_eq_true, decide_eq_true_eq]
  exact ⟨⟨⟨tip_ne_nil _, by omega⟩, by omega⟩, trivial⟩

theorem compact (h : Represents codec s id history floor) {first : Nat} (hfloor : floor < first)
    (hfirst : first ≤ history.length - 1) (replay : Option R) :
    Represents codec (applyBatchOperations s (compactionOperations codec id floor first
      (tip codec.hashBytes GENESIS_HASH (history.take first)) replay)) id history first := by
  have hget := get_compaction codec s id floor first
    (tip codec.hashBytes GENESIS_HASH (history.take first)) replay
  have hdeleted : ∀ i : Nat, KEYS.event id i ∈ (integersFrom floor first).map (KEYS.event id) ↔
      floor ≤ i ∧ i < first := by
    intro i
    simp only [List.mem_map, mem_integersFrom]
    constructor
    · rintro ⟨x, ⟨j, hj, hj', rfl⟩, heq⟩
      obtain rfl := event_inj heq
      exact ⟨hj, hj'⟩
    · rintro ⟨hi, hi'⟩
      exact ⟨i, ⟨i, hi, hi', rfl⟩, rfl⟩
  have hheadKept : KEYS.eventHead id ∉ (integersFrom floor first).map (KEYS.event id) := by
    simp only [List.mem_map, mem_integersFrom]
    rintro ⟨x, ⟨j, -, -, rfl⟩, heq⟩
    exact event_ne_eventHead id j heq
  have hlength := h.length_le
  refine ⟨h.linked, h.sequences, hfirst, h.length_le, ?_, ?_, ?_, ?_⟩
  · intro i v hi hv
    have hkept : ¬ KEYS.event id i ∈ (integersFrom floor first).map (KEYS.event id) := by
      rw [hdeleted]
      omega
    rw [hget, if_neg (event_ne_eventWatermark id i), if_neg hkept]
    exact h.entries i v (by omega) hv
  · intro k v hk hv
    rw [hget] at hv
    split_ifs at hv with hmark hgone
    · cases hv
      exact .inr ⟨.inr hmark, codec.decodeEntry_watermark _⟩
    · rcases h.only k v hk hv with ⟨i, hi, hvi, rfl⟩ | hother
      · rw [hdeleted] at hgone
        exact .inl ⟨i, by omega, hvi, rfl⟩
      · exact .inr hother
  · rw [readEventHead, hget, if_neg (ne_of_lt (eventHead_lt_eventWatermark id)), if_neg hheadKept]
    exact h.head
  · have hpos : 0 < first := by omega
    have hsmall : (first : Int) ≤ MAX_SAFE_INTEGER := by omega
    have hvalid := compacted_valid codec (history.take first) hpos hsmall replay
    rw [readEventLogWatermark, hget, if_pos rfl, Option.bind_some, codec.decodeWatermark_encode,
      Option.filter_some, if_pos hvalid, if_neg (by omega)]
    rfl

variable {c : LogCommit P T}

/-- A commit appends to the log of its workflow, and may move the watermark. -/
theorem commit {t : Store V} (h : Represents codec s c.workflowId history floor)
    (hstep : commitCheckpoint codec s c = some t) : ∃ floor', (floor' = floor ∧
          readEventLogWatermark codec t c.workflowId = readEventLogWatermark codec s c.workflowId ∨
        floor < floor' ∧ floor' ≤ history.length ∧ floor' ≤ floor + 1000 ∧
          ∃ collected, collectDeleteRange codec s c.workflowId floor floor' = some collected) ∧
      Represents codec t c.workflowId (history ++ [committedBytes codec s c]) floor' := by
  simp only [commitCheckpoint] at hstep
  split_ifs at hstep with hsafe
  unfold batch at hstep
  split_ifs at hstep
  cases hstep
  have happended := h.append c.event hsafe
  have hmark := watermark_append codec s c.workflowId c.event h.head_sequence
  rw [applyBatchOperations_append, h.head_sequence]
  rcases h.compaction_cases c.retentionWindow with hops | ⟨first, collected, hlt, hle, hbatch,
    hcollect, hops⟩
  · rw [hops]
    exact ⟨floor, .inl ⟨rfl, hmark⟩, happended⟩
  · rw [hops]
    refine ⟨first, .inr ⟨hlt, hle, hbatch, collected, hcollect⟩, ?_⟩
    have htake : (history ++ [committedBytes codec s c]).take first = history.take first :=
      List.take_append_of_le_length hle
    rw [← htake]
    refine happended.compact hlt ?_ _
    rw [List.length_append, List.length_singleton]
    omega

/-- A commit is taken as long as its sequence is a safe integer. -/
theorem commit_enabled (h : Represents codec s c.workflowId history floor)
    (hsafe : (history.length : Int) ≤ MAX_SAFE_INTEGER) :
    ∃ t, commitCheckpoint codec s c = some t := by
  have hops : (appendCompactionOperations codec s c.workflowId history.length
      (normalizePositiveCountOrDisabled c.retentionWindow)).length ≤ 1001 := by
    rcases h.compaction_cases c.retentionWindow with hops | ⟨first, collected, -, -, hbatch, -,
      hops⟩
    · simp [hops]
    · rw [hops, compactionOperations, List.length_append, List.length_map, integersFrom,
        List.length_map, List.length_range, List.length_singleton]
      omega
  simp only [commitCheckpoint, h.head_sequence, if_pos hsafe, batch]
  rw [if_pos]
  · exact ⟨_, rfl⟩
  · rw [List.length_append]
    show 2 + _ ≤ 10000
    omega

/-- Commits of other workflows leave a log alone. -/
theorem commit_other {t : Store V} (h : Represents codec s id history floor)
    (hid : id ≠ c.workflowId) (hstep : commitCheckpoint codec s c = some t) :
    Represents codec t id history floor :=
  h.congr fun _ hk => get_commit_other hid hstep hk

end Represents

end Weft.EventLog
