import Weft.EventLog.History
import Weft.EventLog.Model

/-! Honest logs verify, as long as their sequences have ten digits: keys pad a sequence to ten
digits, and the entry after the last of these sorts before it. -/

namespace Weft.EventLog
open Weft.Js Weft.Storage Weft.Lib Weft.Lib.HashChain

universe u

variable {V P T R : Type u} {codec : LogCodec V P T R} {s : Store V} {id : Component}
  {history : List V} {floor : Nat}

/-! ## The entries in key order -/

/-- The rows of the surviving entries. -/
def logRows (id : Component) (history : List V) (floor : Nat) : List (JsString × V) :=
  ((history.drop floor).zipIdx floor).map fun x => (KEYS.event id x.2, x.1)

theorem mem_logRows {k : JsString} {v : V} :
    (k, v) ∈ logRows id history floor ↔
      ∃ i : Nat, floor ≤ i ∧ history[i]? = some v ∧ k = KEYS.event id i := by
  simp only [logRows, List.mem_map, Prod.exists, List.mk_mem_zipIdx_iff_le_and_getElem?_sub,
    List.getElem?_drop, Prod.mk.injEq]
  constructor
  · rintro ⟨v', i, ⟨hi, hv⟩, rfl, rfl⟩
    refine ⟨i, hi, ?_, rfl⟩
    rwa [Nat.add_sub_cancel' hi] at hv
  · rintro ⟨i, hi, hv, rfl⟩
    refine ⟨v, i, ⟨hi, ?_⟩, rfl, rfl⟩
    rwa [Nat.add_sub_cancel' hi]

theorem logRows_values : (logRows id history floor).map (·.2) = history.drop floor := by
  simp [logRows, Function.comp_def, List.zipIdx_map_fst]

theorem logRows_sorted (hlength : history.length ≤ 10 ^ 10) :
    (logRows id history floor).Pairwise fun a b => a.1 < b.1 := by
  rw [logRows, List.pairwise_map, List.pairwise_iff_getElem]
  intro i j hi hj hij
  simp only [List.getElem_zipIdx]
  rw [List.length_zipIdx, List.length_drop] at hi hj
  exact (event_lt_iff (by omega) (by omega)).2 (by omega)

/-- The rows under the prefix that are entries. -/
def entryRows (codec : LogCodec V P T R) (s : Store V) (id : Component)
    (watermark : Option (EventLogWatermark R)) : List (JsString × V) :=
  (scan s (KEYS.eventPrefix id) (snapshotOptions id watermark)).filter fun row =>
    (codec.decodeEntry row.2).isSome

theorem entriesOf_scan (watermark : Option (EventLogWatermark R)) :
    entriesOf codec ((scan s (KEYS.eventPrefix id) (snapshotOptions id watermark)).map (·.2)) =
      (entryRows codec s id watermark).map (·.2) := by
  rw [entriesOf, List.filter_map]
  rfl

theorem entryRows_sorted (watermark : Option (EventLogWatermark R)) :
    (entryRows codec s id watermark).Pairwise fun a b => a.1 < b.1 := by
  rw [entryRows, scan_unlimited _ _ _ rfl rfl]
  exact (OrderedStore.range_sorted _ _).filter _

/-- The options of a pass over the log let through what is not below the watermark. -/
theorem Represents.matches_options (h : Represents codec s id history floor) (k : JsString) :
    matchesScanOptions k (snapshotOptions id (readEventLogWatermark codec s id)) = true ↔
      floor = 0 ∨ KEYS.event id floor ≤ k := by
  have hmark := h.watermark
  cases hread : readEventLogWatermark codec s id with
  | none =>
    rw [hread] at hmark
    split_ifs at hmark with hfloor
    · exact iff_of_true rfl (.inl hfloor)
    · cases hmark
  | some mark =>
    rw [hread] at hmark
    split_ifs at hmark with hfloor
    · cases hmark
    · have hsequence := (Prod.mk.inj (Option.some.inj hmark)).1
      simp [matchesScanOptions, snapshotOptions, hsequence, hfloor]

theorem Represents.mem_entryRows (h : Represents codec s id history floor) {k : JsString} {v : V} :
    (k, v) ∈ entryRows codec s id (readEventLogWatermark codec s id) ↔
      (k, v) ∈ logRows id history floor ∧ (floor = 0 ∨ KEYS.event id floor ≤ k) := by
  rw [entryRows, List.mem_filter, mem_scan (eventPrefix_last id) (by decide) rfl rfl,
    h.matches_options, mem_logRows]
  constructor
  · rintro ⟨⟨hget, hpre, hoptions⟩, hentry⟩
    rcases h.only k v hpre hget with hrow | ⟨-, hnone⟩
    · exact ⟨hrow, hoptions⟩
    · rw [hnone] at hentry
      cases hentry
  · rintro ⟨⟨i, hi, hv, rfl⟩, hoptions⟩
    refine ⟨⟨h.entries i v hi hv, prefix_event id i, hoptions⟩, ?_⟩
    obtain ⟨entry, hentry, -⟩ := Option.map_eq_some_iff.1 (h.sequences i v hv)
    rw [hentry]
    rfl

/-- Up to ten digits, a pass walks over the surviving entries in their order. -/
theorem Represents.entries_in_order (h : Represents codec s id history floor)
    (hlength : history.length ≤ 10 ^ 10) :
    entriesOf codec ((scan s (KEYS.eventPrefix id)
      (snapshotOptions id (readEventLogWatermark codec s id))).map (·.2)) = history.drop floor := by
  have hrows : entryRows codec s id (readEventLogWatermark codec s id) =
      logRows id history floor := by
    have : Std.Irrefl fun a b : JsString × V => a.1 < b.1 := ⟨fun a => lt_irrefl a.1⟩
    have : Std.Antisymm fun a b : JsString × V => a.1 < b.1 :=
      ⟨fun a b hab hba => (lt_asymm hab hba).elim⟩
    refine List.Pairwise.eq_of_mem_iff (entryRows_sorted _) (logRows_sorted hlength) ?_
    rintro ⟨k, v⟩
    rw [h.mem_entryRows]
    refine and_iff_left_of_imp fun hmem => .inr ?_
    obtain ⟨i, hi, hv, rfl⟩ := mem_logRows.1 hmem
    have hlt := (List.getElem?_eq_some_iff.1 hv).1
    rw [← not_lt, event_lt_iff (by omega) (by omega)]
    omega
  rw [entriesOf_scan, hrows, logRows_values]

/-! ## Honest logs verify -/

theorem Represents.watermark_none (h : Represents codec s id history floor) (hfloor : floor = 0) :
    readEventLogWatermark codec s id = none := by
  have hmark := h.watermark
  rw [if_pos hfloor] at hmark
  exact Option.map_eq_none_iff.1 hmark

theorem Represents.valid (h : Represents codec s id history floor)
    (hlength : history.length ≤ 10 ^ 10) : verifyEventLog codec s id = .valid := by
  rw [verify_valid_iff, verifyAgainstSnapshot_eq_ok (h.entries_in_order hlength), h.snapshotSeed_eq,
    h.expectedFirst_eq, h.head]
  have hsplit := List.take_append_drop floor history
  have hlinked := h.linked
  rw [← hsplit, linked_append] at hlinked
  refine ⟨hlinked.2, fun bytes hbytes => ?_, ?_⟩
  · rw [List.head?_drop] at hbytes
    exact h.sequences floor bytes hbytes
  · rcases List.eq_nil_or_concat' history with rfl | ⟨before, last, rfl⟩
    · have hfloor : floor = 0 := Nat.le_zero.1 h.floor_le
      exact .inl ⟨List.drop_nil, h.watermark_none hfloor, rfl⟩
    · have hfloor := h.floor_le
      rw [List.length_append, List.length_singleton] at hfloor
      have hdrop : (before ++ [last]).drop floor = before.drop floor ++ [last] :=
        List.drop_append_of_le_length (by omega)
      have hlast : sequenceOf codec last = some (before.length : Int) :=
        h.sequences before.length last (by simp)
      refine .inr ⟨by rw [hdrop]; simp, ?_, ?_, ?_⟩
      · simp only [List.length_append, List.length_singleton]
        push_cast
        omega
      · rw [hdrop, lastSequenceOf_concat _ _ hlast, List.length_append, List.length_singleton]
        push_cast
        omega
      · rw [← tip_append, hsplit]

/-- The entries under the prefix are those from the watermark to the head, each under its
own key. -/
def Contiguous (codec : LogCodec V P T R) (s : Store V) (id : Component) : Prop :=
  (∀ k v, KEYS.eventPrefix id <+: k → s.get k = some v → ∀ sequence,
    sequenceOf codec v = some sequence → k = KEYS.event id sequence ∧
      expectedFirst (readEventLogWatermark codec s id) ≤ sequence ∧
      sequence ≤ (readEventHead codec s id).sequence) ∧
  ∀ sequence, expectedFirst (readEventLogWatermark codec s id) ≤ sequence →
    sequence ≤ (readEventHead codec s id).sequence →
      ∃ v, s.get (KEYS.event id sequence) = some v ∧ sequenceOf codec v = some sequence

theorem Represents.contiguous (h : Represents codec s id history floor) :
    Contiguous codec s id := by
  have hhead := h.head_sequence
  rw [Contiguous, h.expectedFirst_eq]
  constructor
  · intro k v hk hv sequence hsequence
    rcases h.only k v hk hv with ⟨i, hi, hvi, rfl⟩ | ⟨-, hnone⟩
    · rw [h.sequences i v hvi] at hsequence
      obtain rfl := Option.some.inj hsequence
      have hlt := (List.getElem?_eq_some_iff.1 hvi).1
      exact ⟨rfl, by omega, by omega⟩
    · rw [sequenceOf, hnone] at hsequence
      cases hsequence
  · intro sequence hlow hhigh
    obtain ⟨i, rfl⟩ := Int.eq_ofNat_of_zero_le (show 0 ≤ sequence by omega)
    have hlt : i < history.length := by omega
    exact ⟨history[i], h.entries i _ (by omega) (List.getElem?_eq_getElem hlt),
      h.sequences i _ (List.getElem?_eq_getElem hlt)⟩

/-! ## Eleven digits -/

/-- The first sequence of eleven digits sorts before most of those of ten. -/
theorem event_wraps {i : Nat} (hlow : 1000000001 ≤ i) (hhigh : i < 10 ^ 10) :
    KEYS.event id (10 ^ 10 : Nat) < KEYS.event id i := by
  have hfirst : KEYS.event id (10 ^ 10 : Nat) < KEYS.event id (1000000001 : Nat) := by
    rw [event_natCast, event_natCast, Lex.append_lt_append_iff]
    decide
  refine hfirst.trans_le ?_
  rw [← not_lt, event_lt_iff (by omega) (by omega)]
  omega

/-- A compaction never reaches the first sequence of eleven digits. -/
theorem collect_stops (hfloor : 10 ^ 10 ≤ floor + 1000) (hlt : floor < 10 ^ 10) :
    collectDeleteRange codec s id floor (10 ^ 10 : Nat) = none := by
  have hrows : scan s (KEYS.eventPrefix id)
      { gte := some (KEYS.event id floor), lt := some (KEYS.event id (10 ^ 10 : Nat)) } = [] := by
    refine List.eq_nil_iff_forall_not_mem.2 ?_
    rintro ⟨k, v⟩ hmem
    obtain ⟨-, -, hoptions⟩ := (mem_scan (eventPrefix_last id) (by decide) rfl rfl).1 hmem
    simp only [matchesScanOptions, Option.all_none, Option.all_some, Bool.true_and, Bool.and_true,
      Bool.and_eq_true, decide_eq_true_eq, not_lt, ge_iff_le, not_le] at hoptions
    exact absurd (hoptions.1.trans_lt hoptions.2) (event_wraps (by omega) hlt).not_gt
  simp only [collectDeleteRange, hrows, List.map_nil, List.getLast?_nil, Option.map_none, ite_self]

theorem floor_lt_of_commit {P' : Prop} {floor' : Nat} (hfloor : floor < 10 ^ 10)
    (hlength : history.length ≤ 10 ^ 10)
    (hcases : floor' = floor ∧ P' ∨ floor < floor' ∧ floor' ≤ history.length ∧
      floor' ≤ floor + 1000 ∧ ∃ collected, collectDeleteRange codec s id floor floor' =
        some collected) : floor' < 10 ^ 10 := by
  rcases hcases with ⟨rfl, -⟩ | ⟨-, hle, hbatch, collected, hcollect⟩
  · exact hfloor
  · by_contra hreached
    obtain rfl : floor' = 10 ^ 10 := by omega
    rw [collect_stops hbatch hfloor] at hcollect
    cases hcollect

/-- A log whose head has eleven digits does not verify: the walk ends before the head. -/
theorem Represents.not_valid (h : Represents codec s id history floor) (hfloor : floor < 10 ^ 10)
    (hlength : history.length = 10 ^ 10 + 1) : verifyEventLog codec s id ≠ .valid := by
  intro hvalid
  rw [verify_valid_iff, verifyAgainstSnapshot_eq_ok (entriesOf_scan _)] at hvalid
  have hhead := h.head_sequence
  obtain ⟨-, -, ⟨-, -, hempty⟩ | ⟨hne, -, hlast, -⟩⟩ := hvalid
  · omega
  · rcases List.eq_nil_or_concat' (entryRows codec s id (readEventLogWatermark codec s id)) with
      hnil | ⟨before, ⟨k, v⟩, hrows⟩
    · rw [hnil] at hne
      exact hne rfl
    · have hmem : (k, v) ∈ entryRows codec s id (readEventLogWatermark codec s id) := by
        rw [hrows]
        simp
      obtain ⟨⟨i, -, hv, rfl⟩, -⟩ := (h.mem_entryRows.1 hmem).imp_left mem_logRows.1
      rw [hrows, List.map_append, List.map_singleton,
        lastSequenceOf_concat _ _ (h.sequences i v hv)] at hlast
      obtain rfl : i = 10 ^ 10 := by omega
      have hnines : (10 ^ 10 - 1 : Nat) < history.length := by omega
      have hrow : (KEYS.event id (10 ^ 10 - 1 : Nat), history[10 ^ 10 - 1]) ∈
          entryRows codec s id (readEventLogWatermark codec s id) := by
        refine h.mem_entryRows.2 ⟨mem_logRows.2 ⟨_, by omega, List.getElem?_eq_getElem hnines, rfl⟩,
          .inr ?_⟩
        rw [← not_lt, event_lt_iff (by omega) (by omega)]
        omega
      have hwraps : KEYS.event id (10 ^ 10 : Nat) < KEYS.event id (10 ^ 10 - 1 : Nat) :=
        event_wraps (by omega) (by omega)
      have hsorted : (entryRows codec s id (readEventLogWatermark codec s id)).Pairwise
          fun a b => a.1 < b.1 := entryRows_sorted _
      rw [hrows] at hsorted hrow
      rcases List.mem_append.1 hrow with hrow | hrow
      · exact lt_asymm hwraps ((List.pairwise_append.1 hsorted).2.2 _ hrow _ List.mem_cons_self)
      · have heq := (Prod.mk.inj (List.mem_singleton.1 hrow)).1
        exact hwraps.ne heq.symm

/-! ## Runs of commits -/

def logMachine (codec : LogCodec V P T R) : Machine (Store V) (LogCommit P T) :=
  ⟨commitCheckpoint codec⟩

/-- No log has been begun. -/
def NoLogs (s : Store V) : Prop := ∀ id k, KEYS.eventPrefix id <+: k → s.get k = none

/-- Every log is contiguous and verifies. -/
def Intact (codec : LogCodec V P T R) (s : Store V) : Prop :=
  ∀ id, Contiguous codec s id ∧ verifyEventLog codec s id = .valid

/-- The sequence that the commit appends has at most ten digits. -/
def TenDigits (codec : LogCodec V P T R) (s : Store V) (commit : LogCommit P T) : Prop :=
  (readEventHead codec s commit.workflowId).sequence + 1 < 10 ^ 10

instance (s : Store V) (commit : LogCommit P T) : Decidable (TenDigits codec s commit) :=
  inferInstanceAs (Decidable (_ < _))

/-- The store holds logs of which none is far beyond ten digits. -/
def Logged (codec : LogCodec V P T R) (s : Store V) : Prop :=
  ∀ id, ∃ history floor, Represents codec s id history floor ∧ floor < 10 ^ 10 ∧
    history.length ≤ 10 ^ 10 + 1

theorem NoLogs.logged (h : NoLogs s) : Logged codec s :=
  fun id => ⟨[], 0, .of_fresh (h id), by omega, by rw [List.length_nil]; omega⟩

/-- In an intact store no head has eleven digits. -/
theorem Intact.length_le (hintact : Intact codec s) (h : Represents codec s id history floor)
    (hfloor : floor < 10 ^ 10) (hlength : history.length ≤ 10 ^ 10 + 1) :
    history.length ≤ 10 ^ 10 := by
  by_contra hlong
  exact h.not_valid hfloor (by omega) (hintact id).2

theorem intact_step {t : Store V} {commit : LogCommit P T} (hlogged : Logged codec s)
    (hintact : Intact codec s) (hstep : commitCheckpoint codec s commit = some t) :
    Logged codec t ∧ (Intact codec t ↔ TenDigits codec s commit) := by
  obtain ⟨history, floor, h, hfloor, hlength⟩ := hlogged commit.workflowId
  have hshort := hintact.length_le h hfloor hlength
  obtain ⟨floor', hcases, ht⟩ := h.commit hstep
  have hfloor' := floor_lt_of_commit hfloor hshort hcases
  have hother : ∀ id, id ≠ commit.workflowId → ∃ history floor,
      Represents codec t id history floor ∧ floor < 10 ^ 10 ∧ history.length ≤ 10 ^ 10 := by
    intro id hid
    obtain ⟨history, floor, h, hfloor, hlength⟩ := hlogged id
    exact ⟨history, floor, h.commit_other hid hstep, hfloor, hintact.length_le h hfloor hlength⟩
  have hhead := h.head_sequence
  have hlength' : (history ++ [committedBytes codec s commit]).length = history.length + 1 := by
    simp
  refine ⟨fun id => ?_, fun ht' => ?_, fun hten id => ?_⟩
  · by_cases hid : id = commit.workflowId
    · subst hid
      exact ⟨_, floor', ht, hfloor', by omega⟩
    · obtain ⟨history, floor, h, hfloor, hlength⟩ := hother id hid
      exact ⟨history, floor, h, hfloor, by omega⟩
  · have hshort' := ht'.length_le ht hfloor' (by omega)
    rw [TenDigits]
    omega
  · rw [TenDigits] at hten
    by_cases hid : id = commit.workflowId
    · subst hid
      exact ⟨ht.contiguous, ht.valid (by omega)⟩
    · obtain ⟨history, floor, h, -, hlength⟩ := hother id hid
      exact ⟨h.contiguous, h.valid hlength⟩

theorem NoLogs.intact (h : NoLogs s) : Intact codec s := by
  intro id
  have hlog : Represents codec s id [] 0 := .of_fresh (h id)
  exact ⟨hlog.contiguous, hlog.valid (by rw [List.length_nil]; omega)⟩

/-- In a run from an empty store, every log is contiguous and verifies in every state if and
only if no sequence has more than ten digits. -/
theorem log_intact_iff_ten_digits (codec : LogCodec V P T R) (s : Store V)
    (commits : List (LogCommit P T)) (hfresh : NoLogs s) :
    (logMachine codec).EveryState (Intact codec) s commits ↔
      (logMachine codec).EveryStep (TenDigits codec) s commits := by
  rw [Machine.everyState_iff_everyStep (J := Logged codec)
    (fun _ _ _ hlogged hintact hstep => intact_step hlogged hintact hstep) hfresh.logged]
  exact and_iff_right hfresh.intact

/-! ## Two runs -/

/-- Repeated commits come to the end of ten digits. -/
theorem repeated_commits {commit : LogCommit P T} {n : Nat}
    (h : Represents codec s commit.workflowId history floor)
    (hsafe : (history.length + n : Int) ≤ MAX_SAFE_INTEGER + 1)
    (hten : (logMachine codec).EveryStep (TenDigits codec) s (List.replicate n commit)) :
    n = 0 ∨ history.length + n ≤ 10 ^ 10 := by
  induction n generalizing s history floor with
  | zero => exact .inl rfl
  | succ n ih =>
    right
    have hhead := h.head_sequence
    obtain ⟨t, hstep⟩ := h.commit_enabled (by push_cast at hsafe; omega)
    obtain ⟨hfirst, hrest⟩ := (Machine.everyStep_cons_some hstep).1 hten
    rw [TenDigits] at hfirst
    obtain ⟨floor', -, ht⟩ := h.commit hstep
    have hlength : (history ++ [committedBytes codec s commit]).length = history.length + 1 := by
      simp
    rcases ih ht (by rw [hlength]; push_cast at hsafe ⊢; omega) hrest with rfl | hle <;> omega

def orderRun : Component := ⟨js "run-1", isSome_encode_run⟩

def checkpoint (step : JsString) (retentionWindow : Option Nat) :
    LogCommit JsString JsString where
  workflowId := orderRun
  event :=
    { type := js "workflow:checkpoint"
      payload := step
      timestamp := ⟨16, 2, canonical_1600⟩ }
  retentionWindow := retentionWindow

def fewCheckpoints : List (LogCommit JsString JsString) :=
  [checkpoint (js "1") none, checkpoint (js "2") none, checkpoint (js "3") (some 2),
    checkpoint (js "4") (some 1)]

theorem noLogs_empty : NoLogs (OrderedStore.empty : Store LogValue) := fun _ _ _ => rfl

theorem log_intact_few_checkpoints :
    NoLogs (OrderedStore.empty : Store LogValue) ∧
      (logMachine textLogCodec).EveryState (Intact textLogCodec) OrderedStore.empty
        fewCheckpoints :=
  ⟨noLogs_empty, (log_intact_iff_ten_digits textLogCodec OrderedStore.empty fewCheckpoints
    noLogs_empty).2 (by decide +kernel)⟩

/-- With the checkpoint of sequence `10 ^ 10` the log does not verify any more. -/
theorem eleven_digits_break_log :
    ¬ (logMachine textLogCodec).EveryState (Intact textLogCodec) OrderedStore.empty
      (List.replicate (10 ^ 10 + 1) (checkpoint (js "1") none)) := by
  intro h
  have hlogged : Logged textLogCodec (OrderedStore.empty : Store LogValue) := noLogs_empty.logged
  have hten := ((Machine.everyState_iff_everyStep (J := Logged textLogCodec)
    (fun _ _ _ hlogged hintact hstep => intact_step hlogged hintact hstep) hlogged).1 h).2
  have hfresh : Represents textLogCodec OrderedStore.empty orderRun [] 0 :=
    .of_fresh (noLogs_empty orderRun)
  rcases repeated_commits hfresh (by simp [MAX_SAFE_INTEGER]) hten with h0 | hle
  · omega
  · rw [List.length_nil] at hle
    omega

end Weft.EventLog

/-! What verification guards against. With an injective hash, and the head and the watermark
as they were committed, the entries that a pass walks over are the committed ones. Records
under keys below the watermark are not walked over, and the keys of entries are not read. -/

namespace Weft.EventLog
open Weft.Js Weft.Storage Weft.Lib Weft.Lib.HashChain

universe u

variable {V P T R : Type u} {codec : LogCodec V P T R} {s : Store V} {id : Component}
  {history : List V} {floor : Nat}

/-- The surviving entries of a log, by their own keys. -/
def committedEntries (codec : LogCodec V P T R) (s : Store V) (id : Component) : List V :=
  (integersFrom (expectedFirst (readEventLogWatermark codec s id))
    ((readEventHead codec s id).sequence + 1)).filterMap fun sequence =>
      s.get (KEYS.event id sequence)

/-- The entries that a pass walks over. -/
def verifiedEntries (codec : LogCodec V P T R) (s : Store V) (id : Component) : List V :=
  (entryRows codec s id (readEventLogWatermark codec s id)).map (·.2)

theorem filterMap_range_getElem? {α : Type*} (xs : List α) :
    (List.range xs.length).filterMap (fun j => xs[j]?) = xs := by
  induction xs with
  | nil => rfl
  | cons x xs ih =>
    rw [List.length_cons, List.range_succ_eq_map, List.filterMap_cons, List.filterMap_map]
    show x :: (List.range xs.length).filterMap (fun j => xs[j]?) = x :: xs
    rw [ih]

theorem Represents.committedEntries_eq (h : Represents codec s id history floor) :
    committedEntries codec s id = history.drop floor := by
  have hcount : ((history.length : Int) - floor).toNat = (history.drop floor).length := by
    rw [List.length_drop]
    omega
  rw [committedEntries, h.expectedFirst_eq, h.head_sequence, integersFrom, hcount,
    List.filterMap_map]
  have hentry : ∀ j < (history.drop floor).length,
      s.get (KEYS.event id (floor + j : Nat)) = (history.drop floor)[j]? := by
    intro j hj
    rw [List.length_drop] at hj
    have hlt : floor + j < history.length := by omega
    rw [List.getElem?_drop, List.getElem?_eq_getElem hlt]
    exact h.entries _ _ (by omega) (List.getElem?_eq_getElem hlt)
  have hread : (List.range (history.drop floor).length).filterMap
      ((fun sequence : Int => s.get (KEYS.event id sequence)) ∘ fun j : Nat => (floor : Int) + j) =
      (List.range (history.drop floor).length).filterMap fun j => (history.drop floor)[j]? := by
    refine List.filterMap_congr fun j hj => ?_
    rw [← hentry j (List.mem_range.1 hj)]
    rfl
  rw [hread]
  exact filterMap_range_getElem? _

/-- Whatever was committed, every log is represented. -/
theorem represents_final (codec : LogCodec V P T R) (hfresh : NoLogs s)
    (commits : List (LogCommit P T)) (id : Component) :
    ∃ history floor, Represents codec ((logMachine codec).final s commits) id history floor := by
  have hinvariant : (logMachine codec).EveryState
      (fun s => ∀ id, ∃ history floor, Represents codec s id history floor) s commits := by
    refine Machine.everyState_of_invariant (fun s commit t hs _ hstep id => ?_)
      (fun id => ⟨[], 0, .of_fresh (hfresh id)⟩) (Machine.everyStep_true commits s)
    obtain ⟨history, floor, h⟩ := hs id
    by_cases hid : id = commit.workflowId
    · subst hid
      obtain ⟨floor', -, ht⟩ := h.commit hstep
      exact ⟨_, floor', ht⟩
    · exact ⟨history, floor, h.commit_other hid hstep⟩
  exact hinvariant.final id

/-- A store that keeps the head and the watermark of a log verifies only with its entries. -/
theorem Represents.verified_eq (h : Represents codec s id history floor) {t : Store V}
    (hinj : Function.Injective codec.hashBytes) (hgenesis : ∀ v, codec.hashBytes v ≠ GENESIS_HASH)
    (hhead : readEventHead codec t id = readEventHead codec s id)
    (hmark : readEventLogWatermark codec t id = readEventLogWatermark codec s id)
    (hvalid : verifyEventLog codec t id = .valid) :
    verifiedEntries codec t id = history.drop floor := by
  rw [verify_valid_iff, verifyAgainstSnapshot_eq_ok (entriesOf_scan _), ← verifiedEntries, hmark,
    hhead, h.snapshotSeed_eq, h.expectedFirst_eq, h.head] at hvalid
  obtain ⟨hlinked, hfirst, ⟨hnil, -, hempty⟩ | ⟨hne, -, -, htip⟩⟩ := hvalid
  · have hlength : history.length = 0 := by
      have : (history.length : Int) - 1 = -1 := hempty
      omega
    rw [hnil, List.length_eq_zero_iff.1 hlength, List.drop_nil]
  · have hroot : GENESIS_HASH ∉ Set.range codec.hashBytes := by
      rintro ⟨v, hv⟩
      exact hgenesis v hv
    obtain ⟨before, heq⟩ := suffix_of_tip_eq hinj hroot hlinked h.linked hne htip
    have hdrop : verifiedEntries codec t id = history.drop before.length := by
      rw [← heq, List.drop_left]
    obtain ⟨first, hfirstEntry⟩ := Option.ne_none_iff_exists'.1
      (fun hnone => hne (List.head?_eq_none_iff.1 hnone))
    have hsequence := hfirst first hfirstEntry
    rw [hdrop, List.head?_drop] at hfirstEntry
    rw [h.sequences _ _ hfirstEntry] at hsequence
    have hfloor : before.length = floor := by
      have := Option.some.inj hsequence
      omega
    rw [hdrop, hfloor]

/-- After any commits: whatever is done to the entry records of a log, verification succeeds
only if the entries from the watermark on are the committed ones, in their order. -/
theorem verified_entries_are_committed (codec : LogCodec V P T R) (start : Store V)
    (hfresh : NoLogs start) (commits : List (LogCommit P T))
    (hinj : Function.Injective codec.hashBytes) (hgenesis : ∀ v, codec.hashBytes v ≠ GENESIS_HASH)
    (id : Component) (t : Store V)
    (hhead : t.get (KEYS.eventHead id) =
      ((logMachine codec).final start commits).get (KEYS.eventHead id))
    (hmark : t.get (KEYS.eventWatermark id) =
      ((logMachine codec).final start commits).get (KEYS.eventWatermark id))
    (hvalid : verifyEventLog codec t id = .valid) :
    verifiedEntries codec t id =
      committedEntries codec ((logMachine codec).final start commits) id := by
  obtain ⟨history, floor, h⟩ := represents_final codec hfresh commits id
  rw [h.committedEntries_eq]
  refine h.verified_eq hinj hgenesis ?_ ?_ hvalid
  · rw [readEventHead, hhead, readEventHead]
  · rw [readEventLogWatermark, hmark, readEventLogWatermark]

/-! ## What verification does not see -/

def twoCheckpoints : List (LogCommit JsString JsString) :=
  [checkpoint (js "1") none, checkpoint (js "2") (some 1)]

/-- A log of two checkpoints, of which the first is compacted. -/
def compactedLog : Store LogValue :=
  (logMachine textLogCodec).final OrderedStore.empty twoCheckpoints

def firstEntry : LogValue :=
  committedBytes textLogCodec OrderedStore.empty (checkpoint (js "1") none)

/-- The compacted entry is put back. -/
def restoredLog : Store LogValue := compactedLog.put (KEYS.event orderRun 0) firstEntry

/-- The surviving entry is put under the key of another sequence. -/
def movedLog : Store LogValue :=
  match compactedLog.get (KEYS.event orderRun 1) with
  | none => compactedLog
  | some bytes => (compactedLog.delete (KEYS.event orderRun 1)).put (KEYS.event orderRun 7) bytes

def forgedEntry : LogValue := .entry (buildEntry orderRun (checkpoint (js "0") none).event
  EMPTY_EVENT_HEAD)

/-- The text of a record, but for one forged entry that has the first hash of every log. -/
def forgedHash (v : LogValue) : JsString := if v = forgedEntry then GENESIS_HASH else v.text

theorem forgedHash_injective : Function.Injective forgedHash := by
  intro a b hab
  simp only [forgedHash] at hab
  split_ifs at hab with ha hb hb
  · rw [ha, hb]
  · exact (b.text_ne_genesis hab.symm).elim
  · exact (a.text_ne_genesis hab).elim
  · exact LogValue.text_injective hab

theorem forgedHash_ne_nil (v : LogValue) : forgedHash v ≠ [] := by
  rw [forgedHash]
  split_ifs
  · decide
  · exact v.text_ne_nil

def forgedCodec : LogCodec LogValue JsString JsString JsString :=
  plainLogCodec forgedHash forgedHash_ne_nil

def forgedLog : Store LogValue :=
    (logMachine forgedCodec).final OrderedStore.empty twoCheckpoints.tail

theorem verified_entries_are_committed_restored :
    verifyEventLog textLogCodec restoredLog orderRun = .valid ∧
      verifiedEntries textLogCodec restoredLog orderRun =
        committedEntries textLogCodec compactedLog orderRun :=
  ⟨by decide +kernel, verified_entries_are_committed textLogCodec OrderedStore.empty noLogs_empty
    twoCheckpoints LogValue.text_injective LogValue.text_ne_genesis orderRun restoredLog
    (by decide +kernel) (by decide +kernel) (by decide +kernel)⟩

/-- An entry below the watermark, the key of an entry, and an entry before the first with the
first hash of every log: with the head and the watermark as committed, all three go unseen. -/
theorem tampered_logs_verify :
    (Function.Injective textLogCodec.hashBytes ∧
      restoredLog.get (KEYS.eventHead orderRun) = compactedLog.get (KEYS.eventHead orderRun) ∧
      restoredLog.get (KEYS.eventWatermark orderRun) =
        compactedLog.get (KEYS.eventWatermark orderRun) ∧
      verifyEventLog textLogCodec restoredLog orderRun = .valid ∧
      restoredLog.get (KEYS.event orderRun 0) = some firstEntry ∧
      compactedLog.get (KEYS.event orderRun 0) = none) ∧
    (movedLog.get (KEYS.eventHead orderRun) = compactedLog.get (KEYS.eventHead orderRun) ∧
      movedLog.get (KEYS.eventWatermark orderRun) =
        compactedLog.get (KEYS.eventWatermark orderRun) ∧
      verifyEventLog textLogCodec movedLog orderRun = .valid ∧
      movedLog.get (KEYS.event orderRun 1) = none ∧
      (compactedLog.get (KEYS.event orderRun 1)).isSome) ∧
    (Function.Injective forgedCodec.hashBytes ∧
      verifyEventLog forgedCodec
        (forgedLog.put (KEYS.eventPrefix orderRun ++ js "0") forgedEntry) orderRun = .valid ∧
      forgedLog.get (KEYS.eventPrefix orderRun ++ js "0") = none) :=
  ⟨⟨LogValue.text_injective, by decide +kernel⟩, by decide +kernel,
    forgedHash_injective, by decide +kernel⟩

end Weft.EventLog
