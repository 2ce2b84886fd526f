import Weft.Replay.Reconstruction

/-! The checkpoints of the history, which `fork` and `replayTo` hydrate. The events that are left
of the log are read up to the step of the checkpoint, but what was compacted is read whole: a
checkpoint of the history gets back what the workflow held then as long as nothing of a later
checkpoint has been compacted. -/

namespace Weft.Replay
open Weft.Js Weft.Lib Weft.Storage Weft.EventLog

universe u

variable {V T α : Type u} {codec : CheckpointCodec V T α} {mode : ExecutionMode}
  {workflowId : Component}

/-! ## Runs with a history -/

/-- What the workflow held when a checkpoint was written to the history, and how many events
it had had by then. -/
structure PastCheckpoint (α : Type u) where
  held : ReplayEntries α
  events : Nat

structure HistoryState (V α : Type u) where
  replay : ReplayState V α
  past : OrderedStore Nat (PastCheckpoint α)

/-- The past after a step that leads to `next`. -/
def HistoryState.pastAfter (state : HistoryState V α) (next : ReplayState V α) :
    ReplayStep T α → OrderedStore Nat (PastCheckpoint α)
  | .checkpoint request =>
    if 0 < request.checkpointHistory then
      state.past.put next.current.step ⟨next.held, next.events.length⟩
    else state.past
  | .resume => state.past
  | .forget step => state.past.delete step

def historyMachine (codec : CheckpointCodec V T α) (mode : ExecutionMode)
    (workflowId : Component) : Machine (HistoryState V α) (ReplayStep T α) where
  step state step := ((replayMachine codec mode workflowId).step state.replay step).map fun next =>
    ⟨next, state.pastAfter next step⟩

/-- Hydrating a checkpoint of the history fails, or gives what the workflow held then. -/
def HistoryExact (codec : CheckpointCodec V T α) (workflowId : Component)
    (state : HistoryState V α) : Prop :=
  ∀ k : Nat,
    loadCheckpoint codec state.replay.store workflowId (KEYS.checkpointHistory workflowId k) =
      none ∨
      ∃ loaded past,
        loadCheckpoint codec state.replay.store workflowId (KEYS.checkpointHistory workflowId k) =
          some loaded ∧
        state.past.get k = some past ∧
        ∀ kind step, lastOf (loaded.entries kind) step = lastOf (past.held kind) step

/-! ## What hydration reads beyond a checkpoint -/

/-- The events that have been compacted. -/
def compactedCount (codec : CheckpointCodec V T α) (s : Store V) (workflowId : Component) : Nat :=
  (expectedFirst (readEventLogWatermark codec.log s workflowId)).toNat

/-- The events after a checkpoint of the history that hydrating it reads: those that have been
compacted, and those of the same step. -/
def HistoryState.eventsBeyond (codec : CheckpointCodec V T α) (workflowId : Component)
    (state : HistoryState V α) (k : Nat) (past : PastCheckpoint α) :
    List (CheckpointEventPayload α) :=
  (state.replay.events.take (max (compactedCount codec state.replay.store workflowId)
    (state.replay.events.takeWhile fun event => event.step ≤ k).length)).drop past.events

/-- The entries that a checkpoint of the history has itself. -/
def recordedEntries (codec : CheckpointCodec V T α) (workflowId : Component) (s : Store V)
    (k : Nat) : ReplayEntries α :=
  (((s.get (KEYS.checkpointHistory workflowId k)).bind codec.deserializeCheckpoint).map
    (·.entries)).getD fun _ => []

/-- Beyond a checkpoint of the history there is nothing but what it has itself, and what the
workflow held then. -/
def NothingLater (codec : CheckpointCodec V T α) (workflowId : Component)
    (state : HistoryState V α) : Prop :=
  ∀ record ∈ state.past.entries, ∀ kind step,
    lastOf (recordedEntries codec workflowId state.replay.store record.1 kind) step = none →
    ∀ value, lastOf (eventEntries kind
        (state.eventsBeyond codec workflowId record.1 record.2)) step = some value →
      lastOf (record.2.held kind) step = some value

instance [DecidableEq α] (state : HistoryState V α) :
    Decidable (NothingLater codec workflowId state) :=
  decidable_of_iff (∀ record ∈ state.past.entries, ∀ kind,
      ∀ step ∈ (eventEntries kind (state.eventsBeyond codec workflowId record.1 record.2)).map
          Prod.fst ++ (record.2.held kind).map Prod.fst,
        lastOf (recordedEntries codec workflowId state.replay.store record.1 kind) step = none →
        lastOf (eventEntries kind (state.eventsBeyond codec workflowId record.1 record.2)) step =
          none ∨
          lastOf (eventEntries kind (state.eventsBeyond codec workflowId record.1 record.2)) step =
            lastOf (record.2.held kind) step) (by
    refine forall₃_congr fun record _ kind => ?_
    rw [← forall_lastOf_iff (P := fun step beyond held =>
      lastOf (recordedEntries codec workflowId state.replay.store record.1 kind) step = none →
        beyond = none ∨ beyond = held) (fun _ _ => .inl rfl)]
    refine forall_congr' fun step => imp_congr_right fun _ => ?_
    cases lastOf
      (eventEntries kind (state.eventsBeyond codec workflowId record.1 record.2)) step <;>
      simp [eq_comm])

variable {events : List (CheckpointEventPayload α)}

theorem takeWhile_drop_of_sorted (h : events.Pairwise fun a b => a.step ≤ b.step) (k floor : Nat) :
    (events.drop floor).takeWhile (fun event => event.step ≤ k) =
      (events.takeWhile fun event => event.step ≤ k).drop floor := by
  induction events generalizing floor with
  | nil => simp
  | cons event events ih =>
    obtain ⟨hfirst, hrest⟩ := List.pairwise_cons.1 h
    cases floor with
    | zero => rfl
    | succ floor =>
      rw [List.drop_succ_cons, ih hrest]
      by_cases hle : event.step ≤ k
      · rw [List.takeWhile_cons_of_pos (by simpa using hle), List.drop_succ_cons]
      · have hnone : events.takeWhile (fun event => event.step ≤ k) = [] := by
          cases events with
          | nil => rfl
          | cons next events =>
            have hnext := hfirst next List.mem_cons_self
            exact List.takeWhile_cons_of_neg (by simp only [decide_eq_true_eq]; omega)
        rw [List.takeWhile_cons_of_neg (by simpa using hle), hnone]
        simp

theorem take_append_drop_max (l : List α) (n m : Nat) :
    l.take n ++ (l.take m).drop n = l.take (max n m) := by
  rcases le_total n m with hle | hle
  · rw [max_eq_right hle, List.drop_take, ← List.take_add]
    congr 1
    omega
  · rw [max_eq_left hle, List.drop_eq_nil_of_le, List.append_nil]
    exact (List.length_take_le _ _).trans hle

theorem HoldsEvents.floor_eq {s : Store V} {floor : Nat}
    (h : HoldsEvents codec s workflowId events floor) :
    compactedCount codec s workflowId = floor := by
  obtain ⟨history, hrepresents, -, -⟩ := h
  rw [compactedCount, hrepresents.expectedFirst_eq, Int.toNat_natCast]

variable {state : HistoryState V α}

variable {stored : Checkpoint α}

/-- A checkpoint that is hydrated later: its own entries, the events beyond it that are read,
and the events that it had. -/
theorem lastOf_past (h : Tracked codec mode workflowId state.replay)
    (hshort : state.replay.events.length ≤ 10 ^ 10) {past : PastCheckpoint α}
    (hcount : past.events ≤ state.replay.events.length)
    (hsteps : ∀ event ∈ state.replay.events.take past.events, event.step ≤ stored.step)
    (hcarried : ∀ kind step value, lastOf (payloadEntries stored.replayPayload kind) step =
      some value → lastOf (eventEntries kind (state.replay.events.take past.events)) step =
      some value) (kind : ReplayKind) (step : Nat) :
    lastOf ((hydrateCheckpointReplayState codec state.replay.store workflowId stored).entries kind)
        step = (lastOf (stored.entries kind) step).or
        ((lastOf (eventEntries kind (state.eventsBeyond codec workflowId stored.step past)) step).or
          (lastOf (eventEntries kind (state.replay.events.take past.events)) step)) := by
  obtain ⟨floor, hlog⟩ := h.log
  set events := state.replay.events
  set count := (events.takeWhile fun event => event.step ≤ stored.step).length
  have htake : events.takeWhile (fun event => event.step ≤ stored.step) = events.take count :=
    List.prefix_iff_eq_take.1 (List.takeWhile_prefix _)
  have hle : past.events ≤ count := by
    have hsplit : events.takeWhile (fun event => event.step ≤ stored.step) =
        events.take past.events ++
          (events.drop past.events).takeWhile fun event => event.step ≤ stored.step := by
      rw [← List.takeWhile_append_of_pos fun event hevent => decide_eq_true (hsteps event hevent),
        List.take_append_drop]
    show _ ≤ (events.takeWhile _).length
    rw [hsplit, List.length_append, List.length_take, min_eq_left hcount]
    exact Nat.le_add_right _ _
  have hread : events.take floor ++ (events.take count).drop floor =
      events.take past.events ++ state.eventsBeyond codec workflowId stored.step past := by
    rw [HistoryState.eventsBeyond, hlog.floor_eq, take_append_drop_max, take_append_drop_max]
    show _ = events.take (max past.events (max floor count))
    rw [max_eq_right (hle.trans (le_max_right floor count))]
  have hboth : (lastOf (eventEntries kind ((events.take count).drop floor)) step).or
      (lastOf (eventEntries kind (events.take floor)) step) =
        (lastOf (eventEntries kind (state.eventsBeyond codec workflowId stored.step past)) step).or
          (lastOf (eventEntries kind (events.take past.events)) step) := by
    rw [← lastOf_append, ← lastOf_append, ← eventEntries_append, ← eventEntries_append, hread]
  rw [hlog.lastOf_hydrated hshort, takeWhile_drop_of_sorted h.sorted, htake]
  congr 1
  rw [← Option.or_assoc, hboth, Option.or_assoc, or_eq_left (hcarried kind step)]

theorem or_beyond_iff {own beyond past held : Option α} (h : own.or past = held) :
    own.or (beyond.or past) = held ↔
      (own = none → ∀ value, beyond = some value → held = some value) := by
  cases own with
  | some value => simpa using h
  | none =>
    rw [Option.none_or] at h ⊢
    subst h
    cases beyond with
    | none => simp
    | some value => simp [eq_comm]

/-! ## What holds of every run -/

/-- The record of a past checkpoint: with the events that it had, its own entries make up what
was held. -/
structure Archived (codec : CheckpointCodec V T α) (workflowId : Component)
    (state : ReplayState V α) (k : Nat) (past : PastCheckpoint α) (stored : Checkpoint α) :
    Prop where
  get : state.store.get (KEYS.checkpointHistory workflowId k) =
    some (codec.serializeCheckpoint stored)
  step : stored.step = k
  count : past.events ≤ state.events.length
  steps_le : ∀ event ∈ state.events.take past.events, event.step ≤ k
  carried : ∀ kind step value, lastOf (payloadEntries stored.replayPayload kind) step = some value →
    lastOf (eventEntries kind (state.events.take past.events)) step = some value
  recovered : ∀ kind step, (lastOf (stored.entries kind) step).or
    (lastOf (eventEntries kind (state.events.take past.events)) step) = lastOf (past.held kind) step

structure TrackedHistory (codec : CheckpointCodec V T α) (mode : ExecutionMode)
    (workflowId : Component) (state : HistoryState V α) : Prop where
  tracked : Tracked codec mode workflowId state.replay
  short : state.replay.events.length ≤ 10 ^ 10
  absent : ∀ k : Nat, state.past.get k = none →
    state.replay.store.get (KEYS.checkpointHistory workflowId k) = none
  archived : ∀ k past, state.past.get k = some past →
    ∃ stored, Archived codec workflowId state.replay k past stored

/-- Later events and other records do not change a record. -/
theorem Archived.mono {state next : ReplayState V α} {k : Nat} {past : PastCheckpoint α}
    (h : Archived codec workflowId state k past stored)
    (hget : next.store.get (KEYS.checkpointHistory workflowId k) =
      state.store.get (KEYS.checkpointHistory workflowId k))
    {later : List (CheckpointEventPayload α)} (hevents : next.events = state.events ++ later) :
    Archived codec workflowId next k past stored := by
  have htake : next.events.take past.events = state.events.take past.events := by
    rw [hevents, List.take_append_of_le_length h.count]
  refine ⟨hget.trans h.get, h.step, ?_, ?_, ?_, ?_⟩
  · rw [hevents, List.length_append]
    exact h.count.trans (Nat.le_add_right _ _)
  · rw [htake]
    exact h.steps_le
  · rw [htake]
    exact h.carried
  · rw [htake]
    exact h.recovered

variable {request : CheckpointRequest T α}

theorem get_history_commit {s t : Store V} {checkpoint : Checkpoint α}
    {replayPayload : Option (CheckpointReplayPayload α)}
    (hstep : commitCheckpoint codec s workflowId checkpoint replayPayload request = some t)
    (k : Nat) : t.get (KEYS.checkpointHistory workflowId k) =
      if 0 < request.checkpointHistory ∧ k = checkpoint.step then t.get (KEYS.checkpoint workflowId)
      else s.get (KEYS.checkpointHistory workflowId k) := by
  rw [get_checkpoint_commit hstep]
  obtain ⟨-, -, -, hother⟩ := commitCheckpoint_log hstep
  have hne := checkpointHistory_ne_checkpoint workflowId (k : Int)
  have hkey : KEYS.checkpointHistory workflowId (k : Int) =
      KEYS.checkpointHistory workflowId (checkpoint.step : Int) ↔ k = checkpoint.step :=
    ⟨checkpointHistory_inj, fun heq => by rw [heq]⟩
  rw [hother _ (checkpointHistory_not_prefixed workflowId k), checkpointOperations,
    applyBatchOperations_cons]
  by_cases hkept : 0 < request.checkpointHistory
  · simp [hkept, applyBatchOperations, applyBatchOperation, hne, hkey]
  · simp [hkept, applyBatchOperations, applyBatchOperation, hne]

/-- The checkpoint that is written to the history is the latest one. -/
theorem archived_checkpoint {state next : ReplayState V α}
    (h : Tracked codec mode workflowId state) (hshort : state.events.length < 10 ^ 10)
    (hsafe : PrunesSafely mode state (.checkpoint request))
    (hstep : (replayMachine codec mode workflowId).step state (.checkpoint request) = some next)
    (hkept : next.store.get (KEYS.checkpointHistory workflowId next.current.step) =
      next.store.get (KEYS.checkpoint workflowId)) :
    ∃ stored, Archived codec workflowId next next.current.step ⟨next.held, next.events.length⟩
      stored := by
  obtain ⟨hnext, hlength, -⟩ := reconstructs_step h hshort hstep
  obtain ⟨-, stored, hget, hlatest, -⟩ := tracked_checkpoint h hstep
  obtain ⟨floor, hlog⟩ := hnext.log
  have hsame := (reconstructs_iff hlog hlength hget hlatest).1
    ((reconstructs_checkpoint h hshort hstep).2.2 hsafe)
  have htake : next.events.take next.events.length = next.events := List.take_length
  refine ⟨stored, hkept.trans hget, hlatest.current_step.symm, le_refl _, ?_, ?_, ?_⟩
  · rw [htake, hlatest.current_step]
    exact hlatest.steps_le
  · rw [htake]
    exact hlatest.carried
  · rw [htake]
    exact hsame

theorem tracked_history_checkpoint {next : ReplayState V α}
    (h : TrackedHistory codec mode workflowId state) (hshort : state.replay.events.length < 10 ^ 10)
    (hsafe : PrunesSafely mode state.replay (.checkpoint request))
    (hstep : (replayMachine codec mode workflowId).step state.replay (.checkpoint request) =
      some next) :
    TrackedHistory codec mode workflowId ⟨next, state.pastAfter next (.checkpoint request)⟩ := by
  obtain ⟨htracked, hlength, -⟩ := reconstructs_step h.tracked hshort hstep
  obtain ⟨t, hcommit, hnext⟩ := Option.map_eq_some_iff.1 hstep
  have hevents : next.events = state.replay.events ++
      [⟨(state.replay.persist mode request).checkpoint.step,
        (state.replay.persist mode request).replayPayload⟩] := hnext ▸ rfl
  have hget : ∀ k : Nat, next.store.get (KEYS.checkpointHistory workflowId k) =
      if 0 < request.checkpointHistory ∧ k = next.current.step then
        next.store.get (KEYS.checkpoint workflowId)
      else state.replay.store.get (KEYS.checkpointHistory workflowId k) := by
    rw [← hnext]
    exact get_history_commit hcommit
  have hpast : ∀ k, (state.pastAfter next (.checkpoint request)).get k =
      if 0 < request.checkpointHistory ∧ k = next.current.step then
        some ⟨next.held, next.events.length⟩ else state.past.get k := by
    intro k
    rw [HistoryState.pastAfter]
    by_cases hkept : 0 < request.checkpointHistory <;> simp [hkept]
  refine ⟨htracked, hlength, fun k hnone => ?_, fun k past hsome => ?_⟩
  · rw [hpast] at hnone
    show next.store.get _ = none
    rw [hget]
    split_ifs at hnone ⊢ with hnew
    exact h.absent k hnone
  · rw [hpast] at hsome
    split_ifs at hsome with hnew
    · cases hsome
      obtain ⟨hkept, rfl⟩ := hnew
      refine archived_checkpoint h.tracked hshort hsafe hstep ?_
      rw [hget, if_pos ⟨hkept, rfl⟩]
    · obtain ⟨stored, harchived⟩ := h.archived k past hsome
      refine ⟨stored, harchived.mono ?_ hevents⟩
      rw [hget, if_neg hnew]

theorem tracked_history_step {state next : HistoryState V α} {step : ReplayStep T α}
    (h : TrackedHistory codec mode workflowId state) (hshort : ShortLog state.replay step)
    (hsafe : PrunesSafely mode state.replay step)
    (hstep : (historyMachine codec mode workflowId).step state step = some next) :
    TrackedHistory codec mode workflowId next := by
  obtain ⟨replay, hreplay, rfl⟩ := Option.map_eq_some_iff.1 hstep
  cases step with
  | checkpoint request => exact tracked_history_checkpoint h hshort hsafe hreplay
  | resume =>
    obtain ⟨htracked, hstore, -⟩ := tracked_resume h.tracked h.short hreplay
    have hevents : replay.events = state.replay.events ++ [] := by
      obtain ⟨loaded, -, rfl⟩ := Option.map_eq_some_iff.1 hreplay
      exact (List.append_nil _).symm
    refine ⟨htracked, ?_, fun k hnone => ?_, fun k past hsome => ?_⟩
    · show replay.events.length ≤ _
      rw [hevents, List.append_nil]
      exact h.short
    · show replay.store.get _ = none
      rw [hstore]
      exact h.absent k hnone
    · obtain ⟨stored, harchived⟩ := h.archived k past hsome
      exact ⟨stored, harchived.mono (by rw [hstore]) hevents⟩
  | forget forgotten =>
    cases hreplay
    have hkey : ∀ k : Nat, KEYS.checkpointHistory workflowId (k : Int) =
        KEYS.checkpointHistory workflowId (forgotten : Int) ↔ k = forgotten :=
      fun k => ⟨checkpointHistory_inj, fun heq => by rw [heq]⟩
    refine ⟨tracked_forget h.tracked forgotten, h.short, fun k hnone => ?_, fun k past hsome => ?_⟩
    · show (OrderedStore.delete _ _).get _ = none
      have hnone' : (state.past.delete forgotten).get k = none := hnone
      rw [OrderedStore.get_delete] at hnone' ⊢
      simp only [hkey]
      split_ifs at hnone' ⊢
      · rfl
      · exact h.absent k hnone'
    · have hsome' : (state.past.delete forgotten).get k = some past := hsome
      rw [OrderedStore.get_delete] at hsome'
      split_ifs at hsome' with hforgotten
      obtain ⟨stored, harchived⟩ := h.archived k past hsome'
      refine ⟨stored, harchived.mono ?_ (List.append_nil _).symm⟩
      show (OrderedStore.delete _ _).get _ = _
      rw [OrderedStore.get_delete, if_neg]
      exact fun heq => hforgotten ((hkey k).1 heq)

/-! ## Hydrating the past -/

theorem TrackedHistory.historyExact_iff (h : TrackedHistory codec mode workflowId state) :
    HistoryExact codec workflowId state ↔ NothingLater codec workflowId state := by
  have hload : ∀ {k : Nat} {past stored}, Archived codec workflowId state.replay k past stored →
      loadCheckpoint codec state.replay.store workflowId (KEYS.checkpointHistory workflowId k) =
          some (hydrateCheckpointReplayState codec state.replay.store workflowId stored) ∧
        recordedEntries codec workflowId state.replay.store k = stored.entries ∧
        ∀ kind step, (lastOf ((hydrateCheckpointReplayState codec state.replay.store workflowId
              stored).entries kind) step = lastOf (past.held kind) step ↔
            (lastOf (stored.entries kind) step = none → ∀ value, lastOf (eventEntries kind
                (state.eventsBeyond codec workflowId k past)) step = some value →
              lastOf (past.held kind) step = some value)) := by
    intro k past stored harchived
    refine ⟨loadCheckpoint_of_get harchived.get, ?_, fun kind step => ?_⟩
    · rw [recordedEntries, harchived.get, Option.bind_some, codec.deserialize_serialize]
      rfl
    · obtain rfl := harchived.step
      rw [lastOf_past h.tracked h.short harchived.count harchived.steps_le harchived.carried]
      exact or_beyond_iff (harchived.recovered kind step)
  constructor
  · rintro hexact ⟨k, past⟩ hrecord kind step
    have hpast := (state.past.get_eq_some_iff k past).2 hrecord
    obtain ⟨stored, harchived⟩ := h.archived k past hpast
    obtain ⟨hloaded, hrecorded, hiff⟩ := hload harchived
    rcases hexact k with hnone | ⟨loaded, past', hsome, hpast', hsame⟩
    · rw [hloaded] at hnone
      cases hnone
    · rw [hloaded] at hsome
      cases hsome
      cases hpast.symm.trans hpast'
      rw [hrecorded]
      exact (hiff kind step).1 (hsame kind step)
  · intro hnothing k
    cases hpast : state.past.get k with
    | none =>
      left
      rw [loadCheckpoint, h.absent k hpast]
      rfl
    | some past =>
      right
      obtain ⟨stored, harchived⟩ := h.archived k past hpast
      obtain ⟨hloaded, hrecorded, hiff⟩ := hload harchived
      refine ⟨_, past, hloaded, rfl, fun kind step => (hiff kind step).2 ?_⟩
      have hlater := hnothing (k, past) ((state.past.get_eq_some_iff k past).1 hpast) kind step
      rwa [hrecorded] at hlater

/-- In every run with a log of ten digits in which every checkpoint prunes safely, hydrating a
checkpoint of the history fails or gives what the workflow held then, if and only if what is
read beyond it is nothing but that. -/
theorem historical_exact_iff (codec : CheckpointCodec V T α) (mode : ExecutionMode)
    (workflowId : Component) (state : ReplayState V α)
    (hstart : Started codec mode workflowId state) (steps : List (ReplayStep T α))
    (hside : (historyMachine codec mode workflowId).EveryStep (fun state step =>
      ShortLog state.replay step ∧ PrunesSafely mode state.replay step)
      ⟨state, OrderedStore.empty⟩ steps) :
    (historyMachine codec mode workflowId).EveryState (HistoryExact codec workflowId)
        ⟨state, OrderedStore.empty⟩ steps ↔
      (historyMachine codec mode workflowId).EveryState (NothingLater codec workflowId)
        ⟨state, OrderedStore.empty⟩ steps := by
  have hfirst : TrackedHistory codec mode workflowId ⟨state, OrderedStore.empty⟩ := by
    refine ⟨hstart.tracked, ?_, fun k _ => hstart.noHistory k, fun k past hsome => ?_⟩
    · rw [hstart.events]
      exact Nat.zero_le _
    · cases hsome
  refine (Machine.everyState_of_invariant (fun s step t hs hok hstep => ?_) hfirst hside).congr
    fun t ht => ht.historyExact_iff
  exact tracked_history_step hs hok.1 hok.2 hstep

/-- The log is compacted up to the second checkpoint, after the first one was deleted. -/
def forgetfulRun : List (ReplayStep JsString Nat) :=
  [.checkpoint (resultsAt [] 1 (some 0) none),
    .checkpoint (resultsAt [(0, 7)] 2 (some 1) none),
    .forget 1,
    .checkpoint (resultsAt [(0, 7), (1, 8)] 3 (some 2) (some 1))]

theorem historical_exact_forgetful :
    (historyMachine plainCheckpointCodec .inline replayRun).EveryState
      (HistoryExact plainCheckpointCodec replayRun) ⟨startedRun, OrderedStore.empty⟩ forgetfulRun :=
  (historical_exact_iff plainCheckpointCodec .inline replayRun startedRun started_inline
    forgetfulRun
    (by decide)).2 (by decide)

/-- The first checkpoint was taken before the operation at step 0 had a result. It is hydrated
with that result once the second checkpoint is compacted. -/
theorem compacted_result_appears_in_the_past :
    Started plainCheckpointCodec .inline replayRun startedRun ∧
      ¬ (historyMachine plainCheckpointCodec .inline replayRun).EveryState
        (HistoryExact plainCheckpointCodec replayRun) ⟨startedRun, OrderedStore.empty⟩
          steadyRun := by
  refine ⟨started_inline, fun hall => ?_⟩
  have hload : (loadCheckpoint plainCheckpointCodec ((historyMachine plainCheckpointCodec .inline
      replayRun).final ⟨startedRun, OrderedStore.empty⟩ steadyRun).replay.store replayRun
      (KEYS.checkpointHistory replayRun (1 : Nat))).map
        (fun loaded => lastOf (loaded.entries .accumulatedResults) 0) = some (some 7) := by
    decide
  have hpast : (((historyMachine plainCheckpointCodec .inline replayRun).final
      ⟨startedRun, OrderedStore.empty⟩ steadyRun).past.get 1).map
        (fun past => lastOf (past.held .accumulatedResults) 0) = some none := by
    decide
  rcases hall.final 1 with hnone | ⟨loaded, past, hloaded, hget, hsame⟩
  · rw [hnone] at hload
    cases hload
  · rw [hloaded, Option.map_some, hsame] at hload
    rw [hget, Option.map_some] at hpast
    rw [Option.some.inj hpast] at hload
    cases Option.some.inj hload

end Weft.Replay
