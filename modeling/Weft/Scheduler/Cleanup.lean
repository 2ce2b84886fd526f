import Weft.Scheduler.Reading

/-! What a tick fires and deletes. The keys of the timers whose callbacks returned are deleted in
one batch at the end of the tick, and a batch that is too large deletes none of them. -/

namespace Weft.Scheduler
open Weft.Js Weft.Storage Weft.Lib

universe v

variable {V : Type v}

/-! ## What is to hold -/

section

variable (scheduler : SchedulerOptions V) (callback : Callback V) (now : Nat) (state : State V)

/-- The timers that the tick offers to the callback, in this order. -/
def firedBy : List (Processed V) :=
  if state.stopped then []
  else (runTick scheduler callback now state).processed.filter fun p => p.outcome.isSome

/-- The keys that the tick deletes. -/
def deletedBy : List JsString :=
  if state.stopped then []
  else
    let s := runTick scheduler callback now state
    if (batch s.store s.cleanupOperations).isSome then s.cleanupOperations.map BatchOperation.key
    else []

/-- What the callbacks leave in the store. -/
def storeAfterCallbacks : Store V :=
  if state.stopped then state.store else (runTick scheduler callback now state).store

structure TickSound : Prop where
  due : ∀ p ∈ firedBy scheduler callback now state, p.timer.entry.fireAt ≤ now
  ordered : (firedBy scheduler callback now state).Pairwise fun p q =>
    p.timer.entry.fireAt ≤ q.timer.entry.fireAt
  once : ((firedBy scheduler callback now state).map fun p => p.timer.key).Nodup
  deleted : ∀ p ∈ firedBy scheduler callback now state,
    p.timer.key ∈ deletedBy scheduler callback now state ↔ p.outcome = some .succeeded
  store : ∀ k, (tick scheduler callback now state).store.get k =
    if k ∈ deletedBy scheduler callback now state then none
    else (storeAfterCallbacks scheduler callback now state).get k
  /-- What a callback arms for a later time, and no later one changes, is there after the tick,
  unless it has fired by then. -/
  survives : ∀ earlier p later, firedBy scheduler callback now state = earlier ++ p :: later →
    ∀ (source : SourceName) fireAt component v, p.timer.entry.fireAt < fireAt →
      fireAt ≤ maxSafeInteger →
      (∀ q ∈ p :: later, q.store.get (source.key fireAt component) = some v) →
      (tick scheduler callback now state).store.get (source.key fireAt component) = some v ∨
        ∃ q ∈ later, q.timer.key = source.key fireAt component ∧ q.outcome = some .succeeded

/-- The number of keys that the timers whose callbacks return leave to be deleted. -/
def keysToDelete : Nat :=
  ((firedBy scheduler callback now state).map fun p => (cleanupOf scheduler p).length).sum

end

variable {scheduler : SchedulerOptions V} {callback : Callback V} {now : Nat} {state : State V}

/-! ## What is deleted -/

variable {p : Processed V}

theorem cleanupOf_of_skipped (h : ¬ p.outcome.isSome) : cleanupOf scheduler p = [] := by
  rw [cleanupOf, if_neg]
  intro heq
  exact h (by rw [heq]; rfl)

theorem flatMap_filter_of_nil {α β : Type*} (f : α → List β) (p : α → Bool)
    (h : ∀ x, ¬ p x → f x = []) (xs : List α) : (xs.filter p).flatMap f = xs.flatMap f := by
  induction xs with
  | nil => rfl
  | cons x xs ih =>
    by_cases hp : p x = true
    · rw [List.filter_cons_of_pos hp, List.flatMap_cons, List.flatMap_cons, ih]
    · rw [List.filter_cons_of_neg hp, List.flatMap_cons, ih, h x hp, List.nil_append]

/-- A delete is one of a key that fired, or of an index entry. -/
theorem key_of_mem_cleanupOf {op : BatchOperation V} (h : op ∈ cleanupOf scheduler p) :
    p.outcome = some .succeeded ∧ op = .delete op.key ∧
      (op.key = p.timer.key ∨ op.key = timerIndexKey p.timer.entry.id) := by
  unfold cleanupOf at h
  split_ifs at h with houtcome
  · refine ⟨houtcome, ?_⟩
    rcases List.mem_cons.1 h with rfl | h
    · exact ⟨rfl, .inl rfl⟩
    · have hindex : op = .delete (timerIndexKey p.timer.entry.id) := by
        simp only [buildTimerIndexDeleteOperation] at h
        split_ifs at h
        · split at h
          · cases h
          · split at h
            · exact List.mem_singleton.1 h
            · split_ifs at h
              · exact List.mem_singleton.1 h
              · cases h
        · exact List.mem_singleton.1 h
        · cases h
      rw [hindex]
      exact ⟨rfl, .inr rfl⟩
  · cases h

theorem key_mem_cleanupOf (h : p.outcome = some .succeeded) :
    .delete p.timer.key ∈ cleanupOf scheduler p := by
  rw [cleanupOf, if_pos h]
  exact List.mem_cons_self

variable {timer : ScannedTimerEntry}

theorem DueTimer.ne_indexKey {source : SourceName} (h : DueTimer source now timer) (id : JsString) :
    timer.key ≠ timerIndexKey id := by
  intro heq
  obtain ⟨component, hkey, -⟩ := h
  refine indexKey_not_prefixed source id ?_
  rw [← heq, hkey]
  exact source.family_prefixed _ _

theorem not_sound_of_batch_refused (hrunning : state.stopped = false)
    (hlarge : MAX_BATCH_OPERATIONS < keysToDelete scheduler callback now state)
    (hp : p ∈ firedBy scheduler callback now state) (houtcome : p.outcome = some .succeeded)
    (hmerged : Merged scheduler (TimerAt scheduler.codec) now
      (runTick scheduler callback now state)) :
    ¬ TickSound scheduler callback now state := by
  intro h
  have hmem := (h.deleted p hp).2 houtcome
  have hlength : (runTick scheduler callback now state).cleanupOperations.length =
      keysToDelete scheduler callback now state := by
    rw [hmerged.cleanup, keysToDelete, firedBy, if_neg (by simp [hrunning]),
      ← flatMap_filter_of_nil (cleanupOf scheduler) (fun p => p.outcome.isSome)
        fun p hp => cleanupOf_of_skipped hp, List.length_flatMap]
  have hrefused : ¬ (batch (runTick scheduler callback now state).store
      (runTick scheduler callback now state).cleanupOperations).isSome := by
    rw [batch, if_neg (by omega)]
    exact Bool.false_ne_true
  simp only [deletedBy, hrunning, Bool.false_eq_true, if_false, if_neg hrefused] at hmem
  cases hmem

/-! ## Stores -/

/-- The store is what the last timer that fired left. -/
theorem runTick_store (hstored : TimersStored scheduler.codec state.store)
    (hcallback : callback.KeepsTimers scheduler.codec) :
    (runTick scheduler callback now state).store =
      ((((runTick scheduler callback now state).processed.filter fun p =>
        p.outcome.isSome).getLast?).map Processed.store).getD state.store := by
  have hinvariant : Merged scheduler (TimerAt scheduler.codec) now
    (runTick scheduler callback now state) ∧
      (runTick scheduler callback now state).store =
        ((((runTick scheduler callback now state).processed.filter fun p =>
          p.outcome.isSome).getLast?).map Processed.store).getD state.store := by
    refine processTimers_induction (P := fun s => Merged scheduler (TimerAt scheduler.codec) now s ∧
      s.store =
      (((s.processed.filter fun p => p.outcome.isSome).getLast?).map Processed.store).getD
        state.store) ?_ _ ⟨Merged.start (ofTimers_timerAt _) hstored, ?_⟩
    · rintro s i timer source ⟨hmerged, hstore⟩ - hselect hi
      obtain ⟨hnext, htake⟩ := hmerged.take hcallback hselect hi
      refine ⟨htake, ?_⟩
      obtain ⟨_, source', -, -, -, heq, -⟩ := hmerged.takeTimer_cases hcallback hi hnext
      obtain ⟨p, -, -, hprocessed, -, hafter, -, hcases⟩ :=
        processSelectedTimer_cases scheduler callback now s source.name timer
      rw [heq]
      show (processSelectedTimer scheduler callback now s source.name timer).store =
        ((((processSelectedTimer scheduler callback now s source.name timer).processed.filter
          fun p => p.outcome.isSome).getLast?).map Processed.store).getD state.store
      rw [hprocessed, hafter, List.filter_append]
      obtain ⟨-, houtcome, hskipped, -⟩ | ⟨-, houtcome, -⟩ := hcases
      · simp [houtcome, hskipped, hstore]
      · simp [houtcome]
    · obtain ⟨sources, heq, -⟩ := startTick_cases now (ofTimers_timerAt _) hstored
      rw [heq]
      rfl
  exact hinvariant.2

theorem storeAfterCallbacks_of_fired (hstored : TimersStored scheduler.codec state.store)
    (hcallback : callback.KeepsTimers scheduler.codec) {earlier later : List (Processed V)}
    (hfired : firedBy scheduler callback now state = earlier ++ p :: later) :
    ∃ q ∈ p :: later, storeAfterCallbacks scheduler callback now state = q.store := by
  have hrunning : state.stopped = false := by
    cases hstopped : state.stopped with
    | true => simp [firedBy, hstopped] at hfired
    | false => rfl
  simp only [firedBy, hrunning, Bool.false_eq_true, if_false] at hfired
  obtain ⟨q, hq⟩ : ∃ q, (p :: later).getLast? = some q := Option.isSome_iff_exists.1 (by simp)
  refine ⟨q, List.mem_of_getLast? hq, ?_⟩
  rw [storeAfterCallbacks, if_neg (by simp [hrunning]), runTick_store hstored hcallback, hfired,
    List.getLast?_append, hq]
  rfl

/-! ## Ticks -/

theorem mem_firedBy (h : p ∈ firedBy scheduler callback now state) :
    p ∈ (runTick scheduler callback now state).processed ∧ p.outcome.isSome ∧
      state.stopped = false := by
  unfold firedBy at h
  split_ifs at h with hstopped
  · cases h
  · obtain ⟨hmem, hsome⟩ := List.mem_filter.1 h
    exact ⟨hmem, hsome, by simpa using hstopped⟩

/-- The deletes of a batch that is not refused. -/
theorem deletedBy_eq (hmerged : Merged scheduler (TimerAt scheduler.codec) now
    (runTick scheduler callback now state))
    (hsize : keysToDelete scheduler callback now state ≤ MAX_BATCH_OPERATIONS) :
    deletedBy scheduler callback now state =
      ((firedBy scheduler callback now state).flatMap (cleanupOf scheduler)).map
        BatchOperation.key := by
  unfold deletedBy
  split_ifs with hstopped
  · simp [firedBy, hstopped]
  · have hrunning : state.stopped = false := by simpa using hstopped
    have hcleanup : (runTick scheduler callback now state).cleanupOperations =
        (firedBy scheduler callback now state).flatMap (cleanupOf scheduler) := by
      rw [hmerged.cleanup, firedBy, if_neg (by simp [hrunning]), flatMap_filter_of_nil]
      exact fun p hp => cleanupOf_of_skipped hp
    have hlength : (runTick scheduler callback now state).cleanupOperations.length ≤
        MAX_BATCH_OPERATIONS := by
      rw [hcleanup, List.length_flatMap]
      exact hsize
    have hbatch : (batch (runTick scheduler callback now state).store
        (runTick scheduler callback now state).cleanupOperations).isSome = true := by
      rw [batch, if_pos hlength]
      rfl
    simp only [hbatch, if_true]
    rw [hcleanup]

theorem get_tick_store (hmerged : Merged scheduler (TimerAt scheduler.codec) now
    (runTick scheduler callback now state))
    (k : JsString) : (tick scheduler callback now state).store.get k =
      if k ∈ deletedBy scheduler callback now state then none
      else (storeAfterCallbacks scheduler callback now state).get k := by
  cases hstopped : state.stopped with
  | true => simp [tick, deletedBy, storeAfterCallbacks, hstopped]
  | false =>
    have hdeletes : (runTick scheduler callback now state).cleanupOperations =
        ((runTick scheduler callback now state).cleanupOperations.map BatchOperation.key).map
          .delete := by
      rw [hmerged.cleanup, List.map_map]
      refine (List.map_id _).symm.trans (List.map_congr_left fun op hop => ?_)
      obtain ⟨p, -, hop⟩ := List.mem_flatMap.1 hop
      exact (key_of_mem_cleanupOf hop).2.1
    simp only [tick, deletedBy, storeAfterCallbacks, finishTick, deleteProcessedTimerKeys, batch,
      hstopped, Bool.false_eq_true, if_false]
    by_cases hsize : (runTick scheduler callback now state).cleanupOperations.length ≤
        MAX_BATCH_OPERATIONS
    · simp only [hsize, if_true, Option.isSome_some, Option.getD_some]
      conv_lhs => rw [hdeletes]
      exact get_applyBatchOperations_deletes _ _ _
    · simp [hsize]

/-- A tick is sound exactly if what it has to delete fits in one batch. -/
theorem tick_sound_iff_batch_fits (scheduler : SchedulerOptions V) {callback : Callback V}
    (hcallback : callback.KeepsTimers scheduler.codec) (now : Nat) {state : State V}
    (hstored : TimersStored scheduler.codec state.store) :
    TickSound scheduler callback now state ↔
      keysToDelete scheduler callback now state ≤ MAX_BATCH_OPERATIONS := by
  have hmerged := runTick_merged (ofTimers_timerAt _) hstored hcallback now
  constructor
  · intro h
    by_contra hlarge
    have hpositive : 0 < keysToDelete scheduler callback now state := by omega
    obtain ⟨n, hn, hne⟩ : ∃ n ∈ (firedBy scheduler callback now state).map
        (fun p => (cleanupOf scheduler p).length), n ≠ 0 := by
      by_contra hzero
      push Not at hzero
      rw [keysToDelete, List.sum_eq_zero hzero] at hpositive
      exact hpositive.false
    obtain ⟨p, hp, rfl⟩ := List.mem_map.1 hn
    obtain ⟨op, hop⟩ := List.exists_mem_of_length_pos (Nat.pos_of_ne_zero hne)
    refine not_sound_of_batch_refused (mem_firedBy hp).2.2 (by omega) hp
      (key_of_mem_cleanupOf hop).1 hmerged h
  · intro hsize
    have hdeleted := deletedBy_eq hmerged hsize
    have hdue : ∀ p ∈ firedBy scheduler callback now state, DueTimer p.source now p.timer :=
      fun p hp => (hmerged.taken p (mem_firedBy hp).1).dueTimer hmerged.ofTimers
    have hordered : (firedBy scheduler callback now state).Pairwise fun p q =>
        p.timer.entry.fireAt ≤ q.timer.entry.fireAt ∧ p.timer.key ≠ q.timer.key := by
      unfold firedBy
      split_ifs
      · exact List.Pairwise.nil
      · exact hmerged.ordered.filter _
    have hsucceeded : ∀ {k}, k ∈ deletedBy scheduler callback now state →
        (∀ id, k ≠ timerIndexKey id) → ∃ q ∈ firedBy scheduler callback now state,
          q.timer.key = k ∧ q.outcome = some .succeeded := by
      intro k hk hindex
      rw [hdeleted] at hk
      obtain ⟨op, hop, rfl⟩ := List.mem_map.1 hk
      obtain ⟨q, hq, hop⟩ := List.mem_flatMap.1 hop
      obtain ⟨houtcome, -, hkey⟩ := key_of_mem_cleanupOf hop
      exact ⟨q, hq, (hkey.resolve_right (hindex _)).symm, houtcome⟩
    refine ⟨fun p hp => ?_, hordered.imp fun h => h.1, ?_, fun p hp =>
      ⟨fun hmem => ?_, fun ho => ?_⟩,
      get_tick_store hmerged, ?_⟩
    · obtain ⟨component, -, -, hle⟩ := hdue p hp
      exact hle
    · rw [List.Nodup, List.pairwise_map]
      exact hordered.imp fun h => h.2
    · obtain ⟨q, hq, hkey, houtcome⟩ := hsucceeded hmem (hdue p hp).ne_indexKey
      by_contra hne
      have : Std.Symm fun p q : Processed V => p.timer.key ≠ q.timer.key :=
        ⟨fun _ _ hpq => hpq.symm⟩
      refine (hordered.imp fun h => h.2).forall hq hp (fun heq => ?_) hkey
      exact hne (heq ▸ houtcome)
    · rw [hdeleted]
      refine List.mem_map.2 ⟨_, List.mem_flatMap.2 ⟨p, hp, key_mem_cleanupOf ho⟩, rfl⟩
    · intro earlier p later hfired source fireAt component v hlater hsafe hvalue
      by_cases hmem : source.key fireAt component ∈ deletedBy scheduler callback now state
      · right
        obtain ⟨q, hq, hkey, houtcome⟩ := hsucceeded hmem fun id heq =>
          indexKey_not_prefixed source id (heq ▸ source.family_prefixed _ _)
        obtain ⟨d, hqkey, hqsafe, -⟩ := hdue q hq
        have hsame : q.timer.entry.fireAt = fireAt :=
          SourceName.fireAt_eq_of_key (sixteen_digits_of_safe hqsafe)
            (sixteen_digits_of_safe hsafe) (hqkey.symm.trans hkey)
        rw [hfired] at hq hordered
        rcases List.mem_append.1 hq with hq | hq
        · have hle := ((List.pairwise_append.1 hordered).2.2 q hq p List.mem_cons_self).1
          omega
        · rcases List.mem_cons.1 hq with rfl | hq
          · omega
          · exact ⟨q, hq, hkey, houtcome⟩
      · left
        rw [get_tick_store hmerged, if_neg hmem]
        obtain ⟨q, hq, hstore⟩ := storeAfterCallbacks_of_fired hstored hcallback hfired
        rw [hstore]
        exact hvalue q hq

/-! ## Many sleeps -/

/-- Stored values, as far as timers are concerned. -/
inductive TimerBytes where
  | entry (entry : TimerEntry)
  | text (text : JsString)
deriving DecidableEq

def timerCodec : TimerCodec TimerBytes where
  encodeEntry := .entry
  decodeEntry
    | .entry entry => some entry
    | .text _ => none
  encodeText := .text
  decodeText
    | .text text => some text
    | .entry _ => none
  decodeEntry_encode := fun _ => rfl
  decodeText_encode := fun _ => rfl
  numberLiteral := fun _ => none

def sleepScheduler : SchedulerOptions TimerBytes where
  codec := timerCodec
  mode := .rows
  pollIntervalMs := 1000
  localeCompare := fun _ _ => 0

def sleepKey (i : Nat) : JsString := SourceName.deadline.key i (Component.numbered i)

/-- A sleep that ends at this time. -/
def sleepTimer (i : Nat) : TimerEntry := ⟨paddedNat 16 i, js "order", i, .sleep⟩

theorem sleepKey_lt {i j : Nat} (hj : j ≤ maxSafeInteger) (h : i < j) :
    sleepKey i < sleepKey j := by
  unfold sleepKey
  rw [SourceName.key_eq, SourceName.key_eq, Lex.append_lt_append_iff]
  have hj' := sixteen_digits_of_safe hj
  apply Lex.append_lt_append_of_length_eq
  · rw [length_paddedNat (by decide) (by omega), length_paddedNat (by decide) hj']
  · exact (paddedNat_lt_iff (by decide) (by omega) hj').2 h

variable {count : Nat}

/-- A list that has the keys of that many sleeps is as long. -/
theorem le_length_of_sleepKeys (hcount : count ≤ maxSafeInteger) {keys : List JsString}
    (h : ∀ i < count, sleepKey i ∈ keys) : count ≤ keys.length := by
  have hsub : ((List.range count).map sleepKey) ⊆ keys := by
    intro k hk
    obtain ⟨i, hi, rfl⟩ := List.mem_map.1 hk
    exact h i (List.mem_range.1 hi)
  have hnodup : ((List.range count).map sleepKey).Nodup := by
    rw [List.Nodup, List.pairwise_map]
    refine List.pairwise_lt_range.imp_of_mem fun {i j} _ hj hij => (sleepKey_lt ?_ hij).ne
    exact (List.mem_range.1 hj).le.trans hcount
  have hle := (List.subperm_of_subset hnodup hsub).length_le
  rwa [List.length_map, List.length_range] at hle

/-- Sleeps that end at the times before `count`. -/
def sleepTimers (count : Nat) (hcount : count ≤ maxSafeInteger) : Store TimerBytes :=
  .ofRange (fun i => (sleepKey i, .entry (sleepTimer i))) count
    fun _ _ hij hj => sleepKey_lt (hj.le.trans hcount) hij

theorem sleepTimers_stored (hcount : count ≤ maxSafeInteger) :
    TimersStored timerCodec (sleepTimers count hcount) := by
  intro source k v hget hpre
  obtain ⟨i, hi, heq⟩ := OrderedStore.exists_of_get_ofRange hget
  obtain ⟨rfl, rfl⟩ := Prod.mk.inj heq
  obtain rfl : source = .deadline := by
    by_contra hne
    rw [sleepKey, SourceName.key_eq] at hpre
    exact not_prefix_of_apart (SourceName.family_apart hne) _ hpre
  exact ⟨sleepTimer i, Component.numbered i, rfl, rfl, hi.le.trans hcount⟩

def allReturn : Callback TimerBytes where
  outcome := fun _ => .succeeded
  effect := fun _ store => store

/-- The callbacks write nothing and defer nothing. -/
structure Callback.Quiet (callback : Callback V) : Prop where
  effect : ∀ timer store, callback.effect timer store = store
  released : ∀ timer, callback.released timer = []
  goesOn : ∀ timer, callback.stops timer = false
  outcome : ∀ timer, callback.outcome timer ≠ .deferred

theorem allReturn_quiet : allReturn.Quiet :=
  ⟨fun _ _ => rfl, fun _ => rfl, fun _ => rfl, fun _ =>
    show Outcome.succeeded ≠ .deferred by decide⟩

theorem Callback.Quiet.keepsTimers (h : callback.Quiet) (codec : TimerCodec V) :
    callback.KeepsTimers codec := by
  intro timer store hstored
  rwa [h.effect]

variable {deferral : TimerDeferral}

theorem Callback.Quiet.get_deferralsAfter (h : callback.Quiet) {deferred : Deferrals}
    {id : JsString}
    (hget : (deferralsAfter scheduler callback now deferred timer).get id = some deferral) :
    deferred.get id = some deferral := by
  unfold deferralsAfter at hget
  cases houtcome : callback.outcome timer with
  | deferred => exact (h.outcome timer houtcome).elim
  | failed => simpa [houtcome, releaseDeferredTimers, h.released] using hget
  | succeeded =>
    simp only [houtcome, releaseDeferredTimers, h.released, OrderedStore.get_delete,
      Option.ite_none_left_eq_some] at hget
    simpa using hget.2

/-- A tick with such callbacks, with no deferral that is still to be waited for: every timer that
is taken is offered, and the store stays as it is until the end. -/
theorem runTick_quiet (scheduler : SchedulerOptions V) (now : Nat) (h : callback.Quiet)
    (hstored : TimersStored scheduler.codec state.store) (hrunning : state.stopped = false)
    (hexpired : ∀ id deferral, state.deferredTimers.get id = some deferral →
      deferral.retryAt ≤ now) : (runTick scheduler callback now state).stopped = false ∧
      (runTick scheduler callback now state).store = state.store ∧
      (∀ id deferral, (runTick scheduler callback now state).deferredTimers.get id =
        some deferral → state.deferredTimers.get id = some deferral) ∧
      ∀ p ∈ (runTick scheduler callback now state).processed,
        p.outcome = some (callback.outcome p.timer) := by
  have hcallback := h.keepsTimers scheduler.codec
  suffices hinvariant : Merged scheduler (TimerAt scheduler.codec) now
        (runTick scheduler callback now state) ∧
      (runTick scheduler callback now state).stopped = false ∧
      (runTick scheduler callback now state).store = state.store ∧
      (∀ id deferral, (runTick scheduler callback now state).deferredTimers.get id =
        some deferral → state.deferredTimers.get id = some deferral) ∧
      ∀ p ∈ (runTick scheduler callback now state).processed,
        p.outcome = some (callback.outcome p.timer) from
    hinvariant.2
  refine processTimers_induction (P := fun s => Merged scheduler (TimerAt scheduler.codec) now s ∧
      s.stopped = false ∧ s.store = state.store ∧ (∀ id deferral,
        s.deferredTimers.get id = some deferral → state.deferredTimers.get id = some deferral) ∧
      ∀ p ∈ s.processed, p.outcome = some (callback.outcome p.timer)) ?_ _ ?_
  · rintro s i timer source ⟨hmerged, hgoes, hstore, hdeferrals, hall⟩ - hselect hi
    obtain ⟨hnext, htake⟩ := hmerged.take hcallback hselect hi
    obtain ⟨_, source', -, -, -, heq, -⟩ := hmerged.takeTimer_cases hcallback hi hnext
    obtain ⟨p, -, htimer, hprocessed, -, hafter, -, hcases⟩ :=
      processSelectedTimer_cases scheduler callback now s source.name timer
    have hready : isDeferred s.deferredTimers timer.entry.id now = false := by
      unfold isDeferred
      cases hget : s.deferredTimers.get timer.entry.id with
      | none => rfl
      | some deferral => simpa using hexpired _ _ (hdeferrals _ _ hget)
    obtain ⟨hdeferred, -⟩ | ⟨-, houtcome, hpstore, hchanged, hstopped⟩ := hcases
    · rw [hready] at hdeferred
      cases hdeferred
    · refine ⟨htake, ?_⟩
      rw [heq]
      refine ⟨?_, ?_, fun id deferral hget => ?_, fun q hq => ?_⟩
      · exact hstopped.trans (by rw [hgoes, h.goesOn]; rfl)
      · exact (hafter.trans hpstore).trans ((h.effect timer s.store).trans hstore)
      · exact hdeferrals id deferral (h.get_deferralsAfter (hchanged ▸ hget))
      · replace hq : q ∈ s.processed ++ [p] := hprocessed ▸ hq
        rcases List.mem_append.1 hq with hq | hq
        · exact hall q hq
        · rw [List.mem_singleton.1 hq, htimer]
          exact houtcome
  · obtain ⟨sources, heq, -⟩ := startTick_cases now (ofTimers_timerAt _) hstored
    refine ⟨Merged.start (ofTimers_timerAt _) hstored, ?_⟩
    rw [heq]
    exact ⟨hrunning, rfl, fun _ _ hget => hget, by simp⟩

def wokenDeferral : TimerDeferral := ⟨1, 0⟩

theorem paddedNat_lt {i j : Nat} (hj : j ≤ maxSafeInteger) (h : i < j) :
    paddedNat 16 i < paddedNat 16 j :=
  (paddedNat_lt_iff (by decide) (h.trans (sixteen_digits_of_safe hj))
    (sixteen_digits_of_safe hj)).2 h

/-- The first sleeps were deferred before and may be tried again. -/
def wokenDeferrals (count : Nat) (hcount : count ≤ maxSafeInteger) : Deferrals :=
  .ofRange (fun i => (paddedNat 16 i, wokenDeferral)) count
    fun _ _ hij hj => paddedNat_lt (hj.le.trans hcount) hij

theorem get_wokenDeferrals (hcount : count ≤ maxSafeInteger) {id : JsString}
    (h : (wokenDeferrals count hcount).get id = some deferral) : deferral = wokenDeferral := by
  obtain ⟨i, -, heq⟩ := OrderedStore.exists_of_get_ofRange h
  exact (Prod.mk.inj heq).2.symm

section

variable (timers deferrals : Nat) (htimers : timers ≤ maxSafeInteger)
  (hdeferrals : deferrals ≤ maxSafeInteger)

def sleepBacklog : State TimerBytes where
  store := sleepTimers timers htimers
  deferredTimers := wokenDeferrals deferrals hdeferrals

theorem scanLimit_sleepBacklog : scanLimit (sleepBacklog timers deferrals htimers hdeferrals) =
    EXPIRED_TIMER_SCAN_LIMIT_PER_SOURCE + deferrals := by
  unfold scanLimit sleepBacklog wokenDeferrals OrderedStore.ofRange
  rw [List.length_map, List.length_range]

/-- The deferrals let the tick read all the sleeps. -/
theorem length_processed_sleepBacklog
    (hlimit : timers ≤ EXPIRED_TIMER_SCAN_LIMIT_PER_SOURCE + deferrals)
    (hrunning : (runTick sleepScheduler allReturn timers
      (sleepBacklog timers deferrals htimers hdeferrals)).stopped = false)
    (hstore : (runTick sleepScheduler allReturn timers
      (sleepBacklog timers deferrals htimers hdeferrals)).store = sleepTimers timers htimers) :
    timers ≤ (runTick sleepScheduler allReturn timers
      (sleepBacklog timers deferrals htimers hdeferrals)).processed.length := by
  have hstored : TimersStored sleepScheduler.codec
      (sleepBacklog timers deferrals htimers hdeferrals).store := sleepTimers_stored htimers
  have hcallback := allReturn_quiet.keepsTimers sleepScheduler.codec
  by_contra hshort
  have hcovered : ∀ i < timers, sleepKey i ∈ (runTick sleepScheduler allReturn timers
      (sleepBacklog timers deferrals htimers hdeferrals)).processed.map fun p => p.timer.key := by
    intro i hi
    have hget : (sleepTimers timers htimers).get (sleepKey i) = some (.entry (sleepTimer i)) :=
      OrderedStore.get_ofRange _ hi
    obtain ⟨p, hp, -, hkey⟩ | ⟨-, hused⟩ := runTick_covers (ofTimers_timerAt _) hstored hcallback
      (SourceName.family_prefixed .deadline i (Component.numbered i))
      (SourceName.matches_of_due (Component.numbered i) (sixteen_digits_of_safe htimers) hi.le)
      (fun _ _ h => h) (by rw [hstore]; exact Option.isSome_iff_exists.2 ⟨_, hget⟩) hrunning
    · exact List.mem_map.2 ⟨p, hp, hkey⟩
    · rw [scanLimit_sleepBacklog] at hused
      have hle : (takenFrom .deadline (runTick sleepScheduler allReturn timers
          (sleepBacklog timers deferrals htimers hdeferrals)).processed).length ≤ _ :=
        List.length_filter_le _ _
      omega
  have hle := le_length_of_sleepKeys htimers hcovered
  rw [List.length_map] at hle
  exact hshort hle

theorem not_sound_sleepBacklog (hmany : MAX_BATCH_OPERATIONS < timers)
    (hlimit : timers ≤ EXPIRED_TIMER_SCAN_LIMIT_PER_SOURCE + deferrals) :
    ¬ TickSound sleepScheduler allReturn timers
      (sleepBacklog timers deferrals htimers hdeferrals) := by
  have hstored : TimersStored sleepScheduler.codec
      (sleepBacklog timers deferrals htimers hdeferrals).store := sleepTimers_stored htimers
  have hmerged := runTick_merged (ofTimers_timerAt _) hstored
    (allReturn_quiet.keepsTimers sleepScheduler.codec) timers
  have hexpired : ∀ id deferral, (sleepBacklog timers deferrals htimers
      hdeferrals).deferredTimers.get id = some deferral → deferral.retryAt ≤ timers := by
    intro id deferral hget
    rw [get_wokenDeferrals hdeferrals hget]
    exact Nat.zero_le _
  obtain ⟨hrunning, hstore, -, hall⟩ := runTick_quiet _ _ allReturn_quiet hstored rfl hexpired
  have hlength := length_processed_sleepBacklog timers deferrals htimers hdeferrals hlimit hrunning
    hstore
  have hfired : firedBy sleepScheduler allReturn timers
      (sleepBacklog timers deferrals htimers hdeferrals) = (runTick sleepScheduler allReturn timers
        (sleepBacklog timers deferrals htimers hdeferrals)).processed := by
    have hstopped : (sleepBacklog timers deferrals htimers hdeferrals).stopped = false := rfl
    rw [firedBy, if_neg (by simp [hstopped]), List.filter_eq_self]
    intro p hp
    rw [hall p hp]
    rfl
  have hone : ∀ n ∈ (runTick sleepScheduler allReturn timers
      (sleepBacklog timers deferrals htimers hdeferrals)).processed.map
        (fun p => (cleanupOf sleepScheduler p).length), 1 ≤ n := by
    intro n hn
    obtain ⟨p, hp, rfl⟩ := List.mem_map.1 hn
    exact List.length_pos_of_mem (key_mem_cleanupOf (hall p hp))
  have hsum := List.card_nsmul_le_sum _ _ hone
  rw [List.length_map, smul_eq_mul, mul_one] at hsum
  obtain ⟨p, hp⟩ := List.exists_mem_of_length_pos
    (Nat.zero_lt_of_lt (hmany.trans_le hlength))
  refine not_sound_of_batch_refused rfl ?_ (hfired ▸ hp) (hall p hp) hmerged
  rw [keysToDelete, hfired]
  exact hmany.trans_le (hlength.trans hsum)

end

theorem sleeps_safe : 10001 ≤ maxSafeInteger := by decide

theorem deferrals_safe : 9001 ≤ maxSafeInteger := by decide

/-- More sleeps are due than one batch can delete. -/
theorem fired_timers_left_in_store : ¬ TickSound sleepScheduler allReturn 10001
    (sleepBacklog 10001 9001 sleeps_safe deferrals_safe) :=
  not_sound_sleepBacklog 10001 9001 sleeps_safe deferrals_safe (by decide) (by decide)

theorem two_sleeps_safe : 2 ≤ maxSafeInteger := by decide

/-- The first sleep ends and is armed again for a later time; the callback of the second fails. -/
def armsAgain : Callback TimerBytes where
  outcome := fun timer => if timer.entry.fireAt = 0 then .succeeded else .failed
  effect := fun timer store =>
    if timer.entry.fireAt = 0 then store.put (sleepKey 7) (.entry (sleepTimer 7)) else store

theorem armsAgain_keepsTimers : armsAgain.KeepsTimers timerCodec := by
  intro timer store h
  simp only [armsAgain]
  split_ifs
  · intro source k v hget hpre
    rw [OrderedStore.get_put] at hget
    split_ifs at hget with hk
    · subst hk
      cases hget
      obtain rfl : source = .deadline := by
        by_contra hne
        rw [sleepKey, SourceName.key_eq] at hpre
        exact not_prefix_of_apart (SourceName.family_apart hne) _ hpre
      exact ⟨sleepTimer 7, Component.numbered 7, rfl, rfl, by decide⟩
    · exact h source k v hget hpre
  · exact h

def twoSleeps : State TimerBytes where
  store := sleepTimers 2 two_sleeps_safe

theorem twoSleeps_stored : TimersStored sleepScheduler.codec twoSleeps.store :=
  sleepTimers_stored two_sleeps_safe

theorem tick_sound_armed_again :
    TickSound sleepScheduler armsAgain 5 twoSleeps ∧
    ((tick sleepScheduler armsAgain 5 twoSleeps).store.entries.map Prod.fst) =
      [sleepKey 1, sleepKey 7] :=
  ⟨(tick_sound_iff_batch_fits sleepScheduler armsAgain_keepsTimers 5 twoSleeps_stored).2
    (by decide +kernel), by decide +kernel⟩

end Weft.Scheduler
