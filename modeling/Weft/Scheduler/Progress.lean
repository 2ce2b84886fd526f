import Weft.Scheduler.Cleanup

/-! Ticks one after another. The timers that a tick reads and that stay in the store are deferred,
and then the limit of the next tick is raised for them, or their callbacks failed; as long as few
of them fail, every tick reads past the end of the one before. -/

namespace Weft.Scheduler
open Weft.Js Weft.Storage Weft.Lib

universe v

variable {V : Type v}

structure TickCall (V : Type v) where
  now : Nat
  callback : Callback V

def tickMachine (scheduler : SchedulerOptions V) : Machine (State V) (TickCall V) where
  step := fun s call => some (tick scheduler call.callback call.now s)

section

variable (scheduler : SchedulerOptions V) (name : SourceName) (target : ScannedTimerEntry)

/-- The timers of the source that stand before the target. -/
def timersAhead (store : Store V) : List ScannedTimerEntry :=
  store.entries.filterMap fun row =>
    if name.family <+: row.1 ∧ row.1 < target.key then
      (readTimerEntry scheduler.codec name row.1 row.2).map (ScannedTimerEntry.mk row.1)
    else none

/-- The target is in the store, as a timer of the source. -/
def Waits (store : Store V) : Prop :=
  name.family <+: target.key ∧ ∃ v, store.get target.key = some v ∧
    readTimerEntry scheduler.codec name target.key v = some target.entry

def Offers (s : State V) (call : TickCall V) : Prop :=
  ∃ p ∈ firedBy scheduler call.callback call.now s, p.timer.key = target.key

/-- A tick at which the target is due and may fire, whose callbacks put nothing ahead of it and
fail for fewer timers ahead of it than a source may yield. -/
structure Unhindered (s : State V) (call : TickCall V) : Prop where
  running : s.stopped = false
  goesOn : ∀ timer, call.callback.stops timer = false
  due : target.entry.fireAt ≤ call.now
  safe : call.now ≤ maxSafeInteger
  keepsTimers : call.callback.KeepsTimers scheduler.codec
  nothingAhead : ∀ timer store k v, name.family <+: k → k ≤ target.key →
    (call.callback.effect timer store).get k = some v → store.get k = some v
  kept : ∀ timer store, timer.key ≠ target.key → (store.get target.key).isSome →
    ((call.callback.effect timer store).get target.key).isSome
  notReleased : ∀ t ∈ timersAhead scheduler name target s.store, ∀ timer,
    t.entry.id ∉ call.callback.released timer
  ready : isDeferred s.deferredTimers target.entry.id call.now = false
  notDeferred : ∀ timer, timer.entry.id = target.entry.id → timer.key ≠ target.key →
    call.callback.outcome timer ≠ .deferred
  fits : keysToDelete scheduler call.callback call.now s ≤ MAX_BATCH_OPERATIONS
  fewFail : ((timersAhead scheduler name target s.store).filter fun t =>
    call.callback.outcome t = .failed).length < EXPIRED_TIMER_SCAN_LIMIT_PER_SOURCE

end

variable {scheduler : SchedulerOptions V} {name : SourceName} {target : ScannedTimerEntry}

/-! ## The timers ahead -/

variable {store : Store V}

theorem mem_timersAhead {t : ScannedTimerEntry} :
    t ∈ timersAhead scheduler name target store ↔ ∃ v, store.get t.key = some v ∧
      name.family <+: t.key ∧ t.key < target.key ∧
      readTimerEntry scheduler.codec name t.key v = some t.entry := by
  unfold timersAhead
  rw [List.mem_filterMap]
  constructor
  · rintro ⟨⟨k, v⟩, hmem, heq⟩
    split_ifs at heq with hk
    obtain ⟨entry, hread, rfl⟩ := Option.map_eq_some_iff.1 heq
    exact ⟨v, (OrderedStore.get_eq_some_iff _ _ _).2 hmem, hk.1, hk.2, hread⟩
  · rintro ⟨v, hget, hpre, hlt, hread⟩
    refine ⟨(t.key, v), (OrderedStore.get_eq_some_iff _ _ _).1 hget, ?_⟩
    rw [if_pos ⟨hpre, hlt⟩, hread]
    rfl

theorem eq_of_key_timersAhead {t t' : ScannedTimerEntry}
    (h : t ∈ timersAhead scheduler name target store)
    (h' : t' ∈ timersAhead scheduler name target store) (hkey : t.key = t'.key) : t = t' := by
  obtain ⟨v, hget, -, -, hread⟩ := mem_timersAhead.1 h
  obtain ⟨v', hget', -, -, hread'⟩ := mem_timersAhead.1 h'
  obtain ⟨key, entry⟩ := t
  obtain ⟨key', entry'⟩ := t'
  obtain rfl : key = key' := hkey
  cases hget.symm.trans hget'
  cases hread.symm.trans hread'
  rfl

theorem nodup_timersAhead (scheduler : SchedulerOptions V) (name : SourceName)
    (target : ScannedTimerEntry)
    (store : Store V) : (timersAhead scheduler name target store).Nodup := by
  unfold timersAhead
  rw [List.Nodup, List.pairwise_filterMap]
  refine store.sorted.imp fun {a b} hlt t ht t' ht' heq => ?_
  have hkey : ∀ {row : JsString × V} {t : ScannedTimerEntry},
      (if name.family <+: row.1 ∧ row.1 < target.key then
        (readTimerEntry scheduler.codec name row.1 row.2).map (ScannedTimerEntry.mk row.1)
      else none) = some t → t.key = row.1 := by
    intro row t h
    split_ifs at h
    obtain ⟨entry, -, rfl⟩ := Option.map_eq_some_iff.1 h
    rfl
  rw [← hkey ht, ← hkey ht', heq] at hlt
  exact hlt.false

/-- A timer that is in the map of deferrals. -/
def held (deferred : Deferrals) (t : ScannedTimerEntry) : Bool := (deferred.get t.entry.id).isSome

/-- Where the timers have ids of their own, the map has one place for each that is in it. -/
theorem length_held_le (deferred : Deferrals) {timers : List ScannedTimerEntry}
    (hnodup : timers.Nodup)
    (hids : ∀ t ∈ timers, ∀ t' ∈ timers, t.entry.id = t'.entry.id → t = t') :
    (timers.filter (held deferred)).length ≤ deferred.entries.length := by
  have hdistinct : ((timers.filter (held deferred)).map fun t => t.entry.id).Nodup := by
    refine List.Nodup.map_on (fun t ht t' ht' heq => ?_) (hnodup.filter _)
    exact hids t (List.mem_of_mem_filter ht) t' (List.mem_of_mem_filter ht') heq
  have hsub : ((timers.filter (held deferred)).map fun t => t.entry.id) ⊆
      deferred.entries.map Prod.fst := by
    intro id hid
    obtain ⟨t, ht, rfl⟩ := List.mem_map.1 hid
    obtain ⟨deferral, hget⟩ := Option.isSome_iff_exists.1 (List.mem_filter.1 ht).2
    exact List.mem_map.2 ⟨_, (OrderedStore.get_eq_some_iff _ _ _).1 hget, rfl⟩
  have hle := (List.subperm_of_subset hdistinct hsub).length_le
  rwa [List.length_map, List.length_map] at hle

/-! ## Deferrals -/

theorem timerDeferralBackoffMs_pos (pollIntervalMs attempts : Nat) :
    0 < timerDeferralBackoffMs pollIntervalMs attempts := by
  unfold timerDeferralBackoffMs
  refine lt_min (Nat.mul_pos ?_ (Nat.pow_pos (by decide))) (by decide)
  omega

section

variable {callback : Callback V} {now : Nat} {deferred : Deferrals} {timer : ScannedTimerEntry}

theorem isDeferred_deferralsAfter_self (h : callback.outcome timer = .deferred) :
    isDeferred (deferralsAfter scheduler callback now deferred timer) timer.entry.id now =
      true := by
  simp only [deferralsAfter, h, deferTimer, isDeferred, OrderedStore.get_put, if_true,
    Option.any_some, decide_eq_true_eq]
  exact Nat.lt_add_of_pos_right (timerDeferralBackoffMs_pos _ _)

theorem isDeferred_deferralsAfter_of_ne {id : JsString} (hne : id ≠ timer.entry.id)
    (hreleased : id ∉ callback.released timer) :
    isDeferred (deferralsAfter scheduler callback now deferred timer) id now =
      isDeferred deferred id now := by
  unfold deferralsAfter isDeferred
  cases callback.outcome timer <;>
    simp [deferTimer, releaseDeferredTimers, hne, hreleased]

/-- Nothing becomes deferred but the timer whose callback says so. -/
theorem isDeferred_of_deferralsAfter {id : JsString}
    (hother : callback.outcome timer = .deferred → timer.entry.id ≠ id)
    (h : isDeferred deferred id now = false) :
    isDeferred (deferralsAfter scheduler callback now deferred timer) id now = false := by
  have hreleased : isDeferred (releaseDeferredTimers deferred (callback.released timer)) id now =
      false := by
    simp only [isDeferred, releaseDeferredTimers, OrderedStore.get_filter] at h ⊢
    split_ifs
    · exact h
    · rfl
  unfold deferralsAfter
  cases houtcome : callback.outcome timer with
  | failed => exact hreleased
  | succeeded =>
    simp only [isDeferred, OrderedStore.get_delete]
    split_ifs
    · rfl
    · exact hreleased
  | deferred =>
    simp only [isDeferred, deferTimer, OrderedStore.get_put, if_neg (hother houtcome).symm]
    exact hreleased

end

/-! ## One tick -/

/-- What the tick can read: timers, and up to the target only what was there when it began. -/
def OldRow (scheduler : SchedulerOptions V) (name : SourceName) (target : ScannedTimerEntry)
    (store : Store V) (source : SourceName) (row : JsString × V) : Prop :=
  TimerAt scheduler.codec source row ∧
    (source = name → row.1 ≤ target.key → store.get row.1 = some row.2)

theorem ofTimers_oldRow (scheduler : SchedulerOptions V) (name : SourceName)
    (target : ScannedTimerEntry) (store : Store V) :
    OfTimers scheduler.codec (OldRow scheduler name target store) :=
  fun _ _ h => h.1

theorem oldRow_stored (h : TimersStored scheduler.codec store) :
    RowsStored (OldRow scheduler name target store) store :=
  fun source k v hget hpre => ⟨h source k v hget hpre, fun _ _ => hget⟩

section

variable {s : State V} {call : TickCall V}

theorem Unhindered.keepsOldRows (h : Unhindered scheduler name target s call) (store : Store V) :
    call.callback.KeepsRows (OldRow scheduler name target store) := by
  intro timer store' hstored source k v hget hpre
  refine ⟨?_, fun hname hle => ?_⟩
  · exact h.keepsTimers timer store' (fun source k v hget hpre => (hstored source k v hget hpre).1)
      source k v hget hpre
  · subst hname
    exact (hstored source k v (h.nothingAhead timer store' k v hpre hle hget) hpre).2 rfl hle

/-- What the loop of such a tick keeps. -/
structure Hears (scheduler : SchedulerOptions V) (name : SourceName) (target : ScannedTimerEntry)
    (s : State V) (call : TickCall V) (r : Tick V) : Prop where
  merged : Merged scheduler (OldRow scheduler name target s.store) call.now r
  running : r.stopped = false
  outcomes : ∀ p ∈ r.processed, p.outcome = none ∨ p.outcome = some (call.callback.outcome p.timer)
  deferred : ∀ p ∈ r.processed, p.outcome = none ∨ p.outcome = some .deferred →
    (∀ timer, p.timer.entry.id ∉ call.callback.released timer) →
      isDeferred r.deferredTimers p.timer.entry.id call.now = true
  offered : (∃ p ∈ r.processed, p.timer.key = target.key ∧ p.outcome.isSome) ∨
    (∀ p ∈ r.processed, p.timer.key ≠ target.key) ∧
      isDeferred r.deferredTimers target.entry.id call.now = false ∧
      (r.store.get target.key).isSome

variable {timer : ScannedTimerEntry}

theorem ReadTimer.entry_eq {store : Store V} {now : Nat} {source : SourceName}
    (h : ReadTimer scheduler.codec (OldRow scheduler name target store) source now timer)
    (hwaits : Waits scheduler name target store) (hkey : timer.key = target.key) :
    source = name ∧ timer = target := by
  obtain ⟨v, ⟨⟨⟨entry, component, hread', hrow, -⟩, hold⟩, -⟩, hread⟩ := h
  obtain ⟨hpre, v', hget, htarget⟩ := hwaits
  obtain rfl : source = name := by
    by_contra hne
    rw [← hkey, show timer.key = _ from hrow, SourceName.key_eq] at hpre
    exact not_prefix_of_apart (SourceName.family_apart (Ne.symm hne)) _ hpre
  refine ⟨rfl, ?_⟩
  have hget' := hold rfl hkey.le
  obtain ⟨key, entry⟩ := timer
  obtain ⟨key', entry'⟩ := target
  obtain rfl : key = key' := hkey
  cases hget.symm.trans hget'
  cases htarget.symm.trans hread
  rfl

theorem Hears.take (hcall : Unhindered scheduler name target s call)
    (hwaits : Waits scheduler name target s.store) {r : Tick V}
    (h : Hears scheduler name target s call r) {i : Nat}
    (hselect : selectNextTimerSource scheduler.localeCompare r.sources = some (i, timer))
    {source : TimerSource V} (hi : r.sources[i]? = some source) :
    Hears scheduler name target s call
      (takeTimer scheduler call.callback call.now r i source timer) := by
  have hkeeps := hcall.keepsOldRows s.store
  obtain ⟨hnext, htake⟩ := h.merged.take hkeeps hselect hi
  obtain ⟨hread, -⟩ := h.merged.heads source (List.mem_of_getElem? hi) timer hnext
  obtain ⟨_, source', -, -, -, heq, -⟩ := h.merged.takeTimer_cases hkeeps hi hnext
  obtain ⟨p, -, htimer, hprocessed, -, hstore, -, hcases⟩ :=
    processSelectedTimer_cases scheduler call.callback call.now r source.name timer
  refine ⟨htake, ?_, ?_, ?_, ?_⟩
  · rw [heq]
    obtain ⟨-, -, -, -, hstopped⟩ | ⟨-, -, -, -, hstopped⟩ := hcases
    · exact hstopped.trans h.running
    · exact hstopped.trans (by rw [h.running, hcall.goesOn]; rfl)
  · rw [heq]
    intro q hq
    replace hq : q ∈ r.processed ++ [p] := hprocessed ▸ hq
    rcases List.mem_append.1 hq with hq | hq
    · exact h.outcomes q hq
    · rw [List.mem_singleton.1 hq, htimer]
      obtain ⟨-, houtcome, -⟩ | ⟨-, houtcome, -⟩ := hcases
      · exact .inl houtcome
      · exact .inr houtcome
  · rw [heq]
    intro q hq hout hreleased
    replace hq : q ∈ r.processed ++ [p] := hprocessed ▸ hq
    show isDeferred (processSelectedTimer scheduler call.callback call.now r source.name
      timer).deferredTimers q.timer.entry.id call.now = true
    rcases List.mem_append.1 hq with hq | hq
    · have hbefore := h.deferred q hq hout hreleased
      obtain ⟨-, -, -, hdeferrals, -⟩ | ⟨hready, -, -, hdeferrals, -⟩ := hcases
      · rw [hdeferrals]
        exact hbefore
      · have hne : q.timer.entry.id ≠ timer.entry.id := by
          intro hid
          rw [hid, hready] at hbefore
          cases hbefore
        rw [hdeferrals, isDeferred_deferralsAfter_of_ne hne (hreleased timer)]
        exact hbefore
    · rw [List.mem_singleton.1 hq] at hout ⊢
      rw [htimer]
      obtain ⟨hdeferred, -, -, hdeferrals, -⟩ | ⟨-, houtcome, -, hdeferrals, -⟩ := hcases
      · rw [hdeferrals]
        exact hdeferred
      · rw [hdeferrals]
        rw [houtcome] at hout
        exact isDeferred_deferralsAfter_self (Option.some.inj (hout.resolve_left (by simp)))
  · rw [heq]
    show (∃ q ∈ (processSelectedTimer scheduler call.callback call.now r source.name
        timer).processed, _) ∨ (∀ q ∈ (processSelectedTimer scheduler call.callback call.now r
        source.name timer).processed, _) ∧ isDeferred (processSelectedTimer scheduler call.callback
        call.now r source.name timer).deferredTimers _ _ = false ∧ ((processSelectedTimer scheduler
        call.callback call.now r source.name timer).store.get target.key).isSome
    rw [hprocessed, hstore]
    obtain ⟨q, hq, hoffered⟩ | ⟨hnone, hready, hpresent⟩ := h.offered
    · exact .inl ⟨q, List.mem_append_left _ hq, hoffered⟩
    · by_cases hkey : timer.key = target.key
      · left
        refine ⟨p, by simp, htimer ▸ hkey, ?_⟩
        obtain ⟨-, htarget⟩ := hread.entry_eq hwaits hkey
        obtain ⟨hdeferred, -⟩ | ⟨-, houtcome, -⟩ := hcases
        · rw [htarget, hready] at hdeferred
          cases hdeferred
        · rw [houtcome]
          rfl
      · right
        refine ⟨fun q hq => ?_, ?_⟩
        · rcases List.mem_append.1 hq with hq | hq
          · exact hnone q hq
          · rw [List.mem_singleton.1 hq, htimer]
            exact hkey
        · obtain ⟨-, -, hpstore, hdeferrals, -⟩ | ⟨-, -, hpstore, hdeferrals, -⟩ := hcases
          · rw [hdeferrals, hpstore]
            exact ⟨hready, hpresent⟩
          · rw [hdeferrals, hpstore]
            refine ⟨isDeferred_of_deferralsAfter (fun hout hid => ?_) hready,
              hcall.kept timer r.store hkey hpresent⟩
            exact hcall.notDeferred timer hid hkey hout

theorem runTick_hears (hcall : Unhindered scheduler name target s call)
    (hstored : TimersStored scheduler.codec s.store)
    (hwaits : Waits scheduler name target s.store) :
    Hears scheduler name target s call (runTick scheduler call.callback call.now s) := by
  refine processTimers_induction
    (fun _ _ _ _ hr _ hselect hi => Hears.take hcall hwaits hr hselect hi) _ ?_
  have hrows := ofTimers_oldRow scheduler name target s.store
  have hmerged : Merged scheduler (OldRow scheduler name target s.store) call.now
      (startTick scheduler call.now s) := Merged.start hrows (oldRow_stored hstored)
  obtain ⟨sources, heq, -⟩ := startTick_cases call.now hrows (oldRow_stored hstored)
  rw [heq] at hmerged ⊢
  obtain ⟨-, v, hget, -⟩ := hwaits
  exact ⟨hmerged, hcall.running, by simp, by simp,
    .inr ⟨by simp, hcall.ready, Option.isSome_iff_exists.2 ⟨v, hget⟩⟩⟩

end

/-! ## How far the ticks have come -/

/-- The timer stands at the key or before it. -/
def upTo (bound : Option JsString) (t : ScannedTimerEntry) : Bool := bound.any fun k => t.key ≤ k

/-- The ticks have come to `bound`: of what is left before it, little is not deferred, and no more
than `n` timers stand between it and the target. -/
structure Reached (scheduler : SchedulerOptions V) (name : SourceName) (target : ScannedTimerEntry)
    (n : Nat) (s : State V) : Prop where
  stored : TimersStored scheduler.codec s.store
  waits : Waits scheduler name target s.store
  ids : ∀ t ∈ timersAhead scheduler name target s.store,
    ∀ t' ∈ timersAhead scheduler name target s.store, t.entry.id = t'.entry.id → t = t'
  bound : ∃ bound, ((timersAhead scheduler name target s.store).filter fun t =>
      upTo bound t && !held s.deferredTimers t).length < EXPIRED_TIMER_SCAN_LIMIT_PER_SOURCE ∧
    ((timersAhead scheduler name target s.store).filter fun t => !upTo bound t).length ≤ n

section

variable {s : State V} {call : TickCall V}

/-- What the tick takes from the source of the target. -/
def takenTimers (scheduler : SchedulerOptions V) (name : SourceName) (s : State V)
    (call : TickCall V) : List ScannedTimerEntry :=
  (takenFrom name (runTick scheduler call.callback call.now s).processed).map Processed.timer

variable {t : ScannedTimerEntry}

theorem mem_takenTimers : t ∈ takenTimers scheduler name s call ↔
    ∃ p ∈ (runTick scheduler call.callback call.now s).processed, p.source = name ∧
      p.timer = t := by
  unfold takenTimers takenFrom
  simp only [List.mem_map, List.mem_filter, decide_eq_true_eq, and_assoc]

theorem Hears.nodup_takenTimers
    (h : Hears scheduler name target s call (runTick scheduler call.callback call.now s)) :
    (takenTimers scheduler name s call).Nodup := by
  unfold takenTimers takenFrom
  rw [List.Nodup, List.pairwise_map]
  exact (h.merged.ordered.imp fun {p q} hpq heq => hpq.2 (by rw [heq])).filter _

/-- What is taken from before the target stood there when the tick began. -/
theorem Hears.mem_timersAhead
    (h : Hears scheduler name target s call (runTick scheduler call.callback call.now s))
    (ht : t ∈ takenTimers scheduler name s call) (hlt : t.key < target.key) :
    t ∈ timersAhead scheduler name target s.store := by
  obtain ⟨p, hp, hsource, rfl⟩ := mem_takenTimers.1 ht
  obtain ⟨v, ⟨⟨⟨entry, component, -, hkey, -⟩, hold⟩, -⟩, hread⟩ := h.merged.taken p hp
  rw [hsource] at hkey hold hread
  refine Weft.Scheduler.mem_timersAhead.2 ⟨v, hold rfl hlt.le, ?_, hlt, hread⟩
  rw [show p.timer.key = _ from hkey]
  exact name.family_prefixed _ _

section

variable (hcall : Unhindered scheduler name target s call)
  (hstored : TimersStored scheduler.codec s.store)
  (hwaits : Waits scheduler name target s.store)
include hcall hstored hwaits

/-- What the tick leaves in the store up to the target was there before. -/
theorem get_tick_old {k : JsString} {v : V} (hpre : name.family <+: k) (hle : k ≤ target.key)
    (hget : (tick scheduler call.callback call.now s).store.get k = some v) :
    (runTick scheduler call.callback call.now s).store.get k = some v ∧ s.store.get k = some v := by
  have hears := runTick_hears hcall hstored hwaits
  have htimers := runTick_merged (ofTimers_timerAt _) hstored hcall.keepsTimers call.now
  rw [get_tick_store htimers] at hget
  split_ifs at hget
  rw [storeAfterCallbacks, if_neg (by simp [hcall.running])] at hget
  exact ⟨hget, (hears.merged.stored name k v hget hpre).2 rfl hle⟩

variable {t : ScannedTimerEntry}

theorem tick_timersAhead
    (ht : t ∈ timersAhead scheduler name target (tick scheduler call.callback call.now s).store) :
    t ∈ timersAhead scheduler name target s.store ∧
      ((runTick scheduler call.callback call.now s).store.get t.key).isSome := by
  obtain ⟨v, hget, hpre, hlt, hread⟩ := mem_timersAhead.1 ht
  obtain ⟨hrun, hold⟩ := get_tick_old hcall hstored hwaits hpre hlt.le hget
  exact ⟨mem_timersAhead.2 ⟨v, hold, hpre, hlt, hread⟩, Option.isSome_iff_exists.2 ⟨v, hrun⟩⟩

theorem covers_of_present {k : JsString} (hpre : name.family <+: k) (hle : k ≤ target.key)
    (hpresent : ((runTick scheduler call.callback call.now s).store.get k).isSome) :
    (∃ t ∈ takenTimers scheduler name s call, t.key = k) ∨
      (∀ t ∈ takenTimers scheduler name s call, t.key < k) ∧
      (takenTimers scheduler name s call).length = scanLimit s := by
  have hears := runTick_hears hcall hstored hwaits
  have hmatch : matchesScanOptions target.key (dueOptions name call.now) = true := by
    obtain ⟨hpre, v, hget, hread⟩ := hwaits
    obtain ⟨entry, component, hread', hkey, -⟩ := hstored name _ _ hget hpre
    cases hread'.symm.trans hread
    rw [show target.key = _ from hkey]
    exact SourceName.matches_of_due component (sixteen_digits_of_safe hcall.safe) hcall.due
  have hmatch' : matchesScanOptions k (dueOptions name call.now) = true := by
    rw [matches_dueOptions] at hmatch ⊢
    exact lt_of_le_of_lt hle hmatch
  obtain ⟨p, hp, hsource, hkey⟩ | ⟨hbefore, hused⟩ := runTick_covers
    (ofTimers_oldRow scheduler name target s.store) (oldRow_stored hstored)
    (hcall.keepsOldRows s.store) hpre hmatch' (fun timer store hsome => by
      obtain ⟨v, hget⟩ := Option.isSome_iff_exists.1 hsome
      exact Option.isSome_iff_exists.2 ⟨v, hcall.nothingAhead timer store k v hpre hle hget⟩)
    hpresent hears.running
  · exact .inl ⟨p.timer, mem_takenTimers.2 ⟨p, hp, hsource, rfl⟩, hkey⟩
  · refine .inr ⟨fun t ht => ?_, by rw [takenTimers, List.length_map, hused]⟩
    obtain ⟨p, hp, hsource, rfl⟩ := mem_takenTimers.1 ht
    exact hbefore p hp hsource

/-- What was taken and is still there is deferred, or its callback failed. -/
theorem held_or_failed
    (ht : t ∈ timersAhead scheduler name target (tick scheduler call.callback call.now s).store)
    (htaken : t ∈ takenTimers scheduler name s call) :
    held (tick scheduler call.callback call.now s).deferredTimers t = true ∨
      call.callback.outcome t = .failed := by
  have hears := runTick_hears hcall hstored hwaits
  obtain ⟨hold, -⟩ := tick_timersAhead hcall hstored hwaits ht
  obtain ⟨p, hp, -, rfl⟩ := mem_takenTimers.1 htaken
  have hheld : p.outcome = none ∨ p.outcome = some .deferred →
      held (tick scheduler call.callback call.now s).deferredTimers p.timer = true := by
    intro hout
    have hdeferred := hears.deferred p hp hout (hcall.notReleased p.timer hold)
    obtain ⟨deferral, hget, hlater⟩ := (Option.any_eq_true _ _).1 hdeferred
    have hnot : ¬ deferral.retryAt ≤ call.now := by simpa using hlater
    simp only [held, tick, hcall.running, finishTick, hears.running, pruneDeferrals,
      Bool.false_eq_true, if_false, OrderedStore.get_filter, hget]
    simp [hnot]
  obtain hout | hout := hears.outcomes p hp
  · exact .inl (hheld (.inl hout))
  · cases houtcome : call.callback.outcome p.timer with
    | failed => exact .inr rfl
    | deferred => exact .inl (hheld (.inr (hout.trans (by rw [houtcome]))))
    | succeeded =>
      obtain ⟨v, hget, -⟩ := mem_timersAhead.1 ht
      have htimers := runTick_merged (ofTimers_timerAt _) hstored hcall.keepsTimers call.now
      have hfired : p ∈ firedBy scheduler call.callback call.now s := by
        rw [firedBy, if_neg (by simp [hcall.running]), List.mem_filter]
        exact ⟨hp, by rw [hout]; rfl⟩
      have hdeleted : p.timer.key ∈ deletedBy scheduler call.callback call.now s := by
        rw [deletedBy_eq htimers hcall.fits]
        exact List.mem_map.2 ⟨_, List.mem_flatMap.2 ⟨p, hfired,
          key_mem_cleanupOf (hout.trans (by rw [houtcome]))⟩, rfl⟩
      rw [get_tick_store htimers, if_pos hdeleted] at hget
      cases hget

theorem offers_or_all_before : Offers scheduler target s call ∨
    (∀ t ∈ takenTimers scheduler name s call, t.key < target.key) ∧
      (takenTimers scheduler name s call).length = scanLimit s ∧
      Waits scheduler name target (tick scheduler call.callback call.now s).store := by
  have hears := runTick_hears hcall hstored hwaits
  obtain ⟨p, hp, hkey, hsome⟩ | ⟨hnone, -, hpresent⟩ := hears.offered
  · refine .inl ⟨p, ?_, hkey⟩
    rw [firedBy, if_neg (by simp [hcall.running])]
    exact List.mem_filter.2 ⟨hp, hsome⟩
  · right
    obtain ⟨t, ht, hkey⟩ | ⟨hbefore, hlength⟩ :=
      covers_of_present hcall hstored hwaits hwaits.1 le_rfl hpresent
    · obtain ⟨p, hp, -, rfl⟩ := mem_takenTimers.1 ht
      exact (hnone p hp hkey).elim
    · refine ⟨hbefore, hlength, hwaits.1, ?_⟩
      obtain ⟨hpre, v, hget, hread⟩ := hwaits
      refine ⟨v, ?_, hread⟩
      have htimers := runTick_merged (ofTimers_timerAt _) hstored hcall.keepsTimers call.now
      have hkept : target.key ∉ deletedBy scheduler call.callback call.now s := by
        rw [deletedBy_eq htimers hcall.fits]
        intro hmem
        obtain ⟨op, hop, hkey⟩ := List.mem_map.1 hmem
        obtain ⟨p, hp, hop⟩ := List.mem_flatMap.1 hop
        obtain ⟨-, -, hcase | hcase⟩ := key_of_mem_cleanupOf hop
        · exact hnone p (mem_firedBy hp).1 (hcase.symm.trans hkey)
        · exact indexKey_not_prefixed name p.timer.entry.id ((hkey.symm.trans hcase) ▸ hpre)
      rw [get_tick_store htimers, if_neg hkept, storeAfterCallbacks,
        if_neg (by simp [hcall.running])]
      obtain ⟨v', hget'⟩ := Option.isSome_iff_exists.1 hpresent
      have hold := (hears.merged.stored name target.key v' hget' hpre).2 rfl le_rfl
      rw [hget', ← hold, hget]

end

theorem tick_timersStored (hcall : Unhindered scheduler name target s call)
    (hstored : TimersStored scheduler.codec s.store) :
    TimersStored scheduler.codec (tick scheduler call.callback call.now s).store := by
  have htimers := runTick_merged (ofTimers_timerAt _) hstored hcall.keepsTimers call.now
  intro source k v hget hpre
  rw [get_tick_store htimers] at hget
  split_ifs at hget
  rw [storeAfterCallbacks, if_neg (by simp [hcall.running])] at hget
  exact htimers.stored source k v hget hpre

/-- More timers are taken than are left up to where the ticks have come. -/
theorem exists_taken_beyond (hids : ∀ t ∈ timersAhead scheduler name target s.store,
      ∀ t' ∈ timersAhead scheduler name target s.store, t.entry.id = t'.entry.id → t = t')
    {bound : Option JsString} (hfew : ((timersAhead scheduler name target s.store).filter fun t =>
      upTo bound t && !held s.deferredTimers t).length < EXPIRED_TIMER_SCAN_LIMIT_PER_SOURCE)
    {taken : List ScannedTimerEntry} (hnodup : taken.Nodup)
    (hsub : taken ⊆ timersAhead scheduler name target s.store)
    (hlength : taken.length = scanLimit s) : ∃ t ∈ taken, upTo bound t = false := by
  by_contra hnone
  push Not at hnone
  have hupTo : taken ⊆ (timersAhead scheduler name target s.store).filter (upTo bound) := by
    intro t ht
    exact List.mem_filter.2 ⟨hsub ht, by simpa using hnone t ht⟩
  have hle := (List.subperm_of_subset hnodup hupTo).length_le
  have hsplit := List.length_eq_length_filter_add
    (l := (timersAhead scheduler name target s.store).filter (upTo bound)) (held s.deferredTimers)
  have hheld := length_held_le s.deferredTimers
    ((nodup_timersAhead scheduler name target s.store).filter (upTo bound))
    fun t ht t' ht' => hids t (List.mem_of_mem_filter ht) t' (List.mem_of_mem_filter ht')
  rw [List.filter_filter (p := fun t => !held s.deferredTimers t)] at hsplit
  simp only [Bool.and_comm (!held s.deferredTimers _)] at hsplit
  rw [hlength, scanLimit] at hle
  omega

/-- A tick offers the target, or the ticks come nearer to it. -/
theorem Reached.tick {n : Nat} (h : Reached scheduler name target n s)
    (hcall : Unhindered scheduler name target s call) : Offers scheduler target s call ∨
      ∃ m < n, Reached scheduler name target m (tick scheduler call.callback call.now s) := by
  obtain ⟨bound, hfew, hleft⟩ := h.bound
  have hears := runTick_hears hcall h.stored h.waits
  obtain hoffers | ⟨hbefore, hlength, hwaits⟩ := offers_or_all_before hcall h.stored h.waits
  · exact .inl hoffers
  right
  have hsub : takenTimers scheduler name s call ⊆ timersAhead scheduler name target s.store :=
    fun t ht => hears.mem_timersAhead ht (hbefore t ht)
  obtain ⟨beyond, hbeyond, hnot⟩ := exists_taken_beyond h.ids hfew hears.nodup_takenTimers hsub
    hlength
  obtain ⟨last, hlast, hmax⟩ := Finset.exists_max_image
    (takenTimers scheduler name s call).toFinset ScannedTimerEntry.key
    ⟨beyond, List.mem_toFinset.2 hbeyond⟩
  rw [List.mem_toFinset] at hlast
  have hmax' : ∀ t ∈ takenTimers scheduler name s call, t.key ≤ last.key :=
    fun t ht => hmax t (List.mem_toFinset.2 ht)
  have hold : ∀ t ∈ timersAhead scheduler name target
      (Weft.Scheduler.tick scheduler call.callback call.now s).store,
      t ∈ timersAhead scheduler name target s.store :=
    fun t ht => (tick_timersAhead hcall h.stored h.waits ht).1
  refine ⟨((timersAhead scheduler name target (Weft.Scheduler.tick scheduler call.callback call.now
    s).store).filter fun t => !upTo (some last.key) t).length, ?_, tick_timersStored hcall h.stored,
    hwaits, fun t ht t' ht' => h.ids t (hold t ht) t' (hold t' ht'), some last.key, ?_, le_rfl⟩
  · -- the timer that lies beyond the old bound is not beyond the new one
    refine lt_of_lt_of_le (Nat.lt_of_succ_le ?_) hleft
    have hmem : beyond ∉ (timersAhead scheduler name target (Weft.Scheduler.tick scheduler
        call.callback call.now s).store).filter fun t => !upTo (some last.key) t := by
      intro hmem
      have hpassed := (List.mem_filter.1 hmem).2
      simp [upTo, hmax' beyond hbeyond] at hpassed
    refine (List.subperm_of_subset
      (List.nodup_cons.2 ⟨hmem, (nodup_timersAhead scheduler name target
      _).filter _⟩) fun t ht => ?_).length_le
    rcases List.mem_cons.1 ht with rfl | ht
    · exact List.mem_filter.2 ⟨hsub hbeyond, by rw [hnot]; rfl⟩
    · obtain ⟨ht, hlater⟩ := List.mem_filter.1 ht
      have hlater : last.key < t.key := by simpa [upTo] using hlater
      refine List.mem_filter.2 ⟨hold t ht, ?_⟩
      cases bound with
      | none => rfl
      | some k =>
        have hk : k < beyond.key := by simpa [upTo] using hnot
        have hlt := (hk.trans_le (hmax' beyond hbeyond)).trans hlater
        simpa [upTo] using hlt
  · -- what was passed in this tick and is not deferred has failed
    refine lt_of_le_of_lt ?_ hcall.fewFail
    refine (List.subperm_of_subset ((nodup_timersAhead scheduler name target _).filter _)
      fun t ht => ?_).length_le
    obtain ⟨ht, hcond⟩ := List.mem_filter.1 ht
    obtain ⟨hpassed, hnotHeld⟩ : t.key ≤ last.key ∧ held (Weft.Scheduler.tick scheduler
        call.callback call.now s).deferredTimers t = false := by simpa [upTo] using hcond
    obtain ⟨hmem, hpresent⟩ := tick_timersAhead hcall h.stored h.waits ht
    obtain ⟨-, -, hpre, hlt, -⟩ := mem_timersAhead.1 hmem
    have htaken : t ∈ takenTimers scheduler name s call := by
      obtain ⟨t', ht', hkey⟩ | ⟨hbefore', -⟩ :=
        covers_of_present hcall h.stored h.waits hpre hlt.le hpresent
      · rwa [eq_of_key_timersAhead hmem (hsub ht') hkey.symm]
      · exact ((hbefore' last hlast).not_ge hpassed).elim
    refine List.mem_filter.2 ⟨hmem, ?_⟩
    obtain hheld | hfailed := held_or_failed hcall h.stored h.waits ht htaken
    · rw [hnotHeld] at hheld
      cases hheld
    · simpa using hfailed

end

/-- As long as few timers ahead of it fail, a timer that is due is offered within as many ticks as
there are timers ahead of it, and one more. -/
theorem offered_within_timers_ahead (scheduler : SchedulerOptions V) (name : SourceName)
    (target : ScannedTimerEntry) {state : State V}
    (hstored : TimersStored scheduler.codec state.store)
    (hwaits : Waits scheduler name target state.store)
    (hids : ∀ t ∈ timersAhead scheduler name target state.store,
      ∀ t' ∈ timersAhead scheduler name target state.store, t.entry.id = t'.entry.id → t = t')
    {calls : List (TickCall V)}
    (hcalls : (tickMachine scheduler).EveryStep (Unhindered scheduler name target) state calls)
    (hlong : (timersAhead scheduler name target state.store).length < calls.length) :
    (tickMachine scheduler).SomeStep (Offers scheduler target) state calls := by
  refine Machine.someStep_of_rank (J := Reached scheduler name target) (fun s call => ⟨_, rfl⟩)
    (fun n s call t hreached hcall hstep => ?_) ⟨hstored, hwaits, hids, none, ?_, ?_⟩ hcalls hlong
  · cases hstep
    exact hreached.tick hcall
  · simp [upTo, EXPIRED_TIMER_SCAN_LIMIT_PER_SOURCE]
  · simp [upTo]

/-! ## Sleeps that keep failing -/

/-- The callbacks of the sleeps before `count` fail, the others return. -/
def headFails (count : Nat) : Callback TimerBytes where
  outcome := fun timer => if timer.entry.fireAt < count then .failed else .succeeded
  effect := fun _ store => store

theorem headFails_quiet (count : Nat) : (headFails count).Quiet where
  effect := fun _ _ => rfl
  released := fun _ => rfl
  goesOn := fun _ => rfl
  outcome := by
    intro timer
    show (if timer.entry.fireAt < count then Outcome.failed else .succeeded) ≠ .deferred
    split_ifs <;> decide

def sleeping (i : Nat) : ScannedTimerEntry := ⟨sleepKey i, sleepTimer i⟩

/-- The sleep is not deferred by such callbacks, and few fail before it. -/
theorem headFails_unhindered {s : State TimerBytes} {count now i : Nat}
    (hrunning : s.stopped = false)
    (hdue : i ≤ now) (hsafe : now ≤ maxSafeInteger)
    (hready : isDeferred s.deferredTimers (sleeping i).entry.id now = false)
    (hfits : keysToDelete sleepScheduler (headFails count) now s ≤ MAX_BATCH_OPERATIONS)
    (hfew : (timersAhead sleepScheduler .deadline (sleeping i) s.store).length <
      EXPIRED_TIMER_SCAN_LIMIT_PER_SOURCE) :
    Unhindered sleepScheduler .deadline (sleeping i) s ⟨now, headFails count⟩ where
  running := hrunning
  goesOn := (headFails_quiet count).goesOn
  due := hdue
  safe := hsafe
  keepsTimers := (headFails_quiet count).keepsTimers _
  nothingAhead := fun _ _ _ _ _ _ hget => hget
  kept := fun _ _ _ hsome => hsome
  notReleased := fun _ _ _ hid => List.not_mem_nil hid
  ready := hready
  notDeferred := fun timer _ _ => (headFails_quiet count).outcome timer
  fits := hfits
  fewFail := (List.length_filter_le _ _).trans_lt hfew

theorem waits_sleepTimers {count i : Nat} (hcount : count ≤ maxSafeInteger) (hi : i < count) :
    Waits sleepScheduler .deadline (sleeping i) (sleepTimers count hcount) :=
  ⟨SourceName.family_prefixed .deadline i (Component.numbered i), _, OrderedStore.get_ofRange _ hi,
    rfl⟩

theorem offered_behind_one_failing :
    (tickMachine sleepScheduler).SomeStep (Offers sleepScheduler (sleeping 1)) twoSleeps
      [⟨5, headFails 1⟩, ⟨6, headFails 1⟩] := by
  have hids : timersAhead sleepScheduler .deadline (sleeping 1) twoSleeps.store = [sleeping 0] := by
    decide
  refine offered_within_timers_ahead sleepScheduler .deadline (sleeping 1) twoSleeps_stored
    (waits_sleepTimers two_sleeps_safe (by decide)) ?_ ⟨?_, ?_, trivial⟩ ?_
  · rw [hids]
    intro t ht t' ht' _
    rw [List.mem_singleton.1 ht, List.mem_singleton.1 ht']
  · exact headFails_unhindered rfl (by decide) (by decide) rfl (by decide)
      (by rw [hids]; decide)
  · exact headFails_unhindered (by decide) (by decide) (by decide) (by decide)
      (by decide +kernel) (by decide +kernel)
  · rw [hids]
    decide

section

variable (count : Nat) (hcount : count + 1 ≤ maxSafeInteger)

def sleepers : State TimerBytes where
  store := sleepTimers (count + 1) hcount

variable {p : Processed TimerBytes}

/-- A tick reads no timers but the sleeps. -/
theorem taken_sleepers {now : Nat}
    (hp : p ∈ (runTick sleepScheduler (headFails count) now (sleepers count hcount)).processed) :
    ∃ i < count + 1, p.timer.key = sleepKey i ∧ p.timer.entry = sleepTimer i := by
  have hstored : TimersStored sleepScheduler.codec (sleepers count hcount).store :=
    sleepTimers_stored hcount
  have hmerged : Merged sleepScheduler (fun source row => TimerAt sleepScheduler.codec source row ∧
        (sleepers count hcount).store.get row.1 = some row.2) now
      (runTick sleepScheduler (headFails count) now (sleepers count hcount)) := runTick_merged
    (fun _ _ hrow => hrow.1) (fun source k v hget hpre => ⟨hstored source k v hget hpre, hget⟩)
    (fun _ _ hrows => hrows) now
  obtain ⟨v, ⟨⟨⟨entry, component, -, hkey, -⟩, hget⟩, -⟩, hread⟩ := hmerged.taken p hp
  replace hget : (sleepTimers (count + 1) hcount).get p.timer.key = some v := hget
  obtain ⟨i, hi, heq⟩ := OrderedStore.exists_of_get_ofRange hget
  obtain ⟨hkey', rfl⟩ := Prod.mk.inj heq
  refine ⟨i, hi, hkey'.symm, ?_⟩
  have hsource : p.source = .deadline :=
    SourceName.eq_of_key (show p.source.key _ _ = SourceName.deadline.key _ _ from
      hkey.symm.trans hkey'.symm)
  rw [hsource] at hread
  exact (Option.some.inj hread).symm

section

variable (hlimit : EXPIRED_TIMER_SCAN_LIMIT_PER_SOURCE ≤ count)

include hlimit

/-- As many sleeps fail as a tick reads: it does not come to the next. -/
theorem not_taken_behind
    (hp : p ∈ (runTick sleepScheduler (headFails count) (count + 1)
      (sleepers count hcount)).processed) :
    p.timer.key ≠ sleepKey count := by
  intro hkey
  have hstored : TimersStored sleepScheduler.codec (sleepers count hcount).store :=
    sleepTimers_stored hcount
  have hrows := ofTimers_timerAt sleepScheduler.codec
  have hcallback := (headFails_quiet count).keepsTimers sleepScheduler.codec
  obtain ⟨hrunning, hstore, -, -⟩ := runTick_quiet sleepScheduler (count + 1)
    (headFails_quiet count) hstored rfl fun id deferral hget => by cases hget
  have hdue := ((runTick_merged hrows hstored hcallback (count + 1)).taken p hp).dueTimer hrows
  have hsource : p.source = .deadline := by
    obtain ⟨component, hpkey, -⟩ := hdue
    exact SourceName.eq_of_key (hpkey.symm.trans hkey)
  have htaken : ∀ i < count + 1, sleepKey i ∈ (takenFrom .deadline (runTick sleepScheduler
      (headFails count) (count + 1) (sleepers count hcount)).processed).map fun p =>
        p.timer.key := by
    intro i hi
    have hget : (sleepTimers (count + 1) hcount).get (sleepKey i) = some (.entry (sleepTimer i)) :=
      OrderedStore.get_ofRange _ hi
    obtain ⟨q, hq, hqsource, hqkey⟩ | ⟨hbefore, -⟩ := runTick_covers hrows hstored hcallback
      (SourceName.family_prefixed .deadline i (Component.numbered i))
      (SourceName.matches_of_due (Component.numbered i) (sixteen_digits_of_safe hcount) hi.le)
      (fun _ _ hsome => hsome) (by rw [hstore]; exact Option.isSome_iff_exists.2 ⟨_, hget⟩) hrunning
    · exact List.mem_map.2 ⟨q, List.mem_filter.2 ⟨hq, by simpa using hqsource⟩, hqkey⟩
    · have hlt : p.timer.key < sleepKey i := hbefore p hp hsource
      rcases (Nat.lt_succ_iff.1 hi).eq_or_lt with rfl | hlt'
      · exact (hlt.ne hkey).elim
      · have hgt := sleepKey_lt ((Nat.le_succ count).trans hcount) hlt'
        exact (lt_asymm hgt (hkey ▸ hlt)).elim
  have hle := le_length_of_sleepKeys hcount htaken
  rw [List.length_map] at hle
  have hlimit' : (takenFrom .deadline (runTick sleepScheduler (headFails count) (count + 1)
      (sleepers count hcount)).processed).length ≤ scanLimit (sleepers count hcount) :=
    length_takenFrom_le hrows hstored hcallback .deadline
  have hscan : scanLimit (sleepers count hcount) = EXPIRED_TIMER_SCAN_LIMIT_PER_SOURCE := rfl
  omega

theorem tick_sleepers : tick sleepScheduler (headFails count) (count + 1) (sleepers count hcount) =
      sleepers count hcount := by
  have hstored : TimersStored sleepScheduler.codec (sleepers count hcount).store :=
    sleepTimers_stored hcount
  have hrows := ofTimers_timerAt sleepScheduler.codec
  have hcallback := (headFails_quiet count).keepsTimers sleepScheduler.codec
  have hmerged := runTick_merged hrows hstored hcallback (count + 1)
  obtain ⟨hrunning, hstore, hdeferrals, hall⟩ := runTick_quiet sleepScheduler
    (count + 1) (headFails_quiet count) hstored rfl fun id deferral hget => by cases hget
  have hcleanup : (runTick sleepScheduler (headFails count) (count + 1)
      (sleepers count hcount)).cleanupOperations = [] := by
    rw [hmerged.cleanup, List.flatMap_eq_nil_iff]
    intro p hp
    obtain ⟨i, hi, hkey, hentry⟩ := taken_sleepers count hcount hp
    have hne : i ≠ count := fun heq => not_taken_behind count hcount hlimit hp (heq ▸ hkey)
    have hfailed : p.outcome = some .failed := by
      rw [hall p hp]
      show some (if p.timer.entry.fireAt < count then Outcome.failed else .succeeded) = _
      rw [hentry, if_pos (show (sleepTimer i).fireAt < count from lt_of_le_of_ne
        (Nat.lt_succ_iff.1 hi) hne)]
    rw [cleanupOf, if_neg (by simp [hfailed])]
  have hempty : (runTick sleepScheduler (headFails count) (count + 1)
      (sleepers count hcount)).deferredTimers = OrderedStore.empty := by
    refine OrderedStore.ext_get fun id => ?_
    rw [OrderedStore.get_empty, Option.eq_none_iff_forall_ne_some]
    intro deferral hget
    cases hdeferrals id deferral hget
  have hstopped : (sleepers count hcount).stopped = false := rfl
  simp only [tick, hstopped, Bool.false_eq_true, if_false, finishTick, deleteProcessedTimerKeys,
    hcleanup, hempty, hstore, hrunning]
  rfl

theorem never_offers_sleepers (n : Nat) :
    ¬ (tickMachine sleepScheduler).SomeStep (Offers sleepScheduler (sleeping count))
      (sleepers count hcount) (List.replicate n ⟨count + 1, headFails count⟩) := by
  induction n with
  | zero => exact id
  | succ n ih =>
    rw [List.replicate_succ]
    rintro (⟨p, hp, hkey⟩ | hrest)
    · exact not_taken_behind count hcount hlimit (mem_firedBy hp).1 hkey
    · refine ih ?_
      rwa [tick_sleepers count hcount hlimit] at hrest

end

end

theorem thousand_sleeps_safe : 1000 + 1 ≤ maxSafeInteger := by decide

/-- Behind a thousand sleeps whose callbacks fail, one that is due is never offered. -/
theorem starved_behind_thousand_failing : Waits sleepScheduler .deadline (sleeping 1000)
      (sleepers 1000 thousand_sleeps_safe).store ∧
    ∀ n, ¬ (tickMachine sleepScheduler).SomeStep (Offers sleepScheduler (sleeping 1000))
      (sleepers 1000 thousand_sleeps_safe) (List.replicate n ⟨1001, headFails 1000⟩) :=
  ⟨waits_sleepTimers thousand_sleeps_safe (Nat.lt_succ_self _),
    never_offers_sleepers 1000 thousand_sleeps_safe (le_refl _)⟩

end Weft.Scheduler
