import Weft.RateLimit.Waiters

/-! The place in the queue of a contender that is denied, sleeps exactly as long as it was told and
then retries: it is kept whenever the entry lasts that long, which depends on the place. -/

namespace Weft.RateLimit
open Weft.Js Weft.Lib

variable (limiter : DurableRateLimiter)

def Step.holderId : Step → JsString
  | .acquire holderId _ => holderId
  | .withdraw holderId _ => holderId

/-- The steps of others that come before the retry. -/
def Meanwhile (holderId : JsString) (retryAt : Int) (others : List Step) : Prop :=
  ∀ step ∈ others, step.holderId ≠ holderId ∧ step.now ≤ retryAt

/-- A contender that retries as it was told does so before its entry runs out, and whatever others
do until then, it is granted or nobody is before it who was not before. -/
structure KeepsPlace (current : Option StoredRecord) (holderId : JsString) (now : Int) : Prop where
  inTime : ∀ entry,
    (reduceRateAcquire limiter current holderId now).1.waiters.find?
        (fun waiter => waiter.holderId = holderId) = some entry →
      now + (reduceRateAcquire limiter current holderId now).2.retryAfterMs < entry.expiresAt
  notOvertaken : ∀ others,
    Meanwhile holderId (now + (reduceRateAcquire limiter current holderId now).2.retryAfterMs)
      others →
    ∀ retried, reduceRateAcquire limiter
        ((rateMachine limiter).final
          ⟨some (reduceRateAcquire limiter current holderId now).1.stored, some now,
            []⟩ others).slot
        holderId (now + (reduceRateAcquire limiter current holderId now).2.retryAfterMs) = retried →
      retried.2.granted = true ∨ List.Sublist (contendersBefore holderId retried.1.waiters)
        (contendersBefore holderId (reduceRateAcquire limiter current holderId now).1.waiters)

/-- The tokens that this contender and those before it still need accrue within the life of an
entry. -/
def AccruesInTime (current : Option StoredRecord) (holderId : JsString) (now : Int) : Prop :=
  ((contendersBefore holderId (liveWaiters limiter current now)).length + 1 -
        (refilledAt limiter current now).tokens) * limiter.refillIntervalMs -
      (now - (refilledAt limiter current now).refillAnchorAt) <
    max minWaiterTtlMs (4 * limiter.refillIntervalMs)

variable {limiter}

/-! ## The entry stays -/

/-- The queue has this entry, and before it only some of these contenders. -/
def HasEntry (entry : RateWaiter) (ahead : List JsString) (slot : Option StoredRecord) : Prop :=
  ∃ record before after, slot = some record ∧ record.waiters = some (before ++ entry :: after) ∧
    List.Sublist (before.map RateWaiter.holderId) ahead

variable {entry : RateWaiter} {ahead : List JsString}

theorem hasEntry_stored {record : RateLimitRecord} {before after : List RateWaiter}
    (hwaiters : record.waiters = before ++ entry :: after)
    (hahead : List.Sublist (before.map RateWaiter.holderId) ahead) :
    HasEntry entry ahead (some record.stored) :=
  ⟨record.stored, before, after, rfl, congrArg some hwaiters, hahead⟩

variable {slot : Option StoredRecord}

variable {now : Int}

variable (limiter) in
/-- An entry that has not run out is among the live ones. -/
theorem HasEntry.live (h : HasEntry entry ahead slot) (hlive : now < entry.expiresAt) :
    ∃ before after, liveWaiters limiter slot now = before ++ entry :: after ∧
      List.Sublist (before.map RateWaiter.holderId) ahead := by
  obtain ⟨record, before, after, rfl, hwaiters, hahead⟩ := h
  refine ⟨dropExpiredWaiters before now, dropExpiredWaiters after now, ?_, ?_⟩
  · rw [liveWaiters, refilledAt, refill_waiters]
    simp only [normalizeRecord, hwaiters, Option.getD_some, dropExpiredWaiters, List.filter_append]
    rw [List.filter_cons_of_pos (by simpa using hlive)]
  · exact (List.filter_sublist.map RateWaiter.holderId).trans hahead

variable {holderId : JsString}

theorem HasEntry.acquire (h : HasEntry entry ahead slot) (hother : holderId ≠ entry.holderId)
    (hlive : now < entry.expiresAt) :
    HasEntry entry ahead (some (reduceRateAcquire limiter slot holderId now).1.stored) := by
  obtain ⟨before, after, hwaiters, hahead⟩ := h.live limiter hlive
  obtain ⟨before', after', hregistered, hsame⟩ :=
    @registerWaiter_around before after entry ⟨holderId, now + limiter.waiterTtlMs⟩ hother.symm
  obtain hall | ⟨rest, hhead, hrest⟩ :=
    reduceRateAcquire_waiters slot holderId now _ (hwaiters ▸ hregistered)
  · exact hasEntry_stored hall (hsame ▸ hahead)
  · -- the head was granted, and it is another contender
    cases before' with
    | nil =>
      injection hhead with hentry
      exact (hother (congrArg RateWaiter.holderId hentry).symm).elim
    | cons first before' =>
      injection hhead with _ htail
      refine hasEntry_stored (hrest.trans htail.symm) (List.Sublist.trans ?_ (hsame ▸ hahead))
      exact List.sublist_cons_self _ _

theorem HasEntry.withdraw (h : HasEntry entry ahead slot) (hother : holderId ≠ entry.holderId)
    (hlive : now < entry.expiresAt) :
    HasEntry entry ahead (some (reduceRateWithdraw slot holderId now).stored) := by
  obtain ⟨record, before, after, rfl, hwaiters, hahead⟩ := h
  have hkeeps : (reduceRateWithdraw (some record) holderId now).waiters =
      (dropExpiredWaiters before now).filter (fun waiter => waiter.holderId ≠ holderId) ++
        entry :: (dropExpiredWaiters after now).filter
          (fun waiter => waiter.holderId ≠ holderId) := by
    simp only [reduceRateWithdraw, normalizeRecord, hwaiters, Option.getD_some, dropExpiredWaiters,
      List.filter_append]
    rw [List.filter_cons_of_pos (by simpa using hlive), List.filter_cons_of_pos]
    simpa using hother.symm
  refine hasEntry_stored hkeeps (List.Sublist.trans ?_ hahead)
  exact (List.filter_sublist.trans List.filter_sublist).map RateWaiter.holderId

variable (limiter) in
/-- What others do while the entry lasts takes nothing from its place. -/
theorem HasEntry.others (s : State) {others : List Step} {retryAt : Int}
    (h : HasEntry entry ahead s.slot) (hlasts : retryAt < entry.expiresAt)
    (hothers : Meanwhile entry.holderId retryAt others) :
    HasEntry entry ahead ((rateMachine limiter).final s others).slot := by
  have hok : (rateMachine limiter).EveryStep
      (fun _ step => step.holderId ≠ entry.holderId ∧ step.now ≤ retryAt) s others :=
    Machine.everyStep_of_forall_mem hothers s
  have hevery : (rateMachine limiter).EveryState (fun t => HasEntry entry ahead t.slot) s
    others := by
    refine Machine.everyState_of_invariant (fun t step t' ht hstep hnext => ?_) h hok
    obtain ⟨hother, hnow⟩ := hstep
    simp only [rateMachine, Option.ite_none_right_eq_some, Option.some.injEq] at hnext
    obtain ⟨-, rfl⟩ := hnext
    cases step with
    | acquire holderId now => exact ht.acquire hother (lt_of_le_of_lt hnow hlasts)
    | withdraw holderId now => exact ht.withdraw hother (lt_of_le_of_lt hnow hlasts)
  exact hevery.final

/-- A contender that finds its entry has no other contenders before it. -/
theorem HasEntry.retried (h : HasEntry entry ahead slot) (hlive : now < entry.expiresAt)
    (hahead : entry.holderId ∉ ahead) :
    (reduceRateAcquire limiter slot entry.holderId now).2.granted = true ∨
      List.Sublist (contendersBefore entry.holderId
        (reduceRateAcquire limiter slot entry.holderId now).1.waiters) ahead := by
  obtain ⟨before, after, hwaiters, hbefore⟩ := h.live limiter hlive
  have hnot : entry.holderId ∉ before.map RateWaiter.holderId := fun hmem =>
    hahead (hbefore.mem hmem)
  have hregistered : registerWaiter (liveWaiters limiter slot now)
      ⟨entry.holderId, now + limiter.waiterTtlMs⟩ =
        before ++ ⟨entry.holderId, now + limiter.waiterTtlMs⟩ :: after := by
    rw [hwaiters]
    exact registerWaiter_at rfl hnot
  have hothers : ∀ waiter ∈ before, waiter.holderId ≠ entry.holderId :=
    fun waiter hmem heq => hnot (heq ▸ List.mem_map_of_mem hmem)
  rw [reduceRateAcquire_of_registered hregistered hothers]
  split_ifs
  · exact .inl rfl
  · have hsame : contendersBefore entry.holderId
        (before ++ ⟨entry.holderId, now + limiter.waiterTtlMs⟩ :: after) =
          before.map RateWaiter.holderId :=
      contendersBefore_append rfl hnot
    exact .inr (hsame ▸ hbefore)

/-! ## A denied contender -/

/-- The queue in which a denied contender waits, and what it is told. -/
theorem reduceRateAcquire_denied {current : Option StoredRecord}
    (hdenied : (reduceRateAcquire limiter current holderId now).2.granted = false) : ∃ before after,
      (reduceRateAcquire limiter current holderId now).1.waiters =
        before ++ ⟨holderId, now + limiter.waiterTtlMs⟩ :: after ∧
      holderId ∉ before.map RateWaiter.holderId ∧
      (reduceRateAcquire limiter current holderId now).2.retryAfterMs = max 1
        (((contendersBefore holderId (liveWaiters limiter current now)).length + 1 -
            (refilledAt limiter current now).tokens) * limiter.refillIntervalMs -
          (now - (refilledAt limiter current now).refillAnchorAt)) := by
  obtain ⟨before, after, hregistered, hbefore, hplace⟩ :=
    registerWaiter_cases (liveWaiters limiter current now) ⟨holderId, now + limiter.waiterTtlMs⟩
  have hnot : holderId ∉ before.map RateWaiter.holderId := by
    intro hmem
    obtain ⟨waiter, hwaiter, heq⟩ := List.mem_map.1 hmem
    exact hbefore waiter hwaiter heq
  have hahead : (contendersBefore holderId (liveWaiters limiter current now)).length =
      before.length := by
    obtain ⟨old, hlive, hold⟩ | ⟨hlive, -⟩ := hplace
    · rw [hlive, contendersBefore_append hold hnot, List.length_map]
    · rw [hlive, contendersBefore, List.takeWhile_eq_self_iff.2, List.length_map]
      exact fun waiter hmem => decide_eq_true (hbefore waiter hmem)
  rw [reduceRateAcquire_of_registered hregistered hbefore] at hdenied ⊢
  rw [hahead]
  split_ifs at hdenied ⊢
  exact ⟨before, after, rfl, hnot, rfl⟩

/-- With the default life of an entry a denied contender keeps its place exactly when the tokens
that it waits for accrue within it. -/
theorem keepsPlace_iff (capacity : Option Int) (refillIntervalMs : Int)
    (hcreate : DurableRateLimiter.create capacity refillIntervalMs none = .ok limiter)
    (current : Option StoredRecord) (holderId : JsString) (now : Int)
    (hdenied : (reduceRateAcquire limiter current holderId now).2.granted = false) :
    KeepsPlace limiter current holderId now ↔ AccruesInTime limiter current holderId now := by
  have httl : limiter.waiterTtlMs = max minWaiterTtlMs (4 * limiter.refillIntervalMs) := by
    simp only [DurableRateLimiter.create, assertPositiveInteger, Option.getD_none] at hcreate
    split_ifs at hcreate
    all_goals cases hcreate
    rfl
  obtain ⟨before, after, hwaiters, hnot, hhint⟩ := reduceRateAcquire_denied hdenied
  have hone : (1 : Int) < limiter.waiterTtlMs := by
    rw [httl, minWaiterTtlMs]
    exact lt_of_lt_of_le (by decide) (le_max_left _ _)
  have hfind : (reduceRateAcquire limiter current holderId now).1.waiters.find?
      (fun waiter => waiter.holderId = holderId) = some ⟨holderId, now + limiter.waiterTtlMs⟩ := by
    have hnone : before.find? (fun waiter => waiter.holderId = holderId) = none := by
      rw [List.find?_eq_none]
      exact fun waiter hmem heq => hnot (of_decide_eq_true heq ▸ List.mem_map_of_mem hmem)
    rw [hwaiters, List.find?_append, hnone, Option.none_or]
    exact List.find?_cons_of_pos (decide_eq_true rfl)
  have hinTime : now + (reduceRateAcquire limiter current holderId now).2.retryAfterMs <
      now + limiter.waiterTtlMs ↔ AccruesInTime limiter current holderId now := by
    rw [AccruesInTime, hhint, ← httl, add_lt_add_iff_left, max_lt_iff]
    exact and_iff_right hone
  constructor
  · exact fun hkeeps => hinTime.1 (hkeeps.inTime _ hfind)
  · intro haccrues
    have hlasts := hinTime.2 haccrues
    refine ⟨fun entry hentry => ?_, fun others hothers retried hretried => ?_⟩
    · rw [hfind] at hentry
      cases hentry
      exact hlasts
    · have hentry := hasEntry_stored hwaiters (List.Sublist.refl _)
      have hstays := HasEntry.others limiter
        ⟨some (reduceRateAcquire limiter current holderId now).1.stored, some now, []⟩
        hentry hlasts hothers
      have hsame : contendersBefore holderId
        (reduceRateAcquire limiter current holderId now).1.waiters =
          before.map RateWaiter.holderId := by
        rw [hwaiters]
        exact contendersBefore_append rfl hnot
      rw [hsame, ← hretried]
      exact hstays.retried hlasts hnot

/-! ## The fifth in the queue -/

theorem one_token_pos : (0 : Int) < 1 := by decide

theorem ten_seconds_pos : (0 : Int) < 10000 := by decide

theorem forty_seconds_pos : (0 : Int) < 40000 := by decide

def tenSeconds : DurableRateLimiter :=
  ⟨1, 10000, 40000, one_token_pos, ten_seconds_pos, forty_seconds_pos⟩

/-- An empty bucket for which so many contenders wait. -/
def waiting (holderIds : List JsString) : StoredRecord :=
  ⟨some 0, some 0, some (holderIds.map (⟨·, 40000⟩))⟩

theorem second_keeps_place : KeepsPlace tenSeconds (some (waiting [js "a"])) (js "b") 0 :=
  (keepsPlace_iff none 10000 rfl (some (waiting [js "a"])) (js "b") 0 (by decide)).2
    (by rw [AccruesInTime]; decide)

/-- The fifth contender is told to come back after 50 seconds, and its entry lasts 40. -/
theorem fifth_loses_place :
    DurableRateLimiter.create none 10000 none = .ok tenSeconds ∧
    (reduceRateAcquire tenSeconds (some (waiting [js "a", js "b", js "c", js "d"]))
      (js "e") 0).2.granted
      = false ∧
    ¬ KeepsPlace tenSeconds (some (waiting [js "a", js "b", js "c", js "d"])) (js "e") 0 := by
  refine ⟨rfl, by decide, fun h => ?_⟩
  have hlate := h.inTime ⟨js "e", 40000⟩ (by decide)
  revert hlate
  decide

end Weft.RateLimit
