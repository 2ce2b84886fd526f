import Weft.RateLimit.Bound

/-! The queue of a rate limiter: where an attempt finds or puts the entry of its contender, and what
an entry that has not run out keeps of its place. -/

namespace Weft.RateLimit
open Weft.Js Weft.Lib

/-! ## Registering -/

theorem registerWaiter_cons (waiter : RateWaiter) (waiters : List RateWaiter) (entry : RateWaiter) :
    registerWaiter (waiter :: waiters) entry =
      if waiter.holderId = entry.holderId then entry :: waiters
      else waiter :: registerWaiter waiters entry := by
  by_cases hholder : waiter.holderId = entry.holderId
  · rw [if_pos hholder, registerWaiter, replaceFirst, if_pos (decide_eq_true hholder)]
    rfl
  · rw [if_neg hholder, registerWaiter, registerWaiter, replaceFirst,
      if_neg (by simpa using hholder)]
    cases replaceFirst (fun waiter => decide (waiter.holderId = entry.holderId)) entry waiters with
    | none => rfl
    | some _ => rfl

/-- The entry replaces the first of its contender, or comes last. -/
theorem registerWaiter_cases (waiters : List RateWaiter) (entry : RateWaiter) :
    ∃ before after, registerWaiter waiters entry = before ++ entry :: after ∧
      (∀ waiter ∈ before, waiter.holderId ≠ entry.holderId) ∧
      ((∃ old, waiters = before ++ old :: after ∧ old.holderId = entry.holderId) ∨
        waiters = before ∧ after = []) := by
  induction waiters with
  | nil => exact ⟨[], [], rfl, fun _ hmem => (nomatch hmem), .inr ⟨rfl, rfl⟩⟩
  | cons waiter waiters ih =>
    rw [registerWaiter_cons]
    split_ifs with hholder
    · exact ⟨[], waiters, rfl, fun _ hmem => (nomatch hmem), .inl ⟨waiter, rfl, hholder⟩⟩
    · obtain ⟨before, after, hregistered, hbefore, hplace⟩ := ih
      refine ⟨waiter :: before, after, by rw [hregistered]; rfl, ?_, ?_⟩
      · intro other hmem
        obtain rfl | hmem := List.mem_cons.1 hmem
        · exact hholder
        · exact hbefore other hmem
      · obtain ⟨old, rfl, hold⟩ | ⟨rfl, rfl⟩ := hplace
        · exact .inl ⟨old, rfl, hold⟩
        · exact .inr ⟨rfl, rfl⟩

variable {before after : List RateWaiter}

/-- The entry of a contender is refreshed where it is. -/
theorem registerWaiter_at {old entry : RateWaiter} (hold : old.holderId = entry.holderId)
    (hbefore : entry.holderId ∉ before.map RateWaiter.holderId) :
    registerWaiter (before ++ old :: after) entry = before ++ entry :: after := by
  induction before with
  | nil => rw [List.nil_append, registerWaiter_cons, if_pos hold, List.nil_append]
  | cons first before ih =>
    rw [List.map_cons, List.mem_cons, not_or] at hbefore
    rw [List.cons_append, registerWaiter_cons, if_neg (Ne.symm hbefore.1), ih hbefore.2,
      List.cons_append]

/-- Registering leaves another entry where it is, and the same contenders before it. -/
theorem registerWaiter_around (before after : List RateWaiter) {waiter entry : RateWaiter}
    (hother : waiter.holderId ≠ entry.holderId) :
    ∃ before' after', registerWaiter (before ++ waiter :: after) entry =
        before' ++ waiter :: after' ∧
      before'.map RateWaiter.holderId = before.map RateWaiter.holderId := by
  induction before with
  | nil =>
    refine ⟨[], registerWaiter after entry, ?_, rfl⟩
    rw [List.nil_append, registerWaiter_cons, if_neg hother]
    rfl
  | cons first before ih =>
    rw [List.cons_append, registerWaiter_cons]
    split_ifs with hholder
    · exact ⟨entry :: before, after, rfl, by rw [List.map_cons, List.map_cons, hholder]⟩
    · obtain ⟨before', after', hregistered, hsame⟩ := ih
      refine ⟨first :: before', after', by rw [hregistered]; rfl, ?_⟩
      rw [List.map_cons, List.map_cons, hsame]

/-- The contenders before this one. -/
def contendersBefore (holderId : JsString) (waiters : List RateWaiter) : List JsString :=
  (waiters.takeWhile fun waiter => waiter.holderId ≠ holderId).map RateWaiter.holderId

variable {holderId : JsString}

theorem contendersBefore_append {entry : RateWaiter} (hentry : entry.holderId = holderId)
    (hbefore : holderId ∉ before.map RateWaiter.holderId) :
    contendersBefore holderId (before ++ entry :: after) = before.map RateWaiter.holderId := by
  have hall : ∀ waiter ∈ before, decide (waiter.holderId ≠ holderId) = true := by
    intro waiter hmem
    refine decide_eq_true fun heq => hbefore ?_
    exact heq ▸ List.mem_map_of_mem hmem
  rw [contendersBefore, List.takeWhile_append_of_pos hall, List.takeWhile_cons_of_neg,
    List.append_nil]
  simpa using hentry

theorem findIdx_append_self {before : List RateWaiter} (after : List RateWaiter)
    {entry : RateWaiter} (hbefore : ∀ waiter ∈ before, waiter.holderId ≠ entry.holderId) :
    (before ++ entry :: after).findIdx (fun waiter => decide (waiter.holderId = entry.holderId)) =
      before.length := by
  rw [List.findIdx_append, if_neg]
  · simp [List.findIdx_cons]
  · rw [not_lt, List.findIdx_eq_length_of_false]
    exact fun waiter hmem => decide_eq_false (hbefore waiter hmem)

/-! ## An attempt -/

variable (limiter : DurableRateLimiter)

/-- The record by which an attempt at `now` is decided. -/
def refilledAt (current : Option StoredRecord) (now : Int) : RateLimitRecord :=
  refill (normalizeRecord current limiter.capacity now) limiter.capacity limiter.refillIntervalMs
    now

def liveWaiters (current : Option StoredRecord) (now : Int) : List RateWaiter :=
  dropExpiredWaiters (refilledAt limiter current now).waiters now

variable {limiter}

theorem refill_waiters (record : RateLimitRecord) (capacity refillIntervalMs now : Int) :
    (refill record capacity refillIntervalMs now).waiters = record.waiters := by
  simp only [refill]
  split_ifs
  all_goals rfl

theorem liveWaiters_stored (record : RateLimitRecord) (now : Int) :
    liveWaiters limiter (some record.stored) now = dropExpiredWaiters record.waiters now := by
  rw [liveWaiters, refilledAt, refill_waiters]
  rfl

/-- The whole of an attempt, once the entry is found or put in its place. -/
theorem reduceRateAcquire_of_registered {current : Option StoredRecord} {now : Int}
    (hregistered : registerWaiter (liveWaiters limiter current now)
      ⟨holderId, now + limiter.waiterTtlMs⟩ =
      before ++ ⟨holderId, now + limiter.waiterTtlMs⟩ :: after)
    (hbefore : ∀ waiter ∈ before, waiter.holderId ≠ holderId) :
    reduceRateAcquire limiter current holderId now =
      if before = [] ∧ 1 ≤ (refilledAt limiter current now).tokens then
        (⟨(refilledAt limiter current now).tokens - 1,
          (refilledAt limiter current now).refillAnchorAt, after⟩, ⟨true, -1, -1⟩) else
        (⟨(refilledAt limiter current now).tokens, (refilledAt limiter current now).refillAnchorAt,
          before ++ ⟨holderId, now + limiter.waiterTtlMs⟩ :: after⟩, ⟨false, before.length, max 1
          ((before.length + 1 - (refilledAt limiter current
            now).tokens) * limiter.refillIntervalMs -
            (now - (refilledAt limiter current now).refillAnchorAt))⟩) := by
  have hposition := @findIdx_append_self before after ⟨holderId, now + limiter.waiterTtlMs⟩ hbefore
  rw [liveWaiters] at hregistered
  simp only [refilledAt] at hregistered ⊢
  simp only [reduceRateAcquire, hregistered, hposition, Int.natCast_eq_zero,
    List.length_eq_zero_iff]
  by_cases hgranted : before = [] ∧ 1 ≤ (refill (normalizeRecord current limiter.capacity now)
      limiter.capacity limiter.refillIntervalMs now).tokens
  · refine (if_pos hgranted).trans (Eq.trans ?_ (if_pos hgranted).symm)
    rw [hgranted.1]
    rfl
  · exact (if_neg hgranted).trans (if_neg hgranted).symm

/-- What an attempt leaves of the queue: all that it registered, or all but its own entry at the
head. -/
theorem reduceRateAcquire_waiters (current : Option StoredRecord) (holderId : JsString)
    (now : Int) :
    ∀ registered, registerWaiter (liveWaiters limiter current now)
        ⟨holderId, now + limiter.waiterTtlMs⟩ = registered →
      (reduceRateAcquire limiter current holderId now).1.waiters = registered ∨
      ∃ after, registered = ⟨holderId, now + limiter.waiterTtlMs⟩ :: after ∧
        (reduceRateAcquire limiter current holderId now).1.waiters = after := by
  rintro registered rfl
  obtain ⟨before, after, hregistered, hbefore, -⟩ :=
    registerWaiter_cases (liveWaiters limiter current now) ⟨holderId, now + limiter.waiterTtlMs⟩
  rw [reduceRateAcquire_of_registered hregistered hbefore]
  split_ifs with hgranted
  · refine .inr ⟨after, ?_, rfl⟩
    rw [hregistered, hgranted.1]
    rfl
  · exact .inl hregistered.symm

end Weft.RateLimit

/-! Buckets compared. What a bucket holds at a time, in milliseconds of accrual, grows with the time
up to its capacity; a bucket that holds no less than another, but for a lead of grants, keeps doing
so. -/

namespace Weft.RateLimit
open Weft.Js Weft.Lib

variable (limiter : DurableRateLimiter)

def refillBucket (record : RateLimitRecord) (now : Int) : RateLimitRecord :=
  refill record limiter.capacity limiter.refillIntervalMs now

/-- What the bucket holds at `now`. An anchor ahead of the time accrues nothing. -/
def level (record : RateLimitRecord) (now : Int) : Int :=
  min (limiter.capacity * limiter.refillIntervalMs)
    (record.tokens * limiter.refillIntervalMs + max 0 (now - record.refillAnchorAt))

/-- The record is as a refill at `now` leaves it, or a grant after it. -/
structure Refilled (now : Int) (record : RateLimitRecord) : Prop where
  nonneg : 0 ≤ record.tokens
  le_capacity : record.tokens ≤ limiter.capacity
  full : record.tokens = limiter.capacity → record.refillAnchorAt = now
  early : now < record.refillAnchorAt + limiter.refillIntervalMs

/-- The second bucket holds no less than the first but for `lead` tokens, and accrues no later. -/
structure Ahead (now : Int) (first second : RateLimitRecord) (lead : Nat) : Prop where
  level_le : level limiter first now ≤ level limiter second now + lead * limiter.refillIntervalMs
  anchor_le : second.refillAnchorAt ≤ max now first.refillAnchorAt

variable {limiter} {record : RateLimitRecord} {now later : Int}

variable (limiter) in
/-- The three things that a refill can do. -/
theorem refillBucket_cases (record : RateLimitRecord) (now : Int) :
    (limiter.capacity ≤ record.tokens ∧ refillBucket limiter record now =
        { record with tokens := limiter.capacity, refillAnchorAt := now }) ∨
    (record.tokens < limiter.capacity ∧ now < record.refillAnchorAt + limiter.refillIntervalMs ∧
      refillBucket limiter record now = record) ∨
    ∃ minted, record.tokens < limiter.capacity ∧ 1 ≤ minted ∧
      record.refillAnchorAt + minted * limiter.refillIntervalMs ≤ now ∧
      now < record.refillAnchorAt + (minted + 1) * limiter.refillIntervalMs ∧
      (limiter.capacity ≤ record.tokens + minted ∧ refillBucket limiter record now =
          { record with tokens := limiter.capacity, refillAnchorAt := now } ∨
        record.tokens + minted < limiter.capacity ∧ refillBucket limiter record now = { record with
            tokens := record.tokens + minted
            refillAnchorAt := record.refillAnchorAt + minted * limiter.refillIntervalMs }) := by
  have hinterval := limiter.refillIntervalMs_pos
  have hmod := Int.emod_add_mul_ediv (now - record.refillAnchorAt) limiter.refillIntervalMs
  have hmod0 := Int.emod_nonneg (now - record.refillAnchorAt) hinterval.ne'
  have hmodlt := Int.emod_lt_of_pos (now - record.refillAnchorAt) hinterval
  simp only [refillBucket, refill]
  by_cases hfull : limiter.capacity ≤ record.tokens
  · exact .inl ⟨hfull, if_pos hfull⟩
  rw [if_neg hfull]
  by_cases helapsed : now - record.refillAnchorAt < limiter.refillIntervalMs
  · exact .inr (.inl ⟨not_le.1 hfull, by linarith, if_pos helapsed⟩)
  rw [if_neg helapsed]
  have hminted : 1 ≤ (now - record.refillAnchorAt) / limiter.refillIntervalMs :=
    (Int.le_ediv_iff_mul_le hinterval).2 (by rw [one_mul]; exact not_lt.1 helapsed)
  refine .inr (.inr ⟨_, not_le.1 hfull, hminted, by linarith, by linarith, ?_⟩)
  by_cases hbecomes : limiter.capacity ≤
      record.tokens + (now - record.refillAnchorAt) / limiter.refillIntervalMs
  · refine .inl ⟨hbecomes, ?_⟩
    rw [min_eq_left hbecomes, if_pos le_rfl]
  · refine .inr ⟨not_le.1 hbecomes, ?_⟩
    rw [min_eq_right (not_le.1 hbecomes).le, if_neg hbecomes]

theorem refilled_refillBucket (hnonneg : 0 ≤ record.tokens) (now : Int) :
    Refilled limiter now (refillBucket limiter record now) := by
  have hcapacity := limiter.capacity_pos
  have hinterval := limiter.refillIntervalMs_pos
  obtain ⟨-, heq⟩ | ⟨hspare, hearly, heq⟩ |
    ⟨minted, hspare, hminted, hle, hlt, ⟨-, heq⟩ | ⟨hmore, heq⟩⟩ :=
      refillBucket_cases limiter record now
  · rw [heq]
    exact ⟨hcapacity.le, le_rfl, fun _ => rfl, by dsimp only; linarith⟩
  · rw [heq]
    exact ⟨hnonneg, hspare.le, fun hfull => (hspare.ne hfull).elim, hearly⟩
  · rw [heq]
    exact ⟨hcapacity.le, le_rfl, fun _ => rfl, by dsimp only; linarith⟩
  · rw [heq]
    refine ⟨by dsimp only; omega, hmore.le, fun hfull => (hmore.ne hfull).elim, ?_⟩
    dsimp only
    linarith

/-- A refill changes nothing of what the bucket holds then or later. -/
theorem level_refillBucket (hlater : now ≤ later) :
    level limiter (refillBucket limiter record now) later = level limiter record later := by
  have hinterval := limiter.refillIntervalMs_pos
  have hfull : ∀ amount, limiter.capacity * limiter.refillIntervalMs ≤ amount →
      min (limiter.capacity * limiter.refillIntervalMs) amount =
        limiter.capacity * limiter.refillIntervalMs := fun amount => min_eq_left
  obtain ⟨hcapacity, heq⟩ | ⟨-, -, heq⟩ |
    ⟨minted, hspare, hminted, hle, hlt, ⟨hmore, heq⟩ | ⟨-, heq⟩⟩ :=
      refillBucket_cases limiter record now
  · have hle := mul_le_mul_of_nonneg_right hcapacity hinterval.le
    rw [heq, level, level, hfull, hfull]
    · have := le_max_left 0 (later - record.refillAnchorAt)
      linarith
    · have := le_max_left 0 (later - now)
      dsimp only
      linarith
  · rw [heq]
  · have hcapacity := mul_le_mul_of_nonneg_right hmore hinterval.le
    rw [heq, level, level, hfull, hfull]
    · have := le_max_right 0 (later - record.refillAnchorAt)
      linarith
    · have := le_max_left 0 (later - now)
      dsimp only
      linarith
  · have hpositive := mul_le_mul_of_nonneg_right hminted hinterval.le
    rw [heq, level, level]
    dsimp only
    rw [max_eq_right (by linarith), max_eq_right (by linarith)]
    congr 1
    ring

/-- Two refills are one. -/
theorem refillBucket_refillBucket (hlater : now ≤ later) :
    refillBucket limiter (refillBucket limiter record now) later =
      refillBucket limiter record later := by
  have hinterval := limiter.refillIntervalMs_pos
  have hagain : ∀ anchor, refillBucket limiter
      { record with tokens := limiter.capacity, refillAnchorAt := anchor } later =
        { record with tokens := limiter.capacity, refillAnchorAt := later } := by
    intro anchor
    simp only [refillBucket, refill]
    rw [if_pos le_rfl]
  obtain ⟨hcapacity, heq⟩ | ⟨-, -, heq⟩ |
    ⟨minted, hspare, hminted, hle, hlt, hmore⟩ := refillBucket_cases limiter record now
  · rw [heq, hagain]
    simp only [refillBucket, refill]
    rw [if_pos hcapacity]
  · rw [heq]
  -- the later refill of the record itself mints no fewer tokens
  obtain ⟨hfull, -⟩ | ⟨-, hearly, -⟩ | ⟨minted', -, -, hle', hlt', hmore'⟩ :=
    refillBucket_cases limiter record later
  · exact (not_le.2 hspare hfull).elim
  · have := mul_le_mul_of_nonneg_right hminted hinterval.le
    linarith
  have hmintedLe : minted ≤ minted' := by
    by_contra hlt
    have := mul_le_mul_of_nonneg_right (by omega : minted' + 1 ≤ minted) hinterval.le
    linarith
  obtain ⟨hcapacity, heq⟩ | ⟨hsome, heq⟩ := hmore
  · obtain ⟨-, heq'⟩ | ⟨hsome', -⟩ := hmore'
    · rw [heq, hagain, heq']
    · omega
  rw [heq]
  obtain ⟨hfull, -⟩ | ⟨-, hearly, hsame⟩ | ⟨rest, -, hrest, hleRest, hltRest, hmoreRest⟩ :=
    refillBucket_cases limiter { record with
      tokens := record.tokens + minted
      refillAnchorAt := record.refillAnchorAt + minted * limiter.refillIntervalMs } later
  · exact (not_le.2 hsome hfull).elim
  · have hsameMinted : minted' = minted := by
      refine le_antisymm ?_ hmintedLe
      by_contra hlt
      have := mul_le_mul_of_nonneg_right (by omega : minted + 1 ≤ minted') hinterval.le
      dsimp only at hearly
      linarith
    subst hsameMinted
    obtain ⟨hcapacity, -⟩ | ⟨-, heq'⟩ := hmore'
    · omega
    · rw [hsame, heq']
  · have hsum : minted' = minted + rest := by
      dsimp only at hleRest hltRest
      refine le_antisymm ?_ ?_
      · by_contra hlt
        have := mul_le_mul_of_nonneg_right (by omega : minted + rest + 1 ≤ minted') hinterval.le
        linarith
      · by_contra hlt
        have := mul_le_mul_of_nonneg_right (by omega : minted' + 1 ≤ minted + rest) hinterval.le
        linarith
    subst hsum
    dsimp only at hmoreRest
    obtain ⟨hcapacity, heqRest⟩ | ⟨hspareRest, heqRest⟩ := hmoreRest
    · obtain ⟨-, heq'⟩ | ⟨hspare', -⟩ := hmore'
      · rw [heqRest, heq']
      · omega
    · obtain ⟨hcapacity', -⟩ | ⟨-, heq'⟩ := hmore'
      · omega
      · rw [heqRest, heq']
        congr 1
        · ring
        · ring

/-! ## Comparing -/

theorem Refilled.level_eq (h : Refilled limiter now record) : level limiter record now =
      record.tokens * limiter.refillIntervalMs + max 0 (now - record.refillAnchorAt) := by
  have hinterval := limiter.refillIntervalMs_pos
  refine min_eq_right ?_
  obtain hfull | hspare := h.le_capacity.eq_or_lt
  · rw [h.full hfull, hfull, sub_self, max_self, add_zero]
  · have hle := mul_le_mul_of_nonneg_right (Int.add_one_le_iff.2 hspare) hinterval.le
    have hearly : max 0 (now - record.refillAnchorAt) ≤ limiter.refillIntervalMs :=
      max_le hinterval.le (by linarith [h.early])
    linarith

/-- A token is taken. -/
theorem Refilled.taken (h : Refilled limiter now record) (htoken : 1 ≤ record.tokens)
    (waiters : List RateWaiter) :
    Refilled limiter now ⟨record.tokens - 1, record.refillAnchorAt, waiters⟩ where
  nonneg := by dsimp only; omega
  le_capacity := by have := h.le_capacity; dsimp only; omega
  full hfull := by have := h.le_capacity; dsimp only at hfull; omega
  early := h.early

/-- Whoever is in the queue makes no difference to the bucket. -/
theorem Refilled.queue (h : Refilled limiter now record) (waiters : List RateWaiter) :
    Refilled limiter now { record with waiters } :=
  ⟨h.nonneg, h.le_capacity, h.full, h.early⟩

variable {first second : RateLimitRecord} {lead : Nat}

/-- Without a lead the second bucket has no fewer tokens. -/
theorem Ahead.tokens_le (h : Ahead limiter now first second 0) (hfirst : Refilled limiter now first)
    (hsecond : Refilled limiter now second) : first.tokens ≤ second.tokens := by
  have hinterval := limiter.refillIntervalMs_pos
  have hlevel := h.level_le
  rw [hfirst.level_eq, hsecond.level_eq, Nat.cast_zero, zero_mul, add_zero] at hlevel
  have hpositive := le_max_left 0 (now - first.refillAnchorAt)
  have hearly : max 0 (now - second.refillAnchorAt) < limiter.refillIntervalMs :=
    max_lt hinterval (by linarith [hsecond.early])
  have hlt : first.tokens * limiter.refillIntervalMs <
      (second.tokens + 1) * limiter.refillIntervalMs := by linarith
  exact Int.lt_add_one_iff.1 (lt_of_mul_lt_mul_right hlt hinterval.le)

theorem Ahead.taken_first (h : Ahead limiter now first second (lead + 1))
    (hfirst : Refilled limiter now first) (htoken : 1 ≤ first.tokens) (waiters : List RateWaiter) :
    Ahead limiter now ⟨first.tokens - 1, first.refillAnchorAt, waiters⟩ second lead := by
  refine ⟨?_, h.anchor_le⟩
  have hlevel := h.level_le
  rw [hfirst.level_eq] at hlevel
  rw [(hfirst.taken htoken waiters).level_eq]
  push_cast at hlevel ⊢
  linarith

section

variable (h : Ahead limiter now first second lead)

include h

theorem Ahead.taken_second (hsecond : Refilled limiter now second) (htoken : 1 ≤ second.tokens)
    (waiters : List RateWaiter) :
    Ahead limiter now first ⟨second.tokens - 1, second.refillAnchorAt, waiters⟩ (lead + 1) := by
  refine ⟨?_, h.anchor_le⟩
  have hlevel := h.level_le
  rw [hsecond.level_eq] at hlevel
  rw [(hsecond.taken htoken waiters).level_eq]
  push_cast
  linarith

/-- The queue does not count. -/
theorem Ahead.queue_first (waiters : List RateWaiter) :
    Ahead limiter now ⟨first.tokens, first.refillAnchorAt, waiters⟩ second lead :=
  ⟨h.level_le, h.anchor_le⟩

theorem Ahead.queue_second (waiters : List RateWaiter) :
    Ahead limiter now first ⟨second.tokens, second.refillAnchorAt, waiters⟩ lead :=
  ⟨h.level_le, h.anchor_le⟩

end

theorem refillBucket_anchor_le (hanchor : record.refillAnchorAt ≤ now) :
    (refillBucket limiter record now).refillAnchorAt ≤ now := by
  obtain ⟨-, heq⟩ | ⟨-, -, heq⟩ | ⟨minted, -, -, hle, -, ⟨-, heq⟩ | ⟨-, heq⟩⟩ :=
    refillBucket_cases limiter record now
  all_goals rw [heq]
  · exact hanchor
  · exact hle

/-- The second bucket stays ahead. -/
theorem Ahead.stays (h : Ahead limiter now first second lead) (hfirst : Refilled limiter now first)
    (hsecond : Refilled limiter now second) (hlater : now ≤ later) :
    Ahead limiter later (refillBucket limiter first later) (refillBucket limiter second later)
      lead := by
  have hinterval := limiter.refillIntervalMs_pos
  constructor
  · have hlevel := h.level_le
    have hanchor := h.anchor_le
    have hlead : 0 ≤ (lead : Int) * limiter.refillIntervalMs :=
      mul_nonneg (Int.natCast_nonneg lead) hinterval.le
    rw [hfirst.level_eq, hsecond.level_eq] at hlevel
    rw [level_refillBucket le_rfl, level_refillBucket le_rfl, level, level]
    omega
  · obtain hpast | hahead := le_or_gt second.refillAnchorAt later
    · exact le_max_of_le_left (refillBucket_anchor_le hpast)
    · -- both anchors are ahead of the time, and neither bucket is refilled
      have hanchors : second.refillAnchorAt ≤ first.refillAnchorAt := by
        have := h.anchor_le
        omega
      have hsame : ∀ record, Refilled limiter now record → later < record.refillAnchorAt →
          refillBucket limiter record later = record := by
        intro record hrecord hrecordAhead
        obtain ⟨hfull, -⟩ | ⟨-, -, heq⟩ | ⟨minted, -, hminted, hle, -⟩ :=
          refillBucket_cases limiter record later
        · have := hrecord.full (le_antisymm hrecord.le_capacity hfull)
          omega
        · exact heq
        · have := mul_le_mul_of_nonneg_right hminted hinterval.le
          omega
      rw [hsame first hfirst (by omega), hsame second hsecond hahead]
      exact le_max_of_le_right hanchors

end Weft.RateLimit
