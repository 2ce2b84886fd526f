import Weft.RateLimit.Place

/-! What denied contenders are told. If all of them retry exactly when they were told and no entry
runs out before, each retry is granted: the contender at each place of the queue comes when the
token for its place is there, and not a millisecond later. -/

namespace Weft.RateLimit
open Weft.Js Weft.Lib

/-! ## Contenders that do as they are told -/

/-- An attempt, at a time in milliseconds since the epoch. -/
structure Attempt where
  holderId : JsString
  now : Nat
deriving DecidableEq

/-- `pending` are the denied contenders in their order, with the times at which they retry. -/
structure Contest where
  slot : Option StoredRecord
  clock : Int := 0
  pending : List (JsString × Int) := []

variable (limiter : DurableRateLimiter)

def Contest.outcome (s : Contest) (a : Attempt) : RateGrantAttempt :=
  (reduceRateAcquire limiter s.slot a.holderId a.now).2

def Contest.attempt (s : Contest) (a : Attempt) : Contest :=
  let (record, attempt) := reduceRateAcquire limiter s.slot a.holderId a.now
  let others := s.pending.filter fun p => p.1 ≠ a.holderId
  { slot := some record.stored
    clock := a.now
    pending :=
      if attempt.granted then others else others ++ [(a.holderId, a.now + attempt.retryAfterMs)] }

/-- Time goes on, no denied contender misses its retry, and none comes before it. -/
def contest : Machine Contest Attempt where
  step s a :=
    if s.clock ≤ a.now ∧ ∀ p ∈ s.pending, (a.now : Int) ≤ p.2 ∧
      (p.1 = a.holderId → p.2 = a.now) then
      some (s.attempt limiter a)
    else none

/-- A contender that is denied now is told to come back before its entry runs out. -/
def Lasting (s : Contest) (a : Attempt) : Prop :=
  (s.outcome limiter a).granted = false → (s.outcome limiter a).retryAfterMs < limiter.waiterTtlMs

/-- The tokens that can be there at `time` if nobody takes one. -/
def accrued (record : RateLimitRecord) (time : Int) : Int :=
  record.tokens + max 0 ((time - record.refillAnchorAt) / limiter.refillIntervalMs)

/-- Whoever waits is granted when it comes back, and nobody is told to come later than at the time
at which the token for its place is there. -/
structure Accurate (s : Contest) (a : Attempt) : Prop where
  granted : a.holderId ∈ s.pending.map Prod.fst → (s.outcome limiter a).granted = true
  earliest : (s.outcome limiter a).granted = false →
    ∀ time, time < a.now + (s.outcome limiter a).retryAfterMs →
      accrued limiter (reduceRateAcquire limiter s.slot a.holderId a.now).1 time <
        (s.outcome limiter a).position + 1

/-- The contenders in the queue have been told when to come back, and their entries last until
then. -/
structure Waiting (s : Contest) : Prop where
  clock : 0 ≤ s.clock
  nodup : (s.pending.map Prod.fst).Nodup
  queue : s.pending.map Prod.fst =
    (liveWaiters limiter s.slot s.clock).map RateWaiter.holderId
  written : s.pending ≠ [] → ∃ record : RateLimitRecord, s.slot = some record.stored ∧
    0 ≤ record.tokens ∧ 0 ≤ record.refillAnchorAt
  told : ∀ p ∈ s.pending, (reduceRateAcquire limiter s.slot p.1 s.clock).2.granted = false ∧
    p.2 = s.clock + (reduceRateAcquire limiter s.slot p.1 s.clock).2.retryAfterMs
  lasting : ∀ p ∈ s.pending, ∀ waiter ∈ liveWaiters limiter s.slot s.clock,
    waiter.holderId = p.1 → p.2 < waiter.expiresAt

variable {limiter}

/-! ## The invariant -/

/-- From place `place` on, the contenders come one interval after the other, the first of them when
the anchor has moved on by the intervals of its place. -/
inductive Scheduled (limiter : DurableRateLimiter) (anchor : Int) :
    Int → List RateWaiter → List (JsString × Int) → Prop where
  | nil (place : Int) : Scheduled limiter anchor place [] []
  | cons {place : Int} {waiter : RateWaiter} {waiters : List RateWaiter} {p : JsString × Int}
      {pending : List (JsString × Int)} (hholder : p.1 = waiter.holderId)
      (htime : p.2 = anchor + place * limiter.refillIntervalMs) (hlasts : p.2 < waiter.expiresAt)
      (hrest : Scheduled limiter anchor (place + 1) waiters pending) :
      Scheduled limiter anchor place (waiter :: waiters) (p :: pending)

variable {waiters : List RateWaiter} {pending : List (JsString × Int)}

variable {anchor place : Int}

theorem Scheduled.concat (h : Scheduled limiter anchor place waiters pending)
    (waiter : RateWaiter) {time : Int}
    (htime : time = anchor + (place + waiters.length) * limiter.refillIntervalMs)
    (hlasts : time < waiter.expiresAt) :
    Scheduled limiter anchor place (waiters ++ [waiter])
    (pending ++ [(waiter.holderId, time)]) := by
  induction h with
  | nil place => exact .cons rfl (by simpa using htime) hlasts (.nil _)
  | cons hholder hfirst hfirstLasts hrest ih =>
    refine .cons hholder hfirst hfirstLasts (ih ?_)
    rw [htime, List.length_cons]
    push_cast
    ring

/-- The same times counted from another anchor. -/
theorem Scheduled.reanchor {anchor place anchor' place' : Int}
    (h : Scheduled limiter anchor place waiters pending)
    (hsame : anchor + place * limiter.refillIntervalMs = anchor' +
      place' * limiter.refillIntervalMs) :
    Scheduled limiter anchor' place' waiters pending := by
  induction h generalizing place' with
  | nil place => exact .nil place'
  | cons hholder htime hlasts hrest ih =>
    refine .cons hholder (htime.trans hsame) hlasts (ih ?_)
    linarith

theorem Scheduled.holders (h : Scheduled limiter anchor place waiters pending) :
    pending.map Prod.fst = waiters.map RateWaiter.holderId := by
  induction h with
  | nil place => rfl
  | cons hholder _ _ _ ih => rw [List.map_cons, List.map_cons, hholder, ih]

/-- Nobody comes before the first, and everybody else an interval later or more. -/
theorem Scheduled.time_le (h : Scheduled limiter anchor place waiters pending) :
    ∀ p ∈ pending, anchor + place * limiter.refillIntervalMs ≤ p.2 := by
  have hinterval := limiter.refillIntervalMs_pos
  induction h with
  | nil place => exact fun p hp => nomatch hp
  | cons hholder htime hlasts hrest ih =>
    intro p hp
    obtain rfl | hp := List.mem_cons.1 hp
    · exact htime.ge
    · have hle := ih p hp
      linarith

/-- Whoever has not missed its retry is still in the queue. -/
theorem Scheduled.live {anchor place now : Int}
    (h : Scheduled limiter anchor place waiters pending) (hnow : ∀ p ∈ pending, now ≤ p.2) :
    dropExpiredWaiters waiters now = waiters := by
  induction h with
  | nil place => rfl
  | cons hholder htime hlasts hrest ih =>
    have hfirst := lt_of_le_of_lt (hnow _ List.mem_cons_self) hlasts
    have hothers := ih fun p hp => hnow p (List.mem_cons_of_mem _ hp)
    rw [dropExpiredWaiters] at hothers ⊢
    rw [List.filter_cons, if_pos (by simpa using hfirst), hothers]

/-- What is left in the slot, and when the contenders in its queue come back. While somebody waits
the bucket is empty, or the token of the first has come just now. -/
structure Told (limiter : DurableRateLimiter) (s : Contest) : Prop where
  nodup : (s.pending.map Prod.fst).Nodup
  queue : s.pending = [] ∧ liveWaiters limiter s.slot s.clock = [] ∨
    ∃ record : RateLimitRecord, s.slot = some record.stored ∧
      0 ≤ record.refillAnchorAt ∧
      (record.tokens = 0 ∨ record.tokens = 1 ∧ record.refillAnchorAt ≤ s.clock) ∧
      Scheduled limiter record.refillAnchorAt (1 - record.tokens)
        (dropExpiredWaiters record.waiters s.clock) s.pending

variable {record : RateLimitRecord}

theorem Told.of_scheduled {clock : Int} (hnodup : (pending.map Prod.fst).Nodup)
    (hanchor : 0 ≤ record.refillAnchorAt)
    (htokens : record.tokens = 0 ∨ record.tokens = 1 ∧ record.refillAnchorAt ≤ clock)
    (hscheduled : Scheduled limiter record.refillAnchorAt (1 - record.tokens) record.waiters
      pending)
    (hlater : ∀ p ∈ pending, clock ≤ p.2) : Told limiter ⟨some record.stored, clock, pending⟩ :=
  ⟨hnodup, .inr ⟨record, rfl, hanchor, htokens, (hscheduled.live hlater).symm ▸ hscheduled⟩⟩

/-- What has run out at one time has run out later. -/
theorem dropExpiredWaiters_later (waiters : List RateWaiter) {clock now : Int}
    (hnow : clock ≤ now) :
    dropExpiredWaiters (dropExpiredWaiters waiters clock) now = dropExpiredWaiters waiters now := by
  rw [dropExpiredWaiters, dropExpiredWaiters, dropExpiredWaiters, List.filter_filter]
  refine List.filter_congr fun waiter _ => ?_
  by_cases hlive : now < waiter.expiresAt
  · simp [hlive, lt_of_le_of_lt hnow hlive]
  · simp [hlive]

theorem liveWaiters_eq (slot : Option StoredRecord) (now : Int) : liveWaiters limiter slot now =
      dropExpiredWaiters ((slot.bind StoredRecord.waiters).getD []) now := by
  rw [liveWaiters, refilledAt, refill_waiters]
  cases slot with
  | none => rfl
  | some record => rfl

theorem liveWaiters_later {slot : Option StoredRecord} {clock now : Int} (hnow : clock ≤ now) :
    dropExpiredWaiters (liveWaiters limiter slot clock) now = liveWaiters limiter slot now := by
  rw [liveWaiters_eq, liveWaiters_eq, dropExpiredWaiters_later _ hnow]

/-! ## The bucket -/

theorem normalizeRecord_stored (htokens : 0 ≤ record.tokens) (hanchor : 0 ≤ record.refillAnchorAt)
    (capacity now : Int) : normalizeRecord (some record.stored) capacity now = record := by
  simp [normalizeRecord, RateLimitRecord.stored, Option.filter, htokens, hanchor]

theorem normalizeRecord_nonneg (slot : Option StoredRecord) {capacity : Int}
    (hcapacity : 0 ≤ capacity)
    (now : Nat) : 0 ≤ (normalizeRecord slot capacity now).tokens ∧
      0 ≤ (normalizeRecord slot capacity now).refillAnchorAt := by
  cases slot with
  | none => exact ⟨hcapacity, Int.natCast_nonneg now⟩
  | some record =>
    constructor
    · cases htokens : record.tokens.filter (0 ≤ ·) with
      | none => simp [normalizeRecord, htokens]
      | some tokens =>
        simpa [normalizeRecord, htokens] using (Option.filter_eq_some_iff.1 htokens).2
    · cases hanchor : record.refillAnchorAt.filter (0 ≤ ·) with
      | none => simp [normalizeRecord, hanchor]
      | some anchor =>
        simpa [normalizeRecord, hanchor] using (Option.filter_eq_some_iff.1 hanchor).2

variable (limiter) in
/-- Where nobody waits the bucket may hold anything. -/
theorem refilledAt_range (slot : Option StoredRecord) (now : Nat) :
    ∀ refilled, refilledAt limiter slot now = refilled →
      0 ≤ refilled.tokens ∧ 0 ≤ refilled.refillAnchorAt ∧
      (refilled.tokens < 1 → now < refilled.refillAnchorAt + limiter.refillIntervalMs) := by
  rintro refilled rfl
  have hcapacity := limiter.capacity_pos
  have hinterval := limiter.refillIntervalMs_pos
  obtain ⟨htokens, hanchor⟩ := normalizeRecord_nonneg slot hcapacity.le now
  rw [refilledAt]
  generalize normalizeRecord slot limiter.capacity now = record at htokens hanchor ⊢
  have hmod := Int.emod_add_mul_ediv (now - record.refillAnchorAt) limiter.refillIntervalMs
  have hmodlt := Int.emod_lt_of_pos (now - record.refillAnchorAt) hinterval
  simp only [refill]
  split_ifs with hfull helapsed hbecomes
  · exact ⟨hcapacity.le, Int.natCast_nonneg now, fun _ => by simpa using hinterval⟩
  · exact ⟨htokens, hanchor, fun _ => by linarith⟩
  · refine ⟨?_, Int.natCast_nonneg now, fun _ => by simpa using hinterval⟩
    have hminted := Int.ediv_nonneg (hinterval.le.trans (not_lt.1 helapsed)) hinterval.le
    exact le_min hcapacity.le (add_nonneg htokens hminted)
  · have hminted := Int.ediv_nonneg (hinterval.le.trans (not_lt.1 helapsed)) hinterval.le
    refine ⟨le_min hcapacity.le (add_nonneg htokens hminted), ?_, fun _ => ?_⟩
    · exact add_nonneg hanchor (mul_nonneg hminted hinterval.le)
    · linarith

/-- A bucket that is empty at some time has been so since the record was written. -/
theorem refilledAt_zero {now : Int} (htokens : 0 ≤ record.tokens)
    (hanchor : 0 ≤ record.refillAnchorAt)
    (hzero : (refilledAt limiter (some record.stored) now).tokens = 0) :
    refilledAt limiter (some record.stored) now = record := by
  have hcapacity := limiter.capacity_pos
  have hinterval := limiter.refillIntervalMs_pos
  rw [refilledAt, normalizeRecord_stored htokens hanchor] at hzero ⊢
  simp only [refill] at hzero ⊢
  split_ifs at hzero ⊢ with hfull helapsed hbecomes
  · exact (hcapacity.ne' hzero).elim
  · rfl
  all_goals
    have hminted : 1 ≤ (now - record.refillAnchorAt) / limiter.refillIntervalMs :=
      (Int.le_ediv_iff_mul_le hinterval).2 (by rw [one_mul]; exact not_lt.1 helapsed)
    have hsome : 0 < record.tokens + (now - record.refillAnchorAt) / limiter.refillIntervalMs := by
      omega
    exact ((lt_min hcapacity hsome).ne' hzero).elim

/-- Where somebody waits and has not missed its retry, the token for the first comes just when it
does. -/
theorem refilledAt_told {now : Int} (hanchor : 0 ≤ record.refillAnchorAt)
    (htokens : record.tokens = 0 ∨ record.tokens = 1 ∧ record.refillAnchorAt ≤ now)
    (hnow : now ≤ record.refillAnchorAt + (1 - record.tokens) * limiter.refillIntervalMs) :
    ∀ refilled, refilledAt limiter (some record.stored) now = refilled →
      refilled.waiters = record.waiters ∧
      refilled.refillAnchorAt + (1 - refilled.tokens) * limiter.refillIntervalMs =
        record.refillAnchorAt + (1 - record.tokens) * limiter.refillIntervalMs ∧
      (refilled.tokens = 0 ∧ 0 ≤ refilled.refillAnchorAt ∧
          now < refilled.refillAnchorAt + limiter.refillIntervalMs ∨
        refilled.tokens = 1 ∧ refilled.refillAnchorAt = now) := by
  rintro refilled rfl
  have hcapacity := limiter.capacity_pos
  have hinterval := limiter.refillIntervalMs_pos
  have hnonneg : 0 ≤ record.tokens := by
    obtain h | h := htokens <;> omega
  rw [refilledAt, normalizeRecord_stored hnonneg hanchor]
  refine ⟨refill_waiters _ _ _ _, ?_⟩
  simp only [refill]
  obtain hempty | ⟨hone, hpast⟩ := htokens
  · rw [hempty, sub_zero, one_mul] at hnow
    rw [hempty, if_neg (not_le.2 hcapacity), sub_zero, one_mul, zero_add]
    by_cases hearly : now - record.refillAnchorAt < limiter.refillIntervalMs
    · rw [if_pos hearly]
      refine ⟨by rw [hempty, sub_zero, one_mul], .inl ⟨hempty, hanchor, by linarith⟩⟩
    · have hdue : now - record.refillAnchorAt = limiter.refillIntervalMs := by
        have := not_lt.1 hearly
        linarith
      have hminted : min limiter.capacity 1 = 1 := min_eq_right hcapacity
      rw [if_neg hearly, hdue, Int.ediv_self hinterval.ne', hminted]
      dsimp only
      rw [one_mul, sub_self, zero_mul, add_zero]
      split_ifs
      · exact ⟨by linarith, .inr ⟨rfl, rfl⟩⟩
      · exact ⟨rfl, .inr ⟨rfl, by linarith⟩⟩
  · have hanchored : record.refillAnchorAt = now := by
      rw [hone, sub_self, zero_mul, add_zero] at hnow
      exact le_antisymm hpast hnow
    rw [hone, hanchored, sub_self, if_pos hinterval]
    split_ifs with hfull
    · have hcapacityOne : limiter.capacity = 1 := by omega
      dsimp only
      rw [hcapacityOne]
      exact ⟨rfl, .inr ⟨rfl, rfl⟩⟩
    · exact ⟨by rw [hone, hanchored], .inr ⟨hone, hanchored⟩⟩

/-! ## The steps -/

/-- What is told to a contender for whose place the token is not there yet. -/
theorem told_time {now anchor needed : Int}
    (hearly : now < anchor + needed * limiter.refillIntervalMs) :
    now + max 1 (needed * limiter.refillIntervalMs - (now - anchor)) =
      anchor + needed * limiter.refillIntervalMs := by
  rw [max_eq_right (by omega)]
  ring

theorem accrued_lt {time place : Int} (hneeded : 0 < place + 1 - record.tokens)
    (htime : time < record.refillAnchorAt +
      (place + 1 - record.tokens) * limiter.refillIntervalMs) :
    accrued limiter record time < place + 1 := by
  have hquotient : (time - record.refillAnchorAt) / limiter.refillIntervalMs <
      place + 1 - record.tokens :=
    Int.ediv_lt_of_lt_mul limiter.refillIntervalMs_pos (by linarith)
  rw [accrued]
  have := max_lt hneeded hquotient
  linarith

variable {s : Contest} {refilled : RateLimitRecord}

/-- The contenders of a queue have been told the times of their places. -/
theorem scheduled_of_told (hrefilled : refilledAt limiter s.slot s.clock = refilled)
    (hzero : refilled.tokens = 0)
    (hearly : s.clock < refilled.refillAnchorAt + limiter.refillIntervalMs)
    (hnodup : ((liveWaiters limiter s.slot s.clock).map RateWaiter.holderId).Nodup)
    (before : List RateWaiter) {rest : List RateWaiter}
    (hholders : pending.map Prod.fst = rest.map RateWaiter.holderId)
    (htold : ∀ p ∈ pending, p.2 = s.clock + (reduceRateAcquire limiter s.slot p.1
      s.clock).2.retryAfterMs ∧ (reduceRateAcquire limiter s.slot p.1 s.clock).2.granted = false ∧
      ∀ waiter ∈ rest, waiter.holderId = p.1 → p.2 < waiter.expiresAt)
    (hlive : liveWaiters limiter s.slot s.clock = before ++ rest) :
    Scheduled limiter refilled.refillAnchorAt (before.length + 1) rest pending := by
  have hinterval := limiter.refillIntervalMs_pos
  induction rest generalizing before pending with
  | nil =>
    obtain rfl := List.map_eq_nil_iff.1 hholders
    exact .nil _
  | cons waiter rest ih =>
    cases pending with
    | nil => cases hholders
    | cons p pending =>
      injection hholders with hholder hrest
      obtain ⟨htime, hdenied, hlasts⟩ := htold p List.mem_cons_self
      have hnot : p.1 ∉ before.map RateWaiter.holderId := by
        rw [hlive, List.map_append, List.nodup_append] at hnodup
        exact fun hmem => hnodup.2.2 p.1 hmem p.1 (hholder ▸ List.mem_cons_self) rfl
      have hregistered : registerWaiter (liveWaiters limiter s.slot s.clock)
          ⟨p.1, s.clock + limiter.waiterTtlMs⟩ =
            before ++ ⟨p.1, s.clock + limiter.waiterTtlMs⟩ :: rest := by
        rw [hlive]
        exact registerWaiter_at hholder.symm hnot
      have hacquire := reduceRateAcquire_of_registered hregistered
        fun other hmem heq => hnot (heq ▸ List.mem_map_of_mem hmem)
      rw [hrefilled, if_neg (fun h => by have := h.2; omega), hzero, sub_zero] at hacquire
      rw [hacquire] at htime
      have hplace := mul_nonneg (Int.natCast_nonneg before.length) hinterval.le
      have hcomes := @told_time limiter s.clock refilled.refillAnchorAt (before.length + 1)
        (by linarith)
      refine .cons hholder (htime.trans hcomes) (hlasts waiter List.mem_cons_self hholder.symm) ?_
      have hmore := ih (before ++ [waiter]) hrest (fun q hq => ?_) (by simp [hlive])
      · rw [List.length_append] at hmore
        exact_mod_cast hmore
      · obtain ⟨htime', hdenied', hlasts'⟩ := htold q (List.mem_cons_of_mem p hq)
        exact ⟨htime', hdenied', fun other hmem => hlasts' other (List.mem_cons_of_mem waiter hmem)⟩

theorem Waiting.told_all (h : Waiting limiter s) : Told limiter s := by
  refine ⟨h.nodup, ?_⟩
  obtain hpending | hsome := eq_or_ne s.pending []
  · refine .inl ⟨hpending, ?_⟩
    have hqueue := h.queue
    rw [hpending] at hqueue
    exact List.map_eq_nil_iff.1 hqueue.symm
  · obtain ⟨record, hslot, htokens, hanchor⟩ := h.written hsome
    obtain ⟨now, hnow⟩ := Int.eq_ofNat_of_zero_le h.clock
    obtain ⟨hnonneg, -, hearly⟩ := refilledAt_range limiter s.slot now _ rfl
    rw [← hnow] at hnonneg hearly
    have hzero : (refilledAt limiter s.slot s.clock).tokens = 0 := by
      obtain ⟨p, pending, hpending⟩ := List.exists_cons_of_ne_nil hsome
      have hqueue := h.queue
      rw [hpending] at hqueue
      obtain ⟨waiter, waiters, hlive⟩ : ∃ waiter waiters,
          liveWaiters limiter s.slot s.clock = waiter :: waiters :=
        List.exists_cons_of_ne_nil fun hnil => by
          rw [hnil] at hqueue
          cases hqueue
      rw [hlive] at hqueue
      injection hqueue with hholder
      have hregistered : registerWaiter (liveWaiters limiter s.slot s.clock)
          ⟨p.1, s.clock + limiter.waiterTtlMs⟩ =
            [] ++ ⟨p.1, s.clock + limiter.waiterTtlMs⟩ :: waiters := by
        rw [hlive, registerWaiter_cons, if_pos hholder.symm]
        rfl
      have hdenied := (h.told p (hpending ▸ List.mem_cons_self)).1
      rw [reduceRateAcquire_of_registered hregistered fun _ hmem => nomatch hmem] at hdenied
      split_ifs at hdenied with hgranted
      have hfew : ¬ 1 ≤ (refilledAt limiter s.slot s.clock).tokens := fun hone =>
        hgranted ⟨rfl, hone⟩
      omega
    have hsame : refilledAt limiter s.slot s.clock = record := by
      rw [hslot] at hzero ⊢
      exact refilledAt_zero htokens hanchor hzero
    have hscheduled := scheduled_of_told rfl hzero (hearly (by omega)) (h.queue ▸ h.nodup)
      [] h.queue
      (fun p hp => ⟨(h.told p hp).2, (h.told p hp).1, h.lasting p hp⟩) rfl
    refine .inr ⟨record, hslot, hanchor, .inl (hsame ▸ hzero), ?_⟩
    have hlive : liveWaiters limiter s.slot s.clock = dropExpiredWaiters record.waiters
      s.clock := by
      rw [hslot, liveWaiters_stored]
    rw [← hlive, ← hsame, hzero]
    exact hscheduled

variable {a : Attempt}

/-- Nobody waits: the contender is granted, or told when the first token comes. -/
theorem Told.attempt_empty (hpending : s.pending = [])
    (hlive : liveWaiters limiter s.slot a.now = []) (hlasting : Lasting limiter s a) :
    Told limiter (s.attempt limiter a) ∧ Accurate limiter s a := by
  have hregistered : registerWaiter (liveWaiters limiter s.slot a.now)
      ⟨a.holderId, a.now + limiter.waiterTtlMs⟩ =
        [] ++ ⟨a.holderId, a.now + limiter.waiterTtlMs⟩ :: [] := by
    rw [hlive]
    rfl
  have hacquire := reduceRateAcquire_of_registered hregistered fun _ hmem => nomatch hmem
  obtain ⟨htokens, hanchor, hearly⟩ := refilledAt_range limiter s.slot a.now _ rfl
  generalize refilledAt limiter s.slot a.now = refilled at hacquire htokens hanchor hearly
  rw [Lasting, Contest.outcome] at hlasting
  by_cases hgranted : 1 ≤ refilled.tokens
  · rw [if_pos ⟨rfl, hgranted⟩] at hacquire
    constructor
    · simp only [Contest.attempt, hacquire, hpending]
      exact ⟨List.nodup_nil, .inl ⟨rfl, liveWaiters_stored _ _⟩⟩
    · constructor
      · intro hmem
        rw [hpending] at hmem
        cases hmem
      · intro hdenied
        rw [Contest.outcome, hacquire] at hdenied
        cases hdenied
  · rw [if_neg fun h => hgranted h.2] at hacquire
    have hzero : refilled.tokens = 0 := by omega
    have htime : (a.now : Int) < refilled.refillAnchorAt +
        (([] : List RateWaiter).length + 1 - refilled.tokens) * limiter.refillIntervalMs := by
      rw [hzero]
      simpa using hearly (by omega)
    have htold := told_time htime
    rw [hacquire] at hlasting
    constructor
    · simp only [Contest.attempt, hacquire, hpending]
      refine Told.of_scheduled (by simp) hanchor (.inl hzero) (.cons rfl ?_ ?_ (.nil _)) ?_
      · rw [hzero] at htold
        simpa [hzero] using htold
      · have := hlasting rfl
        dsimp only at this ⊢
        linarith
      · intro p hp
        obtain rfl := List.mem_singleton.1 hp
        have := le_max_left (1 : Int) ((([] : List RateWaiter).length + 1 - refilled.tokens) *
          limiter.refillIntervalMs - (a.now - refilled.refillAnchorAt))
        dsimp only at this ⊢
        linarith
    · constructor
      · intro hmem
        rw [hpending] at hmem
        cases hmem
      · intro _ time hlate
        rw [Contest.outcome, hacquire] at hlate ⊢
        refine accrued_lt ?_ ?_
        · dsimp only
          rw [hzero]
          decide
        · exact lt_of_lt_of_eq hlate htold

/-- Nobody who waits comes before its time. -/
def OnTime (s : Contest) (a : Attempt) : Prop :=
  ∀ p ∈ s.pending, (a.now : Int) ≤ p.2 ∧ (p.1 = a.holderId → p.2 = a.now)

/-- Whoever waits and comes is the first, and its token is there. -/
theorem Told.attempt_first (hnodup : (s.pending.map Prod.fst).Nodup) (hontime : OnTime s a)
    (hrefilled : refilledAt limiter s.slot a.now = refilled)
    (hlive : liveWaiters limiter s.slot a.now = waiters)
    (htokens : refilled.tokens = 0 ∧ 0 ≤ refilled.refillAnchorAt ∧
      a.now < refilled.refillAnchorAt + limiter.refillIntervalMs ∨ refilled.tokens = 1 ∧
      refilled.refillAnchorAt = a.now)
    (hscheduled : Scheduled limiter refilled.refillAnchorAt (1 - refilled.tokens) waiters s.pending)
    (hmem : a.holderId ∈ s.pending.map Prod.fst) :
    Told limiter (s.attempt limiter a) ∧ Accurate limiter s a := by
  have hinterval := limiter.refillIntervalMs_pos
  obtain ⟨p, hp, hholder⟩ := List.mem_map.1 hmem
  have hnow : p.2 = a.now := (hontime p hp).2 hholder
  generalize hpending : s.pending = pending at hscheduled hp hnodup
  cases hscheduled with
  | nil => cases hp
  | @cons _ waiter waiters first pending hfirst htime hlasts hrest =>
    have hdue : (a.now : Int) ≤ first.2 := (hontime first (hpending ▸ List.mem_cons_self)).1
    obtain rfl | hlater := List.mem_cons.1 hp
    · have hone : refilled.tokens = 1 ∧ refilled.refillAnchorAt = a.now := by
        obtain ⟨hzero, -, hearly⟩ | hone := htokens
        · rw [hzero, sub_zero, one_mul] at htime
          omega
        · exact hone
      have hregistered : registerWaiter (liveWaiters limiter s.slot a.now)
          ⟨a.holderId, a.now + limiter.waiterTtlMs⟩ =
            [] ++ ⟨a.holderId, a.now + limiter.waiterTtlMs⟩ :: waiters := by
        rw [hlive, registerWaiter_cons, if_pos (hfirst.symm.trans hholder)]
        rfl
      have hacquire := reduceRateAcquire_of_registered hregistered fun _ hmem => nomatch hmem
      rw [hrefilled, if_pos ⟨rfl, hone.1.ge⟩, hone.1, hone.2, sub_self] at hacquire
      rw [List.map_cons, List.nodup_cons] at hnodup
      have hothers : (p :: pending).filter (fun p => p.1 ≠ a.holderId) = pending := by
        rw [List.filter_cons_of_neg (by simpa using hholder), List.filter_eq_self]
        intro q hq
        refine decide_eq_true fun heq => hnodup.1 ?_
        exact List.mem_map.2 ⟨q, hq, heq.trans hholder.symm⟩
      constructor
      · simp only [Contest.attempt, hacquire, hpending, hothers, if_true]
        rw [hone.1, hone.2, sub_self, zero_add] at hrest
        refine Told.of_scheduled hnodup.2 (Int.natCast_nonneg a.now) (.inl rfl) hrest fun q hq => ?_
        exact (hontime q (hpending ▸ List.mem_cons_of_mem p hq)).1
      · constructor
        · intro _
          rw [Contest.outcome, hacquire]
        · intro hdenied
          rw [Contest.outcome, hacquire] at hdenied
          cases hdenied
    · -- another one comes at least an interval after the first
      have hwait := hrest.time_le p hlater
      linarith

/-- Whoever is new comes last. -/
theorem Told.attempt_last (hnodup : (s.pending.map Prod.fst).Nodup)
    (hrefilled : refilledAt limiter s.slot a.now = refilled)
    (hlive : liveWaiters limiter s.slot a.now = waiters)
    (htokens : refilled.tokens = 0 ∧ 0 ≤ refilled.refillAnchorAt ∧
      a.now < refilled.refillAnchorAt + limiter.refillIntervalMs ∨ refilled.tokens = 1 ∧
      refilled.refillAnchorAt = a.now)
    (hscheduled : Scheduled limiter refilled.refillAnchorAt (1 - refilled.tokens) waiters s.pending)
    (hontime : OnTime s a) (hsome : waiters ≠ []) (hnew : a.holderId ∉ s.pending.map Prod.fst)
    (hlasting : Lasting limiter s a) :
    Told limiter (s.attempt limiter a) ∧ Accurate limiter s a := by
  have hinterval := limiter.refillIntervalMs_pos
  have hnone : ∀ waiter ∈ waiters, waiter.holderId ≠ a.holderId := by
    intro waiter hmem heq
    rw [hscheduled.holders] at hnew
    exact hnew (List.mem_map.2 ⟨waiter, hmem, heq⟩)
  have hregistered : registerWaiter (liveWaiters limiter s.slot a.now)
      ⟨a.holderId, a.now + limiter.waiterTtlMs⟩ =
        waiters ++ ⟨a.holderId, a.now + limiter.waiterTtlMs⟩ :: [] := by
    rw [hlive, registerWaiter, replaceFirst_eq_none.2]
    · rfl
    · exact fun waiter hmem => decide_eq_false (hnone waiter hmem)
  have hacquire := reduceRateAcquire_of_registered hregistered hnone
  rw [hrefilled, if_neg fun h => hsome h.1] at hacquire
  have hlength : 1 ≤ (waiters.length : Int) := by
    exact_mod_cast List.length_pos_iff.2 hsome
  have hneeded : 0 < (waiters.length : Int) + 1 - refilled.tokens := by
    obtain ⟨hzero, -⟩ | ⟨hone, -⟩ := htokens <;> omega
  have htime : (a.now : Int) < refilled.refillAnchorAt +
      (waiters.length + 1 - refilled.tokens) * limiter.refillIntervalMs := by
    obtain ⟨hzero, -, hearly⟩ | ⟨hone, hanchor⟩ := htokens
    · rw [hzero, sub_zero]
      have := mul_le_mul_of_nonneg_right hlength hinterval.le
      linarith
    · rw [hone, hanchor, add_sub_cancel_right]
      have := mul_le_mul_of_nonneg_right hlength hinterval.le
      linarith
  have htold := told_time htime
  have hanchor : 0 ≤ refilled.refillAnchorAt := by
    obtain ⟨-, hanchor, -⟩ | ⟨-, hanchor⟩ := htokens
    · exact hanchor
    · exact hanchor ▸ Int.natCast_nonneg a.now
  rw [Lasting, Contest.outcome, hacquire] at hlasting
  have hothers : s.pending.filter (fun p => p.1 ≠ a.holderId) = s.pending := by
    rw [List.filter_eq_self]
    exact fun p hp => decide_eq_true fun heq => hnew (List.mem_map.2 ⟨p, hp, heq⟩)
  constructor
  · simp only [Contest.attempt, hacquire, hothers, Bool.false_eq_true, if_false]
    refine Told.of_scheduled ?_ hanchor ?_ ?_ ?_
    · rw [List.map_append, List.nodup_append]
      refine ⟨hnodup, List.nodup_singleton _, fun x hx y hy => ?_⟩
      rw [List.map_singleton, List.mem_singleton] at hy
      have hcontender : y = a.holderId := hy
      exact fun heq => hnew ((heq.trans hcontender) ▸ hx)
    · obtain ⟨hzero, -⟩ | ⟨hone, hfull⟩ := htokens
      · exact .inl hzero
      · exact .inr ⟨hone, hfull.le⟩
    · refine hscheduled.concat ⟨a.holderId, a.now + limiter.waiterTtlMs⟩ ?_ ?_
      · rw [htold]
        ring
      · have := hlasting rfl
        dsimp only at this ⊢
        linarith
    · intro p hp
      obtain hp | hp := List.mem_append.1 hp
      · exact (hontime p hp).1
      · obtain rfl := List.mem_singleton.1 hp
        dsimp only
        rw [htold]
        exact htime.le
  · constructor
    · exact fun hmem => (hnew hmem).elim
    · intro _ time hlate
      rw [Contest.outcome, hacquire] at hlate ⊢
      exact accrued_lt hneeded (lt_of_lt_of_eq hlate htold)

theorem Told.step {s t : Contest} (h : Told limiter s) (hlasting : Lasting limiter s a)
    (hstep : (contest limiter).step s a = some t) : Told limiter t ∧ Accurate limiter s a := by
  simp only [contest, Option.ite_none_right_eq_some, Option.some.injEq] at hstep
  obtain ⟨⟨hclock, hontime⟩, rfl⟩ := hstep
  obtain ⟨hpending, hnobody⟩ | ⟨record, hslot, hanchor, htokens, hscheduled⟩ := h.queue
  · refine Told.attempt_empty hpending ?_ hlasting
    rw [← liveWaiters_later hclock, hnobody]
    rfl
  have hlive : liveWaiters limiter s.slot a.now = dropExpiredWaiters record.waiters s.clock := by
    rw [hslot, liveWaiters_stored, ← dropExpiredWaiters_later _ hclock]
    exact hscheduled.live fun p hp => (hontime p hp).1
  obtain hpending | hsome := eq_or_ne s.pending []
  · -- the last contender of the queue was granted
    have hholders := hscheduled.holders
    rw [hpending, List.map_nil] at hholders
    exact Told.attempt_empty hpending (hlive.trans (List.map_eq_nil_iff.1 hholders.symm)) hlasting
  have hnow : (a.now : Int) ≤ record.refillAnchorAt +
      (1 - record.tokens) * limiter.refillIntervalMs := by
    have hfirst := hscheduled
    generalize dropExpiredWaiters record.waiters s.clock = waiters at hfirst
    generalize s.pending = pending at hfirst hontime hsome
    cases hfirst with
    | nil => exact (hsome rfl).elim
    | cons _ htime _ _ => exact htime ▸ (hontime _ List.mem_cons_self).1
  obtain ⟨-, hsame, hrefilled⟩ := refilledAt_told hanchor
    (htokens.imp_right fun hone => ⟨hone.1, hone.2.trans hclock⟩) hnow _ rfl
  rw [← hslot] at hsame hrefilled
  have hscheduled' := hscheduled.reanchor hsame.symm
  by_cases hmem : a.holderId ∈ s.pending.map Prod.fst
  · exact Told.attempt_first h.nodup hontime rfl hlive hrefilled hscheduled' hmem
  · refine Told.attempt_last h.nodup rfl hlive hrefilled hscheduled' hontime (fun hnil => ?_) hmem
      hlasting
    have hholders := hscheduled.holders
    rw [hnil, List.map_nil] at hholders
    exact hsome (List.map_eq_nil_iff.1 hholders)

/-- Contenders that retry exactly when they are told are each granted when they come back, and none
is told to come later than it has to. Those that wait at the beginning have been told, and others
may come to the end of the queue. -/
theorem everyStep_accurate (limiter : DurableRateLimiter) (s : Contest)
    (hwaiting : Waiting limiter s)
    (attempts : List Attempt) (hlasting : (contest limiter).EveryStep (Lasting limiter) s
      attempts) :
    (contest limiter).EveryStep (Accurate limiter) s attempts :=
  Machine.everyStep_of_invariant (fun _ _ _ hI hok hstep => Told.step hI hok hstep)
    hwaiting.told_all hlasting

/-- One contender waits for a token that comes every ten seconds. -/
def oneWaits : Contest := ⟨some (waiting [js "a"]), 2000, [(js "a", 10000)]⟩

theorem waiting_oneWaits : Waiting tenSeconds oneWaits where
  clock := by decide
  nodup := by decide
  queue := by decide
  written _ := ⟨⟨0, 0, [⟨js "a", 40000⟩]⟩, rfl, le_rfl, le_rfl⟩
  told := by decide
  lasting := by decide

theorem accurate_oneWaits :
    (contest tenSeconds).EveryStep (Accurate tenSeconds) oneWaits
      [⟨js "b", 3000⟩, ⟨js "a", 10000⟩, ⟨js "b", 20000⟩] :=
  everyStep_accurate tenSeconds oneWaits waiting_oneWaits _
    (by
      refine ⟨?_, ?_, ?_, trivial⟩
      all_goals
        rw [Lasting]
        decide)

end Weft.RateLimit
