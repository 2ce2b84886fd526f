import Weft.RateLimit.Hints

/-! What a withdrawal does to others. A run of a slot is compared with the run of the same attempts
after a contender has withdrawn: some contenders are granted there first, and all that are before
the rest in the queue have been. -/

namespace Weft.RateLimit
open Weft.Js Weft.Lib

/-! ## Runs of acquires -/

/-- An attempt of a contender at its acquire of this number, in milliseconds since the epoch. -/
structure Request where
  holderId : JsString
  acquire : Nat
  now : Nat
deriving DecidableEq

/-- `granted` and `attempted` are the acquires that got a token and those that asked for one. -/
structure Served where
  slot : Option StoredRecord
  clock : Nat
  granted : List (JsString × Nat) := []
  attempted : List (JsString × Nat) := []

variable (limiter : DurableRateLimiter)

/-- An acquire that was granted asks no more. -/
def Served.request (s : Served) (a : Request) : Served :=
  if (a.holderId, a.acquire) ∈ s.granted then { s with clock := a.now }
  else
    let (record, attempt) := reduceRateAcquire limiter s.slot a.holderId a.now
    { slot := some record.stored
      clock := a.now
      granted := if attempt.granted then (a.holderId, a.acquire) :: s.granted else s.granted
      attempted := (a.holderId, a.acquire) :: s.attempted }

def served : Machine Served Request where
  step s a := if s.clock ≤ a.now then some (s.request limiter a) else none

/-- The attempts are of others, each begins an acquire when its last one was granted, and no entry
of theirs runs out before they come back. -/
structure Patient (client : JsString) (s : Served) (a : Request) : Prop where
  other : a.holderId ≠ client
  inOrder : ∀ acquire, (a.holderId, acquire) ∈ s.attempted →
    (a.holderId, acquire) ∈ s.granted ∨ acquire = a.acquire
  kept : ∀ waiter ∈ liveWaiters limiter s.slot s.clock, waiter.holderId ≠ client →
    a.now < waiter.expiresAt

variable {limiter} {client : JsString}

variable {a : Request} {record : RateLimitRecord}

variable {attempt : RateGrantAttempt}

theorem Served.request_granted {s : Served} (hasks : (a.holderId, a.acquire) ∉ s.granted)
    (hacquire : reduceRateAcquire limiter s.slot a.holderId a.now = (record, attempt))
    (hgranted : attempt.granted = true) :
    s.request limiter a = ⟨some record.stored, a.now, (a.holderId, a.acquire) :: s.granted,
      (a.holderId, a.acquire) :: s.attempted⟩ := by
  rw [Served.request, if_neg hasks, hacquire]
  dsimp only
  rw [if_pos hgranted]

theorem Served.request_denied {s : Served} (hasks : (a.holderId, a.acquire) ∉ s.granted)
    (hacquire : reduceRateAcquire limiter s.slot a.holderId a.now = (record, attempt))
    (hdenied : attempt.granted = false) :
    s.request limiter a = ⟨some record.stored, a.now, s.granted,
      (a.holderId, a.acquire) :: s.attempted⟩ := by
  rw [Served.request, if_neg hasks, hacquire]
  dsimp only
  rw [if_neg (by rw [hdenied]; exact Bool.false_ne_true)]

/-! ## The simulation -/

/-- The entries of others. -/
def others (client : JsString) (waiters : List RateWaiter) : List RateWaiter :=
  waiters.filter fun waiter => waiter.holderId ≠ client

/-- In the first run `front` are the entries of contenders that were granted in the second run and
wait for the same acquire, and of the client; in the second run the others of `back` wait. -/
structure Simulated (limiter : DurableRateLimiter) (client : JsString) (s t : Served)
    (front back : List RateWaiter) : Prop where
  clock : s.clock = t.clock
  written : ∃ record : RateLimitRecord, t.slot = some record.stored ∧ 0 ≤ record.tokens ∧
    0 ≤ record.refillAnchorAt
  bucket : ∀ now, (s.clock : Int) ≤ now → Ahead limiter now (refilledAt limiter s.slot now)
    (refilledAt limiter t.slot now) (others client front).length
  first : liveWaiters limiter s.slot s.clock = front ++ back
  second : liveWaiters limiter t.slot t.clock = others client back
  nodup : ((others client front).map RateWaiter.holderId).Nodup
  served : ∀ waiter ∈ others client front, ∃ acquire, (waiter.holderId, acquire) ∈ t.granted ∧
    (waiter.holderId, acquire) ∉ s.granted
  waiting : ∀ p ∈ t.granted, p ∉ s.granted → p.1 ∈ (others client front).map RateWaiter.holderId
  granted : s.granted ⊆ t.granted
  attempted : t.granted ⊆ s.attempted

variable (limiter) in
theorem refilled_refilledAt (slot : Option StoredRecord) (now : Nat) :
    Refilled limiter now (refilledAt limiter slot now) :=
  refilled_refillBucket (normalizeRecord_nonneg slot limiter.capacity_pos.le now).1 now

theorem refilledAt_stored (htokens : 0 ≤ record.tokens) (hanchor : 0 ≤ record.refillAnchorAt)
    (now : Int) :
    refilledAt limiter (some record.stored) now = refillBucket limiter record now := by
  rw [refilledAt, normalizeRecord_stored htokens hanchor]
  rfl

/-- What a run reads in its slot after an attempt at `clock`: the record that was written, or the
one that was there. -/
theorem ahead_later {slot slot' : Option StoredRecord} {first second : RateLimitRecord}
    {clock : Nat}
    {lead : Nat} (h : Ahead limiter clock first second lead)
    (hfirst : Refilled limiter clock first) (hsecond : Refilled limiter clock second)
    (hslot : ∀ now, (clock : Int) ≤ now →
      refilledAt limiter slot now = refillBucket limiter first now)
    (hslot' : ∀ now, (clock : Int) ≤ now →
      refilledAt limiter slot' now = refillBucket limiter second now) : ∀ now, (clock : Int) ≤ now →
      Ahead limiter now (refilledAt limiter slot now) (refilledAt limiter slot' now) lead := by
  intro now hnow
  rw [hslot now hnow, hslot' now hnow]
  exact h.stays hfirst hsecond hnow

variable {waiters : List RateWaiter}

/-- The contenders whose entries last are still in the queue when the time goes on. -/
theorem dropExpiredWaiters_kept (now : Int)
    (hkept : ∀ waiter ∈ waiters, waiter.holderId ≠ client → now < waiter.expiresAt) :
    others client (dropExpiredWaiters waiters now) = others client waiters := by
  rw [others, others, dropExpiredWaiters, List.filter_filter]
  refine List.filter_congr fun waiter hmem => ?_
  by_cases hother : waiter.holderId = client
  · simp [hother]
  · simp [hother, hkept waiter hmem hother]

variable {now : Int}

variable (limiter) in
theorem dropExpiredWaiters_live (slot : Option StoredRecord)
    (hlive : ∀ waiter ∈ waiters, waiter ∈ liveWaiters limiter slot now) :
    dropExpiredWaiters waiters now = waiters := by
  rw [dropExpiredWaiters, List.filter_eq_self]
  intro waiter hmem
  have hwaiter := hlive waiter hmem
  rw [liveWaiters_eq] at hwaiter
  exact (List.mem_filter.1 hwaiter).2

variable (limiter) in
theorem dropExpiredWaiters_registered (slot : Option StoredRecord)
    {before after : List RateWaiter} {holderId : JsString}
    (hbefore : ∀ waiter ∈ before, waiter ∈ liveWaiters limiter slot now)
    (hafter : ∀ waiter ∈ after, waiter ∈ liveWaiters limiter slot now) :
    dropExpiredWaiters (before ++ ⟨holderId, now + limiter.waiterTtlMs⟩ :: after) now =
      before ++ ⟨holderId, now + limiter.waiterTtlMs⟩ :: after := by
  have hentry : now < now + limiter.waiterTtlMs := by
    have := limiter.waiterTtlMs_pos
    omega
  have hbefore' := dropExpiredWaiters_live limiter slot hbefore
  have hafter' := dropExpiredWaiters_live limiter slot hafter
  rw [dropExpiredWaiters] at hbefore' hafter' ⊢
  rw [List.filter_append, List.filter_cons, if_pos (by simpa using hentry), hbefore', hafter']

variable {front back : List RateWaiter}

variable {s t : Served}

/-- The time goes on, and nobody asks. -/
theorem Simulated.wait (h : Simulated limiter client s t front back) {now : Nat}
    (hnow : s.clock ≤ now)
    (hkept : ∀ waiter ∈ liveWaiters limiter s.slot s.clock, waiter.holderId ≠ client →
      now < waiter.expiresAt) :
    Simulated limiter client { s with clock := now } { t with clock := now }
      (dropExpiredWaiters front now) (dropExpiredWaiters back now) := by
  have hcast : (s.clock : Int) ≤ now := by exact_mod_cast hnow
  rw [h.first] at hkept
  have hfront := dropExpiredWaiters_kept now
    fun waiter hmem => hkept waiter (List.mem_append_left back hmem)
  constructor
  · rfl
  · exact h.written
  · intro later hlater
    rw [hfront]
    exact h.bucket later (hcast.trans hlater)
  · rw [← liveWaiters_later hcast, h.first, dropExpiredWaiters, List.filter_append]
    rfl
  · rw [← liveWaiters_later (h.clock ▸ hcast), h.second]
    rw [others, others, dropExpiredWaiters, dropExpiredWaiters, List.filter_filter,
      List.filter_filter]
    exact List.filter_congr fun waiter _ => Bool.and_comm _ _
  · rw [hfront]
    exact h.nodup
  · rw [hfront]
    exact h.served
  · rw [hfront]
    exact h.waiting
  · exact h.granted
  · exact h.attempted

/-! ## The attempts -/

variable {entry : RateWaiter}

theorem registerWaiter_append {front : List RateWaiter} (back : List RateWaiter)
    (hfront : entry.holderId ∉ front.map RateWaiter.holderId) :
    registerWaiter (front ++ back) entry = front ++ registerWaiter back entry := by
  induction front with
  | nil => rfl
  | cons waiter front ih =>
    rw [List.map_cons, List.mem_cons, not_or] at hfront
    rw [List.cons_append, registerWaiter_cons, if_neg (Ne.symm hfront.1), ih hfront.2,
      List.cons_append]

theorem others_append (front back : List RateWaiter) :
    others client (front ++ back) = others client front ++ others client back :=
  List.filter_append _ _

theorem others_cons (hother : entry.holderId ≠ client) (waiters : List RateWaiter) :
    others client (entry :: waiters) = entry :: others client waiters :=
  List.filter_cons_of_pos (by simpa using hother)

/-- The others register in the same way where the client is not. -/
theorem registerWaiter_others (waiters : List RateWaiter) (hother : entry.holderId ≠ client) :
    registerWaiter (others client waiters) entry = others client
      (registerWaiter waiters entry) := by
  induction waiters with
  | nil => exact (others_cons hother []).symm
  | cons waiter waiters ih =>
    rw [others] at ih
    rw [others, registerWaiter_cons]
    by_cases hclient : waiter.holderId = client
    · rw [List.filter_cons_of_neg (by simpa using hclient), if_neg (hclient ▸ hother.symm),
        others, List.filter_cons_of_neg (by simpa using hclient), ih]
      rfl
    · rw [List.filter_cons_of_pos (by simpa using hclient), registerWaiter_cons]
      split_ifs
      · exact (others_cons hother waiters).symm
      · rw [others, List.filter_cons_of_pos (by simpa using hclient), ih]
        rfl

/-- Whoever of the front asks was granted in the second run, and asks only in the first. -/
theorem Simulated.request_first (h : Simulated limiter client s t front back)
    (hclock : s.clock = a.now) (hpatient : Patient limiter client s a)
    (hfirst : (a.holderId, a.acquire) ∉ s.granted) (hsecond : (a.holderId, a.acquire) ∈ t.granted) :
    ∃ front, Simulated limiter client (s.request limiter a) (t.request limiter a) front back := by
  have hnow : (s.clock : Int) = a.now := by rw [hclock]
  have hrefilled := refilled_refilledAt limiter s.slot a.now
  have hrefilled' := refilled_refilledAt limiter t.slot a.now
  obtain ⟨-, hanchor, -⟩ := refilledAt_range limiter s.slot a.now _ rfl
  obtain ⟨record, hslot, htokens, hrecord⟩ := h.written
  have hsame : ∀ now, (a.now : Int) ≤ now → refilledAt limiter t.slot now =
      refillBucket limiter (refilledAt limiter t.slot a.now) now := by
    intro now hlater
    rw [hslot, refilledAt_stored htokens hrecord, refilledAt_stored htokens hrecord,
      refillBucket_refillBucket hlater]
  have hahead := h.bucket a.now hnow.le
  have hlives := h.first
  have hmem := h.waiting _ hsecond hfirst
  rw [hnow] at hlives
  obtain ⟨before, after, hregistered, hbefore, ⟨old, hfront, hold⟩ | ⟨hfront, -⟩⟩ :=
    registerWaiter_cases front ⟨a.holderId, a.now + limiter.waiterTtlMs⟩
  swap
  · -- it is in the front
    obtain ⟨waiter, hwaiter, heq⟩ := List.mem_map.1 hmem
    exact (hbefore waiter (hfront ▸ List.mem_of_mem_filter hwaiter) heq).elim
  have hnot : a.holderId ∉ before.map RateWaiter.holderId := by
    intro hbad
    obtain ⟨waiter, hwaiter, heq⟩ := List.mem_map.1 hbad
    exact hbefore waiter hwaiter heq
  have hall : registerWaiter (liveWaiters limiter s.slot a.now)
      ⟨a.holderId, a.now + limiter.waiterTtlMs⟩ =
        before ++ ⟨a.holderId, a.now + limiter.waiterTtlMs⟩ :: (after ++ back) := by
    rw [hlives, hfront, List.append_assoc]
    exact registerWaiter_at hold hnot
  have hacquire := reduceRateAcquire_of_registered hall hbefore
  have holdOther : old.holderId ≠ client := hold ▸ hpatient.other
  have hothers : others client front = others client before ++ old :: others client after := by
    rw [hfront, others_append, others_cons holdOther]
  have hrest : t.request limiter a = { t with clock := a.now } := if_pos hsecond
  rw [hrest]
  by_cases hgranted : before = [] ∧ 1 ≤ (refilledAt limiter s.slot a.now).tokens
  · obtain ⟨rfl, htoken⟩ := hgranted
    rw [if_pos ⟨rfl, htoken⟩] at hacquire
    rw [Served.request_granted hfirst hacquire rfl]
    have hothers' : others client front = old :: others client after := hothers
    have hnodup := h.nodup
    rw [hothers', List.map_cons, List.nodup_cons] at hnodup
    refine ⟨after, ?_⟩
    constructor
    · rfl
    · exact h.written
    · rw [hothers', List.length_cons] at hahead
      refine ahead_later (hahead.taken_first hrefilled htoken (after ++ back))
        (hrefilled.taken htoken _) hrefilled'
        (fun now _ => refilledAt_stored (by exact (hrefilled.taken htoken []).nonneg)
          (by exact hanchor) now) hsame
    · rw [liveWaiters_stored]
      refine dropExpiredWaiters_live limiter s.slot fun waiter hwaiter => ?_
      rw [hlives, hfront]
      exact List.mem_cons_of_mem old hwaiter
    · exact hclock ▸ h.clock ▸ h.second
    · exact hnodup.2
    · intro waiter hwaiter
      obtain ⟨acquire, hin, hout⟩ := h.served waiter (hothers' ▸ List.mem_cons_of_mem old hwaiter)
      refine ⟨acquire, hin, fun hbad => ?_⟩
      obtain heq | hbad := List.mem_cons.1 hbad
      · refine hnodup.1 (List.mem_map.2 ⟨waiter, hwaiter, ?_⟩)
        exact (Prod.ext_iff.1 heq).1.trans hold.symm
      · exact hout hbad
    · intro p hin hout
      have hpending := h.waiting p hin fun hbad => hout (List.mem_cons_of_mem _ hbad)
      rw [hothers', List.map_cons] at hpending
      obtain heq | hpending := List.mem_cons.1 hpending
      · -- another acquire of the same contender has been granted in the first run too
        have hp : (a.holderId, p.2) = p := Prod.ext (heq.trans hold).symm rfl
        obtain hdone | hcurrent := hpatient.inOrder p.2 (hp.symm ▸ h.attempted hin)
        · exact (hout (List.mem_cons_of_mem _ (hp ▸ hdone))).elim
        · exact (hout (List.mem_cons.2 (.inl (hp ▸ hcurrent ▸ rfl)))).elim
      · exact hpending
    · exact List.cons_subset.2 ⟨hsecond, h.granted⟩
    · exact fun p hp => List.mem_cons_of_mem _ (h.attempted hp)
  · rw [if_neg hgranted] at hacquire
    rw [Served.request_denied hfirst hacquire rfl]
    have hothers' : others client (before ++ ⟨a.holderId, a.now + limiter.waiterTtlMs⟩ :: after) =
        others client before ++ ⟨a.holderId, a.now + limiter.waiterTtlMs⟩ :: others client
          after := by
      rw [others_append, others_cons hpatient.other]
    have hholders : (others client (before ++ ⟨a.holderId, a.now + limiter.waiterTtlMs⟩ ::
        after)).map RateWaiter.holderId = (others client front).map RateWaiter.holderId := by
      rw [hothers, hothers', List.map_append, List.map_append, List.map_cons, List.map_cons, hold]
    have hlength : (others client (before ++ ⟨a.holderId, a.now + limiter.waiterTtlMs⟩ ::
        after)).length = (others client front).length := by
      simpa using congrArg List.length hholders
    refine ⟨before ++ ⟨a.holderId, a.now + limiter.waiterTtlMs⟩ :: after, ?_⟩
    constructor
    · rfl
    · exact h.written
    · rw [hlength]
      exact ahead_later (hahead.queue_first _) (hrefilled.queue _) hrefilled'
        (fun now _ => refilledAt_stored (by exact hrefilled.nonneg) (by exact hanchor) now) hsame
    · rw [liveWaiters_stored, List.append_assoc, List.cons_append]
      refine dropExpiredWaiters_registered limiter s.slot
        (fun waiter hwaiter => ?_) fun waiter hwaiter => ?_
      · rw [hlives, hfront]
        exact List.mem_append_left _ (List.mem_append_left _ hwaiter)
      · rw [hlives, hfront, List.append_assoc]
        exact List.mem_append_right _ (List.mem_cons_of_mem old hwaiter)
    · exact hclock ▸ h.clock ▸ h.second
    · exact hholders ▸ h.nodup
    · intro waiter hwaiter
      have hholder := hholders ▸ List.mem_map_of_mem (f := RateWaiter.holderId) hwaiter
      obtain ⟨same, hin, heq⟩ := List.mem_map.1 hholder
      exact heq ▸ h.served same hin
    · exact fun p hin hout => hholders ▸ h.waiting p hin hout
    · exact h.granted
    · exact fun p hp => List.mem_cons_of_mem _ (h.attempted hp)

/-- Whoever is not of the front asks in both runs, and gets a token in the second if it does in the
first. -/
theorem Simulated.request_both (h : Simulated limiter client s t front back)
    (hclock : s.clock = a.now) (hpatient : Patient limiter client s a)
    (hsecond : (a.holderId, a.acquire) ∉ t.granted) : ∃ front back,
      Simulated limiter client (s.request limiter a) (t.request limiter a) front back := by
  have hnow : (s.clock : Int) = a.now := by rw [hclock]
  have hfirst : (a.holderId, a.acquire) ∉ s.granted := fun hbad => hsecond (h.granted hbad)
  have hrefilled := refilled_refilledAt limiter s.slot a.now
  have hrefilled' := refilled_refilledAt limiter t.slot a.now
  obtain ⟨-, hanchor, -⟩ := refilledAt_range limiter s.slot a.now _ rfl
  obtain ⟨-, hanchor', -⟩ := refilledAt_range limiter t.slot a.now _ rfl
  have hahead := h.bucket a.now hnow.le
  have hlives := h.first
  have hlives' := h.second
  rw [hnow] at hlives
  rw [← h.clock, hnow] at hlives'
  have hnotFront : a.holderId ∉ front.map RateWaiter.holderId := by
    intro hbad
    obtain ⟨waiter, hwaiter, heq⟩ := List.mem_map.1 hbad
    have hin : waiter ∈ others client front :=
      List.mem_filter.2 ⟨hwaiter, decide_eq_true (heq ▸ hpatient.other)⟩
    obtain ⟨acquire, hgranted, hwaits⟩ := h.served waiter hin
    rw [heq] at hgranted hwaits
    obtain hdone | rfl := hpatient.inOrder acquire (h.attempted hgranted)
    · exact hwaits hdone
    · exact hsecond hgranted
  obtain ⟨before, after, hregistered, hbefore, hplace⟩ :=
    registerWaiter_cases back ⟨a.holderId, a.now + limiter.waiterTtlMs⟩
  have hbackLive : ∀ waiter ∈ before ++ after, waiter ∈ back := by
    intro waiter hwaiter
    obtain ⟨old, rfl, -⟩ | ⟨rfl, rfl⟩ := hplace
    · rw [List.mem_append] at hwaiter ⊢
      exact hwaiter.imp_right (List.mem_cons_of_mem old)
    · simpa using hwaiter
  have hall : registerWaiter (liveWaiters limiter s.slot a.now)
      ⟨a.holderId, a.now + limiter.waiterTtlMs⟩ =
        (front ++ before) ++ ⟨a.holderId, a.now + limiter.waiterTtlMs⟩ :: after := by
    rw [hlives, registerWaiter_append back hnotFront, hregistered, List.append_assoc]
  have hall' : registerWaiter (liveWaiters limiter t.slot a.now)
      ⟨a.holderId, a.now + limiter.waiterTtlMs⟩ = others client before ++
        ⟨a.holderId, a.now + limiter.waiterTtlMs⟩ :: others client after := by
    rw [hlives', registerWaiter_others back hpatient.other, hregistered, others_append,
      others_cons hpatient.other]
  have hacquire := reduceRateAcquire_of_registered hall fun waiter hwaiter => by
    obtain hwaiter | hwaiter := List.mem_append.1 hwaiter
    · exact fun heq => hnotFront (List.mem_map.2 ⟨waiter, hwaiter, heq⟩)
    · exact hbefore waiter hwaiter
  have hacquire' := reduceRateAcquire_of_registered hall'
    fun waiter hwaiter => hbefore waiter (List.mem_of_mem_filter hwaiter)
  by_cases hgranted : front ++ before = [] ∧ 1 ≤ (refilledAt limiter s.slot a.now).tokens
  · -- nobody was granted ahead of its time, and the token is there in both runs
    obtain ⟨hnobody, htoken⟩ := hgranted
    obtain ⟨rfl, rfl⟩ := List.append_eq_nil_iff.1 hnobody
    have htoken' : 1 ≤ (refilledAt limiter t.slot a.now).tokens :=
      htoken.trans (hahead.tokens_le hrefilled hrefilled')
    rw [if_pos ⟨rfl, htoken⟩] at hacquire
    rw [if_pos ⟨rfl, htoken'⟩] at hacquire'
    rw [Served.request_granted hfirst hacquire rfl, Served.request_granted hsecond hacquire' rfl]
    refine ⟨[], after, ?_⟩
    constructor
    · rfl
    · exact ⟨_, rfl, (hrefilled'.taken htoken' []).nonneg, hanchor'⟩
    · exact ahead_later ((hahead.taken_second hrefilled' htoken' (others client after)).taken_first
          hrefilled htoken after) (hrefilled.taken htoken _) (hrefilled'.taken htoken' _)
        (fun now _ => refilledAt_stored (by exact (hrefilled.taken htoken []).nonneg)
          (by exact hanchor) now)
        (fun now _ => refilledAt_stored (by exact (hrefilled'.taken htoken' []).nonneg)
          (by exact hanchor') now)
    · rw [liveWaiters_stored]
      refine dropExpiredWaiters_live limiter s.slot fun waiter hwaiter => ?_
      exact hlives ▸ hbackLive waiter hwaiter
    · rw [liveWaiters_stored]
      refine dropExpiredWaiters_live limiter s.slot fun waiter hwaiter => ?_
      exact hlives ▸ hbackLive waiter (List.mem_of_mem_filter hwaiter)
    · exact List.nodup_nil
    · exact fun _ hwaiter => nomatch hwaiter
    · intro p hin hout
      obtain rfl | hin := List.mem_cons.1 hin
      · exact (hout List.mem_cons_self).elim
      · exact h.waiting p hin fun hbad => hout (List.mem_cons_of_mem _ hbad)
    · exact List.cons_subset_cons _ h.granted
    · exact List.cons_subset_cons _ h.attempted
  rw [if_neg hgranted] at hacquire
  rw [Served.request_denied hfirst hacquire rfl]
  have hlive : dropExpiredWaiters ((front ++ before) ++
      ⟨a.holderId, a.now + limiter.waiterTtlMs⟩ :: after) a.now =
        (front ++ before) ++ ⟨a.holderId, a.now + limiter.waiterTtlMs⟩ :: after := by
    refine dropExpiredWaiters_registered limiter s.slot
      (fun waiter hwaiter => ?_) fun waiter hwaiter => ?_
    · rw [hlives]
      rw [List.mem_append] at hwaiter ⊢
      exact hwaiter.imp_right fun hin => hbackLive waiter (List.mem_append_left _ hin)
    · exact hlives ▸ List.mem_append_right _ (hbackLive waiter (List.mem_append_right _ hwaiter))
  have hstored : ∀ now, (a.now : Int) ≤ now → refilledAt limiter
      (some (RateLimitRecord.stored ⟨(refilledAt limiter s.slot a.now).tokens,
        (refilledAt limiter s.slot a.now).refillAnchorAt,
        (front ++ before) ++ ⟨a.holderId, a.now + limiter.waiterTtlMs⟩ :: after⟩)) now =
      refillBucket limiter ⟨(refilledAt limiter s.slot a.now).tokens,
        (refilledAt limiter s.slot a.now).refillAnchorAt,
        (front ++ before) ++ ⟨a.holderId, a.now + limiter.waiterTtlMs⟩ :: after⟩ now :=
    fun now _ => refilledAt_stored (by exact hrefilled.nonneg) (by exact hanchor) now
  by_cases hgranted' : others client before = [] ∧ 1 ≤ (refilledAt limiter t.slot a.now).tokens
  · -- it is granted in the second run, and waits at the end of the front in the first
    obtain ⟨hnobody, htoken⟩ := hgranted'
    rw [if_pos ⟨hnobody, htoken⟩] at hacquire'
    rw [Served.request_granted hsecond hacquire' rfl]
    have hothers : others client (front ++ before ++ [⟨a.holderId, a.now + limiter.waiterTtlMs⟩]) =
        others client front ++ [⟨a.holderId, a.now + limiter.waiterTtlMs⟩] := by
      rw [others_append, others_append, hnobody, List.append_nil, others_cons hpatient.other]
      rfl
    refine ⟨front ++ before ++ [⟨a.holderId, a.now + limiter.waiterTtlMs⟩], after, ?_⟩
    constructor
    · rfl
    · exact ⟨_, rfl, (hrefilled'.taken htoken []).nonneg, hanchor'⟩
    · rw [hothers, List.length_append]
      have hmore := hahead.taken_second hrefilled' htoken (others client after)
      exact ahead_later (hmore.queue_first _) (hrefilled.queue _) (hrefilled'.taken htoken _)
        hstored
        (fun now _ => refilledAt_stored (by exact (hrefilled'.taken htoken []).nonneg)
          (by exact hanchor') now)
    · rw [liveWaiters_stored, List.append_assoc (front ++ before), List.singleton_append]
      exact hlive
    · rw [liveWaiters_stored]
      refine dropExpiredWaiters_live limiter s.slot fun waiter hwaiter => ?_
      exact hlives ▸ List.mem_append_right _
        (hbackLive waiter (List.mem_append_right _ (List.mem_of_mem_filter hwaiter)))
    · rw [hothers, List.map_append, List.nodup_append]
      refine ⟨h.nodup, List.nodup_singleton _, fun x hx y hy => ?_⟩
      obtain rfl : y = a.holderId := List.mem_singleton.1 hy
      obtain ⟨waiter, hwaiter, rfl⟩ := List.mem_map.1 hx
      exact fun heq => hnotFront (List.mem_map.2 ⟨waiter, List.mem_of_mem_filter hwaiter, heq⟩)
    · intro waiter hwaiter
      rw [hothers] at hwaiter
      obtain hwaiter | hwaiter := List.mem_append.1 hwaiter
      · obtain ⟨acquire, hin, hout⟩ := h.served waiter hwaiter
        exact ⟨acquire, List.mem_cons_of_mem _ hin, hout⟩
      · obtain rfl := List.mem_singleton.1 hwaiter
        exact ⟨a.acquire, List.mem_cons_self, hfirst⟩
    · intro p hin hout
      rw [hothers, List.map_append, List.mem_append]
      obtain rfl | hin := List.mem_cons.1 hin
      · exact .inr List.mem_cons_self
      · exact .inl (h.waiting p hin hout)
    · exact fun p hp => List.mem_cons_of_mem _ (h.granted hp)
    · exact List.cons_subset_cons _ h.attempted
  · rw [if_neg hgranted'] at hacquire'
    rw [Served.request_denied hsecond hacquire' rfl]
    refine ⟨front, before ++ ⟨a.holderId, a.now + limiter.waiterTtlMs⟩ :: after, ?_⟩
    have hothers : others client (before ++ ⟨a.holderId, a.now + limiter.waiterTtlMs⟩ :: after) =
        others client before ++ ⟨a.holderId, a.now + limiter.waiterTtlMs⟩ :: others client
          after := by
      rw [others_append, others_cons hpatient.other]
    constructor
    · rfl
    · exact ⟨_, rfl, hrefilled'.nonneg, hanchor'⟩
    · exact ahead_later ((hahead.queue_first _).queue_second _) (hrefilled.queue _)
        (hrefilled'.queue _)
        hstored
        (fun now _ => refilledAt_stored (by exact hrefilled'.nonneg) (by exact hanchor') now)
    · rw [liveWaiters_stored, ← List.append_assoc]
      exact hlive
    · rw [liveWaiters_stored, hothers]
      refine dropExpiredWaiters_registered limiter s.slot
        (fun waiter hwaiter => ?_) fun waiter hwaiter => ?_
      · exact hlives ▸ List.mem_append_right _
          (hbackLive waiter (List.mem_append_left _ (List.mem_of_mem_filter hwaiter)))
      · exact hlives ▸ List.mem_append_right _
          (hbackLive waiter (List.mem_append_right _ (List.mem_of_mem_filter hwaiter)))
    · exact h.nodup
    · exact h.served
    · exact h.waiting
    · exact h.granted
    · exact fun p hp => List.mem_cons_of_mem _ (h.attempted hp)

theorem Simulated.step {s t s' : Served} (h : Simulated limiter client s t front back)
    (hpatient : Patient limiter client s a)
    (hstep : (Weft.RateLimit.served limiter).step s a = some s') :
    ∃ t' front back, (Weft.RateLimit.served limiter).step t a = some t' ∧
      Simulated limiter client s' t' front back := by
  simp only [Weft.RateLimit.served, Option.ite_none_right_eq_some, Option.some.injEq] at hstep
  obtain ⟨hclock, rfl⟩ := hstep
  refine ⟨t.request limiter a, ?_⟩
  simp only [Weft.RateLimit.served, if_pos (h.clock ▸ hclock), true_and]
  have hwait := h.wait hclock hpatient.kept
  have hpatient' : Patient limiter client { s with clock := a.now } a := by
    refine ⟨hpatient.other, hpatient.inOrder, fun waiter hwaiter _ => ?_⟩
    rw [liveWaiters_eq] at hwaiter
    exact of_decide_eq_true (List.mem_filter.1 hwaiter).2
  by_cases hsecond : (a.holderId, a.acquire) ∈ t.granted
  · by_cases hfirst : (a.holderId, a.acquire) ∈ s.granted
    · refine ⟨dropExpiredWaiters front a.now, dropExpiredWaiters back a.now, ?_⟩
      rw [Served.request, if_pos hfirst, Served.request, if_pos hsecond]
      exact hwait
    · obtain ⟨front', hsimulated⟩ := hwait.request_first rfl hpatient' hfirst hsecond
      exact ⟨front', _, hsimulated⟩
  · exact hwait.request_both rfl hpatient' hsecond

theorem Simulated.run {requests : List Request} (h : Simulated limiter client s t front back)
    (hpatient : (Weft.RateLimit.served limiter).EveryStep (Patient limiter client) s requests) :
    ((Weft.RateLimit.served limiter).final s requests).granted ⊆
      ((Weft.RateLimit.served limiter).final t requests).granted := by
  induction requests generalizing s t front back with
  | nil => exact h.granted
  | cons a requests ih =>
    cases hs : (Weft.RateLimit.served limiter).step s a with
    | none =>
      have ht : (Weft.RateLimit.served limiter).step t a = none := by
        simp only [Weft.RateLimit.served, ← h.clock] at hs ⊢
        split_ifs at hs ⊢
        rfl
      simpa only [Machine.final, hs, ht] using h.granted
    | some s' =>
      obtain ⟨hstep, hrest⟩ := (Machine.everyStep_cons_some hs).1 hpatient
      obtain ⟨t', front', back', ht, hsimulated⟩ := h.step hstep hs
      simpa only [Machine.final, hs, ht] using ih hsimulated hrest

/-! ## A withdrawal -/

/-- The bucket is the same after a withdrawal, or, where no anchor was stored, anchored earlier. -/
theorem ahead_withdrawn (limiter : DurableRateLimiter) (record : StoredRecord) (client : JsString)
    {time : Nat} (hnow : (time : Int) ≤ now) :
    Ahead limiter now (refilledAt limiter (some record) now)
      (refilledAt limiter (some (reduceRateWithdraw (some record) client time).stored) now) 0 := by
  obtain ⟨htokens, hanchor⟩ := normalizeRecord_nonneg (some record) le_rfl time
  rw [refilledAt_stored (by exact htokens) (by exact hanchor), refilledAt]
  have hlevel := fun record => @level_refillBucket limiter record now now le_rfl
  cases hstored : record.refillAnchorAt.filter (0 ≤ ·) with
  | some anchor =>
    have hsame : (refillBucket limiter (normalizeRecord (some record) limiter.capacity now) now) =
        { refillBucket limiter (reduceRateWithdraw (some record) client time) now with
          waiters := record.waiters.getD [] } := by
      simp only [refillBucket, refill, normalizeRecord, reduceRateWithdraw, hstored,
        Option.getD_some]
      split_ifs
      all_goals rfl
    have hbucket := congrArg RateLimitRecord.refillAnchorAt hsame
    refine ⟨?_, le_max_of_le_right hbucket.ge⟩
    rw [Nat.cast_zero, zero_mul, add_zero]
    exact (congrArg (level limiter · now) hsame).le
  | none =>
    have hfirst : (normalizeRecord (some record) limiter.capacity now).refillAnchorAt = now := by
      simp only [normalizeRecord, hstored, Option.getD_none]
    have hsecond : (reduceRateWithdraw (some record) client time).refillAnchorAt = time := by
      simp only [reduceRateWithdraw, normalizeRecord, hstored, Option.getD_none]
    constructor
    · rw [Nat.cast_zero, zero_mul, add_zero]
      refine ((hlevel _).trans_le ?_).trans_eq (hlevel _).symm
      rw [level, level, hfirst, hsecond, sub_self, max_self]
      exact min_le_min_left _ (add_le_add_right (le_max_left 0 _) _)
    · exact le_max_of_le_left (refillBucket_anchor_le (hsecond.trans_le hnow))

theorem initial_simulated (limiter : DurableRateLimiter) (record : StoredRecord) (client : JsString)
    (time : Nat) : Simulated limiter client ⟨some record, time, [], []⟩
      ⟨some (reduceRateWithdraw (some record) client time).stored, time, [], []⟩ []
      (liveWaiters limiter (some record) time) := by
  constructor
  · rfl
  · obtain ⟨htokens, hanchor⟩ := normalizeRecord_nonneg (some record) le_rfl time
    exact ⟨_, rfl, htokens, hanchor⟩
  · exact fun now hnow => ahead_withdrawn limiter record client hnow
  · rfl
  · rw [liveWaiters_stored, liveWaiters_eq]
    refine List.filter_eq_self.2 fun waiter hwaiter => ?_
    exact (List.mem_filter.1 (List.mem_of_mem_filter hwaiter)).2
  · exact List.nodup_nil
  · exact fun _ hwaiter => nomatch hwaiter
  · exact fun _ hin => nomatch hin
  · exact List.nil_subset _
  · exact List.nil_subset _

/-- Where a record is stored and no entry of others runs out, each acquire of others that is granted
without the withdrawal is granted with it, by the same attempt or by an earlier one. -/
theorem granted_after_withdraw (limiter : DurableRateLimiter) (record : StoredRecord)
    (client : JsString) (time : Nat) (requests : List Request)
    (hpatient : (served limiter).EveryStep (Patient limiter client) ⟨some record, time, [], []⟩
      requests) (n : Nat) :
    ((served limiter).final ⟨some record, time, [], []⟩ (requests.take n)).granted ⊆
      ((served limiter).final
        ⟨some (reduceRateWithdraw (some record) client time).stored, time, [], []⟩
        (requests.take n)).granted :=
  (initial_simulated limiter record client time).run (hpatient.take n)

/-! ## Two slots with one contender that withdraws -/

/-- `b` comes after `a`, and waits until the entry of `a` runs out or `a` withdraws. -/
def besideA : List Request := [⟨js "b", 0, 4000⟩, ⟨js "b", 0, 8000⟩]

theorem granted_besideA :
    ((served tenSeconds).final ⟨some ⟨some 1, some 0, some [⟨js "a", 7000⟩]⟩, 2000, [], []⟩
        (besideA.take 2)).granted ⊆
      ((served tenSeconds).final
        ⟨some (reduceRateWithdraw (some ⟨some 1, some 0, some [⟨js "a", 7000⟩]⟩)
          (js "a") 2000).stored,
          2000, [], []⟩ (besideA.take 2)).granted :=
  granted_after_withdraw tenSeconds ⟨some 1, some 0, some [⟨js "a", 7000⟩]⟩ (js "a") 2000 besideA
    (by
      refine ⟨⟨by decide, fun _ hasked => (List.not_mem_nil hasked).elim, by decide⟩,
        ⟨by decide, fun acquire hasked => .inr ?_, by decide⟩, trivial⟩
      have hone : (js "b", acquire) ∈ [(js "b", 0)] := hasked
      exact congrArg Prod.snd (List.mem_singleton.1 hone)) 2

theorem single_token_pos : (0 : Int) < 1 := by decide

theorem four_seconds_pos : (0 : Int) < 4000 := by decide

theorem two_seconds_pos : (0 : Int) < 2000 := by decide

/-- The entries last two seconds, and a token comes every four. -/
def shortEntries : DurableRateLimiter :=
  ⟨1, 4000, 2000, single_token_pos, four_seconds_pos, two_seconds_pos⟩

/-- Where `a` withdraws `d` is granted, which had only waited before; `c` comes after the entry of
`d` has run out, and finds the token taken. -/
theorem denied_after_withdraw :
    (js "c", 0) ∈ ((served shortEntries).final
        ⟨some ⟨some 1, some 0, some [⟨js "a", 7000⟩]⟩, 2000, [], []⟩
        [⟨js "d", 0, 4000⟩, ⟨js "c", 0, 7000⟩]).granted ∧
      (js "c", 0) ∉ ((served shortEntries).final
        ⟨some (reduceRateWithdraw (some ⟨some 1, some 0, some [⟨js "a", 7000⟩]⟩)
          (js "a") 2000).stored,
          2000, [], []⟩ [⟨js "d", 0, 4000⟩, ⟨js "c", 0, 7000⟩]).granted := by
  decide

end Weft.RateLimit
