import Weft.RateLimit.Record
import Weft.Lib.Machine

/-! The rate bound. A grant takes a token and a token costs an interval of the anchor, so that
`(grants + tokens) * refillIntervalMs - refillAnchorAt` never grows; where the first grant of a
window finds it is at most `capacity * refillIntervalMs` less the start of the window. -/

namespace Weft.RateLimit
open Weft.Js Weft.Lib

/-! ## Runs of one slot -/

inductive Step where
  | acquire (holderId : JsString) (now : Int)
  | withdraw (holderId : JsString) (now : Int)
deriving DecidableEq

def Step.now : Step → Int
  | .acquire _ now => now
  | .withdraw _ now => now

/-- `clock` is the time of the last step and `grants` the times of all grants, newest first. -/
structure State where
  slot : Option StoredRecord
  clock : Option Int := none
  grants : List Int := []
deriving DecidableEq

variable (limiter : DurableRateLimiter)

def State.advance (s : State) : Step → State
  | .acquire holderId now =>
    let (record, attempt) := reduceRateAcquire limiter s.slot holderId now
    { slot := some record.stored
      clock := some now
      grants := if attempt.granted then now :: s.grants else s.grants }
  | .withdraw holderId now =>
    { s with slot := some (reduceRateWithdraw s.slot holderId now).stored, clock := some now }

/-- The times of a slot's steps do not decrease. -/
def rateMachine : Machine State Step where
  step s a := if ∀ before ∈ s.clock, before ≤ a.now then some (s.advance limiter a) else none

def grantsWithin (grants : List Int) (start : Int) (W : Nat) : Nat :=
  grants.countP fun time => start ≤ time ∧ time ≤ start + W

/-- The stored count is a number from 0 to `capacity`. -/
def StoredInRange (slot : Option StoredRecord) : Prop :=
  ∀ record ∈ slot, ∃ tokens ∈ record.tokens, 0 ≤ tokens ∧ tokens ≤ limiter.capacity

def WithinRate (grants : List Int) : Prop :=
  ∀ start (W : Nat),
    (grantsWithin grants start W : Int) ≤ limiter.capacity + W / limiter.refillIntervalMs

/-! ## The meter -/

def grantsSince (grants : List Int) (start : Int) : Nat :=
  grants.countP fun time => start ≤ time

/-- The account of a bucket at the time `clock`. An anchor that lies ahead of the clock was there
before the first grant, and nothing has accrued since. -/
structure Metered (grants : List Int) (clock tokens anchor : Int) : Prop where
  nonneg : 0 ≤ tokens
  le_capacity : tokens ≤ limiter.capacity
  past : ∀ time ∈ grants, time ≤ clock
  anchored : anchor ≤ clock ∨ grants.length + tokens ≤ limiter.capacity
  cost : ∀ start, grantsSince grants start = 0 ∨
    (grantsSince grants start + tokens) * limiter.refillIntervalMs - anchor ≤
      limiter.capacity * limiter.refillIntervalMs - start

variable {limiter}

theorem grantsSince_le_length (grants : List Int) (start : Int) :
    grantsSince grants start ≤ grants.length := List.countP_le_length

theorem grantsWithin_le_since (grants : List Int) (start : Int) (W : Nat) :
    grantsWithin grants start W ≤ grantsSince grants start := by
  apply List.countP_mono_left
  intro time _ htime
  simp only [decide_eq_true_eq] at htime ⊢
  exact htime.1

variable {grants : List Int}

theorem grantsSince_pos {start : Int} (h : grantsSince grants start ≠ 0) :
    ∃ time ∈ grants, start ≤ time := by
  obtain ⟨time, hmem, htime⟩ := List.countP_pos_iff.1 (Nat.pos_of_ne_zero h)
  exact ⟨time, hmem, of_decide_eq_true htime⟩

namespace Metered

theorem start {tokens : Int} (hnonneg : 0 ≤ tokens) (hle : tokens ≤ limiter.capacity)
    (clock anchor : Int) : Metered limiter [] clock tokens anchor where
  nonneg := hnonneg
  le_capacity := hle
  past := by simp
  anchored := .inr (by simpa using hle)
  cost := fun _ => .inl rfl

variable {grants : List Int} {clock now tokens anchor : Int}

theorem later (h : Metered limiter grants clock tokens anchor) (hnow : clock ≤ now) :
    Metered limiter grants now tokens anchor := { h with
  past := fun time htime => (h.past time htime).trans hnow
  anchored := h.anchored.imp_left fun hanchor => hanchor.trans hnow }

section

variable (h : Metered limiter grants now tokens anchor)

include h

/-- A bucket may be anchored at the present: what had accrued since is lost, and an anchor
ahead of the clock only comes with a bucket from which no more than `capacity` was ever taken. -/
theorem reanchor : Metered limiter grants now tokens now := { h with
  anchored := .inl le_rfl
  cost := fun start => by
    by_cases hsome : grantsSince grants start = 0
    · exact .inl hsome
    refine .inr ?_
    have hinterval := limiter.refillIntervalMs_pos
    obtain hanchor | htaken := h.anchored
    · have hcost := (h.cost start).resolve_left hsome
      linarith
    · obtain ⟨time, hmem, htime⟩ := grantsSince_pos hsome
      have hstart := htime.trans (h.past time hmem)
      have hcount : (grantsSince grants start : Int) + tokens ≤ limiter.capacity := by
        have := grantsSince_le_length grants start
        omega
      have := mul_le_mul_of_nonneg_right hcount hinterval.le
      linarith }

/-- Tokens that are minted cost the anchor at least their intervals. -/
theorem mint {minted tokens' anchor' : Int} (hnonneg : 0 ≤ tokens')
    (hle : tokens' ≤ limiter.capacity) (hminted : tokens' ≤ tokens + minted)
    (hanchor : anchor + minted * limiter.refillIntervalMs ≤ anchor') (hnow : anchor' ≤ now) :
    Metered limiter grants now tokens' anchor' where
  nonneg := hnonneg
  le_capacity := hle
  past := h.past
  anchored := .inl hnow
  cost := fun start => by
    refine (h.cost start).imp_right fun hcost => ?_
    have hinterval := limiter.refillIntervalMs_pos
    have := mul_le_mul_of_nonneg_right hminted hinterval.le
    linarith

/-- A grant from a bucket that was refilled just now. -/
theorem grant (htoken : 1 ≤ tokens)
    (hfresh : tokens * limiter.refillIntervalMs - anchor ≤
      limiter.capacity * limiter.refillIntervalMs - now) :
    Metered limiter (now :: grants) now (tokens - 1) anchor where
  nonneg := by omega
  le_capacity := by have := h.le_capacity; omega
  past := by simpa using h.past
  anchored := h.anchored.imp_right fun htaken => by
    rw [List.length_cons]
    push_cast
    omega
  cost := fun start => by
    rw [grantsSince, List.countP_cons, ← grantsSince]
    by_cases hstart : start ≤ now
    · rw [if_pos (decide_eq_true hstart)]
      refine .inr ?_
      push_cast
      obtain hzero | hcost := h.cost start
      · rw [hzero]
        push_cast
        linarith
      · linarith
    · refine .inl ?_
      rw [if_neg (by simpa using hstart)]
      by_contra hsome
      obtain ⟨time, hmem, htime⟩ := grantsSince_pos hsome
      exact hstart (htime.trans (h.past time hmem))

end

theorem within (h : Metered limiter grants clock tokens anchor) {start : Int} {W : Nat}
    (hclock : clock ≤ start + W) :
    (grantsWithin grants start W : Int) ≤ limiter.capacity + W / limiter.refillIntervalMs := by
  have hinterval := limiter.refillIntervalMs_pos
  have hle : (grantsWithin grants start W : Int) ≤ grantsSince grants start := by
    exact_mod_cast grantsWithin_le_since grants start W
  have hquotient : 0 ≤ (W : Int) / limiter.refillIntervalMs := by positivity
  have hcapacity := limiter.capacity_pos
  obtain hzero | hcost := h.cost start
  · omega
  obtain hanchor | htaken := h.anchored
  · have htokens := mul_nonneg h.nonneg hinterval.le
    have hcount : ((grantsSince grants start : Int) - limiter.capacity) *
        limiter.refillIntervalMs ≤ W := by linarith
    have := (Int.le_ediv_iff_mul_le hinterval).2 hcount
    omega
  · have := h.nonneg
    have := grantsSince_le_length grants start
    omega

end Metered

/-! ## The reducers -/

variable {record : RateLimitRecord}

theorem refill_metered {now : Int}
    (h : Metered limiter grants now record.tokens record.refillAnchorAt) :
    ∀ refilled, refill record limiter.capacity limiter.refillIntervalMs now = refilled →
      Metered limiter grants now refilled.tokens refilled.refillAnchorAt ∧
        refilled.tokens * limiter.refillIntervalMs - refilled.refillAnchorAt ≤
          limiter.capacity * limiter.refillIntervalMs - now := by
  rintro refilled rfl
  have hinterval := limiter.refillIntervalMs_pos
  have hmod := Int.emod_add_mul_ediv (now - record.refillAnchorAt) limiter.refillIntervalMs
  have hmod0 := Int.emod_nonneg (now - record.refillAnchorAt) hinterval.ne'
  have hmodlt := Int.emod_lt_of_pos (now - record.refillAnchorAt) hinterval
  have hpositive (h : limiter.refillIntervalMs ≤ now - record.refillAnchorAt) :
      0 ≤ (now - record.refillAnchorAt) / limiter.refillIntervalMs :=
    Int.ediv_nonneg (hinterval.le.trans h) hinterval.le
  simp only [refill]
  generalize (now - record.refillAnchorAt) / limiter.refillIntervalMs = minted at *
  split_ifs with hfull helapsed hbecomes
  · have htokens : record.tokens = limiter.capacity := le_antisymm h.le_capacity hfull
    exact ⟨htokens ▸ h.reanchor, le_rfl⟩
  · refine ⟨h, ?_⟩
    have := mul_le_mul_of_nonneg_right (Int.le_sub_one_of_lt (not_le.1 hfull)) hinterval.le
    linarith
  · have hminted := hpositive (not_lt.1 helapsed)
    refine ⟨h.mint ?_ (min_le_left _ _) (min_le_right _ _) (by linarith) le_rfl, ?_⟩
    · exact le_min limiter.capacity_pos.le (add_nonneg h.nonneg hminted)
    · exact sub_le_sub_right (mul_le_mul_of_nonneg_right (min_le_left _ _) hinterval.le) now
  · have hminted := hpositive (not_lt.1 helapsed)
    have hspare : record.tokens + minted ≤ limiter.capacity - 1 := by
      have := min_lt_iff.1 (not_le.1 hbecomes)
      omega
    have hle : record.tokens + minted ≤ limiter.capacity := by omega
    rw [min_eq_right hle]
    refine ⟨h.mint (add_nonneg h.nonneg hminted) hle le_rfl le_rfl (by linarith), ?_⟩
    have := mul_le_mul_of_nonneg_right hspare hinterval.le
    linarith

theorem stored_metered {clock now : Int}
    (h : Metered limiter grants clock record.tokens record.refillAnchorAt) (hnow : clock ≤ now)
    (fallback : Int) :
    ∀ normalized, normalizeRecord (some record.stored) fallback now = normalized →
      Metered limiter grants now normalized.tokens normalized.refillAnchorAt := by
  rintro normalized rfl
  have htokens := Option.filter_some_pos (p := fun x : Int => decide (0 ≤ x))
    (decide_eq_true h.nonneg)
  simp only [normalizeRecord, RateLimitRecord.stored, htokens, Option.getD_some]
  by_cases hanchor : 0 ≤ record.refillAnchorAt
  · simpa [Option.filter, hanchor] using h.later hnow
  · simpa [Option.filter, hanchor] using (h.later hnow).reanchor

theorem reduceRateAcquire_cases (current : Option StoredRecord) (holderId : JsString) (now : Int)
    {refilled : RateLimitRecord}
    (hrefilled : refill (normalizeRecord current limiter.capacity now) limiter.capacity
      limiter.refillIntervalMs now = refilled) :
    (∃ waiters, 1 ≤ refilled.tokens ∧ reduceRateAcquire limiter current holderId now =
      (⟨refilled.tokens - 1, refilled.refillAnchorAt, waiters⟩, ⟨true, -1, -1⟩)) ∨
    ∃ waiters position retryAfterMs, reduceRateAcquire limiter current holderId now =
      (⟨refilled.tokens, refilled.refillAnchorAt, waiters⟩, ⟨false, position, retryAfterMs⟩) := by
  simp only [reduceRateAcquire, hrefilled]
  split_ifs with hgranted
  · exact .inl ⟨_, hgranted.2, rfl⟩
  · exact .inr ⟨_, _, _, rfl⟩

/-! ## Runs -/

/-- Whenever the next step comes and whatever it reads in an empty slot, the account is right. -/
structure Inv (limiter : DurableRateLimiter) (s : State) : Prop where
  inRange : StoredInRange limiter s.slot
  rate : WithinRate limiter s.grants
  metered : ∀ now fallback, (∀ before ∈ s.clock, before ≤ now) → 0 ≤ fallback →
    fallback ≤ limiter.capacity → ∀ record, normalizeRecord s.slot fallback now = record →
      Metered limiter s.grants now record.tokens record.refillAnchorAt

theorem Inv.start {slot : Option StoredRecord} (h : StoredInRange limiter slot) :
    Inv limiter ⟨slot, none, []⟩ where
  inRange := h
  rate := fun start W => by
    have := limiter.capacity_pos
    have := Int.ediv_nonneg (Int.natCast_nonneg W) limiter.refillIntervalMs_pos.le
    simp only [grantsWithin, List.countP_nil]
    omega
  metered := by
    rintro now fallback - hfallback hle record rfl
    cases slot with
    | none => exact Metered.start hfallback hle now now
    | some record =>
      obtain ⟨tokens, htokens, hnonneg, hcapacity⟩ := h record rfl
      have : (record.tokens.filter (0 ≤ ·)).getD 0 = tokens := by
        rw [htokens]
        simp [Option.filter, hnonneg]
      simp only [normalizeRecord, this]
      exact Metered.start hnonneg hcapacity now _

/-- A step at the time `now` that leaves `record` in the slot. -/
theorem Inv.after {now : Int} (hrate : ∀ start (W : Nat), start + W < now →
      (grantsWithin grants start W : Int) ≤ limiter.capacity + W / limiter.refillIntervalMs)
    (h : Metered limiter grants now record.tokens record.refillAnchorAt) :
    Inv limiter ⟨some record.stored, some now, grants⟩ where
  inRange := by
    rintro stored hstored
    cases hstored
    exact ⟨record.tokens, rfl, h.nonneg, h.le_capacity⟩
  rate := fun start W => by
    by_cases hnow : now ≤ start + W
    · exact h.within hnow
    · exact hrate start W (not_le.1 hnow)
  metered := by
    intro later fallback hlater _ _ normalized hnormalized
    exact stored_metered h (hlater now rfl) fallback normalized hnormalized

theorem step_inv {s t : State} {a : Step} (h : Inv limiter s)
    (hstep : (rateMachine limiter).step s a = some t) : Inv limiter t := by
  simp only [rateMachine, Option.ite_none_right_eq_some, Option.some.injEq] at hstep
  obtain ⟨hnow, rfl⟩ := hstep
  cases a with
  | withdraw holderId now =>
    have hmetered := h.metered now 0 hnow le_rfl limiter.capacity_pos.le _ rfl
    exact Inv.after (fun start W _ => h.rate start W) hmetered
  | acquire holderId now =>
    have hmetered := h.metered now limiter.capacity hnow limiter.capacity_pos.le le_rfl _ rfl
    obtain ⟨hrefilled, hfresh⟩ := refill_metered hmetered _ rfl
    obtain ⟨waiters, htoken, heq⟩ | ⟨waiters, position, retryAfterMs, heq⟩ :=
      reduceRateAcquire_cases s.slot holderId now rfl
    · rw [State.advance, heq]
      refine Inv.after (fun start W hlate => ?_) (hrefilled.grant htoken hfresh)
      have hsame : grantsWithin (now :: s.grants) start W = grantsWithin s.grants start W := by
        rw [grantsWithin, List.countP_cons_of_neg, ← grantsWithin]
        simp only [decide_eq_true_eq]
        omega
      rw [if_pos rfl, hsame]
      exact h.rate start W
    · rw [State.advance, heq]
      exact Inv.after (fun start W _ => h.rate start W) hrefilled

/-- **The rate bound.** In every run of a slot that starts absent or with a count in range, the
stored count stays in range and every closed window of `W` milliseconds has at most
`capacity + W / refillIntervalMs` grants. -/
theorem rate_bounded (slot : Option StoredRecord) (hslot : StoredInRange limiter slot)
    (steps : List Step) :
    (rateMachine limiter).EveryState
      (fun s => StoredInRange limiter s.slot ∧ WithinRate limiter s.grants)
      ⟨slot, none, []⟩ steps := by
  have hinv := Machine.everyState_of_invariant (M := rateMachine limiter) (I := Inv limiter)
    (fun s a t hs _ hstep => step_inv hs hstep) (Inv.start hslot) (Machine.everyStep_true steps _)
  exact hinv.mono fun s hs => ⟨hs.inRange, hs.rate⟩

/-- One token every 30 seconds. -/
def hostLimiter : DurableRateLimiter := ⟨1, 30000, 120000, by decide, by decide, by decide⟩

theorem rate_bounded_host :
    (rateMachine hostLimiter).EveryState
      (fun s => StoredInRange hostLimiter s.slot ∧ WithinRate hostLimiter s.grants)
      ⟨none, none, []⟩ [.acquire (js "a") 1000, .acquire (js "b") 2000, .acquire (js "b") 31000] :=
  rate_bounded none (by simp [StoredInRange]) _

end Weft.RateLimit
