import Weft.Lock.Exclusion

/-! First come, first served: a waiter that keeps asking is not overtaken, and one that has
stopped asking is ignored when its entry has run out. -/

namespace Weft.Lock
open Weft.Js Weft.Lib

universe u

variable {Time : Type u} [LinearOrder Time]

/-! ## Runs with the order of grants -/

/-- The lock, and the clients in the order in which they were granted a permit. -/
structure FairState (Time : Type u) where
  lock : LockState Time
  served : List JsString

def LockCall.isAcquire : LockCall Time → Bool
  | .acquire _ _ => true
  | _ => false

def LockCall.isRelease : LockCall Time → Bool
  | .release _ => true
  | _ => false

/-- What the reducers stamp on entries without an expiry. -/
def LockStep.fallback (clock : Clock Time) (step : LockStep Time) : Time :=
  match step.call with
  | .acquire leaseMs waiterTtlMs | .renew leaseMs waiterTtlMs =>
    clock.add step.now (waiterTtlMs.getD (max clock.minWaiterTtl leaseMs))
  | .release waiterTtlMs => clock.add step.now (waiterTtlMs.getD clock.minWaiterTtl)

/-- The step is an acquire that succeeds. -/
def grants (clock : Clock Time) (permits : Nat) (state : LockState Time) (step : LockStep Time) :
    Bool :=
  match step.call with
  | .acquire leaseMs waiterTtlMs =>
    (reduceAcquire clock state.record step.holderId step.now leaseMs permits waiterTtlMs).2.acquired
  | _ => false

def fairMachine (clock : Clock Time) (permits : Nat) :
    Machine (FairState Time) (LockStep Time) where
  step state step := ((lockMachine clock permits).step state.lock step).map fun lock =>
    ⟨lock, if grants clock permits state.lock step then state.served ++ [step.holderId]
      else state.served⟩

/-! ## No overtaking -/

/-- `a` stands in the queue, and `b` not before it. -/
def QueuedBefore (a b : JsString) (queue : List JsString) : Prop :=
  ∃ before after, queue = before ++ a :: after ∧ b ∉ before

/-- `a` waits, and `b` has no permit and is not before it in the queue. -/
def AheadOf (a b : JsString) (record : LockRecord Time) : Prop :=
  QueuedBefore a b (record.waiters.map (·.holderId)) ∧
    ∀ holder ∈ record.holders, holder.holderId ≠ b

/-- The client gives up its place. -/
def Leaves (a : JsString) (step : LockStep Time) : Prop :=
  step.holderId = a ∧ step.call.isRelease = true

/-- Until it is served, `a` does not give up, and asks again before its entry runs out. -/
def Refreshing (clock : Clock Time) (a : JsString) (state : FairState Time)
    (step : LockStep Time) : Prop :=
  a ∉ state.served →
    (∀ waiter ∈ (normalizeRecord state.lock.record (step.fallback clock)).waiters,
      waiter.holderId = a → step.now < waiter.expiresAt) ∧
    ¬ Leaves a step

instance (clock : Clock Time) (a : JsString) (state : FairState Time) (step : LockStep Time) :
    Decidable (Refreshing clock a state step) :=
  inferInstanceAs (Decidable (_ → _ ∧ ¬ (_ ∧ _)))

section

omit [LinearOrder Time]

variable {a b : JsString}

variable {queue : List JsString}

theorem QueuedBefore.filter (h : QueuedBefore a b queue) {p : JsString → Bool} (hp : p a = true) :
    QueuedBefore a b (queue.filter p) := by
  obtain ⟨before, after, rfl, hb⟩ := h
  refine ⟨before.filter p, after.filter p, ?_, fun hmem => hb (List.mem_of_mem_filter hmem)⟩
  rw [List.filter_append, List.filter_cons_of_pos hp]

theorem QueuedBefore.append (h : QueuedBefore a b queue) (more : List JsString) :
    QueuedBefore a b (queue ++ more) := by
  obtain ⟨before, after, rfl, hb⟩ := h
  exact ⟨before, after ++ more, by simp, hb⟩

variable {waiters : List (LockWaiter Time)}

theorem QueuedBefore.register (h : QueuedBefore a b (waiters.map (·.holderId)))
    (entry : LockWaiter Time) :
    QueuedBefore a b ((registerWaiter waiters entry).map (·.holderId)) := by
  rcases registerWaiter_cases waiters entry with ⟨before, old, after, rfl, hid, hset⟩ | ⟨-, hset⟩
  · rw [hset, List.map_append, List.map_cons, ← hid, ← List.map_cons, ← List.map_append]
    exact h
  · rw [hset, List.map_append]
    exact h.append _

/-- Whoever is first in line is not `b`, and if it is not `a`, then `a` is still in the rest. -/
theorem QueuedBefore.tail {first : JsString} {rest : List JsString} (hab : a ≠ b)
    (h : QueuedBefore a b (first :: rest)) : first ≠ b ∧ (first ≠ a → QueuedBefore a b rest) := by
  obtain ⟨before, after, heq, hb⟩ := h
  cases before with
  | nil =>
    obtain ⟨rfl, rfl⟩ := List.cons.inj heq
    exact ⟨hab, fun hne => (hne rfl).elim⟩
  | cons x before =>
    obtain ⟨rfl, rfl⟩ := List.cons.inj heq
    exact ⟨fun hfirst => hb (hfirst ▸ List.mem_cons_self),
      fun _ => ⟨before, after, rfl, fun hmem => hb (List.mem_cons_of_mem _ hmem)⟩⟩

theorem QueuedBefore.leave (h : QueuedBefore a b (waiters.map (·.holderId))) {holderId : JsString}
    (hid : a ≠ holderId) :
    QueuedBefore a b ((waiters.filter fun waiter => waiter.holderId ≠ holderId).map
      (·.holderId)) := by
  have hfilter := h.filter (p := fun id => decide (id ≠ holderId)) (decide_eq_true hid)
  rwa [List.filter_map] at hfilter

end

variable {a b : JsString} {waiters : List (LockWaiter Time)}

/-- Entries run out, but not that of `a`. -/
theorem QueuedBefore.live {now : Time} (h : QueuedBefore a b (waiters.map (·.holderId)))
    (hfresh : ∀ waiter ∈ waiters, waiter.holderId = a → now < waiter.expiresAt) :
    QueuedBefore a b ((dropExpiredWaiters waiters now).map (·.holderId)) := by
  obtain ⟨before, after, heq, hb⟩ := h
  obtain ⟨front, back, rfl, hfront, hback⟩ := List.map_eq_append_iff.1 heq
  obtain ⟨entry, back, rfl, rfl, rfl⟩ := List.map_eq_cons_iff.1 hback
  have hentry : now < entry.expiresAt := hfresh entry (by simp) rfl
  refine ⟨(dropExpiredWaiters front now).map (·.holderId),
    (dropExpiredWaiters back now).map (·.holderId), ?_, fun hmem => hb ?_⟩
  · simp [dropExpiredWaiters, hentry]
  · rw [← hfront]
    exact (List.filter_sublist.map _).subset hmem

variable {record : LockRecord Time}

theorem AheadOf.live {now : Time} (h : AheadOf a b record)
    (hfresh : ∀ waiter ∈ record.waiters, waiter.holderId = a → now < waiter.expiresAt) :
    AheadOf a b (live record now) :=
  ⟨h.1.live hfresh, fun holder hholder => h.2 holder (List.mem_of_mem_filter hholder)⟩

variable {clock : Clock Time} {permits : Nat}

/-- If it is not `a` that is granted a permit, then it is not `b` either. -/
theorem acquire_ahead (hab : a ≠ b) {current : Option (StoredRecord Time)} {holderId : JsString}
    {now leaseMs : Time} {waiterTtlMs : Option Time}
    (hahead : AheadOf a b (live (normalizeRecord current (clock.add now (waiterTtlMs.getD
      (max clock.minWaiterTtl leaseMs)))) now))
    (hnot : ¬ (holderId = a ∧ (reduceAcquire clock current holderId now leaseMs permits
      waiterTtlMs).2.acquired = true)) : ¬ (holderId = b ∧
      (reduceAcquire clock current holderId now leaseMs permits waiterTtlMs).2.acquired = true) ∧
      AheadOf a b (reduceAcquire clock current holderId now leaseMs permits waiterTtlMs).1 := by
  generalize hrecord : live (normalizeRecord current _) now = record at hahead
  obtain ⟨hqueue, hholders⟩ := hahead
  rcases reduceAcquire_cases clock current holderId now leaseMs permits waiterTtlMs rfl hrecord
    with ⟨before, old, after, heq, hid, hreduce⟩ |
      ⟨-, ⟨first, rest, -, hid, hwaiters, hreduce⟩ | ⟨-, position, hreduce⟩⟩
  · rw [hreduce] at hnot ⊢
    have hb : holderId ≠ b := by
      rw [← hid]
      exact hholders old (heq ▸ List.mem_append_right _ List.mem_cons_self)
    have ha : a ≠ holderId := fun heq => hnot ⟨heq.symm, rfl⟩
    refine ⟨fun h => hb h.1, hqueue.leave ha, fun holder hholder => ?_⟩
    rcases List.mem_append.1 hholder with hholder | hholder
    · exact hholders holder (heq ▸ List.mem_append_left _ hholder)
    · rcases List.mem_cons.1 hholder with rfl | hholder
      · exact hb
      · exact hholders holder (heq ▸ List.mem_append_right _ (List.mem_cons_of_mem _ hholder))
  · rw [hreduce] at hnot ⊢
    have hregistered := hqueue.register
      ⟨holderId, clock.add now (waiterTtlMs.getD (max clock.minWaiterTtl leaseMs))⟩
    rw [hwaiters, List.map_cons] at hregistered
    obtain ⟨hb, hrest⟩ := hregistered.tail hab
    rw [hid] at hb hrest
    refine ⟨fun h => hb h.1, hrest fun heq => hnot ⟨heq, rfl⟩, fun holder hholder => ?_⟩
    rcases List.mem_append.1 hholder with hholder | hholder
    · exact hholders holder hholder
    · rw [List.mem_singleton.1 hholder]
      exact hb
  · rw [hreduce]
    exact ⟨fun h => Bool.false_ne_true h.2, hqueue.register _, hholders⟩

variable {state : LockState Time} {step : LockStep Time}

/-- As long as `a` is not served, it stays ahead of `b`, and `b` is not served. -/
theorem aheadOf_step (hab : a ≠ b)
    (hahead : AheadOf a b (normalizeRecord state.record (step.fallback clock)))
    (hfresh : ∀ waiter ∈ (normalizeRecord state.record (step.fallback clock)).waiters,
      waiter.holderId = a → step.now < waiter.expiresAt) (hstays : ¬ Leaves a step)
    (hnot : ¬ (step.holderId = a ∧ grants clock permits state step = true)) :
    ¬ (step.holderId = b ∧ grants clock permits state step = true) ∧
      ∃ record, (lockStep clock permits state step).record = some record.stored ∧
        AheadOf a b record := by
  have hlive := hahead.live hfresh
  obtain ⟨holderId, now, call⟩ := step
  cases call with
  | acquire leaseMs waiterTtlMs =>
    obtain ⟨hb, hnext⟩ := acquire_ahead hab hlive hnot
    exact ⟨hb, _, rfl, hnext⟩
  | release waiterTtlMs =>
    have ha : a ≠ holderId := fun heq => hstays ⟨heq.symm, rfl⟩
    refine ⟨fun h => Bool.false_ne_true h.2, _, rfl, hlive.1.leave ha, fun holder hholder => ?_⟩
    exact hlive.2 holder (List.mem_of_mem_filter hholder)
  | renew leaseMs waiterTtlMs =>
    refine ⟨fun h => Bool.false_ne_true h.2, _, rfl, hahead.1, fun holder hholder => ?_⟩
    obtain ⟨old, hold, rfl⟩ := List.mem_map.1 hholder
    have hb : old.holderId ≠ b := hlive.2 old hold
    split_ifs with hid
    · rw [hid] at hb
      exact hb
    · exact hb

theorem served_step (hab : a ≠ b) {state next : FairState Time}
    (h : a ∈ state.served ∨ b ∉ state.served ∧ ∀ fallback,
      AheadOf a b (normalizeRecord state.lock.record fallback))
    (hfresh : Refreshing clock a state step)
    (hstep : (fairMachine clock permits).step state step = some next) :
    a ∈ next.served ∨ b ∉ next.served ∧
      ∀ fallback, AheadOf a b (normalizeRecord next.lock.record fallback) := by
  obtain ⟨lock, hlock, rfl⟩ := Option.map_eq_some_iff.1 hstep
  simp only [lockMachine] at hlock
  split_ifs at hlock
  cases hlock
  have hkeep : ∀ id ∈ state.served, id ∈ if grants clock permits state.lock step then
      state.served ++ [step.holderId] else state.served := by
    intro id hid
    split_ifs
    · exact List.mem_append_left _ hid
    · exact hid
  by_cases ha : a ∈ state.served
  · exact .inl (hkeep a ha)
  · obtain ⟨hb, hahead⟩ := h.resolve_left ha
    obtain ⟨hunexpired, hstays⟩ := hfresh ha
    by_cases hgrant : step.holderId = a ∧ grants clock permits state.lock step = true
    · left
      rw [if_pos hgrant.2, hgrant.1]
      exact List.mem_append_right _ List.mem_cons_self
    · obtain ⟨hnot, record, hrecord, hnext⟩ := aheadOf_step hab (hahead _) hunexpired hstays hgrant
      refine .inr ⟨?_, fun fallback => ?_⟩
      · split_ifs with hgranted
        · intro hmem
          rcases List.mem_append.1 hmem with hmem | hmem
          · exact hb hmem
          · exact hnot ⟨(List.mem_singleton.1 hmem).symm, hgranted⟩
        · exact hb
      · show AheadOf a b (normalizeRecord (lockStep clock permits state.lock step).record fallback)
        rw [hrecord, normalizeRecord_stored]
        exact hnext

/-! ## Waiters that are gone -/

/-- The record as it would be if `w` did not wait. -/
def withoutWaiter (w : JsString) (record : StoredRecord Time) : StoredRecord Time :=
  { record with waiters := record.waiters.map fun waiters => waiters.filter fun waiter =>
      match waiter with
      | .bare holderId | .entry holderId _ => holderId ≠ w
      | .other => true }

/-- Every entry of `w` has run out by `deadline`. -/
def Fades (w : JsString) (deadline : Time) (waiters : List (LockWaiter Time)) : Prop :=
  ∀ waiter ∈ waiters, waiter.holderId = w → waiter.expiresAt ≤ deadline

/-- Another client that asks gets what it would get if `w` did not wait. -/
def Ignored (clock : Clock Time) (permits : Nat) (w : JsString) (state : LockState Time)
    (step : LockStep Time) : Prop :=
  ∀ leaseMs waiterTtlMs, step.call = .acquire leaseMs waiterTtlMs → step.holderId ≠ w →
    reduceAcquire clock state.record step.holderId step.now leaseMs permits waiterTtlMs =
      reduceAcquire clock (state.record.map (withoutWaiter w)) step.holderId step.now leaseMs
        permits waiterTtlMs

def Asks (w : JsString) (step : LockStep Time) : Prop :=
  step.holderId = w ∧ step.call.isAcquire = true

omit [LinearOrder Time] in
theorem withoutWaiter_stored (w : JsString) (record : LockRecord Time) :
    withoutWaiter w record.stored =
      (⟨record.holders, record.waiters.filter fun waiter => waiter.holderId ≠ w⟩ :
        LockRecord Time).stored := by
  simp only [withoutWaiter, LockRecord.stored, Option.map_some, List.filter_map]
  rfl

variable {w : JsString}

theorem Fades.live {deadline now : Time} (h : Fades w deadline waiters) (hnow : deadline ≤ now) :
    dropExpiredWaiters (waiters.filter fun waiter => waiter.holderId ≠ w) now =
      dropExpiredWaiters waiters now := by
  rw [dropExpiredWaiters, dropExpiredWaiters, List.filter_filter]
  refine List.filter_congr fun waiter hwaiter => ?_
  by_cases hid : waiter.holderId = w
  · have hover : ¬ now < waiter.expiresAt := not_lt.2 ((h waiter hwaiter hid).trans hnow)
    simp [hover]
  · simp [hid]

variable {deadline : Time}

theorem Fades.ignored (h : Fades w deadline record.waiters)
    (hrecord : state.record = some record.stored) (hnow : deadline ≤ step.now) :
    Ignored clock permits w state step := by
  intro leaseMs waiterTtlMs _ _
  rw [hrecord, Option.map_some, withoutWaiter_stored]
  simp only [reduceAcquire, normalizeRecord_stored, h.live hnow]

theorem Fades.register (h : Fades w deadline waiters) (entry : LockWaiter Time)
    (hid : entry.holderId ≠ w) : Fades w deadline (registerWaiter waiters entry) := by
  intro waiter hwaiter hw
  rcases registerWaiter_cases waiters entry with ⟨before, old, after, rfl, -, hset⟩ | ⟨-, hset⟩
  · rw [hset] at hwaiter
    rcases List.mem_append.1 hwaiter with hwaiter | hwaiter
    · exact h waiter (List.mem_append_left _ hwaiter) hw
    · rcases List.mem_cons.1 hwaiter with rfl | hwaiter
      · exact (hid hw).elim
      · exact h waiter (List.mem_append_right _ (List.mem_cons_of_mem _ hwaiter)) hw
  · rw [hset] at hwaiter
    rcases List.mem_append.1 hwaiter with hwaiter | hwaiter
    · exact h waiter hwaiter hw
    · exact (hid (List.mem_singleton.1 hwaiter ▸ hw)).elim

theorem Fades.subset {waiters fewer : List (LockWaiter Time)} (h : Fades w deadline waiters)
    (hsub : fewer ⊆ waiters) : Fades w deadline fewer :=
  fun waiter hwaiter => h waiter (hsub hwaiter)

/-- The entry of a client that does not ask is not renewed. -/
theorem fades_step
    (h : Fades w deadline (normalizeRecord state.record (step.fallback clock)).waiters)
    (hasks : ¬ Asks w step) : ∃ record : LockRecord Time,
      (lockStep clock permits state step).record = some record.stored ∧
      Fades w deadline record.waiters := by
  obtain ⟨holderId, now, call⟩ := step
  cases call with
  | acquire leaseMs waiterTtlMs =>
    have hid : holderId ≠ w := fun heq => hasks ⟨heq, rfl⟩
    refine ⟨_, rfl, ?_⟩
    have hlive := h.subset
      (List.filter_sublist (p := fun waiter => now < waiter.expiresAt)).subset
    have hregistered := hlive.register
      ⟨holderId, clock.add now (waiterTtlMs.getD (max clock.minWaiterTtl leaseMs))⟩ hid
    rcases reduceAcquire_cases clock state.record holderId now leaseMs permits waiterTtlMs rfl rfl
      with ⟨before, old, after, -, -, hreduce⟩ |
        ⟨-, ⟨first, rest, -, -, hwaiters, hreduce⟩ | ⟨-, position, hreduce⟩⟩
    · rw [hreduce]
      exact hlive.subset List.filter_sublist.subset
    · rw [hreduce]
      refine hregistered.subset fun waiter hwaiter => ?_
      exact hwaiters ▸ List.mem_cons_of_mem _ hwaiter
    · rw [hreduce]
      exact hregistered
  | release waiterTtlMs =>
    refine ⟨_, rfl, h.subset ?_⟩
    exact (List.filter_sublist.trans List.filter_sublist).subset
  | renew leaseMs waiterTtlMs => exact ⟨_, rfl, h⟩

theorem fades_registered (hvalid : Valid permits record) (entry : LockWaiter Time) :
    Fades entry.holderId entry.expiresAt (registerWaiter record.waiters entry) := by
  intro waiter hwaiter hid
  rcases registerWaiter_cases record.waiters entry with ⟨before, old, after, heq, hold, hset⟩ |
    ⟨hnone, hset⟩
  · have hids := hvalid.waiters_nodup
    rw [heq, List.map_append, List.map_cons, List.nodup_middle, List.nodup_cons,
      ← List.map_append] at hids
    have hother : waiter ∉ before ++ after := fun hmem => by
      refine hids.1 ?_
      rw [hold, ← hid]
      exact List.mem_map_of_mem hmem
    rw [hset, List.mem_append, List.mem_cons] at hwaiter
    rcases hwaiter with hmem | rfl | hmem
    · exact (hother (List.mem_append_left _ hmem)).elim
    · exact le_refl _
    · exact (hother (List.mem_append_right _ hmem)).elim
  · rw [hset, List.mem_append, List.mem_singleton] at hwaiter
    rcases hwaiter with hmem | rfl
    · exact (hnone waiter hmem hid).elim
    · exact le_refl _

/-- A client that asks is entered until the fallback time, or not at all. -/
theorem fades_asks (hsound : Sound permits state) (hasks : Asks w step) :
    ∃ record : LockRecord Time, (lockStep clock permits state step).record = some record.stored ∧
      Fades w (step.fallback clock) record.waiters := by
  obtain ⟨holderId, now, ⟨leaseMs, waiterTtlMs⟩ | waiterTtlMs | ⟨leaseMs, waiterTtlMs⟩⟩ := step
  case release => exact (Bool.false_ne_true hasks.2).elim
  case renew => exact (Bool.false_ne_true hasks.2).elim
  obtain rfl : holderId = w := hasks.1
  refine ⟨_, rfl, ?_⟩
  have hregistered := fades_registered
    ((hsound.valid (clock.add now (waiterTtlMs.getD (max clock.minWaiterTtl leaseMs)))).live now)
    ⟨holderId, clock.add now (waiterTtlMs.getD (max clock.minWaiterTtl leaseMs))⟩
  rcases reduceAcquire_cases clock state.record holderId now leaseMs permits waiterTtlMs rfl rfl
    with ⟨before, old, after, -, -, hreduce⟩ |
      ⟨-, ⟨first, rest, -, -, hwaiters, hreduce⟩ | ⟨-, position, hreduce⟩⟩
  · rw [hreduce]
    intro waiter hwaiter hid
    exact (of_decide_eq_true (List.mem_filter.1 hwaiter).2 hid).elim
  · rw [hreduce]
    refine hregistered.subset fun waiter hwaiter => ?_
    rw [hwaiters]
    exact List.mem_cons_of_mem _ hwaiter
  · rw [hreduce]
    exact hregistered

/-- After a last request, or after an entry was first seen, a client that does not ask again
is ignored from the time stamped on its entry on. -/
theorem ignored_of_fades (hfades : Fades w deadline record.waiters)
    (hrecord : state.record = some record.stored) {steps : List (LockStep Time)}
    (hstops : ∀ step ∈ steps, ¬ Asks w step) : (lockMachine clock permits).EveryStep
      (fun state step => deadline ≤ step.now → Ignored clock permits w state step) state steps := by
  induction steps generalizing state record with
  | nil => trivial
  | cons step steps ih =>
    cases hstep : (lockMachine clock permits).step state step with
    | none => exact Machine.everyStep_cons_none hstep
    | some next =>
      rw [Machine.everyStep_cons_some hstep]
      refine ⟨fun hnow => hfades.ignored hrecord hnow, ?_⟩
      simp only [lockMachine] at hstep
      split_ifs at hstep
      cases hstep
      have hkept : Fades w deadline
        (normalizeRecord state.record (step.fallback clock)).waiters := by
        rw [hrecord, normalizeRecord_stored]
        exact hfades
      obtain ⟨after, hafter, hnext⟩ := fades_step hkept (hstops step List.mem_cons_self)
      exact ih hnext hafter fun other hother => hstops other (List.mem_cons_of_mem _ hother)

/-! ## Fairness -/

/-- A waiter that keeps asking is served before those behind it, and one that asks no more is
ignored when its entry has run out: an entry without an expiry, one TTL after it is first seen. -/
theorem lock_fair (clock : Clock Time) (permits : Nat) (state : LockState Time)
    (hstart : Sound permits state) :
    (∀ a b, a ≠ b → (∀ fallback, AheadOf a b (normalizeRecord state.record fallback)) →
      ∀ steps, (fairMachine clock permits).EveryStep (Refreshing clock a) ⟨state, []⟩ steps →
        (fairMachine clock permits).EveryState (fun state => b ∈ state.served → a ∈ state.served)
          ⟨state, []⟩ steps) ∧
    ∀ w first next steps, (lockMachine clock permits).step state first = some next →
      (Asks w first ∨ Fades w (first.fallback clock)
        (normalizeRecord state.record (first.fallback clock)).waiters) →
      (∀ step ∈ steps, ¬ Asks w step) →
        (lockMachine clock permits).EveryStep
          (fun state step => first.fallback clock ≤ step.now → Ignored clock permits w state step)
          next steps := by
  constructor
  · intro a b hab hahead steps hfresh
    have hkept : (fairMachine clock permits).EveryState
        (fun state => a ∈ state.served ∨ b ∉ state.served ∧
          ∀ fallback, AheadOf a b (normalizeRecord state.lock.record fallback))
        ⟨state, []⟩ steps :=
      Machine.everyState_of_invariant (fun _ _ _ h hok hstep => served_step hab h hok hstep)
        (.inr ⟨List.not_mem_nil, hahead⟩) hfresh
    exact hkept.mono fun state h hb => h.resolve_right fun hnot => hnot.1 hb
  · intro w first next steps hstep hseen hstops
    simp only [lockMachine] at hstep
    split_ifs at hstep
    cases hstep
    have hfades : ∃ record : LockRecord Time,
        (lockStep clock permits state first).record = some record.stored ∧
        Fades w (first.fallback clock) record.waiters := by
      by_cases hasks : Asks w first
      · exact fades_asks hstart hasks
      · exact fades_step (hseen.resolve_left hasks) hasks
    obtain ⟨record, hrecord, hfades⟩ := hfades
    exact ignored_of_fades hfades hrecord hstops

/-- A record of the old format, with two bare waiters. -/
def legacyQueue : LockState Nat where
  record := some ⟨some [⟨js "a", 100⟩], some [.bare (js "b"), .bare (js "c")]⟩
  now := 0
  grants := [(js "a", 100)]

theorem legacyQueue_sound : Sound 1 legacyQueue := by
  refine ⟨fun fallback => ⟨le_refl 1, List.nodup_singleton _, ?_, ?_⟩, List.nodup_singleton _, ?_⟩
  · show [js "b", js "c"].Nodup
    decide
  · intro holder hholder waiter hwaiter
    obtain rfl := List.mem_singleton.1 hholder
    have hids : ∀ id ∈ [js "b", js "c"], js "a" ≠ id := by decide
    exact hids _ (List.mem_map_of_mem (f := (·.holderId)) hwaiter)
  · intro grant hgrant _ fallback
    obtain rfl := List.mem_singleton.1 hgrant
    exact List.mem_singleton.2 rfl

/-- Both waiters ask; the one behind asks first when the lock is free. -/
def asksInTurn : List (LockStep Nat) :=
  [⟨js "b", 10, .acquire 50 none⟩, ⟨js "c", 20, .acquire 50 none⟩, ⟨js "a", 30, .release none⟩,
    ⟨js "c", 35, .acquire 50 none⟩, ⟨js "b", 40, .acquire 50 none⟩, ⟨js "c", 80, .acquire 50 none⟩,
    ⟨js "c", 95, .acquire 50 none⟩]

/-- The waiter in front never asks. -/
def asksAlone : List (LockStep Nat) :=
  [⟨js "a", 30, .release none⟩, ⟨js "c", 40, .acquire 50 none⟩, ⟨js "c", 60, .acquire 50 none⟩]

theorem lock_fair_legacy :
    ((fairMachine ⟨(· + ·), 30⟩ 1).final ⟨legacyQueue, []⟩ asksInTurn).served =
        [js "b", js "c"] ∧
      ((fairMachine ⟨(· + ·), 30⟩ 1).final ⟨legacyQueue, []⟩
        (⟨js "c", 10, .acquire 50 none⟩ :: asksAlone)).served = [js "c"] ∧
      (fairMachine ⟨(· + ·), 30⟩ 1).EveryState
        (fun state => js "c" ∈ state.served → js "b" ∈ state.served) ⟨legacyQueue, []⟩ asksInTurn ∧
      (lockMachine ⟨(· + ·), 30⟩ 1).EveryStep
        (fun state step => 60 ≤ step.now → Ignored ⟨(· + ·), 30⟩ 1 (js "b") state step)
        (lockStep ⟨(· + ·), 30⟩ 1 legacyQueue ⟨js "c", 10, .acquire 50 none⟩) asksAlone := by
  have hfair := lock_fair ⟨(· + ·), 30⟩ 1 legacyQueue legacyQueue_sound
  refine ⟨by decide, by decide, ?_, ?_⟩
  · refine hfair.1 (js "b") (js "c") (by decide) (fun fallback => ⟨⟨[], [js "c"], rfl, ?_⟩, ?_⟩) _
      (by decide)
    · exact List.not_mem_nil
    · intro holder hholder
      obtain rfl := List.mem_singleton.1 hholder
      show js "a" ≠ js "c"
      decide
  · refine hfair.2 (js "b") ⟨js "c", 10, .acquire 50 none⟩ _ asksAlone rfl (.inr ?_) ?_
    · intro waiter hwaiter _
      have hall : ∀ waiter ∈ [(⟨js "b", 60⟩ : LockWaiter Nat), ⟨js "c", 60⟩],
        waiter.expiresAt ≤ 60 := by decide
      exact hall waiter hwaiter
    · intro step hstep hasks
      have hnone : ∀ step ∈ asksAlone, ¬ (step.holderId = js "b" ∧ step.call.isAcquire = true) := by
        decide
      exact hnone step hstep hasks

end Weft.Lock
