import Weft.Lock.Record
import Weft.Lib.Machine

/-! Mutual exclusion: whatever is reduced, in whatever order, a record has at most as many
holders as there are permits, and so have the clients whose grants are not over. -/

namespace Weft.Lock
open Weft.Js Weft.Lib

universe u

variable {Time : Type u}

@[simp] theorem normalizeRecord_stored (record : LockRecord Time) (fallback : Time) :
    normalizeRecord (some record.stored) fallback = record := by
  have hwaiters : (record.waiters.map fun waiter : LockWaiter Time =>
      StoredWaiter.entry waiter.holderId (some waiter.expiresAt)).filterMap
        (normalizeWaiter fallback) = record.waiters := by
    rw [List.filterMap_map]
    exact List.filterMap_some
  simp only [normalizeRecord, LockRecord.stored, Option.getD_some, hwaiters]

/-! ## What the reducers do -/

theorem registerWaiter_cases (waiters : List (LockWaiter Time)) (entry : LockWaiter Time) :
    (∃ before old after, waiters = before ++ old :: after ∧ old.holderId = entry.holderId ∧
      registerWaiter waiters entry = before ++ entry :: after) ∨
    (∀ waiter ∈ waiters, waiter.holderId ≠ entry.holderId) ∧
      registerWaiter waiters entry = waiters ++ [entry] := by
  rw [registerWaiter]
  cases h : replaceFirst (fun waiter => waiter.holderId = entry.holderId) entry waiters with
  | none =>
    refine .inr ⟨fun waiter hwaiter => ?_, rfl⟩
    have hother := replaceFirst_eq_none.1 h waiter hwaiter
    exact of_decide_eq_false hother
  | some replaced =>
    obtain ⟨before, old, after, heq, hold, -, rfl⟩ := replaceFirst_eq_some h
    exact .inl ⟨before, old, after, heq, of_decide_eq_true hold, rfl⟩

variable [LinearOrder Time]

/-- What is left of a record at a time. -/
def live (record : LockRecord Time) (now : Time) : LockRecord Time :=
  ⟨dropExpiredHolders record.holders now, dropExpiredWaiters record.waiters now⟩

variable {record : LockRecord Time}

/-- The caller of `reduceAcquire` holds a permit and renews it, or is granted one as the first
in line, or waits. -/
theorem reduceAcquire_cases (clock : Clock Time) (current : Option (StoredRecord Time))
    (holderId : JsString) (now leaseMs : Time) (permits : Nat) (waiterTtlMs : Option Time)
    {ttl : Time} (httl : waiterTtlMs.getD (max clock.minWaiterTtl leaseMs) = ttl)
    (hrecord : live (normalizeRecord current (clock.add now ttl)) now = record) :
    (∃ before old after, record.holders = before ++ old :: after ∧ old.holderId = holderId ∧
      reduceAcquire clock current holderId now leaseMs permits waiterTtlMs =
        (⟨before ++ ⟨holderId, clock.add now leaseMs⟩ :: after,
          record.waiters.filter fun waiter => waiter.holderId ≠ holderId⟩, ⟨true, -1⟩)) ∨
    (∀ holder ∈ record.holders, holder.holderId ≠ holderId) ∧
      ((∃ first rest, record.holders.length < permits ∧ first.holderId = holderId ∧
          registerWaiter record.waiters ⟨holderId, clock.add now ttl⟩ = first :: rest ∧
          reduceAcquire clock current holderId now leaseMs permits waiterTtlMs =
            (⟨record.holders ++ [⟨holderId, clock.add now leaseMs⟩], rest⟩, ⟨true, -1⟩)) ∨
        (record.holders.length < permits →
          ∀ first ∈ (registerWaiter record.waiters ⟨holderId, clock.add now ttl⟩).head?,
            first.holderId ≠ holderId) ∧
          ∃ position, reduceAcquire clock current holderId now leaseMs permits waiterTtlMs =
            (⟨record.holders, registerWaiter record.waiters ⟨holderId, clock.add now ttl⟩⟩,
              ⟨false, position⟩)) := by
  subst httl hrecord
  simp only [reduceAcquire, live]
  generalize hlive : dropExpiredHolders (normalizeRecord current _).holders now = holders
  generalize hwaiting : registerWaiter
    (dropExpiredWaiters (normalizeRecord current _).waiters now) _
    = waiters
  cases hrenew : replaceFirst (fun holder => holder.holderId = holderId)
      ⟨holderId, clock.add now leaseMs⟩ holders with
  | some renewed =>
    obtain ⟨before, old, after, heq, hold, -, rfl⟩ := replaceFirst_eq_some hrenew
    exact .inl ⟨before, old, after, heq, of_decide_eq_true hold, rfl⟩
  | none =>
    refine .inr ⟨fun holder hholder => ?_, ?_⟩
    · exact of_decide_eq_false (replaceFirst_eq_none.1 hrenew holder hholder)
    · simp only
      split_ifs with hgrant
      · obtain ⟨hfree, hnext⟩ := hgrant
        obtain ⟨first, hfirst, hid⟩ := Option.map_eq_some_iff.1 (of_decide_eq_true hnext)
        obtain ⟨rest, rfl⟩ := List.head?_eq_some_iff.1 hfirst
        exact .inl ⟨first, rest, by omega, hid, rfl, rfl⟩
      · refine .inr ⟨fun hfree first hfirst hid => hgrant ⟨by omega, ?_⟩, _, rfl⟩
        rw [Option.mem_def.1 hfirst]
        simp [hid]

/-! ## Records -/

/-- No more holders than permits, and no id twice. -/
structure Valid (permits : Nat) (record : LockRecord Time) : Prop where
  holders_le : record.holders.length ≤ permits
  holders_nodup : (record.holders.map (·.holderId)).Nodup
  waiters_nodup : (record.waiters.map (·.holderId)).Nodup
  apart : ∀ holder ∈ record.holders, ∀ waiter ∈ record.waiters,
    holder.holderId ≠ waiter.holderId

section

omit [LinearOrder Time]

variable {permits : Nat} {record : LockRecord Time}

variable {holders : List (LockHolder Time)}

theorem Valid.of_sublist (h : Valid permits record) {waiters : List (LockWaiter Time)}
    (hholders : holders.Sublist record.holders) (hwaiters : waiters.Sublist record.waiters) :
    Valid permits ⟨holders, waiters⟩ where
  holders_le := hholders.length_le.trans h.holders_le
  holders_nodup := h.holders_nodup.sublist (hholders.map _)
  waiters_nodup := h.waiters_nodup.sublist (hwaiters.map _)
  apart holder hholder waiter hwaiter :=
    h.apart holder (hholders.subset hholder) waiter (hwaiters.subset hwaiter)

/-- A holder whose lease is moved stays the holder it was. -/
theorem Valid.renew (h : Valid permits record)
    (hids : holders.map (·.holderId) = record.holders.map (·.holderId)) :
    Valid permits ⟨holders, record.waiters⟩ where
  holders_le := by
    have hlength := congrArg List.length hids
    rw [List.length_map, List.length_map] at hlength
    exact hlength.trans_le h.holders_le
  holders_nodup := hids ▸ h.holders_nodup
  waiters_nodup := h.waiters_nodup
  apart holder hholder waiter hwaiter := by
    have hid : holder.holderId ∈ record.holders.map (·.holderId) := by
      rw [← hids]
      exact List.mem_map_of_mem hholder
    obtain ⟨old, hold, heq⟩ := List.mem_map.1 hid
    rw [← heq]
    exact h.apart old hold waiter hwaiter

theorem Valid.register (h : Valid permits record) (entry : LockWaiter Time)
    (hnew : ∀ holder ∈ record.holders, holder.holderId ≠ entry.holderId) :
    Valid permits ⟨record.holders, registerWaiter record.waiters entry⟩ := by
  refine ⟨h.holders_le, h.holders_nodup, ?_, ?_⟩
  · rcases registerWaiter_cases record.waiters entry with ⟨before, old, after, heq, hid, hset⟩ |
      ⟨hother, hset⟩
    · have hids := h.waiters_nodup
      rw [heq, List.map_append, List.map_cons, hid] at hids
      rw [hset, List.map_append, List.map_cons]
      exact hids
    · rw [hset, List.map_append, List.map_singleton, List.nodup_append]
      refine ⟨h.waiters_nodup, List.nodup_singleton _, ?_⟩
      intro id hmem id' hmem'
      obtain ⟨waiter, hwaiter, rfl⟩ := List.mem_map.1 hmem
      rw [List.mem_singleton.1 hmem']
      exact hother waiter hwaiter
  · intro holder hholder waiter hwaiter
    rcases registerWaiter_cases record.waiters entry with ⟨before, old, after, heq, -, hset⟩ |
      ⟨-, hset⟩
    · rw [hset] at hwaiter
      rcases List.mem_append.1 hwaiter with hwaiter | hwaiter
      · exact h.apart holder hholder waiter (heq ▸ List.mem_append_left _ hwaiter)
      · rcases List.mem_cons.1 hwaiter with rfl | hwaiter
        · exact hnew holder hholder
        · exact h.apart holder hholder waiter
            (heq ▸ List.mem_append_right _ (List.mem_cons_of_mem _ hwaiter))
    · rw [hset] at hwaiter
      rcases List.mem_append.1 hwaiter with hwaiter | hwaiter
      · exact h.apart holder hholder waiter hwaiter
      · rw [List.mem_singleton.1 hwaiter]
        exact hnew holder hholder

/-- The first waiter becomes a holder. -/
theorem Valid.grant {first : LockWaiter Time} {rest : List (LockWaiter Time)}
    (h : Valid permits ⟨holders, first :: rest⟩) (hfree : holders.length < permits)
    {holder : LockHolder Time} (hid : first.holderId = holder.holderId) :
    Valid permits ⟨holders ++ [holder], rest⟩ := by
  have hwaiters := h.waiters_nodup
  rw [List.map_cons, List.nodup_cons] at hwaiters
  refine ⟨?_, ?_, hwaiters.2, ?_⟩
  · rw [List.length_append, List.length_singleton]
    omega
  · rw [List.map_append, List.map_singleton, List.nodup_append]
    refine ⟨h.holders_nodup, List.nodup_singleton _, ?_⟩
    intro id hmem id' hmem'
    obtain ⟨other, hother, rfl⟩ := List.mem_map.1 hmem
    rw [List.mem_singleton.1 hmem', ← hid]
    exact h.apart other hother first List.mem_cons_self
  · intro other hother waiter hwaiter
    rcases List.mem_append.1 hother with hother | hother
    · exact h.apart other hother waiter (List.mem_cons_of_mem _ hwaiter)
    · rw [List.mem_singleton.1 hother, ← hid]
      exact fun heq => hwaiters.1 (heq ▸ List.mem_map_of_mem hwaiter)

end

variable {permits : Nat}

theorem Valid.live (h : Valid permits record) (now : Time) : Valid permits (live record now) :=
  h.of_sublist List.filter_sublist List.filter_sublist

/-! ## Runs -/

/-- The record, the time of the last reduction, and what the clients were told: until when each
of them has a permit that it has not released. -/
structure LockState (Time : Type u) where
  record : Option (StoredRecord Time)
  now : Time
  grants : List (JsString × Time)
deriving DecidableEq

inductive LockCall (Time : Type u) where
  | acquire (leaseMs : Time) (waiterTtlMs : Option Time)
  | release (waiterTtlMs : Option Time)
  | renew (leaseMs : Time) (waiterTtlMs : Option Time)

structure LockStep (Time : Type u) where
  holderId : JsString
  now : Time
  call : LockCall Time

def dropGrant (holderId : JsString) (grants : List (JsString × Time)) : List (JsString × Time) :=
  grants.filter fun grant => grant.1 ≠ holderId

def setGrant (holderId : JsString) (expiresAt : Time) (grants : List (JsString × Time)) :
    List (JsString × Time) :=
  (holderId, expiresAt) :: dropGrant holderId grants

def lockStep (clock : Clock Time) (permits : Nat) (state : LockState Time) (step : LockStep Time) :
    LockState Time :=
  match step.call with
  | .acquire leaseMs waiterTtlMs =>
    let reduced := reduceAcquire clock state.record step.holderId step.now leaseMs permits
      waiterTtlMs
    { record := some reduced.1.stored
      now := step.now
      grants := if reduced.2.acquired then
        setGrant step.holderId (clock.add step.now leaseMs) state.grants else state.grants }
  | .release waiterTtlMs =>
    { record := some (reduceRelease clock state.record step.holderId step.now waiterTtlMs).stored
      now := step.now
      grants := dropGrant step.holderId state.grants }
  | .renew leaseMs waiterTtlMs =>
    let reduced := reduceRenew clock state.record step.holderId step.now leaseMs waiterTtlMs
    { record := some reduced.1.stored
      now := step.now
      grants := if reduced.2 then
        setGrant step.holderId (clock.add step.now leaseMs) state.grants else state.grants }

/-- Reductions of one record, at times that do not go back. -/
def lockMachine (clock : Clock Time) (permits : Nat) :
    Machine (LockState Time) (LockStep Time) where
  step state step := if step.now < state.now then none else some (lockStep clock permits state step)

/-- What is read from the record is valid, and from now on at most `permits` clients have a
grant that is neither expired nor released. -/
def Exclusive (permits : Nat) (state : LockState Time) : Prop :=
  (∀ fallback, Valid permits (normalizeRecord state.record fallback)) ∧
    ∀ instant, state.now ≤ instant →
      (state.grants.filter fun grant => instant < grant.2).length ≤ permits

/-- Clients that have a grant are holders. -/
structure Sound (permits : Nat) (state : LockState Time) : Prop where
  valid : ∀ fallback, Valid permits (normalizeRecord state.record fallback)
  grants_nodup : (state.grants.map (·.1)).Nodup
  holds : ∀ grant ∈ state.grants, state.now < grant.2 → ∀ fallback,
    ⟨grant.1, grant.2⟩ ∈ (normalizeRecord state.record fallback).holders

variable {state : LockState Time}

theorem Sound.exclusive (h : Sound permits state) : Exclusive permits state := by
  refine ⟨h.valid, fun instant hinstant => ?_⟩
  have hrecord := h.valid instant
  have hsub : (state.grants.filter fun grant => instant < grant.2).map (·.1) ⊆
      (normalizeRecord state.record instant).holders.map (·.holderId) := by
    intro id hid
    obtain ⟨grant, hgrant, rfl⟩ := List.mem_map.1 hid
    obtain ⟨hmem, hactive⟩ := List.mem_filter.1 hgrant
    exact List.mem_map_of_mem
      (h.holds grant hmem (hinstant.trans_lt (of_decide_eq_true hactive)) instant)
  have hnodup : ((state.grants.filter fun grant => instant < grant.2).map (·.1)).Nodup :=
    h.grants_nodup.sublist (List.filter_sublist.map _)
  have hlength := (List.subperm_of_subset hnodup hsub).length_le
  rw [List.length_map, List.length_map] at hlength
  exact hlength.trans hrecord.holders_le

variable {grant : JsString × Time}

/-- A grant that is not over belongs to a live holder. -/
theorem Sound.holds_live (h : Sound permits state) {now : Time} (hnow : state.now ≤ now)
    (fallback : Time) (hgrant : grant ∈ state.grants) (hactive : now < grant.2) :
    ⟨grant.1, grant.2⟩ ∈ (live (normalizeRecord state.record fallback) now).holders :=
  List.mem_filter.2 ⟨h.holds grant hgrant (hnow.trans_lt hactive) fallback, decide_eq_true hactive⟩

variable {holderId : JsString} {grants : List (JsString × Time)}

omit [LinearOrder Time] in
theorem mem_dropGrant :
    grant ∈ dropGrant holderId grants ↔ grant ∈ grants ∧ grant.1 ≠ holderId := by
  simp [dropGrant]

omit [LinearOrder Time] in
theorem dropGrant_nodup (h : (grants.map (·.1)).Nodup) :
    ((dropGrant holderId grants).map (·.1)).Nodup :=
  h.sublist (List.filter_sublist.map _)

omit [LinearOrder Time] in
theorem setGrant_nodup {expiresAt : Time} (h : (grants.map (·.1)).Nodup) :
    ((setGrant holderId expiresAt grants).map (·.1)).Nodup := by
  rw [setGrant, List.map_cons, List.nodup_cons]
  refine ⟨fun hmem => ?_, dropGrant_nodup h⟩
  obtain ⟨grant, hgrant, hid⟩ := List.mem_map.1 hmem
  exact (mem_dropGrant.1 hgrant).2 hid

theorem sound_of_record {now : Time} (hvalid : Valid permits record)
    (hnodup : (grants.map (·.1)).Nodup)
    (hholds : ∀ grant ∈ grants, now < grant.2 → ⟨grant.1, grant.2⟩ ∈ record.holders) :
    Sound permits ⟨some record.stored, now, grants⟩ := by
  refine ⟨fun fallback => ?_, hnodup, fun grant hgrant hactive fallback => ?_⟩
  · rw [normalizeRecord_stored]
    exact hvalid
  · rw [normalizeRecord_stored]
    exact hholds grant hgrant hactive

theorem holds_of_setGrant {holders : List (LockHolder Time)} {expiresAt now : Time}
    (hnew : ⟨holderId, expiresAt⟩ ∈ holders)
    (hold : ∀ grant ∈ grants, grant.1 ≠ holderId → now < grant.2 → ⟨grant.1, grant.2⟩ ∈ holders) :
    ∀ grant ∈ setGrant holderId expiresAt grants, now < grant.2 → ⟨grant.1, grant.2⟩ ∈ holders := by
  intro grant hgrant hactive
  rcases List.mem_cons.1 hgrant with rfl | hgrant
  · exact hnew
  · obtain ⟨hmem, hid⟩ := mem_dropGrant.1 hgrant
    exact hold grant hmem hid hactive

section

variable {clock : Clock Time} {permits : Nat} {state : LockState Time} {holderId : JsString}
  {now : Time}

section

variable (h : Sound permits state)

include h

theorem acquire_sound (hnow : state.now ≤ now) (leaseMs : Time) (waiterTtlMs : Option Time) :
    Sound permits (lockStep clock permits state ⟨holderId, now, .acquire leaseMs waiterTtlMs⟩) := by
  generalize httl : waiterTtlMs.getD (max clock.minWaiterTtl leaseMs) = ttl
  generalize hrecord : live (normalizeRecord state.record (clock.add now ttl)) now = record
  have hvalid : Valid permits record := hrecord ▸ (h.valid _).live now
  have hlive : ∀ grant ∈ state.grants, now < grant.2 → ⟨grant.1, grant.2⟩ ∈ record.holders :=
    fun grant hgrant hactive => hrecord ▸ h.holds_live hnow _ hgrant hactive
  rcases reduceAcquire_cases clock state.record holderId now leaseMs permits waiterTtlMs httl
    hrecord with ⟨before, old, after, heq, hid, hreduce⟩ |
      ⟨hnone, ⟨first, rest, hfree, hid, hwaiters, hreduce⟩ | ⟨-, position, hreduce⟩⟩
  · simp only [lockStep, hreduce, if_true]
    refine sound_of_record ?_ (setGrant_nodup h.grants_nodup) ?_
    · have hids : (before ++ ⟨holderId, clock.add now leaseMs⟩ :: after).map (·.holderId) =
          record.holders.map (·.holderId) := by
        rw [heq, List.map_append, List.map_append, List.map_cons, List.map_cons, hid]
      exact (hvalid.renew hids).of_sublist (List.Sublist.refl _) List.filter_sublist
    · refine holds_of_setGrant (by simp) fun grant hgrant hother hactive => ?_
      have hmem := hlive grant hgrant hactive
      rw [heq] at hmem
      rcases List.mem_append.1 hmem with hmem | hmem
      · exact List.mem_append_left _ hmem
      · rcases List.mem_cons.1 hmem with rfl | hmem
        · exact (hother hid).elim
        · exact List.mem_append_right _ (List.mem_cons_of_mem _ hmem)
  · simp only [lockStep, hreduce, if_true]
    refine sound_of_record ?_ (setGrant_nodup h.grants_nodup) ?_
    · have hregistered := hvalid.register ⟨holderId, clock.add now ttl⟩ hnone
      rw [hwaiters] at hregistered
      exact hregistered.grant hfree hid
    · refine holds_of_setGrant (by simp) fun grant hgrant _ hactive => ?_
      exact List.mem_append_left _ (hlive grant hgrant hactive)
  · simp only [lockStep, hreduce]
    exact sound_of_record (hvalid.register _ hnone) h.grants_nodup hlive

theorem release_sound (hnow : state.now ≤ now) (waiterTtlMs : Option Time) :
    Sound permits (lockStep clock permits state ⟨holderId, now, .release waiterTtlMs⟩) := by
  refine sound_of_record ?_ (dropGrant_nodup h.grants_nodup) fun grant hgrant hactive => ?_
  · exact ((h.valid _).live now).of_sublist List.filter_sublist List.filter_sublist
  · obtain ⟨hmem, hid⟩ := mem_dropGrant.1 hgrant
    exact List.mem_filter.2 ⟨h.holds_live hnow _ hmem hactive, decide_eq_true hid⟩

theorem renew_sound (hnow : state.now ≤ now) (leaseMs : Time) (waiterTtlMs : Option Time) :
    Sound permits (lockStep clock permits state ⟨holderId, now, .renew leaseMs waiterTtlMs⟩) := by
  simp only [lockStep, reduceRenew]
  generalize hfallback : clock.add now (waiterTtlMs.getD (max clock.minWaiterTtl leaseMs)) =
    fallback
  have hlive : ∀ grant ∈ state.grants, now < grant.2 → ⟨grant.1, grant.2⟩ ∈ (live
      (normalizeRecord state.record fallback) now).holders :=
    fun grant hgrant hactive => h.holds_live hnow fallback hgrant hactive
  have hvalid := h.valid fallback
  generalize hrecord : normalizeRecord state.record fallback = record at hlive hvalid
  have hids : ((dropExpiredHolders record.holders now).map fun holder =>
      if holder.holderId = holderId then ⟨holderId, clock.add now leaseMs⟩ else holder).map
        (·.holderId) = (dropExpiredHolders record.holders now).map (·.holderId) := by
    rw [List.map_map]
    refine List.map_congr_left fun holder _ => ?_
    by_cases hid : holder.holderId = holderId <;> simp [hid]
  have hrenewed := (hvalid.of_sublist (List.filter_sublist :
    (dropExpiredHolders record.holders now).Sublist _) (List.Sublist.refl _)).renew hids
  have hother : ∀ grant ∈ state.grants, grant.1 ≠ holderId → now < grant.2 →
      ⟨grant.1, grant.2⟩ ∈ (dropExpiredHolders record.holders now).map fun holder =>
        if holder.holderId = holderId then ⟨holderId, clock.add now leaseMs⟩ else holder := by
    intro grant hgrant hid hactive
    exact List.mem_map.2 ⟨_, hlive grant hgrant hactive, by simp [hid]⟩
  split_ifs with hany
  · refine sound_of_record hrenewed (setGrant_nodup h.grants_nodup) (holds_of_setGrant ?_ hother)
    obtain ⟨holder, hholder, hid⟩ := List.any_eq_true.1 hany
    exact List.mem_map.2 ⟨holder, hholder, by simp [of_decide_eq_true hid]⟩
  · refine sound_of_record hrenewed h.grants_nodup fun grant hgrant hactive => ?_
    refine hother grant hgrant (fun hid => hany ?_) hactive
    exact List.any_eq_true.2 ⟨_, hlive grant hgrant hactive, decide_eq_true hid⟩

theorem lockStep_sound {step : LockStep Time} (hnow : state.now ≤ step.now) :
    Sound permits (lockStep clock permits state step) := by
  obtain ⟨holderId, now, call⟩ := step
  cases call with
  | acquire leaseMs waiterTtlMs => exact acquire_sound h hnow leaseMs waiterTtlMs
  | release waiterTtlMs => exact release_sound h hnow waiterTtlMs
  | renew leaseMs waiterTtlMs => exact renew_sound h hnow leaseMs waiterTtlMs

end

end

/-- In every run from a sound state the record stays valid, and at no time do more than
`permits` clients have a grant. -/
theorem lock_exclusive (clock : Clock Time) (permits : Nat) (state : LockState Time)
    (hstart : Sound permits state) (steps : List (LockStep Time)) :
    (lockMachine clock permits).EveryState (Exclusive permits) state steps := by
  have hsound : (lockMachine clock permits).EveryState (Sound permits) state steps := by
    refine Machine.everyState_of_invariant (fun s step t hs _ hstep => ?_) hstart
      (Machine.everyStep_true steps state)
    simp only [lockMachine] at hstep
    split_ifs at hstep with hback
    cases hstep
    exact lockStep_sound hs (not_lt.1 hback)
  exact hsound.mono fun t ht => ht.exclusive

/-- A record of the old format, with a bare waiter. -/
def legacyLock : LockState Nat where
  record := some ⟨some [⟨js "a", 100⟩], some [.bare (js "b")]⟩
  now := 0
  grants := [(js "a", 100)]

theorem legacyLock_sound : Sound 1 legacyLock := by
  refine ⟨fun fallback => ⟨le_refl 1, List.nodup_singleton _, List.nodup_singleton _, ?_⟩,
    List.nodup_singleton _, ?_⟩
  · intro holder hholder waiter hwaiter
    obtain rfl := List.mem_singleton.1 hholder
    obtain rfl : waiter = ⟨js "b", fallback⟩ := List.mem_singleton.1 hwaiter
    show js "a" ≠ js "b"
    decide
  · intro grant hgrant _ fallback
    obtain rfl := List.mem_singleton.1 hgrant
    exact List.mem_singleton.2 rfl

theorem lock_exclusive_legacy :
    Sound 1 legacyLock ∧
      (lockMachine ⟨(· + ·), 30⟩ 1).EveryState (Exclusive 1) legacyLock
        [⟨js "b", 10, .acquire 50 none⟩, ⟨js "a", 20, .release none⟩,
          ⟨js "b", 30, .acquire 50 none⟩,
          ⟨js "a", 40, .acquire 50 none⟩, ⟨js "b", 60, .renew 50 none⟩] :=
  ⟨legacyLock_sound, lock_exclusive ⟨(· + ·), 30⟩ 1 legacyLock legacyLock_sound _⟩

end Weft.Lock
