import Weft.Updates.Idempotency

/-! Requests on their way to a wait or a handler. Where each path that takes a request finds it
still stored and unclaimed, and a waiter that a delivery has chosen is left to it, every request is
stored or handed over, and to one taker only. -/

namespace Weft.Updates.Handover
open Weft.Lib Weft.Updates

universe u

variable {ν κ π ρ : Type u}

/-- The waiter of the wait is, or may be, registered. -/
def listens : WaitStage ν κ π ρ → Bool
  | .registered => true
  | .foundRegistered _ => true
  | .awaiting => true
  | _ => false

/-- The wait can still be handed a request by its waiter. -/
def free (x : Wait ν κ π ρ) : Bool := listens x.stage && x.promise.isNone

/-- The request that was deleted for the wait, which is not completed with it yet. -/
def waitCarries (x : Wait ν κ π ρ) : Option (UpdateRequest ν κ π) :=
  match x.stage with
  | .deleted request => some request
  | stage => if listens stage then x.promise.bind id else none

/-- The request that a call has deleted, with the waiter it is for. -/
def hands : CallStage ν κ π ρ → Option (UpdateRequest ν κ π × Nat)
  | .deletedForWaiter request waiter => some (request, waiter)
  | _ => none

inductive Slot where
  | wait (place : Nat)
  | call (place : Nat)
deriving DecidableEq

def carries (w : World ν κ π ρ) : Slot → Option (UpdateRequest ν κ π)
  | .wait place => (w.waits[place]?).bind waitCarries
  | .call place => (w.calls[place]?).bind fun c => (hands c.stage).map Prod.fst

/-- A request is handed to one taker at most, and is stored, handed over, on its way to the one wait
it was deleted for, or withdrawn because the workflow is terminal. -/
structure HandedOver (w : World ν κ π ρ) : Prop where
  once : (w.taken.map Prod.fst).Nodup
  onItsWay : ∀ slot r, carries w slot = some r → r.updateId ∉ w.taken.map Prod.fst ∧
    ∀ slot' r', carries w slot' = some r' → r.updateId = r'.updateId → slot = slot'
  kept : ∀ r ∈ w.issued, r ∈ w.pending ∨ r.updateId ∈ w.taken.map Prod.fst ∨
    r.updateId ∈ w.withdrawn ∨ ∃ slot, carries w slot = some r

/-- The request a call is about to delete for a waiter. -/
def delivers : CallStage ν κ π ρ → Option (UpdateRequest ν κ π × Nat)
  | .foundPending request waiter (some oldest) =>
    if oldest.updateId = request.updateId then some (request, waiter) else none
  | _ => none

/-- The waiter that `update` is about to take for itself. -/
def takesWaiter : CallStage ν κ π ρ → Option Nat
  | .triedWaiting waiter false => some waiter
  | _ => none

/-- The request a wait is about to delete for itself. -/
def deletes : WaitStage ν κ π ρ → Option (UpdateRequest ν κ π)
  | .foundPending (some request) => some request
  | .foundRegistered (some request) => some request
  | _ => none

/-- The request is stored and was handed to none. -/
def Available (w : World ν κ π ρ) (r : UpdateRequest ν κ π) : Prop :=
  r ∈ w.pending ∧ r.updateId ∉ w.taken.map Prod.fst

instance Available.decidable [DecidableEq ν] [DecidableEq κ] [DecidableEq π] (w : World ν κ π ρ)
    (r : UpdateRequest ν κ π) : Decidable (Available w r) :=
  inferInstanceAs (Decidable (r ∈ w.pending ∧ r.updateId ∉ w.taken.map Prod.fst))

/-- No call has deleted a request for the waiter. -/
def Unchosen (w : World ν κ π ρ) (waiter : Nat) : Prop :=
  ∀ c ∈ w.calls, ∀ h ∈ hands c.stage, h.2 ≠ waiter

instance Unchosen.decidable (w : World ν κ π ρ) (waiter : Nat) : Decidable (Unchosen w waiter) :=
  inferInstanceAs (Decidable (∀ c ∈ w.calls, ∀ h ∈ hands c.stage, h.2 ≠ waiter))

/-- Who deletes a request finds it available; a call does so for a waiter that is still registered
and not chosen by another; a waiter that is chosen is neither taken by `update` nor left by its wait
for another request; and a drain that claims a request finds it stored. -/
def Orderly (w : World ν κ π ρ) : Event ν κ π ρ → Prop
  | .call place _ _ _ => ∀ c ∈ w.calls[place]?,
      (∀ h ∈ delivers c.stage, Available w h.1 ∧ w.updateWaiters h.1.name = some h.2 ∧
        Unchosen w h.2) ∧
      ∀ waiter ∈ takesWaiter c.stage, w.updateWaiters c.name = some waiter → Unchosen w waiter
  | .wait place _ => ∀ x ∈ w.waits[place]?, ∀ r ∈ deletes x.stage,
      Available w r ∧ Unchosen w place ∧ x.promise.isNone = true
  | .drainStep place ok _ => ok = true → ∀ stage ∈ w.drains[place]?, ∀ r ∈ stage.takes,
      r.updateId ∉ w.deliveredPendingUpdateIds → r ∈ w.pending
  | _ => True

instance Orderly.decidable [DecidableEq ν] [DecidableEq κ] [DecidableEq π] (w : World ν κ π ρ)
    (event : Event ν κ π ρ) : Decidable (Orderly w event) :=
  match event with
  | .call place _ _ _ => inferInstanceAs (Decidable (∀ c ∈ w.calls[place]?,
      (∀ h ∈ delivers c.stage, Available w h.1 ∧ w.updateWaiters h.1.name = some h.2 ∧
        Unchosen w h.2) ∧
      ∀ waiter ∈ takesWaiter c.stage, w.updateWaiters c.name = some waiter → Unchosen w waiter))
  | .wait place _ => inferInstanceAs (Decidable (∀ x ∈ w.waits[place]?, ∀ r ∈ deletes x.stage,
      Available w r ∧ Unchosen w place ∧ x.promise.isNone = true))
  | .drainStep place ok _ => inferInstanceAs (Decidable (ok = true →
      ∀ stage ∈ w.drains[place]?, ∀ r ∈ stage.takes,
        r.updateId ∉ w.deliveredPendingUpdateIds → r ∈ w.pending))
  | .submitCoordinatedUpdate _ _ _ => isTrue trivial
  | .update _ _ => isTrue trivial
  | .processWaitUpdateOperation _ => isTrue trivial
  | .respond _ _ => isTrue trivial
  | .drain => isTrue trivial
  | .cleanupExpiredResponses _ => isTrue trivial

/-- The wait has not registered its waiter. -/
def begins : WaitStage ν κ π ρ → Bool
  | .findPending => true
  | .foundPending _ => true
  | _ => false

structure Inv (w : World ν κ π ρ) : Prop where
  ids : ∀ r ∈ w.issued, ∀ r' ∈ w.issued, r.updateId = r'.updateId → r = r'
  pending : ∀ r ∈ w.pending, r ∈ w.issued
  callRequest : ∀ c ∈ w.calls, ∀ r ∈ c.stage.request, r ∈ w.issued
  callApart : ∀ (i j : Nat) (c c' : Call ν κ π ρ), w.calls[i]? = some c → w.calls[j]? = some c' →
    ∀ r ∈ c.stage.request, ∀ r' ∈ c'.stage.request, r.updateId = r'.updateId → i = j
  waitRequest : ∀ x ∈ w.waits, ∀ r ∈ x.stage.request, r ∈ w.issued
  begun : ∀ x ∈ w.waits, begins x.stage = true → x.promise = none
  drainRequests : ∀ stage ∈ w.drains, ∀ r ∈ stage.requests, r ∈ w.issued
  taken : (w.taken.map Prod.fst).Nodup
  takenIssued : ∀ updateId ∈ w.taken.map Prod.fst, ∃ r ∈ w.issued, r.updateId = updateId
  delivered : ∀ r ∈ w.pending, r.updateId ∈ w.taken.map Prod.fst →
    r.updateId ∈ w.deliveredPendingUpdateIds
  drainHolds : ∀ stage ∈ w.drains, ∀ r ∈ stage.holds, r.updateId ∈ w.taken.map Prod.fst
  waitHolds : ∀ x ∈ w.waits, ∀ r ∈ x.stage.holds, r.updateId ∈ w.taken.map Prod.fst
  waiters : ∀ name waiter, w.updateWaiters name = some waiter →
    ∃ x, w.waits[waiter]? = some x ∧ free x = true ∧ x.name = name
  hands : ∀ c ∈ w.calls, ∀ h ∈ hands c.stage,
    ∃ x, w.waits[h.2]? = some x ∧ free x = true ∧ x.name = h.1.name
  handsApart : ∀ (i j : Nat) (c c' : Call ν κ π ρ), w.calls[i]? = some c →
    w.calls[j]? = some c' → ∀ h ∈ Handover.hands c.stage, ∀ h' ∈ Handover.hands c'.stage,
    h.2 = h'.2 → i = j
  carried : ∀ slot r, carries w slot = some r → r ∈ w.issued ∧
    r.updateId ∉ w.taken.map Prod.fst ∧ r.updateId ∉ w.pending.map UpdateRequest.updateId
  carriedApart : ∀ slot slot' r r', carries w slot = some r → carries w slot' = some r' →
    r.updateId = r'.updateId → slot = slot'
  kept : ∀ r ∈ w.issued, r ∈ w.pending ∨ r.updateId ∈ w.taken.map Prod.fst ∨
    r.updateId ∈ w.withdrawn ∨ ∃ slot, carries w slot = some r

namespace Inv

variable {w : World ν κ π ρ}

theorem handedOver (h : Inv w) : HandedOver w where
  once := h.taken
  onItsWay := fun slot r hr =>
    ⟨(h.carried slot r hr).2.1, fun slot' r' => h.carriedApart slot slot' r r' hr⟩
  kept := h.kept

theorem initial : Inv ({} : World ν κ π ρ) where
  ids := fun _ hr => (by cases hr)
  pending := fun _ hr => (by cases hr)
  callRequest := fun _ hc => (by cases hc)
  callApart := fun i j _ _ hc => (by simp at hc)
  waitRequest := fun _ hx => (by cases hx)
  begun := fun _ hx => (by cases hx)
  drainRequests := fun _ hd => (by cases hd)
  taken := List.nodup_nil
  takenIssued := fun _ ht => (by cases ht)
  delivered := fun _ hr => (by cases hr)
  drainHolds := fun _ hd => (by cases hd)
  waitHolds := fun _ hx => (by cases hx)
  waiters := fun _ _ hw => (by cases hw)
  hands := fun _ hc => (by cases hc)
  handsApart := fun i j _ _ hc => (by simp at hc)
  carried := by
    intro slot r hr
    cases slot <;> simp [carries] at hr
  carriedApart := by
    intro slot slot' r r' hr
    cases slot <;> simp [carries] at hr
  kept := fun _ hr => (by cases hr)

variable {r : UpdateRequest ν κ π}

/-- A request that is carried is carried by nobody else, is stored nowhere and was handed to
none. -/
theorem not_carried_of_pending (h : Inv w) (hr : r ∈ w.pending) {slot : Slot}
    {r' : UpdateRequest ν κ π} (hcarries : carries w slot = some r') :
    r'.updateId ≠ r.updateId := by
  intro heq
  apply (h.carried slot r' hcarries).2.2
  rw [heq]
  exact List.mem_map_of_mem hr

variable {place : Nat} {c : Call ν κ π ρ}

theorem carries_call (hc : w.calls[place]? = some c) :
    carries w (.call place) = (Handover.hands c.stage).map Prod.fst := by
  rw [carries, hc, Option.bind_some]

variable {x : Wait ν κ π ρ}

theorem carries_wait (hx : w.waits[place]? = some x) : carries w (.wait place) = waitCarries x := by
  rw [carries, hx, Option.bind_some]

/-- The slots of the calls after one of them changes. -/
theorem carries_setCall (hc : w.calls[place]? = some c) (stage : CallStage ν κ π ρ) (slot : Slot) :
    carries (setCall w place c stage) slot =
      if slot = .call place then (Handover.hands stage).map Prod.fst else carries w slot := by
  have hlt : place < w.calls.length := (List.getElem?_eq_some_iff.1 hc).1
  cases slot with
  | wait other => simp [carries, setCall]
  | call other =>
    by_cases heq : other = place
    · subst heq
      simp [carries, setCall, List.getElem?_set_self hlt]
    · simp [carries, setCall, List.getElem?_set_ne (Ne.symm heq), heq]

/-- The slots of the waits after one of them changes. -/
theorem carries_setWait (hx : w.waits[place]? = some x) (stage : WaitStage ν κ π ρ) (slot : Slot) :
    carries (setWait w place x stage) slot =
      if slot = .wait place then waitCarries { x with stage := stage } else carries w slot := by
  have hlt : place < w.waits.length := (List.getElem?_eq_some_iff.1 hx).1
  cases slot with
  | call other => simp [carries, setWait]
  | wait other =>
    by_cases heq : other = place
    · subst heq
      simp [carries, setWait, List.getElem?_set_self hlt]
    · simp [carries, setWait, List.getElem?_set_ne (Ne.symm heq), heq]

/-- A call goes on with the same request or with none, and carries nothing. -/
theorem quietCall (h : Inv w) (hc : w.calls[place]? = some c) {stage : CallStage ν κ π ρ}
    (hrequest : ∀ r ∈ stage.request, r ∈ c.stage.request) (hold : Handover.hands c.stage = none)
    (hnew : Handover.hands stage = none) : Inv (setCall w place c stage) := by
  have hmem := List.mem_of_getElem? hc
  have hcarries : ∀ slot, carries (setCall w place c stage) slot = carries w slot := by
    intro slot
    rw [carries_setCall hc]
    split
    · rename_i heq
      rw [heq, carries_call hc, hold, hnew]
    · rfl
  exact { h with
    callRequest := by
      intro c' hc' r hr
      obtain hmem' | rfl := List.mem_or_eq_of_mem_set hc'
      · exact h.callRequest c' hmem' r hr
      · exact h.callRequest c hmem r (hrequest r hr)
    callApart := apart_set h.callApart fun i a hi ha r hr r' hr' heq =>
      hi (h.callApart i place a c ha hc r hr r' (hrequest r' hr') heq)
    hands := by
      intro c' hc' k hk
      obtain hmem' | rfl := List.mem_or_eq_of_mem_set hc'
      · exact h.hands c' hmem' k hk
      · rw [hnew] at hk
        cases hk
    handsApart := by
      refine apart_set h.handsApart fun i a _ _ k _ k' hk' => ?_
      rw [hnew] at hk'
      cases hk'
    carried := by
      intro slot r hr
      rw [hcarries] at hr
      exact h.carried slot r hr
    carriedApart := by
      intro slot slot' r r' hr hr'
      rw [hcarries] at hr hr'
      exact h.carriedApart slot slot' r r' hr hr'
    kept := by
      intro r hr
      simp only [hcarries]
      exact h.kept r hr }

/-- A stored request is deleted because the workflow is terminal. -/
theorem withdraw (h : Inv w) (updateId : Nat) :
    Inv { deleteRequest w updateId with withdrawn := updateId :: w.withdrawn } := { h with
  pending := fun r hr => h.pending r (List.mem_filter.1 hr).1
  delivered := fun r hr => h.delivered r (List.mem_filter.1 hr).1
  carried := by
    intro slot r hr
    obtain ⟨hin, htaken, hpending⟩ := h.carried slot r hr
    refine ⟨hin, htaken, fun hmem => hpending ?_⟩
    obtain ⟨r', hr', heq⟩ := List.mem_map.1 hmem
    exact List.mem_map.2 ⟨r', (List.mem_filter.1 hr').1, heq⟩
  kept := by
    intro r hr
    by_cases heq : r.updateId = updateId
    · right; right; left
      rw [heq]
      exact List.mem_cons_self
    · obtain hin | hin | hin | hin := h.kept r hr
      · left
        exact List.mem_filter.2 ⟨hin, by simpa using heq⟩
      · exact .inr (.inl hin)
      · exact .inr (.inr (.inl (List.mem_cons_of_mem _ hin)))
      · exact .inr (.inr (.inr hin)) }

variable {request : UpdateRequest ν κ π}

theorem createRequest (h : Inv w) (hc : w.calls[place]? = some c)
    (hold : Handover.hands c.stage = none)
    (hfresh : request.updateId ∉ w.issued.map UpdateRequest.updateId) :
    Inv { setCall w place c (.guardTerminal request) with
      pending := w.pending ++ [request]
      issued := w.issued ++ [request] } := by
  have hmore : ∀ r ∈ w.issued, r ∈ w.issued ++ [request] := fun r hr => List.mem_append_left _ hr
  have hne : ∀ r ∈ w.issued, r.updateId ≠ request.updateId := by
    intro r hr heq
    apply hfresh
    rw [← heq]
    exact List.mem_map_of_mem hr
  have hcarries : ∀ slot, carries (setCall w place c (.guardTerminal request)) slot =
      carries w slot := by
    intro slot
    rw [carries_setCall hc]
    split
    · rename_i heq
      rw [heq, carries_call hc, hold]
      rfl
    · rfl
  exact { h with
    ids := by
      intro r hr r' hr' heq
      obtain hin | hin := List.mem_append.1 hr
      · obtain hin' | hin' := List.mem_append.1 hr'
        · exact h.ids r hin r' hin' heq
        · rw [List.mem_singleton] at hin'
          rw [hin'] at heq
          exact absurd heq (hne r hin)
      · rw [List.mem_singleton] at hin
        obtain hin' | hin' := List.mem_append.1 hr'
        · rw [hin] at heq
          exact absurd heq.symm (hne r' hin')
        · rw [List.mem_singleton] at hin'
          rw [hin, hin']
    pending := by
      intro r hr
      obtain hin | hin := List.mem_append.1 hr
      · exact hmore r (h.pending r hin)
      · exact List.mem_append_right _ hin
    callRequest := by
      intro c' hc' r hr
      obtain hmem' | rfl := List.mem_or_eq_of_mem_set hc'
      · exact hmore r (h.callRequest c' hmem' r hr)
      · cases hr
        exact List.mem_append_right _ (List.mem_singleton_self _)
    callApart := by
      refine apart_set h.callApart fun i a _ ha r hr r' hr' heq => ?_
      cases hr'
      exact hne r (h.callRequest a (List.mem_of_getElem? ha) r hr) heq
    waitRequest := fun x hx r hr => hmore r (h.waitRequest x hx r hr)
    drainRequests := fun stage hs r hr => hmore r (h.drainRequests stage hs r hr)
    takenIssued := by
      intro id hid
      obtain ⟨r, hr, heq⟩ := h.takenIssued id hid
      exact ⟨r, hmore r hr, heq⟩
    delivered := by
      intro r hr htaken
      obtain hin | hin := List.mem_append.1 hr
      · exact h.delivered r hin htaken
      · rw [List.mem_singleton] at hin
        obtain ⟨r', hr', heq⟩ := h.takenIssued _ htaken
        rw [hin] at heq
        exact absurd heq (hne r' hr')
    hands := by
      intro c' hc' k hk
      obtain hmem' | rfl := List.mem_or_eq_of_mem_set hc'
      · exact h.hands c' hmem' k hk
      · cases hk
    handsApart := by
      refine apart_set h.handsApart fun i a _ _ k _ k' hk' => ?_
      cases hk'
    carried := by
      intro slot r hr
      have hr' : carries w slot = some r := (hcarries slot).symm.trans hr
      obtain ⟨hin, htaken, hpending⟩ := h.carried slot r hr'
      refine ⟨hmore r hin, htaken, fun hmem => ?_⟩
      rw [List.map_append, List.mem_append, List.map_singleton, List.mem_singleton] at hmem
      exact hmem.elim hpending (hne r hin)
    carriedApart := by
      intro slot slot' r r' hr hr'
      exact h.carriedApart slot slot' r r' ((hcarries slot).symm.trans hr)
        ((hcarries slot').symm.trans hr')
    kept := by
      intro r hr
      obtain hin | hin := List.mem_append.1 hr
      · obtain hp | ht | hw | ⟨slot, hs⟩ := h.kept r hin
        · exact .inl (List.mem_append_left _ hp)
        · exact .inr (.inl ht)
        · exact .inr (.inr (.inl hw))
        · exact .inr (.inr (.inr ⟨slot, (hcarries slot).trans hs⟩))
      · exact .inl (List.mem_append_right _ hin) }

/-- A stored request is deleted for a slot that carried none, and that slot carries it. -/
theorem carry (h : Inv w) (havailable : Available w request) {place : Slot}
    (hbefore : carries w place = none) {w' : World ν κ π ρ} (hcarries : ∀ slot,
      carries w' slot = if slot = place then some request else carries w slot) :
    (∀ slot r, carries w' slot = some r → r ∈ w.issued ∧ r.updateId ∉ w.taken.map Prod.fst ∧
      r.updateId ∉
        (w.pending.filter (·.updateId ≠ request.updateId)).map UpdateRequest.updateId) ∧
    (∀ slot slot' r r', carries w' slot = some r → carries w' slot' = some r' →
      r.updateId = r'.updateId → slot = slot') ∧
    ∀ r ∈ w.issued, r ∈ w.pending.filter (·.updateId ≠ request.updateId) ∨
      r.updateId ∈ w.taken.map Prod.fst ∨ r.updateId ∈ w.withdrawn ∨
      ∃ slot, carries w' slot = some r := by
  have hin : request ∈ w.issued := h.pending request havailable.1
  refine ⟨?_, ?_, ?_⟩
  · intro slot r hr
    rw [hcarries] at hr
    split at hr
    · cases hr
      refine ⟨hin, havailable.2, fun hmem => ?_⟩
      obtain ⟨r', hr', heq⟩ := List.mem_map.1 hmem
      simpa [heq] using (List.mem_filter.1 hr').2
    · obtain ⟨hin', htaken, hout⟩ := h.carried slot r hr
      refine ⟨hin', htaken, fun hmem => hout ?_⟩
      obtain ⟨r', hr', heq⟩ := List.mem_map.1 hmem
      exact List.mem_map.2 ⟨r', (List.mem_filter.1 hr').1, heq⟩
  · intro slot slot' r r' hr hr' heq
    rw [hcarries] at hr hr'
    split at hr
    · rename_i hs
      cases hr
      split at hr'
      · rename_i hs'
        rw [hs, hs']
      · exact absurd heq.symm (h.not_carried_of_pending havailable.1 hr')
    · split at hr'
      · obtain rfl := Option.some.inj hr'
        exact absurd heq (h.not_carried_of_pending havailable.1 hr)
      · exact h.carriedApart slot slot' r r' hr hr' heq
  · intro r hr
    by_cases heq : r.updateId = request.updateId
    · obtain rfl := h.ids r hr request hin heq
      right; right; right
      exact ⟨place, by rw [hcarries, if_pos rfl]⟩
    · obtain hp | ht | hw | ⟨slot, hs⟩ := h.kept r hr
      · exact .inl (List.mem_filter.2 ⟨hp, by simpa using heq⟩)
      · exact .inr (.inl ht)
      · exact .inr (.inr (.inl hw))
      · refine .inr (.inr (.inr ⟨slot, ?_⟩))
        rw [hcarries, if_neg]
        · exact hs
        · rintro rfl
          rw [hbefore] at hs
          cases hs

variable {waiter : Nat}

/-- A call deletes its request for a waiter that is registered and not chosen. -/
theorem chooseWaiter (h : Inv w) (hc : w.calls[place]? = some c)
    (hrequest : request ∈ c.stage.request) (hold : Handover.hands c.stage = none)
    (havailable : Available w request) (hwaiter : w.updateWaiters request.name = some waiter)
    (hunchosen : Unchosen w waiter) :
    Inv (deleteRequest (setCall w place c (.deletedForWaiter request waiter))
      request.updateId) := by
  have hmem := List.mem_of_getElem? hc
  have hin : request ∈ w.issued := h.pending request havailable.1
  have hcarries : ∀ slot, carries (deleteRequest (setCall w place c
      (.deletedForWaiter request waiter)) request.updateId) slot =
      if slot = .call place then some request else carries w slot :=
    fun slot => carries_setCall hc (.deletedForWaiter request waiter) slot
  have hnone : carries w (.call place) = none := by rw [carries_call hc, hold]; rfl
  obtain ⟨hcarried, hcarriedApart, hkept⟩ := h.carry havailable hnone hcarries
  exact { h with
    pending := fun r hr => h.pending r (List.mem_filter.1 hr).1
    delivered := fun r hr => h.delivered r (List.mem_filter.1 hr).1
    callRequest := by
      intro c' hc' r hr
      obtain hmem' | rfl := List.mem_or_eq_of_mem_set hc'
      · exact h.callRequest c' hmem' r hr
      · cases hr
        exact hin
    callApart := by
      refine apart_set h.callApart fun i a hi ha r hr r' hr' heq => ?_
      cases hr'
      exact hi (h.callApart i place a c ha hc r hr _ hrequest heq)
    hands := by
      intro c' hc' k hk
      obtain hmem' | rfl := List.mem_or_eq_of_mem_set hc'
      · exact h.hands c' hmem' k hk
      · cases hk
        exact h.waiters _ _ hwaiter
    handsApart := by
      refine apart_set h.handsApart fun i a _ ha k hk k' hk' heq => ?_
      cases hk'
      exact hunchosen a (List.mem_of_getElem? ha) k hk heq
    carried := hcarried
    carriedApart := hcarriedApart
    kept := hkept }

theorem resolveWaiter_eq (hx : w.waits[waiter]? = some x) (hpromise : x.promise = none)
    (value : Option (UpdateRequest ν κ π)) : resolveWaiter w waiter value =
      { w with waits := w.waits.set waiter { x with promise := some value } } := by
  have hlt : waiter < w.waits.length := (List.getElem?_eq_some_iff.1 hx).1
  unfold resolveWaiter
  congr 1
  apply List.ext_getElem?
  intro i
  rw [List.getElem?_modify]
  by_cases heq : waiter = i
  · subst heq
    rw [List.getElem?_set_self hlt, hx]
    simp [hpromise]
  · rw [List.getElem?_set_ne heq]
    simp only [if_neg heq]
    cases w.waits[i]? <;> rfl

/-- A waiter is called, with the request that the call carries or with none. -/
theorem callWaiter [DecidableEq ν] (h : Inv w) (hc : w.calls[place]? = some c)
    (stage : CallStage ν κ π ρ) (hrequest : ∀ r ∈ stage.request, r ∈ c.stage.request)
    (hnew : Handover.hands stage = none) (hx : w.waits[waiter]? = some x) (hfree : free x = true)
    (hothers : ∀ (i : Nat) (c' : Call ν κ π ρ), i ≠ place → w.calls[i]? = some c' →
      ∀ k ∈ Handover.hands c'.stage, k.2 ≠ waiter) :
    Inv (resolveWaiter
      { setCall w place c stage with
        updateWaiters := Function.update w.updateWaiters x.name none }
      waiter ((Handover.hands c.stage).map Prod.fst)) := by
  have hlt : waiter < w.waits.length := (List.getElem?_eq_some_iff.1 hx).1
  simp only [free, Bool.and_eq_true, Option.isNone_iff_eq_none] at hfree
  obtain ⟨hlistens, hpromise⟩ := hfree
  have hresolved : resolveWaiter
      { setCall w place c stage with
        updateWaiters := Function.update w.updateWaiters x.name none }
      waiter ((Handover.hands c.stage).map Prod.fst) =
      { w with
        calls := w.calls.set place { c with stage := stage }
        updateWaiters := Function.update w.updateWaiters x.name none
        waits := w.waits.set waiter
          { x with promise := some ((Handover.hands c.stage).map Prod.fst) } } :=
    resolveWaiter_eq (w := { setCall w place c stage with
      updateWaiters := Function.update w.updateWaiters x.name none }) hx hpromise _
  rw [hresolved]
  have hmem := List.mem_of_getElem? hc
  have hwaitsplit : ∀ y ∈ w.waits.set waiter
      { x with promise := some ((Handover.hands c.stage).map Prod.fst) },
      ∃ y' ∈ w.waits, y.stage = y'.stage ∧ (begins y.stage = true → y.promise = y'.promise) := by
    intro y hy
    obtain hin | rfl := List.mem_or_eq_of_mem_set hy
    · exact ⟨y, hin, rfl, fun _ => rfl⟩
    · refine ⟨x, List.mem_of_getElem? hx, rfl, fun hbegins => ?_⟩
      cases hs : x.stage <;> simp [hs, listens, begins] at hlistens hbegins
  have hcarrieswaiter : carries w (.wait waiter) = none := by
    rw [carries_wait hx, waitCarries]
    cases hs : x.stage <;> simp [hs, listens, hpromise] at hlistens ⊢
  have hcarries : ∀ slot, carries
      { w with
        calls := w.calls.set place { c with stage := stage }
        updateWaiters := Function.update w.updateWaiters x.name none
        waits := w.waits.set waiter
          { x with promise := some ((Handover.hands c.stage).map Prod.fst) } } slot =
      if slot = .call place then none
      else if slot = .wait waiter then carries w (.call place) else carries w slot := by
    intro slot
    cases slot with
    | call other =>
      refine Eq.trans (carries_setCall hc stage (.call other)) ?_
      rw [hnew, Option.map_none]
      simp
    | wait other =>
      rw [if_neg (by simp)]
      by_cases heq : other = waiter
      · subst heq
        rw [if_pos rfl, carries_call hc, carries, List.getElem?_set_self hlt, Option.bind_some,
          waitCarries]
        cases hs : x.stage <;> simp [hs, listens] at hlistens ⊢
      · rw [if_neg (by simpa using heq), carries, carries, List.getElem?_set_ne (Ne.symm heq)]
  have hstay : ∀ (i : Nat) (y : Wait ν κ π ρ), i ≠ waiter → w.waits[i]? = some y →
      (w.waits.set waiter
        { x with promise := some ((Handover.hands c.stage).map Prod.fst) })[i]? = some y := by
    intro i y hne hy
    rw [List.getElem?_set_ne (Ne.symm hne)]
    exact hy
  exact { h with
    callRequest := by
      intro c' hc' r hr
      obtain hmem' | rfl := List.mem_or_eq_of_mem_set hc'
      · exact h.callRequest c' hmem' r hr
      · exact h.callRequest c hmem r (hrequest r hr)
    callApart := apart_set h.callApart fun i a hi ha r hr r' hr' heq =>
      hi (h.callApart i place a c ha hc r hr r' (hrequest r' hr') heq)
    waitRequest := by
      intro y hy r hr
      obtain ⟨y', hy', hstage, -⟩ := hwaitsplit y hy
      rw [hstage] at hr
      exact h.waitRequest y' hy' r hr
    begun := by
      intro y hy hbegins
      obtain ⟨y', hy', hstage, hsame⟩ := hwaitsplit y hy
      rw [hsame hbegins]
      rw [hstage] at hbegins
      exact h.begun y' hy' hbegins
    waitHolds := by
      intro y hy r hr
      obtain ⟨y', hy', hstage, -⟩ := hwaitsplit y hy
      rw [hstage] at hr
      exact h.waitHolds y' hy' r hr
    waiters := by
      intro name other hother
      obtain ⟨-, ⟨⟩⟩ | ⟨heq, hother⟩ := update_some_cases hother
      obtain ⟨y, hy, hrest⟩ := h.waiters name other hother
      refine ⟨y, hstay other y ?_ hy, hrest⟩
      rintro rfl
      rw [hx] at hy
      cases hy
      exact heq hrest.2.symm
    hands := by
      intro c' hc' k hk
      obtain ⟨i, hi⟩ := List.getElem?_of_mem hc'
      obtain ⟨rfl, rfl⟩ | ⟨hne, hold⟩ := getElem?_set_cases hi
      · rw [hnew] at hk
        cases hk
      · obtain ⟨y, hy, hrest⟩ := h.hands c' (List.mem_of_getElem? hold) k hk
        exact ⟨y, hstay k.2 y (hothers i c' hne hold k hk) hy, hrest⟩
    handsApart := by
      refine apart_set h.handsApart fun i a _ _ k _ k' hk' => ?_
      rw [hnew] at hk'
      cases hk'
    carried := by
      intro slot r hr
      rw [hcarries] at hr
      split at hr
      · cases hr
      · split at hr
        · exact h.carried _ r hr
        · exact h.carried slot r hr
    carriedApart := by
      intro slot slot' r r' hr hr' heq
      rw [hcarries] at hr hr'
      split at hr
      · cases hr
      · rename_i hcall
        split at hr'
        · cases hr'
        · rename_i hcall'
          split at hr
          · rename_i hs
            split at hr'
            · rename_i hs'
              rw [hs, hs']
            · exact absurd (h.carriedApart _ _ r r' hr hr' heq).symm hcall'
          · split at hr'
            · exact absurd (h.carriedApart _ _ r r' hr hr' heq) hcall
            · exact h.carriedApart slot slot' r r' hr hr' heq
    kept := by
      intro r hr
      obtain hp | ht | hw | ⟨slot, hs⟩ := h.kept r hr
      · exact .inl hp
      · exact .inr (.inl ht)
      · exact .inr (.inr (.inl hw))
      · refine .inr (.inr (.inr ?_))
        by_cases heq : slot = .call place
        · subst heq
          exact ⟨.wait waiter, by rw [hcarries, if_neg (by simp), if_pos rfl, hs]⟩
        · refine ⟨slot, ?_⟩
          rw [hcarries, if_neg heq, if_neg]
          · exact hs
          · rintro rfl
            rw [hcarrieswaiter] at hs
            cases hs }

variable {w' : World ν κ π ρ}

variable {ok : Bool}

theorem callStep [DecidableEq ν] (h : Inv w) (hc : w.calls[place]? = some c)
    {updateId createdAt : Nat} (hok : Orderly w (.call place ok updateId createdAt))
    (hstep : callStep w place c ok updateId createdAt = some w') : Inv w' := by
  obtain ⟨hdelivers, htakes⟩ := hok c hc
  have hmem := List.mem_of_getElem? hc
  rw [Updates.callStep] at hstep
  split at hstep
  · -- checkIdempotency
    rename_i hstage
    split at hstep
    all_goals
      cases hstep
      exact h.quietCall hc (fun r hr => (by cases hr)) (by rw [hstage]; rfl) rfl
  · -- getResponse
    rename_i id hstage
    split at hstep
    all_goals
      cases hstep
      exact h.quietCall hc (fun r hr => (by cases hr)) (by rw [hstage]; rfl) rfl
  · -- tryWaiting
    rename_i waiter hstage
    cases hstep
    exact h.quietCall hc (fun r hr => (by cases hr)) (by rw [hstage]; rfl) rfl
  · -- triedWaiting
    rename_i waiter found hstage
    split at hstep
    · cases hstep
      exact h.quietCall hc (fun r hr => (by cases hr)) (by rw [hstage]; rfl) rfl
    · rename_i hfree
      rw [not_or, not_not] at hfree
      obtain ⟨hwaiter, hfound⟩ := hfree
      obtain rfl : found = false := by simpa using hfound
      cases hstep
      have hunchosen := htakes waiter (by rw [hstage]; rfl) hwaiter
      obtain ⟨x, hx, hfree, hname⟩ := h.waiters _ _ hwaiter
      have hnone : Handover.hands c.stage = none := by rw [hstage]; rfl
      have hcall := h.callWaiter hc .handedOver (fun r hr => (by cases hr)) rfl hx hfree
        (fun i c' _ hc' k hk => hunchosen c' (List.mem_of_getElem? hc') k hk)
      rw [hnone, hname] at hcall
      exact hcall
  · -- createRequest
    rename_i hstage
    split at hstep
    · split at hstep
      · cases hstep
      · rename_i hfresh
        cases hstep
        exact h.createRequest hc (by rw [hstage]; rfl) hfresh
    · cases hstep
      exact h.quietCall hc (fun r hr => (by cases hr)) (by rw [hstage]; rfl) rfl
  · -- guardTerminal
    rename_i request hstage
    split at hstep
    all_goals
      cases hstep
      exact h.quietCall hc (fun r hr => by rw [hstage]; exact hr) (by rw [hstage]; rfl) rfl
  · -- deleteIfUnconsumed
    rename_i request hstage
    split at hstep
    · cases hstep
      exact h.quietCall hc (fun r hr => by rw [hstage]; exact hr) (by rw [hstage]; rfl) rfl
    · cases hstep
      apply withdraw
      exact h.quietCall hc (fun r hr => by rw [hstage]; exact hr) (by rw [hstage]; rfl) rfl
  · -- deletedUnconsumed
    rename_i request hstage
    split at hstep
    · cases hstep
      exact h.quietCall hc (fun r hr => by rw [hstage]; exact hr) (by rw [hstage]; rfl) rfl
    · cases hstep
      exact h.quietCall hc (fun r hr => (by cases hr)) (by rw [hstage]; rfl) rfl
  · -- deliver
    rename_i request hstage
    split at hstep
    all_goals
      cases hstep
      exact h.quietCall hc (fun r hr => by rw [hstage]; exact hr) (by rw [hstage]; rfl) rfl
  · -- findPending
    rename_i request waiter hstage
    cases hstep
    exact h.quietCall hc (fun r hr => by rw [hstage]; exact hr) (by rw [hstage]; rfl) rfl
  · -- foundPending
    rename_i request waiter oldest hstage
    split at hstep
    · rename_i found
      split at hstep
      · rename_i heq
        cases hstep
        have hk : (request, waiter) ∈ delivers c.stage := by
          rw [hstage, delivers, if_pos heq]
          rfl
        obtain ⟨havailable, hwaiter, hunchosen⟩ := hdelivers _ hk
        exact h.chooseWaiter hc (by rw [hstage]; rfl) (by rw [hstage]; rfl) havailable hwaiter
          hunchosen
      · cases hstep
        exact h.quietCall hc (fun r hr => by rw [hstage]; exact hr) (by rw [hstage]; rfl) rfl
    · cases hstep
      exact h.quietCall hc (fun r hr => by rw [hstage]; exact hr) (by rw [hstage]; rfl) rfl
  · -- deletedForWaiter
    rename_i request waiter hstage
    cases hstep
    have hk : Handover.hands c.stage = some (request, waiter) := by rw [hstage]; rfl
    obtain ⟨x, hx, hfree, hname⟩ := h.hands c hmem (request, waiter) hk
    have hcall := h.callWaiter hc (.waitForResponse request)
      (fun r hr => by rw [hstage]; exact hr) rfl hx hfree
      (fun i c' hne hc' k hk' heq => hne (h.handsApart i place c' c hc' hc k hk' _ hk heq))
    rw [hk, hname] at hcall
    exact hcall
  · -- waitForResponse
    rename_i request hstage
    split at hstep
    · split at hstep
      · cases hstep
        exact h.quietCall hc (fun r hr => (by cases hr)) (by rw [hstage]; rfl) rfl
      · cases hstep
        exact h
    · cases hstep
      exact h.quietCall hc (fun r hr => (by cases hr)) (by rw [hstage]; rfl) rfl
  · cases hstep

/-- A wait that is not free is no waiter and is chosen by none. -/
theorem ne_of_free {x y : Wait ν κ π ρ} {place other : Nat} (hx : w.waits[place]? = some x)
    (hbusy : free x = false) (hy : w.waits[other]? = some y) (hfree : free y = true) :
    other ≠ place := by
  rintro rfl
  rw [hx] at hy
  cases hy
  rw [hbusy] at hfree
  cases hfree

/-- A wait goes on and carries what it carried before. -/
theorem quietWait (h : Inv w) (hx : w.waits[place]? = some x) (stage : WaitStage ν κ π ρ)
    (hrequest : ∀ r ∈ stage.request, r ∈ w.issued)
    (hholds : ∀ r ∈ stage.holds, r.updateId ∈ w.taken.map Prod.fst)
    (hbegins : begins stage = true → begins x.stage = true)
    (hfree : free x = true → free { x with stage := stage } = true)
    (hsame : waitCarries { x with stage := stage } = waitCarries x) :
    Inv (setWait w place x stage) := by
  have hlt : place < w.waits.length := (List.getElem?_eq_some_iff.1 hx).1
  have hmem := List.mem_of_getElem? hx
  have hcarries : ∀ slot, carries (setWait w place x stage) slot = carries w slot := by
    intro slot
    rw [carries_setWait hx]
    split
    · rename_i heq
      rw [heq, carries_wait hx, hsame]
    · rfl
  have hstay : ∀ (i : Nat) (y : Wait ν κ π ρ), w.waits[i]? = some y → free y = true →
      ∃ y', (w.waits.set place { x with stage := stage })[i]? = some y' ∧ free y' = true ∧
        y'.name = y.name := by
    intro i y hy hyfree
    by_cases heq : i = place
    · subst heq
      rw [hx] at hy
      cases hy
      exact ⟨_, List.getElem?_set_self hlt, hfree hyfree, rfl⟩
    · rw [List.getElem?_set_ne (Ne.symm heq)]
      exact ⟨y, hy, hyfree, rfl⟩
  exact { h with
    waitRequest := by
      intro y hy r hr
      obtain hin | rfl := List.mem_or_eq_of_mem_set hy
      · exact h.waitRequest y hin r hr
      · exact hrequest r hr
    begun := by
      intro y hy hb
      obtain hin | rfl := List.mem_or_eq_of_mem_set hy
      · exact h.begun y hin hb
      · exact h.begun x hmem (hbegins hb)
    waitHolds := by
      intro y hy r hr
      obtain hin | rfl := List.mem_or_eq_of_mem_set hy
      · exact h.waitHolds y hin r hr
      · exact hholds r hr
    waiters := by
      intro name waiter hwaiter
      obtain ⟨y, hy, hyfree, hname⟩ := h.waiters name waiter hwaiter
      obtain ⟨y', hy', hyfree', hname'⟩ := hstay waiter y hy hyfree
      exact ⟨y', hy', hyfree', hname'.trans hname⟩
    hands := by
      intro c hc k hk
      obtain ⟨y, hy, hyfree, hname⟩ := h.hands c hc k hk
      obtain ⟨y', hy', hyfree', hname'⟩ := hstay k.2 y hy hyfree
      exact ⟨y', hy', hyfree', hname'.trans hname⟩
    carried := by
      intro slot r hr
      rw [hcarries] at hr
      exact h.carried slot r hr
    carriedApart := by
      intro slot slot' r r' hr hr'
      rw [hcarries] at hr hr'
      exact h.carriedApart slot slot' r r' hr hr'
    kept := by
      intro r hr
      simp only [hcarries]
      exact h.kept r hr }

theorem register [DecidableEq ν] (h : Inv w) (hx : w.waits[place]? = some x)
    (hfree : free x = true) :
    Inv { w with updateWaiters := Function.update w.updateWaiters x.name (some place) } := { h with
  waiters := by
    intro name waiter hwaiter
    obtain ⟨rfl, ⟨⟩⟩ | ⟨-, hwaiter⟩ := update_some_cases hwaiter
    · exact ⟨x, hx, hfree, rfl⟩
    · exact h.waiters name waiter hwaiter }

/-- A wait deletes the request it has found, and its waiter is registered no more. -/
theorem deleteForWait (h : Inv w) (hx : w.waits[place]? = some x)
    (havailable : Available w request) (hunchosen : Unchosen w place)
    (hnone : waitCarries x = none) (waiters : ν → Option Nat)
    (hwaiters : ∀ name waiter, waiters name = some waiter →
      w.updateWaiters name = some waiter ∧ waiter ≠ place) :
    Inv (deleteRequest (setWait { w with updateWaiters := waiters } place x (.deleted request))
      request.updateId) := by
  have hin : request ∈ w.issued := h.pending request havailable.1
  have hcarries : ∀ slot, carries (deleteRequest (setWait { w with updateWaiters := waiters } place
      x (.deleted request)) request.updateId) slot =
      if slot = .wait place then some request else carries w slot :=
    fun slot => carries_setWait (w := { w with updateWaiters := waiters }) hx
      (.deleted request) slot
  have hbefore : carries w (.wait place) = none := by rw [carries_wait hx, hnone]
  obtain ⟨hcarried, hcarriedApart, hkept⟩ := h.carry havailable hbefore hcarries
  have hstay : ∀ (i : Nat) (y : Wait ν κ π ρ), i ≠ place → w.waits[i]? = some y →
      (w.waits.set place { x with stage := .deleted request })[i]? = some y := by
    intro i y hne hy
    rw [List.getElem?_set_ne (Ne.symm hne)]
    exact hy
  exact { h with
    pending := fun r hr => h.pending r (List.mem_filter.1 hr).1
    delivered := fun r hr => h.delivered r (List.mem_filter.1 hr).1
    waitRequest := by
      intro y hy r hr
      obtain hin' | rfl := List.mem_or_eq_of_mem_set hy
      · exact h.waitRequest y hin' r hr
      · cases hr
        exact hin
    begun := by
      intro y hy hb
      obtain hin' | rfl := List.mem_or_eq_of_mem_set hy
      · exact h.begun y hin' hb
      · cases hb
    waitHolds := by
      intro y hy r hr
      obtain hin' | rfl := List.mem_or_eq_of_mem_set hy
      · exact h.waitHolds y hin' r hr
      · cases hr
    waiters := by
      intro name waiter hwaiter
      obtain ⟨hold, hne⟩ := hwaiters name waiter hwaiter
      obtain ⟨y, hy, hrest⟩ := h.waiters name waiter hold
      exact ⟨y, hstay waiter y hne hy, hrest⟩
    hands := by
      intro c hc k hk
      obtain ⟨y, hy, hrest⟩ := h.hands c hc k hk
      exact ⟨y, hstay k.2 y (hunchosen c hc k hk) hy, hrest⟩
    carried := hcarried
    carriedApart := hcarriedApart
    kept := hkept }

/-- A wait is completed with the request it carries. -/
theorem complete (h : Inv w) (hx : w.waits[place]? = some x)
    (hcarry : waitCarries x = some request) (hbusy : free x = false) :
    Inv (completeOperation w place x request) := by
  have hslot : carries w (.wait place) = some request := by rw [carries_wait hx, hcarry]
  obtain ⟨hin, htaken, hpending⟩ := h.carried _ _ hslot
  have hcarries : ∀ slot, carries (completeOperation w place x request) slot =
      if slot = .wait place then none else carries w slot :=
    fun slot => carries_setWait hx (.completed request) slot
  have hmore : ∀ updateId ∈ w.taken.map Prod.fst,
      updateId ∈ ((request.updateId, Taker.wait place) :: w.taken).map Prod.fst :=
    fun _ hid => List.mem_cons_of_mem _ hid
  have hstay : ∀ (i : Nat) (y : Wait ν κ π ρ), w.waits[i]? = some y → free y = true →
      (w.waits.set place { x with stage := .completed request })[i]? = some y := by
    intro i y hy hyfree
    rw [List.getElem?_set_ne (Ne.symm (ne_of_free hx hbusy hy hyfree))]
    exact hy
  exact { h with
    waitRequest := by
      intro y hy r hr
      obtain hin' | rfl := List.mem_or_eq_of_mem_set hy
      · exact h.waitRequest y hin' r hr
      · cases hr
        exact hin
    begun := by
      intro y hy hb
      obtain hin' | rfl := List.mem_or_eq_of_mem_set hy
      · exact h.begun y hin' hb
      · cases hb
    taken := List.nodup_cons.2 ⟨htaken, h.taken⟩
    takenIssued := by
      intro updateId hid
      obtain rfl | hid := List.mem_cons.1 hid
      · exact ⟨request, hin, rfl⟩
      · exact h.takenIssued updateId hid
    delivered := by
      intro r hr hid
      obtain heq | hid := List.mem_cons.1 hid
      · change r.updateId = request.updateId at heq
        rw [← heq] at hpending
        exact absurd (List.mem_map_of_mem hr) hpending
      · exact h.delivered r hr hid
    drainHolds := fun stage hstage r hr => hmore _ (h.drainHolds stage hstage r hr)
    waitHolds := by
      intro y hy r hr
      obtain hin' | rfl := List.mem_or_eq_of_mem_set hy
      · exact hmore _ (h.waitHolds y hin' r hr)
      · cases hr
        exact List.mem_cons_self
    waiters := by
      intro name waiter hwaiter
      obtain ⟨y, hy, hyfree, hname⟩ := h.waiters name waiter hwaiter
      exact ⟨y, hstay waiter y hy hyfree, hyfree, hname⟩
    hands := by
      intro c hc k hk
      obtain ⟨y, hy, hyfree, hname⟩ := h.hands c hc k hk
      exact ⟨y, hstay k.2 y hy hyfree, hyfree, hname⟩
    carried := by
      intro slot r hr
      rw [hcarries] at hr
      split at hr
      · cases hr
      · rename_i hne
        obtain ⟨hin', htaken', hout⟩ := h.carried slot r hr
        refine ⟨hin', fun hid => ?_, hout⟩
        obtain heq | hid := List.mem_cons.1 hid
        · exact hne (h.carriedApart _ _ r request hr hslot heq)
        · exact htaken' hid
    carriedApart := by
      intro slot slot' r r' hr hr' heq
      rw [hcarries] at hr hr'
      split at hr
      · cases hr
      · split at hr'
        · cases hr'
        · exact h.carriedApart slot slot' r r' hr hr' heq
    kept := by
      intro r hr
      obtain hp | ht | hw | ⟨slot, hs⟩ := h.kept r hr
      · exact .inl hp
      · exact .inr (.inl (hmore _ ht))
      · exact .inr (.inr (.inl hw))
      · by_cases heq : slot = .wait place
        · subst heq
          rw [hslot] at hs
          cases hs
          exact .inr (.inl List.mem_cons_self)
        · refine .inr (.inr (.inr ⟨slot, ?_⟩))
          rw [hcarries, if_neg heq]
          exact hs }

/-- The answer of a request that was handed over is committed. -/
theorem commitResponse [DecidableEq κ] (h : Inv w)
    (htaken : request.updateId ∈ w.taken.map Prod.fst) (response : UpdateResponse ρ) :
    Inv (commitResponse w request response) := { h with
  pending := fun r hr => h.pending r (List.mem_filter.1 hr).1
  delivered := fun r hr => h.delivered r (List.mem_filter.1 hr).1
  carried := by
    intro slot r hr
    obtain ⟨hin, hid, hpending⟩ := h.carried slot r hr
    refine ⟨hin, hid, fun hmem => hpending ?_⟩
    obtain ⟨r', hr', heq⟩ := List.mem_map.1 hmem
    exact List.mem_map.2 ⟨r', (List.mem_filter.1 hr').1, heq⟩
  kept := by
    intro r hr
    by_cases heq : r.updateId = request.updateId
    · right; left
      rw [heq]
      exact htaken
    · obtain hin | hrest := h.kept r hr
      · exact .inl (List.mem_filter.2 ⟨hin, by simpa using heq⟩)
      · exact .inr hrest }

theorem found (h : Inv w) [DecidableEq ν] {name : ν}
    (hfind : findPendingUpdateByName w name = some r) : r ∈ w.issued :=
  h.pending r (Updates.Inv.mem_pendingUpdates (List.mem_of_find?_eq_some hfind))

theorem waitStep [DecidableEq ν] [DecidableEq κ] (h : Inv w) (hx : w.waits[place]? = some x)
    (hok : Orderly w (.wait place ok)) (hstep : waitStep w place x ok = some w') : Inv w' := by
  have hmem := List.mem_of_getElem? hx
  have hdeletes := hok x hx
  have hname : ∀ name, w.updateWaiters name = some place → name = x.name := by
    intro name hwaiter
    obtain ⟨y, hy, -, hname⟩ := h.waiters name place hwaiter
    rw [hx] at hy
    cases hy
    exact hname.symm
  rw [Updates.waitStep] at hstep
  split at hstep
  · -- findPending
    rename_i hstage
    cases hstep
    exact h.quietWait hx (.foundPending _) (fun r hr => h.found hr) (fun r hr => (by cases hr))
      (fun _ => by rw [hstage]; rfl) (fun hfree => by simp [free, hstage, listens] at hfree)
      (by simp [waitCarries, hstage, listens])
  · -- foundPending
    rename_i matching hstage
    split at hstep
    · rename_i request
      obtain ⟨havailable, hunchosen, hpromise⟩ := hdeletes request (by rw [hstage]; rfl)
      cases hstep
      refine h.deleteForWait hx havailable hunchosen (by simp [waitCarries, hstage, listens])
        w.updateWaiters ?_
      intro name waiter hwaiter
      obtain ⟨y, hy, hfree, -⟩ := h.waiters name waiter hwaiter
      exact ⟨hwaiter, ne_of_free hx (by simp [free, hstage, listens]) hy hfree⟩
    · cases hstep
      have hpromise : x.promise = none := h.begun x hmem (by rw [hstage]; rfl)
      have hquiet := h.quietWait hx .registered (fun r hr => (by cases hr))
        (fun r hr => (by cases hr)) (fun hb => (by cases hb))
        (fun hfree => by simp [free, hstage, listens] at hfree)
        (by simp [waitCarries, hstage, listens, hpromise])
      have hlt : place < w.waits.length := (List.getElem?_eq_some_iff.1 hx).1
      exact hquiet.register (x := { x with stage := .registered }) (List.getElem?_set_self hlt)
        (by simp [free, listens, hpromise])
  · -- deleted
    rename_i request hstage
    cases hstep
    exact h.complete hx (by rw [waitCarries, hstage]) (by simp [free, hstage, listens])
  · -- registered
    rename_i hstage
    cases hstep
    exact h.quietWait hx (.foundRegistered _) (fun r hr => h.found hr) (fun r hr => (by cases hr))
      (fun hb => (by cases hb)) (fun hfree => by simpa [free, hstage, listens] using hfree)
      (by simp [waitCarries, hstage, listens])
  · -- foundRegistered
    rename_i pending hstage
    split at hstep
    · rename_i request
      obtain ⟨havailable, hunchosen, hpromise⟩ := hdeletes request (by rw [hstage]; rfl)
      have hnone : waitCarries x = none := by
        rw [Option.isNone_iff_eq_none] at hpromise
        simp [waitCarries, hstage, listens, hpromise]
      by_cases hown : w.updateWaiters x.name = some place
      · simp only [if_pos hown] at hstep
        cases hstep
        refine h.deleteForWait hx havailable hunchosen hnone _ ?_
        intro name waiter hwaiter
        obtain ⟨-, ⟨⟩⟩ | ⟨heq, hwaiter⟩ := update_some_cases hwaiter
        refine ⟨hwaiter, ?_⟩
        rintro rfl
        exact heq (hname name hwaiter)
      · simp only [if_neg hown] at hstep
        cases hstep
        refine h.deleteForWait hx havailable hunchosen hnone w.updateWaiters ?_
        intro name waiter hwaiter
        refine ⟨hwaiter, ?_⟩
        rintro rfl
        rw [hname name hwaiter] at hwaiter
        exact hown hwaiter
    · cases hstep
      exact h.quietWait hx .awaiting (fun r hr => (by cases hr)) (fun r hr => (by cases hr))
        (fun hb => (by cases hb)) (fun hfree => by simpa [free, hstage, listens] using hfree)
        (by simp [waitCarries, hstage, listens])
  · -- awaiting
    rename_i hstage
    split at hstep
    · rename_i request hpromise
      cases hstep
      exact h.complete hx (by simp [waitCarries, hstage, listens, hpromise])
        (by simp [free, hpromise])
    · rename_i hpromise
      cases hstep
      exact h.quietWait hx .done (fun r hr => (by cases hr)) (fun r hr => (by cases hr))
        (fun hb => (by cases hb)) (fun hfree => by simp [free, hpromise] at hfree)
        (by simp [waitCarries, hstage, listens, hpromise])
    · cases hstep
  · -- responding
    rename_i request value hstage
    have hquiet : ∀ v : World ν κ π ρ, Inv v → v.waits[place]? = some x →
        Inv (setWait v place x .done) := by
      intro v hv hvx
      exact hv.quietWait hvx .done (fun r hr => (by cases hr)) (fun r hr => (by cases hr))
        (fun hb => (by cases hb)) (fun hfree => by simp [free, hstage, listens] at hfree)
        (by simp [waitCarries, hstage, listens])
    split at hstep
    · cases hstep
      have htaken := h.waitHolds x hmem request (by rw [hstage]; rfl)
      exact hquiet _ (h.commitResponse htaken _) hx
    · cases hstep
      exact hquiet w h hx
  · cases hstep

theorem setDrain (h : Inv w) (place : Nat) (stage : DrainStage ν κ π ρ)
    (hrequests : ∀ r ∈ stage.requests, r ∈ w.issued)
    (hholds : ∀ r ∈ stage.holds, r.updateId ∈ w.taken.map Prod.fst) :
    Inv { w with drains := w.drains.set place stage } := { h with
  drainRequests := by
    intro stage' hs r hr
    obtain hin | rfl := List.mem_or_eq_of_mem_set hs
    · exact h.drainRequests stage' hin r hr
    · exact hrequests r hr
  drainHolds := by
    intro stage' hs r hr
    obtain hin | rfl := List.mem_or_eq_of_mem_set hs
    · exact h.drainHolds stage' hin r hr
    · exact hholds r hr }

/-- A drain claims a stored request, which it has not seen before. -/
theorem claim (h : Inv w) (place : Nat) (hpending : request ∈ w.pending)
    (hnew : request.updateId ∉ w.deliveredPendingUpdateIds) : Inv { w with
      deliveredPendingUpdateIds := request.updateId :: w.deliveredPendingUpdateIds
      taken := (request.updateId, .drain place) :: w.taken } := by
  have hmore : ∀ updateId ∈ w.taken.map Prod.fst,
      updateId ∈ ((request.updateId, Taker.drain place) :: w.taken).map Prod.fst :=
    fun _ hid => List.mem_cons_of_mem _ hid
  exact { h with
    taken := List.nodup_cons.2 ⟨fun hid => hnew (h.delivered request hpending hid), h.taken⟩
    takenIssued := by
      intro updateId hid
      obtain rfl | hid := List.mem_cons.1 hid
      · exact ⟨request, h.pending request hpending, rfl⟩
      · exact h.takenIssued updateId hid
    delivered := by
      intro r hr hid
      obtain heq | hid := List.mem_cons.1 hid
      · exact List.mem_cons.2 (.inl heq)
      · exact List.mem_cons_of_mem _ (h.delivered r hr hid)
    drainHolds := fun stage hs r hr => hmore _ (h.drainHolds stage hs r hr)
    waitHolds := fun x hx r hr => hmore _ (h.waitHolds x hx r hr)
    carried := by
      intro slot r hr
      obtain ⟨hin, hid, hout⟩ := h.carried slot r hr
      refine ⟨hin, fun hid' => ?_, hout⟩
      obtain heq | hid' := List.mem_cons.1 hid'
      · exact h.not_carried_of_pending hpending hr heq
      · exact hid hid'
    kept := by
      intro r hr
      obtain hp | ht | hrest := h.kept r hr
      · exact .inl hp
      · exact .inr (.inl (hmore _ ht))
      · exact .inr (.inr hrest) }

theorem drainStep [DecidableEq κ] (h : Inv w) {stage : DrainStage ν κ π ρ}
    (hstage : w.drains[place]? = some stage) {response : UpdateResponse ρ}
    (hok : Orderly w (.drainStep place ok response))
    (hstep : drainStep w place stage ok response = some w') : Inv w' := by
  have hmem := List.mem_of_getElem? hstage
  have hrequests := h.drainRequests stage hmem
  have hholds := h.drainHolds stage hmem
  cases stage with
  | scan =>
    cases hstep
    exact h.setDrain place _ (fun r hr => h.pending r (Updates.Inv.mem_pendingUpdates hr))
      (fun r hr => (by cases hr))
  | next rest =>
    cases rest with
    | nil =>
      cases hstep
      exact h.setDrain place _ (fun r hr => (by cases hr)) (fun r hr => (by cases hr))
    | cons request rest =>
      simp only [Updates.drainStep] at hstep
      split at hstep
      · rename_i hclaim
        cases hstep
        have hpending := hok hclaim.1 _ hstage request rfl hclaim.2
        apply (h.claim place hpending hclaim.2).setDrain place (.claimed request rest)
          hrequests
        intro r hr
        cases hr
        exact List.mem_cons_self
      · cases hstep
        exact h.setDrain place _ (fun r hr => hrequests r (List.mem_cons_of_mem _ hr))
          (fun r hr => (by cases hr))
  | claimed request rest =>
    simp only [Updates.drainStep] at hstep
    split at hstep
    · cases hstep
      have hset := h.setDrain place (.respond request response rest) hrequests hholds
      exact { hset with }
    · cases hstep
      exact h.setDrain place _ hrequests hholds
  | respond request answer rest =>
    simp only [Updates.drainStep] at hstep
    split at hstep
    · cases hstep
      exact (h.commitResponse (hholds request rfl) answer).setDrain place (.next rest)
        (fun r hr => hrequests r (List.mem_cons_of_mem _ hr)) (fun r hr => (by cases hr))
    · cases hstep
      exact h.setDrain place _ (fun r hr => (by cases hr)) (fun r hr => (by cases hr))
  | done => cases hstep

theorem getElem?_append_cases {α : Type*} {l : List α} {a b : α} (h : (l ++ [a])[place]? = some b) :
    l[place]? = some b ∨ b = a := by
  rw [List.getElem?_append] at h
  split at h
  · exact .inl h
  · rw [List.getElem?_singleton] at h
    split at h
    · exact .inr (Option.some.inj h).symm
    · cases h

/-- What carries nothing when it is added changes no slot. -/
theorem bind_getElem?_append {α β : Type*} (l : List α) {a : α} {f : α → Option β}
    (ha : f a = none) (place : Nat) : ((l ++ [a])[place]?).bind f = (l[place]?).bind f := by
  rw [List.getElem?_append]
  split
  · rfl
  · rename_i hge
    rw [List.getElem?_eq_none (Nat.le_of_not_lt hge), List.getElem?_singleton]
    split
    · exact ha
    · rfl

/-- A call begins. -/
theorem addCall (h : Inv w) (hrequest : c.stage.request = none)
    (hnone : Handover.hands c.stage = none) : Inv { w with calls := w.calls ++ [c] } := by
  have hsplit : ∀ c' ∈ w.calls ++ [c], c' ∈ w.calls ∨ c' = c := by
    intro c' hc'
    exact (List.mem_append.1 hc').imp_right List.mem_singleton.1
  have hcarries : ∀ slot, carries { w with calls := w.calls ++ [c] } slot = carries w slot := by
    intro slot
    cases slot with
    | wait place => rfl
    | call place => exact bind_getElem?_append w.calls (by rw [hnone]; rfl) place
  exact { h with
    callRequest := by
      intro c' hc' r hr
      obtain hold | rfl := hsplit c' hc'
      · exact h.callRequest c' hold r hr
      · rw [hrequest] at hr
        cases hr
    callApart := by
      intro i j a b ha hb r hr r' hr' heq
      obtain ha' | rfl := getElem?_append_cases ha
      · obtain hb' | rfl := getElem?_append_cases hb
        · exact h.callApart i j a b ha' hb' r hr r' hr' heq
        · rw [hrequest] at hr'
          cases hr'
      · rw [hrequest] at hr
        cases hr
    hands := by
      intro c' hc' k hk
      obtain hold | rfl := hsplit c' hc'
      · exact h.hands c' hold k hk
      · rw [hnone] at hk
        cases hk
    handsApart := by
      intro i j a b ha hb k hk k' hk' heq
      obtain ha' | rfl := getElem?_append_cases ha
      · obtain hb' | rfl := getElem?_append_cases hb
        · exact h.handsApart i j a b ha' hb' k hk k' hk' heq
        · rw [hnone] at hk'
          cases hk'
      · rw [hnone] at hk
        cases hk
    carried := by
      intro slot r hr
      rw [hcarries] at hr
      exact h.carried slot r hr
    carriedApart := by
      intro slot slot' r r' hr hr'
      rw [hcarries] at hr hr'
      exact h.carriedApart slot slot' r r' hr hr'
    kept := by
      intro r hr
      simp only [hcarries]
      exact h.kept r hr }

/-- A wait begins. -/
theorem addWait (h : Inv w) (name : ν) :
    Inv { w with waits := w.waits ++ [⟨name, .findPending, none⟩] } := by
  have hsplit : ∀ x ∈ w.waits ++ [⟨name, .findPending, none⟩],
      x ∈ w.waits ∨ x = ⟨name, .findPending, none⟩ := by
    intro x hx
    exact (List.mem_append.1 hx).imp_right List.mem_singleton.1
  have hstay : ∀ (i : Nat) (y : Wait ν κ π ρ), w.waits[i]? = some y →
      (w.waits ++ [⟨name, .findPending, none⟩])[i]? = some y := by
    intro i y hy
    rw [List.getElem?_append_left (List.getElem?_eq_some_iff.1 hy).1]
    exact hy
  have hcarries : ∀ slot, carries { w with waits := w.waits ++ [⟨name, .findPending, none⟩] } slot =
      carries w slot := by
    intro slot
    cases slot with
    | wait place => exact bind_getElem?_append w.waits rfl place
    | call place => rfl
  exact { h with
    waitRequest := by
      intro x hx r hr
      obtain hold | rfl := hsplit x hx
      · exact h.waitRequest x hold r hr
      · cases hr
    begun := by
      intro x hx hb
      obtain hold | rfl := hsplit x hx
      · exact h.begun x hold hb
      · rfl
    waitHolds := by
      intro x hx r hr
      obtain hold | rfl := hsplit x hx
      · exact h.waitHolds x hold r hr
      · cases hr
    waiters := by
      intro name' waiter hwaiter
      obtain ⟨y, hy, hrest⟩ := h.waiters name' waiter hwaiter
      exact ⟨y, hstay waiter y hy, hrest⟩
    hands := by
      intro c hc k hk
      obtain ⟨y, hy, hrest⟩ := h.hands c hc k hk
      exact ⟨y, hstay k.2 y hy, hrest⟩
    carried := by
      intro slot r hr
      rw [hcarries] at hr
      exact h.carried slot r hr
    carriedApart := by
      intro slot slot' r r' hr hr'
      rw [hcarries] at hr hr'
      exact h.carriedApart slot slot' r r' hr hr'
    kept := by
      intro r hr
      simp only [hcarries]
      exact h.kept r hr }

/-- A drain begins. -/
theorem addDrain (h : Inv w) : Inv { w with drains := w.drains ++ [.scan] } := by
  have hsplit : ∀ stage ∈ w.drains ++ [.scan], stage ∈ w.drains ∨ stage = .scan := by
    intro stage hs
    exact (List.mem_append.1 hs).imp_right List.mem_singleton.1
  exact { h with
    drainRequests := by
      intro stage hs r hr
      obtain hold | rfl := hsplit stage hs
      · exact h.drainRequests stage hold r hr
      · cases hr
    drainHolds := by
      intro stage hs r hr
      obtain hold | rfl := hsplit stage hs
      · exact h.drainHolds stage hold r hr
      · cases hr }

theorem step [DecidableEq ν] [DecidableEq κ] (h : Inv w) {event : Event ν κ π ρ}
    (hok : Orderly w event) (hstep : updateMachine.step w event = some w') : Inv w' := by
  cases event with
  | submitCoordinatedUpdate name payload key =>
    cases hstep
    cases key with
    | none => exact h.addCall rfl rfl
    | some key => exact h.addCall rfl rfl
  | update name payload =>
    cases hstep
    cases hwaiter : w.updateWaiters name with
    | none => exact h.addCall rfl rfl
    | some waiter => exact h.addCall rfl rfl
  | call place ok updateId createdAt =>
    obtain ⟨c, hc, hcall⟩ := Option.bind_eq_some_iff.1 hstep
    exact h.callStep hc hok hcall
  | processWaitUpdateOperation name =>
    cases hstep
    exact h.addWait name
  | wait place ok =>
    obtain ⟨x, hx, hwait⟩ := Option.bind_eq_some_iff.1 hstep
    exact h.waitStep hx hok hwait
  | respond place value =>
    obtain ⟨x, hx, hrespond⟩ := Option.bind_eq_some_iff.1 hstep
    split at hrespond
    · rename_i request hstage
      cases hrespond
      have hmem := List.mem_of_getElem? hx
      refine h.quietWait hx (.responding request value) ?_ ?_ (fun hb => (by cases hb))
        (fun hfree => by simp [free, hstage, listens] at hfree)
        (by simp [waitCarries, hstage, listens])
      · intro r hr
        exact h.waitRequest x hmem r (by rw [hstage]; exact hr)
      · intro r hr
        exact h.waitHolds x hmem r (by rw [hstage]; exact hr)
    · cases hrespond
  | drain =>
    cases hstep
    exact h.addDrain
  | drainStep place ok response =>
    obtain ⟨stage, hstage, hdrain⟩ := Option.bind_eq_some_iff.1 hstep
    exact h.drainStep hstage hok hdrain
  | cleanupExpiredResponses updateIds =>
    cases hstep
    exact { h with }

end Inv

/-- In every run whose steps are orderly. -/
theorem update_handed_once [DecidableEq ν] [DecidableEq κ] {run : List (Event ν κ π ρ)}
    (hok : updateMachine.EveryStep Orderly ({} : World ν κ π ρ) run) :
    updateMachine.EveryState HandedOver ({} : World ν κ π ρ) run := by
  apply Machine.EveryState.mono fun w (h : Inv w) => h.handedOver
  exact Machine.everyState_of_invariant (fun _ _ _ h => h.step) Inv.initial hok

/-- A wait takes the request that a drain has found, and the drain goes on with it. -/
def takenBehindDrain : List (Event Nat Nat Nat Nat) :=
  [.submitCoordinatedUpdate 0 5 none, .call 0 true 1 10, .drain, .drainStep 0 true ⟨none, none⟩,
    .processWaitUpdateOperation 0, .wait 0 true, .wait 0 true, .wait 0 true,
    .drainStep 0 true ⟨none, none⟩]

theorem update_handed_twice : ¬ updateMachine.EveryState HandedOver
    ({} : World Nat Nat Nat Nat) takenBehindDrain := by
  intro h
  have honce := h.final.once
  revert honce
  decide

/-- One request is answered by a handler, one is delivered to a waiter, one is found by its wait,
and one is given to a waiter without a request. -/
def deliveredInOrder : List (Event Nat Nat Nat Nat) :=
  [.submitCoordinatedUpdate 0 5 none, .call 0 true 1 10, .drain, .drainStep 0 true ⟨none, none⟩,
    .drainStep 0 true ⟨none, none⟩, .drainStep 0 true ⟨some 1, none⟩,
    .drainStep 0 true ⟨none, none⟩, .call 0 true 0 0, .call 0 true 0 0, .call 0 true 0 0,
    .processWaitUpdateOperation 3, .wait 0 true, .wait 0 true, .wait 0 true, .wait 0 true,
    .submitCoordinatedUpdate 3 5 (some 8), .call 1 true 0 0, .call 1 true 2 20, .call 1 true 0 0,
    .call 1 true 0 0, .call 1 true 0 0, .call 1 true 0 0, .call 1 true 0 0, .wait 0 true,
    .respond 0 (some 9), .wait 0 true, .call 1 true 0 0,
    .submitCoordinatedUpdate 4 6 none, .call 2 true 3 30, .processWaitUpdateOperation 4,
    .wait 1 true, .wait 1 true, .wait 1 true, .respond 1 none, .wait 1 true,
    .processWaitUpdateOperation 4, .wait 2 true, .wait 2 true, .wait 2 true, .wait 2 true,
    .update 4 7, .call 3 true 0 0, .call 3 true 0 0, .wait 2 true]

theorem delivered_handed_once : updateMachine.EveryState HandedOver
    ({} : World Nat Nat Nat Nat) deliveredInOrder :=
  update_handed_once (by decide)

end Weft.Updates.Handover
