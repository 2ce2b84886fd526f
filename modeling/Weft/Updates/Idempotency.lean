import Weft.Lib.Lists
import Weft.Updates.Model

/-! Idempotency keys of updates. Where a request under a key is created only once, each request is
handed over only once and no stored response is an error, the handler runs once for a key and the
calls with it agree. -/

namespace Weft.Updates
open Weft.Lib

universe u

variable {ν κ π ρ : Type u}

/-- The request a call is about. -/
def CallStage.request : CallStage ν κ π ρ → Option (UpdateRequest ν κ π)
  | .guardTerminal request => some request
  | .deleteIfUnconsumed request => some request
  | .deletedUnconsumed request => some request
  | .deliver request => some request
  | .findPending request _ => some request
  | .foundPending request _ _ => some request
  | .deletedForWaiter request _ => some request
  | .waitForResponse request => some request
  | _ => none

/-- The update whose stored response the call is about to read for its key. -/
def CallStage.reads : CallStage ν κ π ρ → Option Nat
  | .getResponse updateId => some updateId
  | _ => none

def CallStage.creates : CallStage ν κ π ρ → Bool
  | .createRequest => true
  | _ => false

def CallStage.outcome : CallStage ν κ π ρ → Option (Nat × UpdateResponse ρ)
  | .returned updateId response => some (updateId, response)
  | _ => none

def WaitStage.request : WaitStage ν κ π ρ → Option (UpdateRequest ν κ π)
  | .foundPending matchingUpdate => matchingUpdate
  | .foundRegistered pendingUpdate => pendingUpdate
  | .deleted request => some request
  | .completed request => some request
  | .responding request _ => some request
  | _ => none

/-- The request that the wait has been completed with and has not answered. -/
def WaitStage.holds : WaitStage ν κ π ρ → Option (UpdateRequest ν κ π)
  | .completed request => some request
  | .responding request _ => some request
  | _ => none

/-- The request that the wait is about to be completed with. -/
def Wait.takes (x : Wait ν κ π ρ) : Option (UpdateRequest ν κ π) :=
  match x.stage with
  | .deleted request => some request
  | .awaiting => x.promise.bind id
  | _ => none

def DrainStage.requests : DrainStage ν κ π ρ → List (UpdateRequest ν κ π)
  | .next rest => rest
  | .claimed request rest => request :: rest
  | .respond request _ rest => request :: rest
  | _ => []

def DrainStage.holds : DrainStage ν κ π ρ → Option (UpdateRequest ν κ π)
  | .claimed request _ => some request
  | .respond request _ _ => some request
  | _ => none

/-- The request that the drain is about to claim. -/
def DrainStage.takes : DrainStage ν κ π ρ → Option (UpdateRequest ν κ π)
  | .next (request :: _) => some request
  | _ => none

/-- The handler runs at most once for a key, and the calls with the key that return agree. -/
structure RunOnce [DecidableEq κ] (w : World ν κ π ρ) : Prop where
  once : ∀ key : κ, (w.runs.filter (·.idempotencyKey = some key)).length ≤ 1
  agree : ∀ c ∈ w.calls, ∀ c' ∈ w.calls, c.idempotencyKey.isSome = true →
    c.idempotencyKey = c'.idempotencyKey → ∀ answer ∈ c.stage.outcome,
    ∀ answer' ∈ c'.stage.outcome, answer.2 = answer'.2

/-- What a step has to find: a request under a key is created where there was none before, a stored
response that is read for a key is no error, and a request is handed to a handler or a wait if it
was handed to none before. -/
def Fresh (w : World ν κ π ρ) : Event ν κ π ρ → Prop
  | .call place ok _ _ => ∀ c ∈ w.calls[place]?,
      (c.stage.creates = true ∧ ok = true ∧ c.idempotencyKey.isSome = true →
        ∀ r ∈ w.issued, r.idempotencyKey ≠ c.idempotencyKey) ∧
      ∀ updateId ∈ c.stage.reads, ∀ existing ∈ w.responses updateId, existing.error = none
  | .wait place _ => ∀ x ∈ w.waits[place]?, ∀ r ∈ x.takes, r.updateId ∉ w.taken.map Prod.fst
  | .drainStep place ok _ => ok = true → ∀ stage ∈ w.drains[place]?, ∀ r ∈ stage.takes,
      r.updateId ∉ w.deliveredPendingUpdateIds → r.updateId ∉ w.taken.map Prod.fst
  | _ => True

structure Inv (w : World ν κ π ρ) : Prop where
  ids : ∀ r ∈ w.issued, ∀ r' ∈ w.issued, r.updateId = r'.updateId → r = r'
  keys : ∀ r ∈ w.issued, ∀ r' ∈ w.issued, r.idempotencyKey.isSome = true →
    r.idempotencyKey = r'.idempotencyKey → r = r'
  pending : ∀ r ∈ w.pending, r ∈ w.issued
  mapping : ∀ key updateId, w.mapping key = some updateId →
    ∃ r ∈ w.issued, r.updateId = updateId ∧ r.idempotencyKey = some key
  callRequest : ∀ c ∈ w.calls, ∀ r ∈ c.stage.request,
    r ∈ w.issued ∧ r.idempotencyKey = c.idempotencyKey
  callReads : ∀ c ∈ w.calls, ∀ updateId ∈ c.stage.reads,
    ∃ r ∈ w.issued, r.updateId = updateId ∧ r.idempotencyKey = c.idempotencyKey
  callOutcome : ∀ c ∈ w.calls, ∀ answer ∈ c.stage.outcome, answer ∈ w.answers ∧
    ∃ r ∈ w.issued, r.updateId = answer.1 ∧ r.idempotencyKey = c.idempotencyKey
  waitRequest : ∀ x ∈ w.waits, ∀ r ∈ x.stage.request, r ∈ w.issued
  waitPromise : ∀ x ∈ w.waits, ∀ r ∈ x.promise.bind id, r ∈ w.issued
  waitHolds : ∀ (place : Nat) (x : Wait ν κ π ρ), w.waits[place]? = some x →
    ∀ r ∈ x.stage.holds, (r.updateId, Taker.wait place) ∈ w.taken ∧
      r.updateId ∉ w.answers.map Prod.fst
  drainRequests : ∀ stage ∈ w.drains, ∀ r ∈ stage.requests, r ∈ w.issued
  drainHolds : ∀ (place : Nat) (stage : DrainStage ν κ π ρ), w.drains[place]? = some stage →
    ∀ r ∈ stage.holds, (r.updateId, Taker.drain place) ∈ w.taken ∧
      r.updateId ∉ w.answers.map Prod.fst
  claimed : ∀ (place : Nat) (r : UpdateRequest ν κ π) (rest : List (UpdateRequest ν κ π)),
    w.drains[place]? = some (.claimed r rest) → r.updateId ∉ w.runs.map UpdateRequest.updateId
  taken : (w.taken.map Prod.fst).Nodup
  answers : (w.answers.map Prod.fst).Nodup
  answered : ∀ updateId ∈ w.answers.map Prod.fst, updateId ∈ w.taken.map Prod.fst
  responses : ∀ updateId response, w.responses updateId = some response →
    (updateId, response) ∈ w.answers
  runs : (w.runs.map UpdateRequest.updateId).Nodup
  ran : ∀ r ∈ w.runs, r ∈ w.issued ∧ r.updateId ∈ w.taken.map Prod.fst

namespace Inv

variable {w : World ν κ π ρ}

variable {updateId : Nat}

theorem taker_unique (h : Inv w) {taker taker' : Taker} (hleft : (updateId, taker) ∈ w.taken)
    (hright : (updateId, taker') ∈ w.taken) : taker = taker' := by
  have heq := List.inj_on_of_nodup_map h.taken hleft hright rfl
  exact congrArg Prod.snd heq

theorem runOnce [DecidableEq κ] (h : Inv w) : RunOnce w where
  once := by
    intro key
    by_contra hmany
    obtain ⟨r, r', hsub, hkey, hkey'⟩ : ∃ r r', List.Sublist [r, r'] w.runs ∧
        r.idempotencyKey = some key ∧ r'.idempotencyKey = some key := by
      cases hf : w.runs.filter (·.idempotencyKey = some key) with
      | nil => simp [hf] at hmany
      | cons r rest =>
        cases rest with
        | nil => simp [hf] at hmany
        | cons r' rest =>
          have hsub : List.Sublist [r, r'] (w.runs.filter (·.idempotencyKey = some key)) := by
            rw [hf]
            exact ((List.nil_sublist rest).cons_cons r').cons_cons r
          have hmem : ∀ x ∈ [r, r'], x.idempotencyKey = some key := by
            intro x hx
            simpa using (List.mem_filter.1 (hsub.subset hx)).2
          exact ⟨r, r', hsub.trans List.filter_sublist, hmem r (by simp), hmem r' (by simp)⟩
    have hin := (h.ran r (hsub.subset (by simp))).1
    have hin' := (h.ran r' (hsub.subset (by simp))).1
    have hsame : r = r' := h.keys r hin r' hin' (by simp [hkey]) (hkey.trans hkey'.symm)
    have hnodup := h.runs.sublist (hsub.map UpdateRequest.updateId)
    simp [hsame] at hnodup
  agree := by
    intro c hc c' hc' hsome hkey answer hanswer answer' hanswer'
    obtain ⟨hin, r, hr, hid, hk⟩ := h.callOutcome c hc answer hanswer
    obtain ⟨hin', r', hr', hid', hk'⟩ := h.callOutcome c' hc' answer' hanswer'
    have hsame : r = r' := by
      apply h.keys r hr r' hr'
      · rw [hk]
        exact hsome
      · rw [hk, hk', hkey]
    have heq : answer = answer' := by
      apply List.inj_on_of_nodup_map h.answers hin hin'
      rw [← hid, ← hid', hsame]
    rw [heq]

theorem initial : Inv ({} : World ν κ π ρ) where
  ids := fun _ hr => (by cases hr)
  keys := fun _ hr => (by cases hr)
  pending := fun _ hr => (by cases hr)
  mapping := fun _ _ hm => (by cases hm)
  callRequest := fun _ hc => (by cases hc)
  callReads := fun _ hc => (by cases hc)
  callOutcome := fun _ hc => (by cases hc)
  waitRequest := fun _ hx => (by cases hx)
  waitPromise := fun _ hx => (by cases hx)
  waitHolds := fun _ _ hx => (by simp at hx)
  drainRequests := fun _ hd => (by cases hd)
  drainHolds := fun _ _ hd => (by simp at hd)
  claimed := fun _ _ _ hd => (by simp at hd)
  taken := List.nodup_nil
  answers := List.nodup_nil
  answered := fun _ ha => (by cases ha)
  responses := fun _ _ hr => (by cases hr)
  runs := List.nodup_nil
  ran := fun _ hr => (by cases hr)

variable {place : Nat} {c : Call ν κ π ρ} {stage : CallStage ν κ π ρ}

/-- A call goes to another stage. -/
theorem setCall (h : Inv w)
    (hrequest : ∀ r ∈ stage.request, r ∈ w.issued ∧ r.idempotencyKey = c.idempotencyKey)
    (hreads : ∀ updateId ∈ stage.reads, ∃ r ∈ w.issued, r.updateId = updateId ∧
      r.idempotencyKey = c.idempotencyKey)
    (houtcome : ∀ answer ∈ stage.outcome, answer ∈ w.answers ∧ ∃ r ∈ w.issued,
      r.updateId = answer.1 ∧ r.idempotencyKey = c.idempotencyKey) :
    Inv (setCall w place c stage) := { h with
  callRequest := by
    intro c' hc'
    obtain hold | rfl := List.mem_or_eq_of_mem_set hc'
    · exact h.callRequest c' hold
    · exact hrequest
  callReads := by
    intro c' hc'
    obtain hold | rfl := List.mem_or_eq_of_mem_set hc'
    · exact h.callReads c' hold
    · exact hreads
  callOutcome := by
    intro c' hc'
    obtain hold | rfl := List.mem_or_eq_of_mem_set hc'
    · exact h.callOutcome c' hold
    · exact houtcome }

variable {request : UpdateRequest ν κ π}

/-- A call goes on with its request. -/
theorem setRequest (h : Inv w)
    (hrequest : request ∈ w.issued ∧ request.idempotencyKey = c.idempotencyKey)
    (hstage : stage.request = some request) (hreads : stage.reads = none)
    (houtcome : stage.outcome = none) : Inv (Updates.setCall w place c stage) := by
  apply h.setCall
  · intro r hr
    rw [hstage, Option.mem_some_iff] at hr
    rw [← hr]
    exact hrequest
  · intro updateId hr
    rw [hreads] at hr
    cases hr
  · intro answer ha
    rw [houtcome] at ha
    cases ha

/-- A call goes to a stage that is about no request. -/
theorem setBare (h : Inv w) (hstage : stage.request = none) (hreads : stage.reads = none)
    (houtcome : stage.outcome = none) : Inv (Updates.setCall w place c stage) := by
  apply h.setCall
  · intro r hr
    rw [hstage] at hr
    cases hr
  · intro updateId hr
    rw [hreads] at hr
    cases hr
  · intro answer ha
    rw [houtcome] at ha
    cases ha

theorem deleteRequest (h : Inv w) (updateId : Nat) : Inv (deleteRequest w updateId) :=
  { h with pending := fun r hr => h.pending r (List.mem_filter.1 hr).1 }

theorem setWaiters (h : Inv w) (updateWaiters : ν → Option Nat) :
    Inv { w with updateWaiters := updateWaiters } :=
  { h with }

theorem resolveWaiter (h : Inv w) (waiter : Nat) {value : Option (UpdateRequest ν κ π)}
    (hvalue : ∀ r ∈ value, r ∈ w.issued) : Inv (resolveWaiter w waiter value) := by
  have hsplit : ∀ (place : Nat) (x' : Wait ν κ π ρ),
      (Updates.resolveWaiter w waiter value).waits[place]? = some x' →
      ∃ x, w.waits[place]? = some x ∧ x'.stage = x.stage ∧
        (x'.promise = x.promise ∨ x'.promise = some value) := by
    intro place x' hx'
    rw [show (Updates.resolveWaiter w waiter value).waits = w.waits.modify waiter fun x =>
      if x.promise.isNone then { x with promise := some value } else x from rfl,
      List.getElem?_modify, Option.map_eq_map] at hx'
    obtain ⟨x, hx, rfl⟩ := Option.map_eq_some_iff.1 hx'
    refine ⟨x, hx, ?_⟩
    split
    · split
      · exact ⟨rfl, .inr rfl⟩
      · exact ⟨rfl, .inl rfl⟩
    · exact ⟨rfl, .inl rfl⟩
  exact { h with
    waitRequest := by
      intro x' hx' r hr
      obtain ⟨place, hplace⟩ := List.getElem?_of_mem hx'
      obtain ⟨x, hx, hstage, -⟩ := hsplit place x' hplace
      rw [hstage] at hr
      exact h.waitRequest x (List.mem_of_getElem? hx) r hr
    waitPromise := by
      intro x' hx' r hr
      obtain ⟨place, hplace⟩ := List.getElem?_of_mem hx'
      obtain ⟨x, hx, -, hsame | hnew⟩ := hsplit place x' hplace
      · rw [hsame] at hr
        exact h.waitPromise x (List.mem_of_getElem? hx) r hr
      · rw [hnew] at hr
        exact hvalue r hr
    waitHolds := by
      intro place x' hx' r hr
      obtain ⟨x, hx, hstage, -⟩ := hsplit place x' hx'
      rw [hstage] at hr
      exact h.waitHolds place x hx r hr }

/-- A request is created under a new id and, if it has one, a new key. -/
theorem createRequest (h : Inv w) (createdAt : Nat)
    (hfresh : updateId ∉ w.issued.map UpdateRequest.updateId)
    (hkey : c.idempotencyKey.isSome = true → ∀ r ∈ w.issued, r.idempotencyKey ≠ c.idempotencyKey) :
    Inv { Updates.setCall w place c
        (.guardTerminal ⟨updateId, createdAt, c.name, c.payload, c.idempotencyKey⟩) with
      pending := w.pending ++ [⟨updateId, createdAt, c.name, c.payload, c.idempotencyKey⟩]
      issued := w.issued ++ [⟨updateId, createdAt, c.name, c.payload, c.idempotencyKey⟩] } := by
  have hsplit : ∀ r ∈ w.issued ++
      [(⟨updateId, createdAt, c.name, c.payload, c.idempotencyKey⟩ : UpdateRequest ν κ π)],
      r ∈ w.issued ∨ r = ⟨updateId, createdAt, c.name, c.payload, c.idempotencyKey⟩ := by
    intro r hr
    exact (List.mem_append.1 hr).imp_right List.mem_singleton.1
  have hmore : ∀ r ∈ w.issued, r ∈ w.issued ++
      [(⟨updateId, createdAt, c.name, c.payload, c.idempotencyKey⟩ : UpdateRequest ν κ π)] :=
    fun r hr => List.mem_append_left _ hr
  exact { h with
    ids := by
      intro r hr r' hr' heq
      obtain hold | rfl := hsplit r hr
      · obtain hold' | rfl := hsplit r' hr'
        · exact h.ids r hold r' hold' heq
        · exact absurd (List.mem_map.2 ⟨r, hold, heq⟩) hfresh
      · obtain hold' | rfl := hsplit r' hr'
        · exact absurd (List.mem_map.2 ⟨r', hold', heq.symm⟩) hfresh
        · rfl
    keys := by
      intro r hr r' hr' hsome heq
      obtain hold | rfl := hsplit r hr
      · obtain hold' | rfl := hsplit r' hr'
        · exact h.keys r hold r' hold' hsome heq
        · refine absurd heq (hkey ?_ r hold)
          rw [← show r.idempotencyKey = c.idempotencyKey from heq]
          exact hsome
      · obtain hold' | rfl := hsplit r' hr'
        · exact absurd heq.symm (hkey hsome r' hold')
        · rfl
    pending := by
      intro r hr
      obtain hold | hnew := List.mem_append.1 hr
      · exact hmore r (h.pending r hold)
      · exact List.mem_append_right _ hnew
    mapping := by
      intro key id hm
      obtain ⟨r, hr, hrest⟩ := h.mapping key id hm
      exact ⟨r, hmore r hr, hrest⟩
    callRequest := by
      intro c' hc' r hr
      obtain hold | rfl := List.mem_or_eq_of_mem_set hc'
      · exact ⟨hmore r (h.callRequest c' hold r hr).1, (h.callRequest c' hold r hr).2⟩
      · cases hr
        exact ⟨List.mem_append_right _ (List.mem_singleton_self _), rfl⟩
    callReads := by
      intro c' hc' id hid
      obtain hold | rfl := List.mem_or_eq_of_mem_set hc'
      · obtain ⟨r, hr, hrest⟩ := h.callReads c' hold id hid
        exact ⟨r, hmore r hr, hrest⟩
      · cases hid
    callOutcome := by
      intro c' hc' answer ha
      obtain hold | rfl := List.mem_or_eq_of_mem_set hc'
      · obtain ⟨hin, r, hr, hrest⟩ := h.callOutcome c' hold answer ha
        exact ⟨hin, r, hmore r hr, hrest⟩
      · cases ha
    waitRequest := fun x hx r hr => hmore r (h.waitRequest x hx r hr)
    waitPromise := fun x hx r hr => hmore r (h.waitPromise x hx r hr)
    drainRequests := fun stage hs r hr => hmore r (h.drainRequests stage hs r hr)
    ran := fun r hr => ⟨hmore r (h.ran r hr).1, (h.ran r hr).2⟩ }

variable {r : UpdateRequest ν κ π}

theorem mem_pendingUpdates (hr : r ∈ getPendingUpdates w) : r ∈ w.pending :=
  (List.mem_insertionSort _).1 hr

theorem found (h : Inv w) [DecidableEq ν] {name : ν}
    (hfind : findPendingUpdateByName w name = some r) : r ∈ w.issued :=
  h.pending r (mem_pendingUpdates (List.mem_of_find?_eq_some hfind))

variable {w' : World ν κ π ρ}

variable {ok : Bool}

theorem callStep [DecidableEq ν] (h : Inv w) (hc : w.calls[place]? = some c)
    {updateId createdAt : Nat} (hok : Fresh w (.call place ok updateId createdAt))
    (hstep : callStep w place c ok updateId createdAt = some w') : Inv w' := by
  obtain ⟨hcreate, herror⟩ := hok c hc
  have hmem := List.mem_of_getElem? hc
  have hrequest := h.callRequest c hmem
  have hreads := h.callReads c hmem
  rw [Updates.callStep] at hstep
  split at hstep
  · -- checkIdempotency
    rename_i hstage
    split at hstep
    · rename_i id hmapping
      cases hstep
      obtain ⟨key, hkey, hm⟩ := Option.bind_eq_some_iff.1 hmapping
      obtain ⟨r, hr, hid, hk⟩ := h.mapping key id hm
      refine h.setCall (fun r hr => (by cases hr)) ?_ (fun answer ha => (by cases ha))
      intro updateId hid'
      obtain rfl := Option.some.inj hid'
      exact ⟨r, hr, hid, hk.trans hkey.symm⟩
    · cases hstep
      exact h.setBare rfl rfl rfl
  · -- getResponse
    rename_i id hstage
    split at hstep
    · rename_i existing hresponse
      cases hstep
      have hread : id ∈ c.stage.reads := by rw [hstage]; rfl
      have hnone := herror id hread existing hresponse
      have heq : (⟨existing.result, none⟩ : UpdateResponse ρ) = existing := by
        rw [← hnone]
      refine h.setCall (fun r hr => (by cases hr)) (fun _ hr => (by cases hr)) ?_
      intro answer ha
      cases ha
      refine ⟨?_, hreads id hread⟩
      rw [heq]
      exact h.responses id existing hresponse
    · cases hstep
      exact h.setBare rfl rfl rfl
  · -- tryWaiting
    cases hstep
    exact h.setBare rfl rfl rfl
  · -- triedWaiting
    split at hstep
    · cases hstep
      exact h.setBare rfl rfl rfl
    · cases hstep
      apply resolveWaiter
      · exact (h.setBare rfl rfl rfl).setWaiters _
      · intro r hr
        cases hr
  · -- createRequest
    rename_i hstage
    split at hstep
    · rename_i hyes
      split at hstep
      · cases hstep
      · rename_i hfresh
        cases hstep
        apply h.createRequest createdAt hfresh
        intro hsome
        exact hcreate ⟨by rw [hstage]; rfl, hyes, hsome⟩
    · cases hstep
      exact h.setBare rfl rfl rfl
  · -- guardTerminal
    rename_i request hstage
    have hr := hrequest request (by rw [hstage]; rfl)
    split at hstep
    all_goals
      cases hstep
      exact h.setRequest hr rfl rfl rfl
  · -- deleteIfUnconsumed
    rename_i request hstage
    have hr := hrequest request (by rw [hstage]; rfl)
    split at hstep
    · cases hstep
      exact h.setRequest hr rfl rfl rfl
    · cases hstep
      exact { (h.setRequest hr rfl rfl rfl).deleteRequest request.updateId with }
  · -- deletedUnconsumed
    rename_i request hstage
    have hr := hrequest request (by rw [hstage]; rfl)
    split at hstep
    · cases hstep
      exact h.setRequest hr rfl rfl rfl
    · cases hstep
      exact h.setBare rfl rfl rfl
  · -- deliver
    rename_i request hstage
    have hr := hrequest request (by rw [hstage]; rfl)
    split at hstep
    all_goals
      cases hstep
      exact h.setRequest hr rfl rfl rfl
  · -- findPending
    rename_i request waiter hstage
    have hr := hrequest request (by rw [hstage]; rfl)
    cases hstep
    exact h.setRequest hr rfl rfl rfl
  · -- foundPending
    rename_i request waiter oldest hstage
    have hr := hrequest request (by rw [hstage]; rfl)
    split at hstep
    · split at hstep
      · cases hstep
        exact (h.setRequest hr rfl rfl rfl).deleteRequest _
      · cases hstep
        exact h.setRequest hr rfl rfl rfl
    · cases hstep
      exact h.setRequest hr rfl rfl rfl
  · -- deletedForWaiter
    rename_i request waiter hstage
    have hr := hrequest request (by rw [hstage]; rfl)
    cases hstep
    apply resolveWaiter
    · exact (h.setRequest hr rfl rfl rfl).setWaiters _
    · intro r hr'
      obtain rfl := Option.some.inj hr'
      exact hr.1
  · -- waitForResponse
    rename_i request hstage
    have hr := hrequest request (by rw [hstage]; rfl)
    split at hstep
    · split at hstep
      · rename_i response hresponse
        cases hstep
        refine h.setCall (fun r hr => (by cases hr)) (fun _ hr => (by cases hr)) ?_
        intro answer ha
        cases ha
        exact ⟨h.responses _ response hresponse, request, hr.1, rfl, hr.2⟩
      · cases hstep
        exact h
    · cases hstep
      exact h.setBare rfl rfl rfl
  · cases hstep

variable {x : Wait ν κ π ρ}

/-- A wait goes to another stage. -/
theorem setWait (h : Inv w) (hx : w.waits[place]? = some x) {stage : WaitStage ν κ π ρ}
    (hrequest : ∀ r ∈ stage.request, r ∈ w.issued)
    (hholds : ∀ r ∈ stage.holds, (r.updateId, Taker.wait place) ∈ w.taken ∧
      r.updateId ∉ w.answers.map Prod.fst) :
    Inv (setWait w place x stage) := { h with
  waitRequest := by
    intro x' hx' r hr
    obtain hold | rfl := List.mem_or_eq_of_mem_set hx'
    · exact h.waitRequest x' hold r hr
    · exact hrequest r hr
  waitPromise := by
    intro x' hx' r hr
    obtain hold | rfl := List.mem_or_eq_of_mem_set hx'
    · exact h.waitPromise x' hold r hr
    · exact h.waitPromise x (List.mem_of_getElem? hx) r hr
  waitHolds := by
    intro other x' hx' r hr
    obtain ⟨rfl, rfl⟩ | ⟨-, hold⟩ := getElem?_set_cases hx'
    · exact hholds r hr
    · exact h.waitHolds other x' hold r hr }

variable {stage : DrainStage ν κ π ρ}

/-- A drain goes to another stage. -/
theorem setDrain (h : Inv w) (hrequests : ∀ r ∈ stage.requests, r ∈ w.issued)
    (hholds : ∀ r ∈ stage.holds, (r.updateId, Taker.drain place) ∈ w.taken ∧
      r.updateId ∉ w.answers.map Prod.fst)
    (hclaimed : ∀ r rest, stage = .claimed r rest →
      r.updateId ∉ w.runs.map UpdateRequest.updateId) :
    Inv { w with drains := w.drains.set place stage } := { h with
  drainRequests := by
    intro other hother r hr
    obtain hold | rfl := List.mem_or_eq_of_mem_set hother
    · exact h.drainRequests other hold r hr
    · exact hrequests r hr
  drainHolds := by
    intro other stage' hstage r hr
    obtain ⟨rfl, rfl⟩ | ⟨-, hold⟩ := getElem?_set_cases hstage
    · exact hholds r hr
    · exact h.drainHolds other stage' hold r hr
  claimed := by
    intro other r rest hstage
    obtain ⟨rfl, heq⟩ | ⟨-, hold⟩ := getElem?_set_cases hstage
    · exact hclaimed r rest heq.symm
    · exact h.claimed other r rest hold }

/-- A request that was handed to none is handed to someone. -/
theorem take (h : Inv w) (hnew : updateId ∉ w.taken.map Prod.fst) (taker : Taker) :
    Inv { w with taken := (updateId, taker) :: w.taken } := { h with
  waitHolds := fun place x hx r hr =>
    ⟨List.mem_cons_of_mem _ (h.waitHolds place x hx r hr).1, (h.waitHolds place x hx r hr).2⟩
  drainHolds := fun place stage hs r hr =>
    ⟨List.mem_cons_of_mem _ (h.drainHolds place stage hs r hr).1,
      (h.drainHolds place stage hs r hr).2⟩
  taken := by
    rw [List.map_cons, List.nodup_cons]
    exact ⟨hnew, h.taken⟩
  answered := fun id hid => List.mem_cons_of_mem _ (h.answered id hid)
  ran := fun r hr => ⟨(h.ran r hr).1, List.mem_cons_of_mem _ (h.ran r hr).2⟩ }

/-- A request that no drain has claimed is run. -/
theorem run (h : Inv w) (hin : request ∈ w.issued)
    (htaken : request.updateId ∈ w.taken.map Prod.fst)
    (hnew : request.updateId ∉ w.runs.map UpdateRequest.updateId)
    (hfree : ∀ (place : Nat) (r : UpdateRequest ν κ π) (rest : List (UpdateRequest ν κ π)),
      w.drains[place]? = some (.claimed r rest) → r.updateId ≠ request.updateId) :
    Inv { w with runs := w.runs ++ [request] } := { h with
  claimed := by
    intro place r rest hstage hmem
    rw [List.map_append, List.mem_append, List.map_singleton, List.mem_singleton] at hmem
    obtain hold | heq := hmem
    · exact h.claimed place r rest hstage hold
    · exact hfree place r rest hstage heq
  runs := by
    rw [List.map_append, List.map_singleton, List.nodup_append]
    refine ⟨h.runs, List.nodup_singleton _, ?_⟩
    rintro a ha b hb rfl
    rw [List.mem_singleton] at hb
    rw [hb] at ha
    exact hnew ha
  ran := by
    intro r hr
    obtain hold | heq := List.mem_append.1 hr
    · exact h.ran r hold
    · rw [List.mem_singleton] at heq
      rw [heq]
      exact ⟨hin, htaken⟩ }

/-- The answer to a request that nobody holds any more is committed. -/
theorem commitResponse [DecidableEq κ] (h : Inv w) (response : UpdateResponse ρ)
    (hin : request ∈ w.issued) (htaken : request.updateId ∈ w.taken.map Prod.fst)
    (hnew : request.updateId ∉ w.answers.map Prod.fst)
    (hwaits : ∀ (place : Nat) (x : Wait ν κ π ρ), w.waits[place]? = some x →
      ∀ r ∈ x.stage.holds, r.updateId ≠ request.updateId)
    (hdrains : ∀ (place : Nat) (stage : DrainStage ν κ π ρ), w.drains[place]? = some stage →
      ∀ r ∈ stage.holds, r.updateId ≠ request.updateId) :
    Inv (commitResponse w request response) := by
  have hother : ∀ r : UpdateRequest ν κ π, r.updateId ≠ request.updateId →
      r.updateId ∉ w.answers.map Prod.fst →
      r.updateId ∉ ((request.updateId, response) :: w.answers).map Prod.fst := by
    intro r hne hold hmem
    rw [List.map_cons, List.mem_cons] at hmem
    exact hmem.elim hne hold
  exact { h with
    pending := fun r hr => h.pending r (List.mem_filter.1 hr).1
    mapping := by
      intro key id hm
      cases hkey : request.idempotencyKey with
      | none =>
        simp only [Updates.commitResponse, hkey] at hm
        exact h.mapping key id hm
      | some key' =>
        simp only [Updates.commitResponse, hkey] at hm
        obtain ⟨rfl, ⟨⟩⟩ | ⟨-, hm⟩ := update_some_cases hm
        · exact ⟨request, hin, rfl, hkey⟩
        · exact h.mapping key id hm
    callOutcome := fun c hc answer ha =>
      ⟨List.mem_cons_of_mem _ (h.callOutcome c hc answer ha).1, (h.callOutcome c hc answer ha).2⟩
    waitHolds := fun place x hx r hr => ⟨(h.waitHolds place x hx r hr).1,
      hother r (hwaits place x hx r hr) (h.waitHolds place x hx r hr).2⟩
    drainHolds := fun place stage hs r hr => ⟨(h.drainHolds place stage hs r hr).1,
      hother r (hdrains place stage hs r hr) (h.drainHolds place stage hs r hr).2⟩
    answers := by
      show (((request.updateId, response) :: w.answers).map Prod.fst).Nodup
      rw [List.map_cons, List.nodup_cons]
      exact ⟨hnew, h.answers⟩
    answered := by
      intro id hid
      change id ∈ ((request.updateId, response) :: w.answers).map Prod.fst at hid
      rw [List.map_cons, List.mem_cons] at hid
      obtain rfl | hold := hid
      · exact htaken
      · exact h.answered id hold
    responses := by
      intro id answer hr
      obtain ⟨rfl, ⟨⟩⟩ | ⟨-, hr⟩ := update_some_cases hr
      · exact List.mem_cons_self
      · exact List.mem_cons_of_mem _ (h.responses id answer hr) }

/-- A wait is completed with a request that was handed to none. -/
theorem completeOperation (h : Inv w) (hx : w.waits[place]? = some x) (hin : request ∈ w.issued)
    (hnew : request.updateId ∉ w.taken.map Prod.fst) :
    Inv (completeOperation w place x request) := by
  have htake := h.take hnew (.wait place)
  have hrun : Inv { w with
      taken := (request.updateId, .wait place) :: w.taken
      runs := w.runs ++ [request] } := by
    refine htake.run hin List.mem_cons_self ?_ ?_
    · intro hmem
      obtain ⟨r, hr, heq⟩ := List.mem_map.1 hmem
      apply hnew
      rw [← heq]
      exact (h.ran r hr).2
    · intro other r rest hstage heq
      apply hnew
      rw [← heq]
      exact List.mem_map_of_mem (h.drainHolds other _ hstage r rfl).1
  refine hrun.setWait hx ?_ ?_
  · intro r hr
    cases hr
    exact hin
  · intro r hr
    cases hr
    exact ⟨List.mem_cons_self, fun hmem => hnew (h.answered _ hmem)⟩

/-- The answer of the wait that holds the request is committed. -/
theorem commitWait [DecidableEq κ] (h : Inv w) (hx : w.waits[place]? = some x) {value : Option ρ}
    (hstage : x.stage = .responding request value) (response : UpdateResponse ρ) :
    Inv (Updates.setWait (Updates.commitResponse w request response) place x .done) := by
  have hmem := List.mem_of_getElem? hx
  have hin : request ∈ w.issued := h.waitRequest x hmem request (by rw [hstage]; rfl)
  obtain ⟨htaken, hnew⟩ := h.waitHolds place x hx request (by rw [hstage]; rfl)
  have hdone : Inv (Updates.setWait w place x .done) :=
    h.setWait hx (fun r hr => (by cases hr)) (fun r hr => (by cases hr))
  refine hdone.commitResponse response hin (List.mem_map_of_mem htaken) hnew ?_ ?_
  · intro other x' hx' r hr heq
    obtain ⟨rfl, rfl⟩ | ⟨hne, hold⟩ := getElem?_set_cases hx'
    · cases hr
    · have hother := (h.waitHolds other x' hold r hr).1
      rw [heq] at hother
      have hsame := h.taker_unique hother htaken
      exact hne (by injection hsame)
  · intro other stage hs r hr heq
    have hother := (h.drainHolds other stage hs r hr).1
    rw [heq] at hother
    cases h.taker_unique hother htaken

theorem waitStep [DecidableEq ν] [DecidableEq κ] (h : Inv w) (hx : w.waits[place]? = some x)
    (hok : Fresh w (.wait place ok)) (hstep : waitStep w place x ok = some w') : Inv w' := by
  have hmem := List.mem_of_getElem? hx
  have htakes := hok x hx
  have hdeleted : ∀ (v : World ν κ π ρ) (request : UpdateRequest ν κ π), Inv v →
      v.waits[place]? = some x → request ∈ v.issued →
      Inv (Updates.deleteRequest (Updates.setWait v place x (.deleted request))
        request.updateId) := by
    intro v request hv hvx hin
    apply deleteRequest
    refine hv.setWait hvx ?_ (fun r hr => (by cases hr))
    intro r hr
    cases hr
    exact hin
  rw [Updates.waitStep] at hstep
  split at hstep
  · -- findPending
    cases hstep
    exact h.setWait hx (fun r hr => h.found hr) (fun r hr => (by cases hr))
  · -- foundPending
    rename_i matching hstage
    have hfound := h.waitRequest x hmem
    split at hstep
    · rename_i request
      cases hstep
      exact hdeleted w request h hx (hfound request (by rw [hstage]; rfl))
    · cases hstep
      exact (h.setWait hx (fun r hr => (by cases hr)) (fun r hr => (by cases hr))).setWaiters _
  · -- deleted
    rename_i request hstage
    cases hstep
    apply h.completeOperation hx (h.waitRequest x hmem request (by rw [hstage]; rfl))
    exact htakes request (by rw [Wait.takes, hstage]; rfl)
  · -- registered
    cases hstep
    exact h.setWait hx (fun r hr => h.found hr) (fun r hr => (by cases hr))
  · -- foundRegistered
    rename_i pending hstage
    have hfound := h.waitRequest x hmem
    split at hstep
    · rename_i request
      have hin := hfound request (by rw [hstage]; rfl)
      by_cases hown : w.updateWaiters x.name = some place
      · simp only [if_pos hown] at hstep
        cases hstep
        exact hdeleted _ request (h.setWaiters _) hx hin
      · simp only [if_neg hown] at hstep
        cases hstep
        exact hdeleted w request h hx hin
    · cases hstep
      exact h.setWait hx (fun r hr => (by cases hr)) (fun r hr => (by cases hr))
  · -- awaiting
    rename_i hstage
    split at hstep
    · rename_i request hpromise
      cases hstep
      have hbind : request ∈ x.promise.bind id := by rw [hpromise]; rfl
      apply h.completeOperation hx (h.waitPromise x hmem request hbind)
      exact htakes request (by rw [Wait.takes, hstage]; exact hbind)
    · cases hstep
      exact h.setWait hx (fun r hr => (by cases hr)) (fun r hr => (by cases hr))
    · cases hstep
  · -- responding
    rename_i request value hstage
    split at hstep
    · cases hstep
      exact h.commitWait hx hstage _
    · cases hstep
      exact h.setWait hx (fun r hr => (by cases hr)) (fun r hr => (by cases hr))
  · cases hstep

variable {rest : List (UpdateRequest ν κ π)}

variable {response : UpdateResponse ρ}

/-- The answer of the drain that holds the request is committed. -/
theorem commitDrain [DecidableEq κ] (h : Inv w)
    (hstage : w.drains[place]? = some (.respond request response rest)) :
    Inv { Updates.commitResponse w request response with
      drains := w.drains.set place (.next rest) } := by
  have hmem := List.mem_of_getElem? hstage
  have hrequests := h.drainRequests _ hmem
  obtain ⟨htaken, hnew⟩ := h.drainHolds place _ hstage request rfl
  have hnext : Inv { w with drains := w.drains.set place (.next rest) } :=
    h.setDrain (fun r hr => hrequests r (List.mem_cons_of_mem _ hr)) (fun r hr => (by cases hr))
      (fun r rest hr => (by cases hr))
  refine hnext.commitResponse response (hrequests request List.mem_cons_self)
    (List.mem_map_of_mem htaken) hnew ?_ ?_
  · intro other x hx r hr heq
    have hother := (h.waitHolds other x hx r hr).1
    rw [heq] at hother
    cases h.taker_unique hother htaken
  · intro other stage hs r hr heq
    obtain ⟨rfl, rfl⟩ | ⟨hne, hold⟩ := getElem?_set_cases hs
    · cases hr
    · have hother := (h.drainHolds other stage hold r hr).1
      rw [heq] at hother
      have hsame := h.taker_unique hother htaken
      exact hne (by injection hsame)

/-- A drain claims a request that was handed to none. -/
theorem claim (h : Inv w) (hstage : w.drains[place]? = some (.next (request :: rest)))
    (hnew : request.updateId ∉ w.taken.map Prod.fst) : Inv { w with
      deliveredPendingUpdateIds := request.updateId :: w.deliveredPendingUpdateIds
      taken := (request.updateId, .drain place) :: w.taken
      drains := w.drains.set place (.claimed request rest) } := by
  have hrequests := h.drainRequests _ (List.mem_of_getElem? hstage)
  have hclaimed : Inv { w with
      taken := (request.updateId, .drain place) :: w.taken
      drains := w.drains.set place (.claimed request rest) } := by
    refine (h.take hnew (.drain place)).setDrain hrequests ?_ ?_
    · intro r hr
      cases hr
      exact ⟨List.mem_cons_self, fun hin => hnew (h.answered _ hin)⟩
    · rintro r rest' hr hin
      injection hr with hr hrest
      subst hr
      obtain ⟨r', hr', heq⟩ := List.mem_map.1 hin
      apply hnew
      rw [← heq]
      exact (h.ran r' hr').2
  exact { hclaimed with }

/-- The handler runs for a claimed request. -/
theorem runClaimed (h : Inv w) (hstage : w.drains[place]? = some (.claimed request rest))
    (response : UpdateResponse ρ) : Inv { w with
      runs := w.runs ++ [request]
      drains := w.drains.set place (.respond request response rest) } := by
  have hmem := List.mem_of_getElem? hstage
  have hrequests := h.drainRequests _ hmem
  obtain ⟨htaken, hnew⟩ := h.drainHolds place _ hstage request rfl
  have hset : Inv { w with drains := w.drains.set place (.respond request response rest) } := by
    refine h.setDrain hrequests ?_ (fun r rest hr => (by cases hr))
    intro r hr
    cases hr
    exact ⟨htaken, hnew⟩
  refine hset.run (hrequests request List.mem_cons_self) (List.mem_map_of_mem htaken)
    (h.claimed place request rest hstage) ?_
  intro other r rest' hs heq
  obtain ⟨rfl, hr⟩ | ⟨hne, hold⟩ := getElem?_set_cases hs
  · cases hr
  · have hother := (h.drainHolds other _ hold r rfl).1
    rw [heq] at hother
    have hsame := h.taker_unique hother htaken
    exact hne (by injection hsame)

theorem drainStep [DecidableEq κ] (h : Inv w) (hstage : w.drains[place]? = some stage)
    (hok : Fresh w (.drainStep place ok response))
    (hstep : drainStep w place stage ok response = some w') : Inv w' := by
  have hrequests := h.drainRequests stage (List.mem_of_getElem? hstage)
  cases stage with
  | scan =>
    cases hstep
    refine h.setDrain ?_ (fun r hr => (by cases hr)) (fun r rest hr => (by cases hr))
    exact fun r hr => h.pending r (mem_pendingUpdates hr)
  | next rest =>
    cases rest with
    | nil =>
      cases hstep
      exact h.setDrain (fun r hr => (by cases hr)) (fun r hr => (by cases hr))
        (fun r rest hr => (by cases hr))
    | cons request rest =>
      simp only [Updates.drainStep] at hstep
      split at hstep
      · rename_i hclaim
        cases hstep
        exact h.claim hstage (hok hclaim.1 _ hstage request rfl hclaim.2)
      · cases hstep
        exact h.setDrain (fun r hr => hrequests r (List.mem_cons_of_mem _ hr))
          (fun r hr => (by cases hr)) (fun r rest hr => (by cases hr))
  | claimed request rest =>
    simp only [Updates.drainStep] at hstep
    split at hstep
    · cases hstep
      exact h.runClaimed hstage response
    · cases hstep
      refine h.setDrain hrequests ?_ (fun r rest hr => (by cases hr))
      intro r hr
      cases hr
      exact h.drainHolds place _ hstage request rfl
  | respond request answer rest =>
    simp only [Updates.drainStep] at hstep
    split at hstep
    · cases hstep
      exact h.commitDrain hstage
    · cases hstep
      exact h.setDrain (fun r hr => (by cases hr)) (fun r hr => (by cases hr))
        (fun r rest hr => (by cases hr))
  | done => cases hstep

/-- A call begins. -/
theorem addCall (h : Inv w) (hrequest : c.stage.request = none) (hreads : c.stage.reads = none)
    (houtcome : c.stage.outcome = none) : Inv { w with calls := w.calls ++ [c] } := by
  have hsplit : ∀ c' ∈ w.calls ++ [c], c' ∈ w.calls ∨ c' = c := by
    intro c' hc'
    exact (List.mem_append.1 hc').imp_right List.mem_singleton.1
  exact { h with
    callRequest := by
      intro c' hc' r hr
      obtain hold | rfl := hsplit c' hc'
      · exact h.callRequest c' hold r hr
      · rw [hrequest] at hr
        cases hr
    callReads := by
      intro c' hc' updateId hr
      obtain hold | rfl := hsplit c' hc'
      · exact h.callReads c' hold updateId hr
      · rw [hreads] at hr
        cases hr
    callOutcome := by
      intro c' hc' answer ha
      obtain hold | rfl := hsplit c' hc'
      · exact h.callOutcome c' hold answer ha
      · rw [houtcome] at ha
        cases ha }

/-- A wait begins. -/
theorem addWait (h : Inv w) (name : ν) :
    Inv { w with waits := w.waits ++ [⟨name, .findPending, none⟩] } := by
  have hsplit : ∀ (place : Nat) (x : Wait ν κ π ρ),
      (w.waits ++ [⟨name, .findPending, none⟩])[place]? = some x →
      w.waits[place]? = some x ∨ x = ⟨name, .findPending, none⟩ := by
    intro place x hx
    rw [List.getElem?_append] at hx
    split at hx
    · exact .inl hx
    · rw [List.getElem?_singleton] at hx
      split at hx
      · exact .inr (Option.some.inj hx).symm
      · cases hx
  exact { h with
    waitRequest := by
      intro x hx r hr
      obtain ⟨place, hplace⟩ := List.getElem?_of_mem hx
      obtain hold | rfl := hsplit place x hplace
      · exact h.waitRequest x (List.mem_of_getElem? hold) r hr
      · cases hr
    waitPromise := by
      intro x hx r hr
      obtain ⟨place, hplace⟩ := List.getElem?_of_mem hx
      obtain hold | rfl := hsplit place x hplace
      · exact h.waitPromise x (List.mem_of_getElem? hold) r hr
      · cases hr
    waitHolds := by
      intro place x hx r hr
      obtain hold | rfl := hsplit place x hx
      · exact h.waitHolds place x hold r hr
      · cases hr }

/-- A drain begins. -/
theorem addDrain (h : Inv w) : Inv { w with drains := w.drains ++ [.scan] } := by
  have hsplit : ∀ (place : Nat) (stage : DrainStage ν κ π ρ),
      (w.drains ++ [.scan])[place]? = some stage →
      w.drains[place]? = some stage ∨ stage = .scan := by
    intro place stage hs
    rw [List.getElem?_append] at hs
    split at hs
    · exact .inl hs
    · rw [List.getElem?_singleton] at hs
      split at hs
      · exact .inr (Option.some.inj hs).symm
      · cases hs
  exact { h with
    drainRequests := by
      intro stage hs r hr
      obtain ⟨place, hplace⟩ := List.getElem?_of_mem hs
      obtain hold | rfl := hsplit place stage hplace
      · exact h.drainRequests stage (List.mem_of_getElem? hold) r hr
      · cases hr
    drainHolds := by
      intro place stage hs r hr
      obtain hold | rfl := hsplit place stage hs
      · exact h.drainHolds place stage hold r hr
      · cases hr
    claimed := by
      intro place r rest hs
      obtain hold | heq := hsplit place _ hs
      · exact h.claimed place r rest hold
      · cases heq }

/-- Expired responses go, with the mappings to them. -/
theorem cleanup (h : Inv w) (updateIds : List Nat) :
    Inv { w with
      responses := fun updateId => if updateId ∈ updateIds then none else w.responses updateId
      mapping := fun key => if (w.mapping key).any (· ∈ updateIds) then none
        else w.mapping key } := { h with
  mapping := by
    intro key id hm
    simp only at hm
    split at hm
    · cases hm
    · exact h.mapping key id hm
  responses := by
    intro id response hr
    simp only at hr
    split at hr
    · cases hr
    · exact h.responses id response hr }

theorem step [DecidableEq ν] [DecidableEq κ] (h : Inv w) {event : Event ν κ π ρ}
    (hok : Fresh w event) (hstep : updateMachine.step w event = some w') : Inv w' := by
  cases event with
  | submitCoordinatedUpdate name payload key =>
    cases hstep
    cases key with
    | none => exact h.addCall rfl rfl rfl
    | some key => exact h.addCall rfl rfl rfl
  | update name payload =>
    cases hstep
    cases hwaiter : w.updateWaiters name with
    | none => exact h.addCall rfl rfl rfl
    | some waiter => exact h.addCall rfl rfl rfl
  | call place ok updateId createdAt =>
    obtain ⟨c, hc, hcall⟩ := Option.bind_eq_some_iff.1 hstep
    exact h.callStep hc hok hcall
  | processWaitUpdateOperation name =>
    cases hstep
    exact h.addWait name
  | wait place ok =>
    obtain ⟨x, hx, hwait⟩ := Option.bind_eq_some_iff.1 hstep
    exact h.waitStep hx hok hwait
  | respond place value =>
    obtain ⟨x, hx, hrespond⟩ := Option.bind_eq_some_iff.1 hstep
    split at hrespond
    · rename_i request hstage
      cases hrespond
      refine h.setWait hx ?_ ?_
      · intro r hr
        cases hr
        exact h.waitRequest x (List.mem_of_getElem? hx) request (by rw [hstage]; rfl)
      · intro r hr
        cases hr
        exact h.waitHolds place x hx request (by rw [hstage]; rfl)
    · cases hrespond
  | drain =>
    cases hstep
    exact h.addDrain
  | drainStep place ok response =>
    obtain ⟨stage, hstage, hdrain⟩ := Option.bind_eq_some_iff.1 hstep
    exact h.drainStep hstage hok hdrain
  | cleanupExpiredResponses updateIds =>
    cases hstep
    exact h.cleanup updateIds

end Inv

end Weft.Updates
