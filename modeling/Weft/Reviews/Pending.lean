import Weft.Reviews.Model
import Weft.Lib.Lists

/-! Which requests can still be decided. A submission looks its request up and a deciding commit
deletes it, so where no decision overtakes another between its look-up and its commit, a request
that is stored, looked up or claimed by a timer has no decision yet. -/

namespace Weft.Reviews
open Weft.Lib

universe u

variable {ι δ : Type u}

/-- No decision was committed for the request. -/
def World.Undecided (w : World ι δ) (reviewId : ι) : Prop :=
  reviewId ∉ w.decided.map Prod.fst

/-- No decision of the request is between its look-up, or the claim of its timer, and its commit. -/
def Idle (submits : List (Submit ι δ)) (handlers : List (Handler ι δ)) (reviewId : ι) : Prop :=
  (∀ submit ∈ submits, submit.stage = .found → submit.reviewId ≠ reviewId) ∧
    ∀ handler ∈ handlers, handler.stage = .claimed → handler.reviewId ≠ reviewId

/-- A decision is committed while no other of the request is under way, and a submission's while the
waiter is registered; a timer that decides fires while the request is stored; and a process does not
end between the return of a submission and the checkpoint with its decision. -/
def InTurn (w : World ι δ) : Event ι δ → Prop
  | .commitSubmit place true => ∀ submit ∈ w.submits[place]?,
      Idle (w.submits.eraseIdx place) w.handlers submit.reviewId ∧
        (w.terminal = true ∨ submit.reviewId ∈ w.reviewWaiters)
  | .timer reviewId (.decide _) => reviewId ∈ w.stored
  | .timer reviewId .timeout => reviewId ∈ w.stored
  | .commitHandler place true => ∀ handler ∈ w.handlers[place]?,
      Idle w.submits (w.handlers.eraseIdx place) handler.reviewId
  | .crash => w.terminal = true ∨ ∀ submit ∈ w.submits, submit.stage = .returned →
      (submit.reviewId, submit.decision) ∈ w.checkpoint
  | _ => True

instance InTurn.decidable [DecidableEq ι] [DecidableEq δ] (w : World ι δ) (event : Event ι δ) :
    Decidable (InTurn w event) := by
  unfold InTurn Idle
  split <;> infer_instance

/-- What is stored, looked up or claimed has no decision. -/
structure Pending (w : World ι δ) : Prop where
  stored : ∀ reviewId ∈ w.stored, reviewId ∈ w.issued ∧ w.Undecided reviewId
  found : ∀ submit ∈ w.submits, submit.reviewId ∈ w.issued ∧
    (submit.stage = .found → w.Undecided submit.reviewId)
  claimed : ∀ handler ∈ w.handlers, handler.reviewId ∈ w.issued ∧
    (handler.stage = .claimed → w.Undecided handler.reviewId)
  decided : ∀ reviewId ∈ w.decided.map Prod.fst, reviewId ∈ w.issued

namespace Pending

variable {w : World ι δ} {reviewId : ι} {place : Nat}

theorem initial : Pending ({} : World ι δ) where
  stored := fun _ hr => (by cases hr)
  found := fun _ hs => (by cases hs)
  claimed := fun _ hh => (by cases hh)
  decided := fun _ hr => (by cases hr)

theorem setSubmit (h : Pending w) {old : Submit ι δ} (hold : w.submits[place]? = some old)
    (stage : SubmitStage) (hstage : stage ≠ .found) :
    Pending { w with submits := w.submits.set place ⟨old.reviewId, old.decision, stage⟩ } := {
  h with
  found := by
    intro submit hsubmit
    obtain hkept | rfl := List.mem_or_eq_of_mem_set hsubmit
    · exact h.found submit hkept
    · exact ⟨(h.found old (List.mem_of_getElem? hold)).1, fun hfound => absurd hfound hstage⟩ }

theorem setHandler (h : Pending w) {old : Handler ι δ} (hold : w.handlers[place]? = some old)
    (stage : HandlerStage) (hstage : stage ≠ .claimed) :
    Pending { w with handlers := w.handlers.set place ⟨old.reviewId, old.outcome, stage⟩ } := {
  h with
  claimed := by
    intro handler hhandler
    obtain hkept | rfl := List.mem_or_eq_of_mem_set hhandler
    · exact h.claimed handler hkept
    · refine ⟨(h.claimed old (List.mem_of_getElem? hold)).1, fun hclaimed => ?_⟩
      exact absurd hclaimed hstage }

theorem idle_setSubmit {submits : List (Submit ι δ)} {handlers : List (Handler ι δ)}
    {new : Submit ι δ} (h : Idle (submits.eraseIdx place) handlers reviewId)
    (hnew : new.stage ≠ .found) : Idle (submits.set place new) handlers reviewId := by
  refine ⟨fun submit hsubmit hfound => ?_, h.2⟩
  obtain ⟨i, hi⟩ := List.getElem?_of_mem hsubmit
  obtain ⟨rfl, rfl⟩ | ⟨hne, hold⟩ := getElem?_set_cases hi
  · exact absurd hfound hnew
  · exact h.1 submit (List.mem_eraseIdx_iff_getElem?.2 ⟨i, hne, hold⟩) hfound

theorem idle_setHandler {submits : List (Submit ι δ)} {handlers : List (Handler ι δ)}
    {new : Handler ι δ} (h : Idle submits (handlers.eraseIdx place) reviewId)
    (hnew : new.stage ≠ .claimed) : Idle submits (handlers.set place new) reviewId := by
  refine ⟨h.1, fun handler hhandler hclaimed => ?_⟩
  obtain ⟨i, hi⟩ := List.getElem?_of_mem hhandler
  obtain ⟨rfl, rfl⟩ | ⟨hne, hold⟩ := getElem?_set_cases hi
  · exact absurd hclaimed hnew
  · exact h.2 handler (List.mem_eraseIdx_iff_getElem?.2 ⟨i, hne, hold⟩) hclaimed

theorem createReview (h : Pending w) (hfresh : reviewId ∉ w.issued) :
    Pending { w with
      operation := some (reviewId, .created)
      stored := w.stored ++ [reviewId]
      issued := w.issued ++ [reviewId] } where
  stored := by
    intro other hin
    obtain hold | hnew := List.mem_append.1 hin
    · exact ⟨List.mem_append_left _ (h.stored other hold).1, (h.stored other hold).2⟩
    · refine ⟨List.mem_append_right _ hnew, fun hdecided => hfresh ?_⟩
      rw [← List.mem_singleton.1 hnew]
      exact h.decided other hdecided
  found submit hsubmit :=
    ⟨List.mem_append_left _ (h.found submit hsubmit).1, (h.found submit hsubmit).2⟩
  claimed handler hhandler :=
    ⟨List.mem_append_left _ (h.claimed handler hhandler).1, (h.claimed handler hhandler).2⟩
  decided other hin := List.mem_append_left _ (h.decided other hin)

/-- The request that a submission finds is stored. -/
theorem submitReview (h : Pending w) (hstored : reviewId ∈ w.stored) (decision : δ) :
    Pending { w with submits := w.submits ++ [⟨reviewId, decision, .found⟩] } := { h with
  found := by
    intro submit hsubmit
    obtain hold | hnew := List.mem_append.1 hsubmit
    · exact h.found submit hold
    · rw [List.mem_singleton.1 hnew]
      exact (h.stored reviewId hstored).imp_right fun hundecided _ => hundecided }

theorem terminate (h : Pending w) :
    Pending { w with
      terminal := true
      operation := none
      reviewWaiters := []
      stored := []
      completed := fun _ => none } := { h with
  stored := fun _ hr => (by cases hr) }

theorem restarted (h : Pending w) : Pending w.restarted := { h with
  found := by
    intro submit hsubmit
    obtain ⟨old, hold, heq⟩ := List.mem_map.1 hsubmit
    have hkeeps : submit.reviewId = old.reviewId ∧ submit.stage ≠ .found := by
      split at heq
      · rename_i hreturned
        subst heq
        exact ⟨rfl, by simp [hreturned]⟩
      · subst heq
        exact ⟨rfl, nofun⟩
    rw [hkeeps.1]
    exact ⟨(h.found old hold).1, fun hfound => absurd hfound hkeeps.2⟩
  claimed := fun _ hh => (by cases hh) }

variable [DecidableEq ι]

/-- A request is decided, and goes, while no other decision of it is under way. -/
theorem decide (h : Pending w) (hissued : reviewId ∈ w.issued)
    (hidle : Idle w.submits w.handlers reviewId) (outcome : Option δ) :
    Pending { w with
      stored := w.stored.filter (· ≠ reviewId)
      decided := (reviewId, outcome) :: w.decided } := by
  have hother : ∀ other, other ≠ reviewId → w.Undecided other →
      other ∉ ((reviewId, outcome) :: w.decided).map Prod.fst := by
    intro other hne hundecided hin
    obtain heq | hold := List.mem_cons.1 hin
    · exact hne heq
    · exact hundecided hold
  constructor
  · intro other hin
    obtain ⟨hstored, hne⟩ := List.mem_filter.1 hin
    obtain ⟨hother', hundecided⟩ := h.stored other hstored
    exact ⟨hother', hother other (by simpa using hne) hundecided⟩
  · intro submit hsubmit
    obtain ⟨hknown, hundecided⟩ := h.found submit hsubmit
    exact ⟨hknown, fun hfound =>
      hother _ (hidle.1 submit hsubmit hfound) (hundecided hfound)⟩
  · intro handler hhandler
    obtain ⟨hknown, hundecided⟩ := h.claimed handler hhandler
    exact ⟨hknown, fun hclaimed =>
      hother _ (hidle.2 handler hhandler hclaimed) (hundecided hclaimed)⟩
  · intro other hin
    obtain rfl | hold := List.mem_cons.1 hin
    · exact hissued
    · exact h.decided other hold

theorem timer (h : Pending w) (hstored : reviewId ∈ w.stored) (outcome : Option δ) :
    Pending (handleReviewEscalationTimer w reviewId outcome) := { h with
  claimed := by
    intro handler hhandler
    obtain hold | hnew := List.mem_append.1 hhandler
    · exact h.claimed handler hold
    · rw [List.mem_singleton.1 hnew]
      exact (h.stored reviewId hstored).imp_right fun hundecided _ => hundecided }

/-- The promise and the waiter of the operation say nothing of the requests. -/
theorem resolve {handlers : List (Handler ι δ)} (h : Pending { w with handlers })
    (outcome : Option δ) : Pending { resolve w reviewId outcome with handlers } := by
  unfold Reviews.resolve
  split
  · split
    · exact { h with }
    · exact h
  · exact h

theorem resolveWaitingReview {submits : List (Submit ι δ)} (h : Pending { w with submits })
    (decision : δ) : Pending { resolveWaitingReview w reviewId decision with submits } := by
  unfold Reviews.resolveWaitingReview Reviews.resolve
  split
  · split
    · split
      · exact { h with }
      · exact { h with }
    · exact { h with }
  · exact h

theorem step (h : Pending w) {event : Event ι δ} {w' : World ι δ} (hok : InTurn w event)
    (hstep : reviewMachine.step w event = some w') : Pending w' := by
  cases event with
  | createReview reviewId =>
    simp only [reviewMachine] at hstep
    split at hstep
    · cases hstep
    · rename_i hfree
      cases hstep
      exact h.createReview fun hin => hfree (.inl hin)
  | createReviewWaiter =>
    simp only [reviewMachine] at hstep
    split at hstep
    · cases hstep
      exact { h with }
    · cases hstep
  | submitReview reviewId decision =>
    simp only [reviewMachine] at hstep
    split at hstep
    · rename_i hstored
      cases hstep
      exact h.submitReview hstored decision
    · cases hstep
      exact h
  | commitSubmit place ok =>
    simp only [reviewMachine] at hstep
    split at hstep
    · rename_i reviewId decision hsubmit
      cases ok with
      | true =>
        cases hstep
        have hset := h.setSubmit hsubmit .committed nofun
        have hknown := (h.found _ (List.mem_of_getElem? hsubmit)).1
        exact { hset.decide hknown (idle_setSubmit (hok _ hsubmit).1 nofun) (some decision) with }
      | false =>
        cases hstep
        exact h.setSubmit hsubmit .failed nofun
    · cases hstep
  | resolveWaitingReview place =>
    simp only [reviewMachine] at hstep
    split at hstep
    · rename_i reviewId decision hsubmit
      cases hstep
      exact (h.setSubmit hsubmit .returned nofun).resolveWaitingReview decision
    · cases hstep
  | timer reviewId action =>
    simp only [reviewMachine] at hstep
    split at hstep
    · split at hstep
      · cases action with
        | escalate =>
          cases hstep
          exact h
        | decide result =>
          cases hstep
          exact h.timer hok (some result)
        | timeout =>
          cases hstep
          exact h.timer hok none
      · cases hstep
    · cases hstep
  | commitHandler place ok =>
    simp only [reviewMachine] at hstep
    split at hstep
    · rename_i reviewId outcome hhandler
      cases ok with
      | true =>
        cases hstep
        have hset := h.setHandler hhandler .committed nofun
        have hknown := (h.claimed _ (List.mem_of_getElem? hhandler)).1
        have hdecide := hset.decide hknown (idle_setHandler (hok _ hhandler) nofun) outcome
        cases outcome with
        | none => exact { hdecide with }
        | some autoResult => exact { hdecide with }
      | false =>
        cases hstep
        exact h.setHandler hhandler .settled nofun
    · cases hstep
  | settleHandler place =>
    simp only [reviewMachine] at hstep
    split at hstep
    · rename_i reviewId outcome hhandler
      cases hstep
      exact (h.setHandler hhandler .settled nofun).resolve outcome
    · cases hstep
  | feedOperationResult =>
    simp only [reviewMachine] at hstep
    split at hstep
    · cases hstep
      exact { h with }
    · cases hstep
      exact { h with }
    · cases hstep
  | persistCheckpoint =>
    cases hstep
    exact { h with }
  | terminate =>
    cases hstep
    exact h.terminate
  | crash =>
    cases hstep
    exact h.restarted

end Pending

end Weft.Reviews
