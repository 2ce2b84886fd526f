import Weft.Reviews.Pending

/-! Which decisions a review takes. Where no decision overtakes another and a submission is
committed while the waiter is registered, each request takes one decision, its record is what
`ctx.review` returned, and a submission that returns has reached the workflow. -/

namespace Weft.Reviews
open Weft.Lib

universe u

variable {ι δ : Type u}

section

variable [DecidableEq ι]

/-- A submission that returned has its decision with the workflow. -/
def World.Delivered (w : World ι δ) (reviewId : ι) (decision : δ) : Prop :=
  w.terminal = true ∨ (reviewId, decision) ∈ w.results ∨
    w.operation = some (reviewId, .resolved (some decision))

/-- Each request takes one decision at most; the completed record has the decision that
`ctx.review` returned; and a submission that returned is delivered. -/
structure DecidedOnce (w : World ι δ) : Prop where
  once : (w.decided.map Prod.fst).Nodup
  record : ∀ reviewId decision, (reviewId, decision) ∈ w.results →
    (∀ stored, w.completed reviewId = some stored → stored = decision) ∧
      (w.terminal = false → w.completed reviewId = some decision)
  delivered : ∀ submit ∈ w.submits, submit.stage = .returned →
    w.Delivered submit.reviewId submit.decision

structure Inv (w : World ι δ) : Prop where
  once : (w.decided.map Prod.fst).Nodup
  completed : ∀ reviewId decision, w.completed reviewId = some decision →
    (reviewId, some decision) ∈ w.decided
  recorded : w.terminal = false → ∀ reviewId decision,
    (reviewId, some decision) ∈ w.decided → w.completed reviewId = some decision
  results : ∀ reviewId decision, (reviewId, decision) ∈ w.results →
    (reviewId, some decision) ∈ w.decided
  checkpoint : ∀ result ∈ w.checkpoint, result ∈ w.results
  waiters : ∀ reviewId ∈ w.reviewWaiters, w.operation = some (reviewId, .waiting)
  resolved : ∀ reviewId decision, w.operation = some (reviewId, .resolved (some decision)) →
    (reviewId, some decision) ∈ w.decided
  committed : ∀ submit ∈ w.submits, submit.stage = .committed →
    (submit.reviewId, some submit.decision) ∈ w.decided ∧
      (w.terminal = true ∨ submit.reviewId ∈ w.reviewWaiters)
  apart : ∀ (i j : Nat) (submit other : Submit ι δ), w.submits[i]? = some submit →
    w.submits[j]? = some other → submit.stage = .committed → other.stage = .committed →
    submit.reviewId = other.reviewId → i = j
  handlers : ∀ handler ∈ w.handlers, handler.stage = .committed →
    (handler.reviewId, handler.outcome) ∈ w.decided
  claimed : ∀ handler ∈ w.handlers, handler.reviewId ∈ w.issued ∧
    handler.reviewId ∉ w.reviewWaiters ∧ w.operation ≠ some (handler.reviewId, .created)
  issued : ∀ reviewId stage, w.operation = some (reviewId, stage) → reviewId ∈ w.issued
  delivered : ∀ submit ∈ w.submits, submit.stage = .returned →
    w.Delivered submit.reviewId submit.decision

theorem resolve_handlers (w : World ι δ) (reviewId : ι) (outcome : Option δ)
    (handlers : List (Handler ι δ)) :
    { resolve w reviewId outcome with handlers := handlers } =
      resolve { w with handlers := handlers } reviewId outcome := by
  obtain ⟨_, _, _, _, operation, _, _, _, _, _, _⟩ := w
  cases operation with
  | none => rfl
  | some current =>
    obtain ⟨current, stage⟩ := current
    cases stage with
    | created => rfl
    | waiting =>
      simp only [resolve]
      split <;> rfl
    | resolved _ => rfl

end

namespace Inv

variable {w : World ι δ}

variable {reviewId : ι}

/-- A request has one decision. -/
theorem decided_unique (h : Inv w) {outcome outcome' : Option δ}
    (hleft : (reviewId, outcome) ∈ w.decided) (hright : (reviewId, outcome') ∈ w.decided) :
    outcome = outcome' := by
  have heq := List.inj_on_of_nodup_map h.once hleft hright rfl
  exact congrArg Prod.snd heq

theorem decidedOnce (h : Inv w) : DecidedOnce w := { h with
  record := by
    intro reviewId decision hin
    have hdecided := h.results reviewId decision hin
    constructor
    · intro stored hstored
      have heq := h.decided_unique (h.completed reviewId stored hstored) hdecided
      exact Option.some.inj heq
    · intro hrunning
      exact h.recorded hrunning reviewId decision hdecided }

theorem initial : Inv ({} : World ι δ) where
  once := List.nodup_nil
  completed := fun _ _ hc => (by cases hc)
  recorded := fun _ _ _ hd => (by cases hd)
  results := fun _ _ hr => (by cases hr)
  checkpoint := fun _ hc => (by cases hc)
  waiters := fun _ hw => (by cases hw)
  resolved := fun _ _ ho => (by cases ho)
  committed := fun _ hs => (by cases hs)
  apart := fun i j _ _ hi => (by simp at hi)
  handlers := fun _ hh => (by cases hh)
  claimed := fun _ hh => (by cases hh)
  issued := fun _ _ ho => (by cases ho)
  delivered := fun _ hs => (by cases hs)

theorem createReview (h : Inv w) (hnone : w.operation = none) (hfresh : reviewId ∉ w.issued) :
    Inv { w with
      operation := some (reviewId, .created)
      stored := w.stored ++ [reviewId]
      issued := w.issued ++ [reviewId] } := { h with
  waiters := by
    intro other hother
    have hop := h.waiters other hother
    rw [hnone] at hop
    cases hop
  resolved := fun _ _ hop => (by cases hop)
  claimed := by
    intro handler hhandler
    obtain ⟨hissued, hfree, -⟩ := h.claimed handler hhandler
    refine ⟨List.mem_append_left _ hissued, hfree, fun hop => hfresh ?_⟩
    rw [(Prod.mk.inj (Option.some.inj hop)).1]
    exact hissued
  issued := by
    intro other stage hop
    obtain ⟨rfl, -⟩ := Prod.mk.inj (Option.some.inj hop)
    exact List.mem_append_right _ (List.mem_singleton_self _)
  delivered := by
    intro submit hsubmit hdone
    obtain hterminal | hin | hop := h.delivered submit hsubmit hdone
    · exact .inl hterminal
    · exact .inr (.inl hin)
    · rw [hnone] at hop
      cases hop }

theorem createReviewWaiter (h : Inv w) (hop : w.operation = some (reviewId, .created)) :
    Inv { w with
      operation := some (reviewId, .waiting)
      reviewWaiters := reviewId :: w.reviewWaiters } := { h with
  waiters := by
    intro other hother
    obtain rfl | hold := List.mem_cons.1 hother
    · rfl
    · have hother := h.waiters other hold
      rw [hop] at hother
      cases hother
  resolved := fun _ _ hnew => (by cases hnew)
  committed := by
    intro submit hsubmit hstage
    obtain ⟨hdecided, hplace⟩ := h.committed submit hsubmit hstage
    exact ⟨hdecided, hplace.imp_right fun hin => List.mem_cons_of_mem _ hin⟩
  claimed := by
    intro handler hhandler
    obtain ⟨hissued, hfree, hne⟩ := h.claimed handler hhandler
    refine ⟨hissued, ?_, fun hnew => (by cases hnew)⟩
    intro hin
    obtain heq | hold := List.mem_cons.1 hin
    · rw [heq] at hne
      exact hne hop
    · exact hfree hold
  issued := by
    intro other stage hnew
    obtain ⟨rfl, -⟩ := Prod.mk.inj (Option.some.inj hnew)
    exact h.issued _ _ hop
  delivered := by
    intro submit hsubmit hdone
    obtain hterminal | hin | hold := h.delivered submit hsubmit hdone
    · exact .inl hterminal
    · exact .inr (.inl hin)
    · rw [hop] at hold
      cases hold }

theorem submitReview (h : Inv w) (reviewId : ι) (decision : δ) :
    Inv { w with submits := w.submits ++ [⟨reviewId, decision, .found⟩] } := by
  have hsplit : ∀ submit ∈ w.submits ++ [(⟨reviewId, decision, .found⟩ : Submit ι δ)],
      submit.stage ≠ .found → submit ∈ w.submits := by
    intro submit hsubmit hstage
    obtain hold | hnew := List.mem_append.1 hsubmit
    · exact hold
    · rw [List.mem_singleton] at hnew
      subst hnew
      exact absurd rfl hstage
  have hplace : ∀ (i : Nat) (submit : Submit ι δ),
      (w.submits ++ [(⟨reviewId, decision, .found⟩ : Submit ι δ)])[i]? = some submit →
      submit.stage = .committed → w.submits[i]? = some submit := by
    intro i submit hi hstage
    rw [List.getElem?_append] at hi
    split at hi
    · exact hi
    · rw [List.getElem?_singleton] at hi
      split at hi
      · cases hi
        cases hstage
      · cases hi
  exact { h with
    committed := fun submit hsubmit hstage =>
      h.committed submit (hsplit submit hsubmit (by simp [hstage])) hstage
    apart := fun i j submit other hi hj hs ho =>
      h.apart i j submit other (hplace i submit hi hs) (hplace j other hj ho) hs ho
    delivered := fun submit hsubmit hstage =>
      h.delivered submit (hsplit submit hsubmit (by simp [hstage])) hstage }

theorem apart_set (h : Inv w) (place : Nat) (new : Submit ι δ)
    (hnew : new.stage = .committed → ∀ submit ∈ w.submits, submit.stage = .committed →
      submit.reviewId ≠ new.reviewId) :
    ∀ (i j : Nat) (submit other : Submit ι δ), (w.submits.set place new)[i]? = some submit →
      (w.submits.set place new)[j]? = some other → submit.stage = .committed →
      other.stage = .committed → submit.reviewId = other.reviewId → i = j := by
  intro i j submit other hi hj hs ho heq
  obtain ⟨rfl, rfl⟩ | ⟨-, hiold⟩ := getElem?_set_cases hi
  · obtain ⟨rfl, -⟩ | ⟨-, hjold⟩ := getElem?_set_cases hj
    · rfl
    · exact absurd heq.symm (hnew hs other (List.mem_of_getElem? hjold) ho)
  · obtain ⟨rfl, rfl⟩ | ⟨-, hjold⟩ := getElem?_set_cases hj
    · exact absurd heq (hnew ho submit (List.mem_of_getElem? hiold) hs)
    · exact h.apart i j submit other hiold hjold hs ho heq

/-- A decision is added for a request that has none. -/
theorem nodup_decide (h : Inv w) (hnew : w.Undecided reviewId) (outcome : Option δ) :
    (((reviewId, outcome) :: w.decided).map Prod.fst).Nodup := by
  rw [List.map_cons, List.nodup_cons]
  exact ⟨hnew, h.once⟩

section

variable [DecidableEq ι]

/-- The completed record of a request without a decision is put. -/
theorem persistCompletedReviewRecord (h : Inv w) (hnew : w.Undecided reviewId) (decision : δ) :
    Inv (persistCompletedReviewRecord w reviewId decision) := { h with
  once := h.nodup_decide hnew (some decision)
  completed := by
    intro other stored hstored
    obtain ⟨rfl, ⟨⟩⟩ | ⟨-, hstored⟩ := update_some_cases hstored
    · exact List.mem_cons_self
    · exact List.mem_cons_of_mem _ (h.completed other stored hstored)
  recorded := by
    intro hrunning other stored hin
    show Function.update w.completed reviewId (some decision) other = some stored
    obtain heq | hold := List.mem_cons.1 hin
    · obtain ⟨rfl, hsome⟩ := Prod.mk.inj heq
      rw [Function.update_self, hsome]
    · have hne : other ≠ reviewId := by
        rintro rfl
        exact hnew (List.mem_map_of_mem hold)
      rw [Function.update_of_ne hne]
      exact h.recorded hrunning other stored hold
  results := fun other result hin => List.mem_cons_of_mem _ (h.results other result hin)
  resolved := fun other result hop => List.mem_cons_of_mem _ (h.resolved other result hop)
  committed := by
    intro submit hsubmit hstage
    obtain ⟨hdecided, hplace⟩ := h.committed submit hsubmit hstage
    exact ⟨List.mem_cons_of_mem _ hdecided, hplace⟩
  handlers := fun handler hin hstage => List.mem_cons_of_mem _ (h.handlers handler hin hstage) }

end

/-- The stage of a submission changes to one that is neither committed nor returned. -/
theorem failSubmit (h : Inv w) (place : Nat) (reviewId : ι) (decision : δ) :
    Inv { w with submits := w.submits.set place ⟨reviewId, decision, .failed⟩ } := { h with
  committed := by
    intro submit hsubmit hstage
    obtain hold | rfl := List.mem_or_eq_of_mem_set hsubmit
    · exact h.committed submit hold hstage
    · cases hstage
  apart := h.apart_set _ _ fun hstage => (by cases hstage)
  delivered := by
    intro submit hsubmit hstage
    obtain hold | rfl := List.mem_or_eq_of_mem_set hsubmit
    · exact h.delivered submit hold hstage
    · cases hstage }

variable {place : Nat} {decision : δ}

section

variable [DecidableEq ι]

theorem commitSubmit (h : Inv w) (hnew : w.Undecided reviewId)
    (hplace : w.terminal = true ∨ reviewId ∈ w.reviewWaiters) :
    Inv { Reviews.persistCompletedReviewRecord w reviewId decision with
      submits := w.submits.set place ⟨reviewId, decision, .committed⟩ } := by
  have hrecord := h.persistCompletedReviewRecord hnew decision
  exact { hrecord with
    committed := by
      intro submit hsubmit hstage
      obtain hold | rfl := List.mem_or_eq_of_mem_set hsubmit
      · exact hrecord.committed submit hold hstage
      · exact ⟨List.mem_cons_self, hplace⟩
    apart := by
      apply h.apart_set
      intro _ submit hsubmit hstage heq
      apply hnew
      rw [← show submit.reviewId = reviewId from heq]
      exact List.mem_map_of_mem (h.committed submit hsubmit hstage).1
    delivered := by
      intro submit hsubmit hstage
      obtain hold | rfl := List.mem_or_eq_of_mem_set hsubmit
      · exact hrecord.delivered submit hold hstage
      · cases hstage }

/-- The waiter of the operation goes and its promise is resolved. -/
theorem resolveWaitingReview (h : Inv w)
    (hsubmit : w.submits[place]? = some ⟨reviewId, decision, .committed⟩) :
    Inv { resolveWaitingReview w reviewId decision with
      submits := w.submits.set place ⟨reviewId, decision, .returned⟩ } := by
  obtain ⟨hdecided, hplace⟩ := h.committed _ (List.mem_of_getElem? hsubmit) rfl
  have hapart := h.apart_set place ⟨reviewId, decision, .returned⟩
    fun hstage => (by cases hstage)
  by_cases hin : reviewId ∈ w.reviewWaiters
  · have hop := h.waiters reviewId hin
    have heq : Reviews.resolveWaitingReview w reviewId decision =
        { w with
          reviewWaiters := w.reviewWaiters.filter (· ≠ reviewId)
          operation := some (reviewId, .resolved (some decision)) } := by
      simp [Reviews.resolveWaitingReview, hin, resolve, hop]
    rw [heq]
    exact { h with
      waiters := by
        intro other hother
        obtain ⟨hold, hne⟩ := List.mem_filter.1 hother
        have hsame := h.waiters other hold
        rw [hop, Option.some.injEq, Prod.mk.injEq] at hsame
        exact absurd hsame.1.symm (by simpa using hne)
      resolved := by
        intro other result hnew
        obtain ⟨rfl, hres⟩ := Prod.mk.inj (Option.some.inj hnew)
        obtain rfl : decision = result := by simpa using hres
        exact hdecided
      committed := by
        intro submit hmem hstage
        obtain ⟨k, hk⟩ := List.getElem?_of_mem hmem
        have hne : k ≠ place := by
          rintro rfl
          rw [List.getElem?_set_self'] at hk
          obtain ⟨old, -, hsame⟩ := Option.map_eq_some_iff.1 hk
          rw [← show (⟨reviewId, decision, .returned⟩ : Submit ι δ) = submit from hsame] at hstage
          cases hstage
        rw [List.getElem?_set_ne hne.symm] at hk
        obtain ⟨hother, hwaiting⟩ := h.committed submit (List.mem_of_getElem? hk) hstage
        refine ⟨hother, hwaiting.imp_right fun hold => List.mem_filter.2 ⟨hold, ?_⟩⟩
        have hdistinct : submit.reviewId ≠ reviewId := fun hid =>
          hne (h.apart k place submit _ hk hsubmit hstage rfl hid)
        simpa using hdistinct
      apart := hapart
      claimed := by
        intro handler hhandler
        obtain ⟨hissued, hfree, -⟩ := h.claimed handler hhandler
        exact ⟨hissued, fun hold => hfree (List.mem_filter.1 hold).1, fun hnew => (by cases hnew)⟩
      issued := by
        intro other stage hnew
        obtain ⟨rfl, -⟩ := Prod.mk.inj (Option.some.inj hnew)
        exact h.issued _ _ hop
      delivered := by
        intro submit hmem hstage
        obtain hold | rfl := List.mem_or_eq_of_mem_set hmem
        · obtain hterminal | hres | hold := h.delivered submit hold hstage
          · exact .inl hterminal
          · exact .inr (.inl hres)
          · rw [hop] at hold
            simp at hold
        · exact .inr (.inr rfl) }
  · have heq : Reviews.resolveWaitingReview w reviewId decision = w := if_neg hin
    have hterminal : w.terminal = true := hplace.resolve_right hin
    rw [heq]
    exact { h with
      committed := by
        intro submit hmem hstage
        obtain hold | rfl := List.mem_or_eq_of_mem_set hmem
        · exact h.committed submit hold hstage
        · cases hstage
      apart := hapart
      delivered := fun _ _ _ => .inl hterminal }

theorem timer (h : Inv w) {stage : Stage δ} (hop : w.operation = some (reviewId, stage))
    (hstage : stage.registered = true) (hnew : w.Undecided reviewId) (outcome : Option δ) :
    Inv (handleReviewEscalationTimer w reviewId outcome) := { h with
  waiters := fun other hother => h.waiters other (List.mem_filter.1 hother).1
  committed := by
    intro submit hsubmit hstage
    obtain ⟨hdecided, hplace⟩ := h.committed submit hsubmit hstage
    refine ⟨hdecided, hplace.imp_right fun hin => List.mem_filter.2 ⟨hin, ?_⟩⟩
    have hne : submit.reviewId ≠ reviewId := by
      rintro rfl
      exact hnew (List.mem_map_of_mem hdecided)
    simpa using hne
  handlers := by
    intro handler hhandler hstage
    obtain hold | hone := List.mem_append.1 hhandler
    · exact h.handlers handler hold hstage
    · rw [List.mem_singleton] at hone
      subst hone
      cases hstage
  claimed := by
    intro handler hhandler
    obtain hold | hone := List.mem_append.1 hhandler
    · obtain ⟨hissued, hfree, hne⟩ := h.claimed handler hold
      exact ⟨hissued, fun hin => hfree (List.mem_filter.1 hin).1, hne⟩
    · rw [List.mem_singleton] at hone
      subst hone
      refine ⟨h.issued _ _ hop, fun hin => ?_, fun hcreated => ?_⟩
      · simpa using (List.mem_filter.1 hin).2
      · change w.operation = some (reviewId, .created) at hcreated
        rw [hop, Option.some.injEq, Prod.mk.injEq] at hcreated
        rw [hcreated.2] at hstage
        cases hstage }

/-- The workflow fails by the timeout of a request without a decision. -/
theorem failWorkflow (h : Inv w) (hnew : w.Undecided reviewId) : Inv (failWorkflow w reviewId) :=
  { h with
    once := h.nodup_decide hnew none
    completed := fun other stored hc => List.mem_cons_of_mem _ (h.completed other stored hc)
    recorded := fun hrunning => (by cases hrunning)
    results := fun other result hin => List.mem_cons_of_mem _ (h.results other result hin)
    resolved := fun other result hop => List.mem_cons_of_mem _ (h.resolved other result hop)
    committed := fun submit hsubmit hstage =>
      ⟨List.mem_cons_of_mem _ (h.committed submit hsubmit hstage).1, .inl rfl⟩
    handlers := fun handler hin hstage => List.mem_cons_of_mem _ (h.handlers handler hin hstage)
    delivered := fun _ _ _ => .inl rfl }

end

/-- A handler under way changes its stage. -/
theorem setHandler (h : Inv w) {old : Handler ι δ} (hold : old ∈ w.handlers)
    (stage : HandlerStage) (hnew : stage = .committed → (old.reviewId, old.outcome) ∈ w.decided) :
    Inv { w with handlers := w.handlers.set place ⟨old.reviewId, old.outcome, stage⟩ } := { h with
  handlers := by
    intro other hother hstage
    obtain hkept | rfl := List.mem_or_eq_of_mem_set hother
    · exact h.handlers other hkept hstage
    · exact hnew hstage
  claimed := by
    intro other hother
    obtain hkept | rfl := List.mem_or_eq_of_mem_set hother
    · exact h.claimed other hkept
    · exact h.claimed old hold }

section

variable [DecidableEq ι]

theorem commitHandler (h : Inv w) {handler : Handler ι δ} (hhandler : handler ∈ w.handlers)
    (hnew : w.Undecided handler.reviewId) : Inv { commitHandler w handler with
      handlers := w.handlers.set place ⟨handler.reviewId, handler.outcome, .committed⟩ } := by
  obtain ⟨reviewId, outcome, stage⟩ := handler
  cases outcome with
  | none => exact (h.failWorkflow hnew).setHandler hhandler .committed fun _ => List.mem_cons_self
  | some autoResult =>
    exact (h.persistCompletedReviewRecord hnew autoResult).setHandler hhandler .committed
      fun _ => List.mem_cons_self

/-- A handler that has committed resolves the promise, if nothing has. -/
theorem resolve (h : Inv w) {outcome : Option δ} (hdecided : (reviewId, outcome) ∈ w.decided)
    (hfree : reviewId ∉ w.reviewWaiters) : Inv (resolve w reviewId outcome) := by
  rw [Reviews.resolve]
  split
  · rename_i current hop
    split
    · rename_i heq
      subst heq
      exact { h with
        waiters := by
          intro other hother
          have hsame := h.waiters other hother
          rw [hop, Option.some.injEq, Prod.mk.injEq] at hsame
          rw [← hsame.1] at hother
          exact absurd hother hfree
        resolved := by
          intro other result hnew
          obtain ⟨rfl, hres⟩ := Prod.mk.inj (Option.some.inj hnew)
          obtain rfl : outcome = some result := by simpa using hres
          exact hdecided
        claimed := by
          intro handler hhandler
          obtain ⟨hissued, hnone, -⟩ := h.claimed handler hhandler
          exact ⟨hissued, hnone, fun hnew => (by cases hnew)⟩
        issued := by
          intro other stage hnew
          obtain ⟨rfl, -⟩ := Prod.mk.inj (Option.some.inj hnew)
          exact h.issued _ _ hop
        delivered := by
          intro submit hsubmit hstage
          obtain hterminal | hin | hold := h.delivered submit hsubmit hstage
          · exact .inl hterminal
          · exact .inr (.inl hin)
          · rw [hop] at hold
            simp at hold }
    · exact h
  · exact h

end

theorem feedDecision (h : Inv w) (hop : w.operation = some (reviewId, .resolved (some decision))) :
    Inv { w with
      operation := none
      results := w.results ++ [(reviewId, decision)] } := { h with
  results := by
    intro other result hin
    obtain hold | hnew := List.mem_append.1 hin
    · exact h.results other result hold
    · rw [List.mem_singleton] at hnew
      obtain ⟨rfl, rfl⟩ := Prod.mk.inj hnew
      exact h.resolved _ _ hop
  checkpoint := fun result hin => List.mem_append_left _ (h.checkpoint result hin)
  waiters := by
    intro other hother
    have hsame := h.waiters other hother
    rw [hop] at hsame
    simp at hsame
  resolved := fun _ _ hnew => (by cases hnew)
  claimed := fun handler hhandler => ⟨(h.claimed handler hhandler).1,
    (h.claimed handler hhandler).2.1, fun hnew => (by cases hnew)⟩
  issued := fun _ _ hnew => (by cases hnew)
  delivered := by
    intro submit hsubmit hstage
    obtain hterminal | hin | hold := h.delivered submit hsubmit hstage
    · exact .inl hterminal
    · exact .inr (.inl (List.mem_append_left _ hin))
    · right; left
      rw [hop] at hold
      obtain ⟨rfl, hres⟩ := Prod.mk.inj (Option.some.inj hold)
      obtain rfl : decision = submit.decision := by simpa using hres
      exact List.mem_append_right _ (List.mem_singleton_self _) }

theorem feedTimeout (h : Inv w) (hop : w.operation = some (reviewId, .resolved none)) :
    Inv { w with operation := none } := { h with
  waiters := by
    intro other hother
    have hsame := h.waiters other hother
    rw [hop] at hsame
    simp at hsame
  resolved := fun _ _ hnew => (by cases hnew)
  claimed := fun handler hhandler => ⟨(h.claimed handler hhandler).1,
    (h.claimed handler hhandler).2.1, fun hnew => (by cases hnew)⟩
  issued := fun _ _ hnew => (by cases hnew)
  delivered := by
    intro submit hsubmit hstage
    obtain hterminal | hin | hold := h.delivered submit hsubmit hstage
    · exact .inl hterminal
    · exact .inr (.inl hin)
    · rw [hop] at hold
      simp at hold }

theorem terminate (h : Inv w) :
    Inv { w with
      terminal := true
      operation := none
      reviewWaiters := []
      stored := []
      completed := fun _ => none } := { h with
  completed := fun _ _ hc => (by cases hc)
  recorded := fun hrunning => (by cases hrunning)
  waiters := fun _ hin => (by cases hin)
  resolved := fun _ _ hop => (by cases hop)
  committed := fun submit hsubmit hstage => ⟨(h.committed submit hsubmit hstage).1, .inl rfl⟩
  claimed := fun handler hhandler => ⟨(h.claimed handler hhandler).1,
    (by simp), fun hnew => (by cases hnew)⟩
  issued := fun _ _ hnew => (by cases hnew)
  delivered := fun _ _ _ => .inl rfl }

theorem crash (h : Inv w) (hok : InTurn w .crash) : Inv w.restarted := by
  have hsplit : ∀ submit ∈ w.restarted.submits, submit.stage ≠ .failed →
      submit ∈ w.submits ∧ submit.stage = .returned := by
    intro submit hsubmit hstage
    obtain ⟨old, hold, heq⟩ := List.mem_map.1 hsubmit
    split at heq
    · rename_i hreturned
      subst heq
      exact ⟨hold, hreturned⟩
    · subst heq
      exact absurd rfl hstage
  exact { h with
    results := fun other result hin => h.results other result (h.checkpoint _ hin)
    checkpoint := fun _ hin => hin
    waiters := fun _ hin => (by cases hin)
    resolved := fun _ _ hop => (by cases hop)
    committed := by
      intro submit hsubmit hstage
      have hreturned := (hsplit submit hsubmit (by simp [hstage])).2
      rw [hstage] at hreturned
      cases hreturned
    apart := by
      intro i j submit other hi hj hstage
      have hreturned := (hsplit submit (List.mem_of_getElem? hi) (by simp [hstage])).2
      rw [hstage] at hreturned
      cases hreturned
    handlers := fun _ hin => (by cases hin)
    claimed := fun _ hin => (by cases hin)
    issued := fun _ _ hnew => (by cases hnew)
    delivered := by
      intro submit hsubmit hstage
      have hold := (hsplit submit hsubmit (by simp [hstage])).1
      obtain hterminal | hin := hok
      · exact .inl hterminal
      · exact .inr (.inl (hin submit hold hstage)) }

section

variable [DecidableEq ι]

theorem step (h : Inv w) (hpending : Pending w) {event : Event ι δ} {w' : World ι δ}
    (hok : InTurn w event) (hstep : reviewMachine.step w event = some w') : Inv w' := by
  cases event with
  | createReview reviewId =>
    simp only [reviewMachine] at hstep
    split at hstep
    · cases hstep
    · rename_i hfree
      rw [not_or, not_or] at hfree
      cases hstep
      exact h.createReview (by simpa using hfree.2.1) hfree.1
  | createReviewWaiter =>
    simp only [reviewMachine] at hstep
    split at hstep
    · rename_i reviewId hop
      cases hstep
      exact h.createReviewWaiter hop
    · cases hstep
  | submitReview reviewId decision =>
    simp only [reviewMachine] at hstep
    split at hstep
    · cases hstep
      exact h.submitReview reviewId decision
    · cases hstep
      exact h
  | commitSubmit place ok =>
    simp only [reviewMachine] at hstep
    split at hstep
    · rename_i reviewId decision hsubmit
      cases ok with
      | true =>
        cases hstep
        have hnew := (hpending.found _ (List.mem_of_getElem? hsubmit)).2 rfl
        exact h.commitSubmit hnew (hok _ hsubmit).2
      | false =>
        cases hstep
        exact h.failSubmit place reviewId decision
    · cases hstep
  | resolveWaitingReview place =>
    simp only [reviewMachine] at hstep
    split at hstep
    · rename_i reviewId decision hsubmit
      cases hstep
      exact h.resolveWaitingReview hsubmit
    · cases hstep
  | timer reviewId action =>
    simp only [reviewMachine] at hstep
    split at hstep
    · rename_i current stage hop
      split at hstep
      · rename_i hregistered
        obtain ⟨rfl, hstage⟩ := hregistered
        cases action with
        | escalate =>
          cases hstep
          exact h
        | decide result =>
          cases hstep
          exact h.timer hop hstage (hpending.stored _ hok).2 (some result)
        | timeout =>
          cases hstep
          exact h.timer hop hstage (hpending.stored _ hok).2 none
      · cases hstep
    · cases hstep
  | commitHandler place ok =>
    simp only [reviewMachine] at hstep
    split at hstep
    · rename_i reviewId outcome hhandler
      have hmem := List.mem_of_getElem? hhandler
      cases ok with
      | true =>
        cases hstep
        exact h.commitHandler hmem ((hpending.claimed _ hmem).2 rfl)
      | false =>
        cases hstep
        exact h.setHandler hmem .settled fun hnew => (by cases hnew)
    · cases hstep
  | settleHandler place =>
    simp only [reviewMachine] at hstep
    split at hstep
    · rename_i reviewId outcome hhandler
      have hmem := List.mem_of_getElem? hhandler
      cases hstep
      have hdecided := h.handlers _ hmem rfl
      rw [resolve_handlers]
      apply resolve (h.setHandler hmem .settled fun hnew => (by cases hnew)) hdecided
      exact (h.claimed _ hmem).2.1
    · cases hstep
  | feedOperationResult =>
    simp only [reviewMachine] at hstep
    split at hstep
    · rename_i reviewId decision hop
      cases hstep
      exact h.feedDecision hop
    · rename_i reviewId hop
      cases hstep
      exact h.feedTimeout hop
    · cases hstep
  | persistCheckpoint =>
    cases hstep
    exact { h with checkpoint := fun _ hin => hin }
  | terminate =>
    cases hstep
    exact h.terminate
  | crash =>
    cases hstep
    exact h.crash hok

end

end Inv

section

variable [DecidableEq ι]

/-- In every run whose steps are in turn. -/
theorem review_decided_once {run : List (Event ι δ)}
    (hok : reviewMachine.EveryStep InTurn ({} : World ι δ) run) :
    reviewMachine.EveryState DecidedOnce ({} : World ι δ) run := by
  have hinv : reviewMachine.EveryState (fun w => Inv w ∧ Pending w) ({} : World ι δ) run :=
    Machine.everyState_of_invariant
      (fun _ _ _ ⟨h, hpending⟩ hok' hstep =>
        ⟨h.step hpending hok' hstep, hpending.step hok' hstep⟩)
      ⟨Inv.initial, Pending.initial⟩ hok
  exact hinv.mono fun _ h => h.1.decidedOnce

/-- Two submissions find the request before either is committed. -/
def submittedTwice : List (Event Nat Nat) :=
  [.createReview 0, .createReviewWaiter, .submitReview 0 10, .submitReview 0 20,
    .commitSubmit 0 true, .resolveWaitingReview 0, .commitSubmit 1 true, .resolveWaitingReview 1,
    .feedOperationResult]

/-- Both are accepted; the record has the second and `ctx.review` returned the first. -/
theorem review_decided_twice : ¬ reviewMachine.EveryState DecidedOnce
    ({} : World Nat Nat) submittedTwice := by
  intro h
  have honce := h.final.once
  revert honce
  decide

/-- Two submissions of which one fails before the other is committed and a third that finds no
request, a restart after the checkpoint, an escalation and an automatic decision. -/
def decidedInTurn : List (Event Nat Nat) :=
  [.createReview 0, .createReviewWaiter, .submitReview 0 20, .submitReview 0 10,
    .commitSubmit 0 false, .commitSubmit 1 true, .submitReview 0 40, .resolveWaitingReview 1,
    .feedOperationResult, .persistCheckpoint, .createReview 1,
    .createReviewWaiter, .crash, .createReview 2, .createReviewWaiter, .timer 2 .escalate,
    .timer 2 (.decide 30), .commitHandler 0 true, .settleHandler 0, .feedOperationResult,
    .persistCheckpoint]

theorem review_decided_in_turn : reviewMachine.EveryState DecidedOnce
    ({} : World Nat Nat) decidedInTurn :=
  review_decided_once (by decide)

end

end Weft.Reviews
