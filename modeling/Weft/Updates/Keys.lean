import Weft.Updates.Handover

/-! Calls with one idempotency key. A call looks the mapping of its key up before it creates a
request, so where no other call creates one in between and the earlier requests under the key are
answered, the key has one request, and it is handed over once. -/

namespace Weft.Updates.Keys
open Weft.Lib Weft.Updates

universe u

variable {ν κ π ρ : Type u}

/-- What a call with a key finds: at its check each earlier request under the key is answered; the
response that its mapping pointed to is still stored and no error; and no other call with the key is
between its check and its request when it creates one. -/
def Current [DecidableEq κ] (w : World ν κ π ρ) (place : Nat) (c : Call ν κ π ρ) (ok : Bool) :
    CallStage ν κ π ρ → Prop
  | .checkIdempotency => ∀ r ∈ w.issued, r.idempotencyKey = c.idempotencyKey →
      (w.responses r.updateId).isSome = true
  | .getResponse updateId => (w.responses updateId).any (·.error.isNone) = true
  | .createRequest => ok = true → c.idempotencyKey.isSome = true →
      ∀ other ∈ w.calls.eraseIdx place,
        other.idempotencyKey = c.idempotencyKey → other.stage.creates = false
  | _ => True

instance Current.decidable [DecidableEq κ] (w : World ν κ π ρ) (place : Nat) (c : Call ν κ π ρ)
    (ok : Bool) (stage : CallStage ν κ π ρ) : Decidable (Current w place c ok stage) := by
  unfold Current
  split <;> infer_instance

/-- Requests are handed over in order, and calls with a key are current. -/
def InTurn [DecidableEq κ] (w : World ν κ π ρ) (event : Event ν κ π ρ) : Prop :=
  Handover.Orderly w event ∧
    match event with
    | .call place ok _ _ => ∀ c ∈ w.calls[place]?, Current w place c ok c.stage
    | _ => True

instance InTurn.decidable [DecidableEq ν] [DecidableEq κ] [DecidableEq π] (w : World ν κ π ρ)
    (event : Event ν κ π ρ) : Decidable (InTurn w event) := by
  unfold InTurn
  refine @instDecidableAnd _ _ inferInstance ?_
  split <;> infer_instance

/-- The call came by `update`, which has no key. -/
def triesWaiter : CallStage ν κ π ρ → Bool
  | .tryWaiting _ => true
  | .triedWaiting _ _ => true
  | _ => false

/-- Before a call with a key creates its request there is none under the key, and where a request
under a key has its response, the mapping of the key leads to it. -/
structure Keyed (w : World ν κ π ρ) : Prop where
  looked : ∀ c ∈ w.calls, c.idempotencyKey.isSome = true → c.stage.creates = true →
    ∀ r ∈ w.issued, r.idempotencyKey ≠ c.idempotencyKey
  mapped : ∀ r ∈ w.issued, ∀ key, r.idempotencyKey = some key →
    (w.responses r.updateId).isSome = true → w.mapping key = some r.updateId
  plain : ∀ c ∈ w.calls, triesWaiter c.stage = true → c.idempotencyKey = none

namespace Keyed

variable {w w' : World ν κ π ρ} {place : Nat} {c : Call ν κ π ρ}

theorem initial : Keyed ({} : World ν κ π ρ) where
  looked := fun _ hc => (by cases hc)
  mapped := fun _ hr => (by cases hr)
  plain := fun _ hc => (by cases hc)

theorem addCall (h : Keyed w) (hplain : triesWaiter c.stage = true → c.idempotencyKey = none)
    (hcreates : c.idempotencyKey.isSome = true → c.stage.creates = false) :
    Keyed { w with calls := w.calls ++ [c] } := { h with
  looked := by
    intro other hother hkey hcreates'
    obtain hold | hnew := List.mem_append.1 hother
    · exact h.looked other hold hkey hcreates'
    · rw [List.mem_singleton.1 hnew] at hkey hcreates'
      rw [hcreates hkey] at hcreates'
      cases hcreates'
  plain := by
    intro other hother htries
    obtain hold | hnew := List.mem_append.1 hother
    · exact h.plain other hold htries
    · rw [List.mem_singleton.1 hnew] at htries ⊢
      exact hplain htries }

/-- A call goes to a stage where it is about to create a request only if there is none under its
key. -/
theorem setCall (h : Keyed w) (hc : w.calls[place]? = some c) {stage : CallStage ν κ π ρ}
    (hcreates : c.idempotencyKey.isSome = true → stage.creates = true →
      ∀ r ∈ w.issued, r.idempotencyKey ≠ c.idempotencyKey)
    (htries : triesWaiter stage = true → triesWaiter c.stage = true) :
    Keyed (setCall w place c stage) := { h with
  looked := by
    intro other hother
    obtain hold | rfl := List.mem_or_eq_of_mem_set hother
    · exact h.looked other hold
    · exact hcreates
  plain := by
    intro other hother htries'
    obtain hold | rfl := List.mem_or_eq_of_mem_set hother
    · exact h.plain other hold htries'
    · exact h.plain c (List.mem_of_getElem? hc) (htries htries') }

theorem createRequest (h : Keyed w) (hI : Inv w) (hH : Handover.Inv w)
    {request : UpdateRequest ν κ π}
    (hfresh : request.updateId ∉ w.issued.map UpdateRequest.updateId)
    (hkey : request.idempotencyKey = c.idempotencyKey)
    (halone : c.idempotencyKey.isSome = true → ∀ other ∈ w.calls.eraseIdx place,
      other.idempotencyKey = c.idempotencyKey → other.stage.creates = false) :
    Keyed { Updates.setCall w place c (.guardTerminal request) with
      pending := w.pending ++ [request]
      issued := w.issued ++ [request] } where
  looked := by
    intro other hother hsome hcreates r hr
    obtain ⟨i, hi⟩ := List.getElem?_of_mem hother
    obtain ⟨-, rfl⟩ | ⟨hne, hold⟩ := getElem?_set_cases hi
    · cases hcreates
    · obtain hin | hnew := List.mem_append.1 hr
      · exact h.looked other (List.mem_of_getElem? hold) hsome hcreates r hin
      · rw [List.mem_singleton.1 hnew, hkey]
        intro hsame
        have hother' := List.mem_eraseIdx_iff_getElem?.2 ⟨i, hne, hold⟩
        rw [halone (hsame ▸ hsome) other hother' hsame.symm] at hcreates
        cases hcreates
  mapped := by
    intro r hr key hkey' hresponse
    obtain hin | hnew := List.mem_append.1 hr
    · exact h.mapped r hin key hkey' hresponse
    · rw [List.mem_singleton.1 hnew] at hresponse
      obtain ⟨response, hstored⟩ := Option.isSome_iff_exists.1 hresponse
      have hanswered := List.mem_map_of_mem (f := Prod.fst) (hI.responses _ _ hstored)
      obtain ⟨r', hr', heq⟩ := hH.takenIssued _ (hI.answered _ hanswered)
      exact absurd (List.mem_map.2 ⟨r', hr', heq⟩) hfresh
  plain := by
    intro other hother htries
    obtain hold | rfl := List.mem_or_eq_of_mem_set hother
    · exact h.plain other hold htries
    · cases htries

variable [DecidableEq κ]

/-- The response and the mapping of a request are stored together. -/
theorem commitResponse (h : Keyed w) (hI : Inv w) {request : UpdateRequest ν κ π}
    (hin : request ∈ w.issued) (response : UpdateResponse ρ) :
    Keyed (commitResponse w request response) := { h with
  mapped := by
    intro r hr key hkey hresponse
    by_cases hsame : request.idempotencyKey = some key
    · have heq : r = request := by
        apply hI.keys r hr request hin
        · rw [hkey]
          rfl
        · rw [hkey, hsame]
      simp only [Updates.commitResponse, hsame, Function.update_self, heq]
    · have hne : r.updateId ≠ request.updateId := by
        intro heq
        rw [hI.ids r hr request hin heq] at hkey
        exact hsame hkey
      simp only [Updates.commitResponse, Function.update_of_ne hne] at hresponse
      have hmapped := h.mapped r hr key hkey hresponse
      cases hother : request.idempotencyKey with
      | none => simpa only [Updates.commitResponse, hother] using hmapped
      | some other =>
        rw [hother] at hsame
        have hneKey : key ≠ other := fun heq => hsame (congrArg some heq.symm)
        simpa only [Updates.commitResponse, hother, Function.update_of_ne hneKey] using hmapped }

omit [DecidableEq κ] in
theorem cleanup (h : Keyed w) (updateIds : List Nat) :
    Keyed { w with
      responses := fun updateId => if updateId ∈ updateIds then none else w.responses updateId
      mapping := fun idempotencyKey =>
        if (w.mapping idempotencyKey).any (· ∈ updateIds) then none
        else w.mapping idempotencyKey } := { h with
  mapped := by
    intro r hr key hkey hresponse
    simp only at hresponse ⊢
    split at hresponse
    · cases hresponse
    · rename_i hkept
      have hmapped := h.mapped r hr key hkey hresponse
      rw [if_neg (by simpa [hmapped] using hkept), hmapped] }

variable [DecidableEq ν]

theorem callStep (h : Keyed w) (hI : Inv w) (hH : Handover.Inv w)
    (hc : w.calls[place]? = some c) {ok : Bool} {updateId createdAt : Nat}
    (hok : Current w place c ok c.stage)
    (hstep : callStep w place c ok updateId createdAt = some w') : Keyed w' := by
  have hquiet : ∀ stage : CallStage ν κ π ρ, stage.creates = false → triesWaiter stage = false →
      Keyed (Updates.setCall w place c stage) := by
    intro stage hcreates htries
    refine h.setCall hc (fun _ h' => ?_) fun h' => ?_
    · rw [hcreates] at h'
      cases h'
    · rw [htries] at h'
      cases h'
  rw [Updates.callStep] at hstep
  split at hstep
  · -- checkIdempotency: without a mapping no request under the key is answered, so there is none
    rename_i hstage
    rw [hstage] at hok
    split at hstep
    · cases hstep
      exact hquiet _ rfl rfl
    · rename_i hnone
      cases hstep
      refine h.setCall hc (fun hsome _ r hr hsame => ?_) fun htries => (by cases htries)
      obtain ⟨key, hkey⟩ := Option.isSome_iff_exists.1 hsome
      have hmapped := h.mapped r hr key (hsame.trans hkey) (hok r hr hsame)
      rw [hkey, Option.bind_some, hmapped] at hnone
      cases hnone
  · -- getResponse: the response is still there
    rename_i hstage
    rw [hstage] at hok
    split at hstep
    · cases hstep
      exact hquiet _ rfl rfl
    · rename_i hnone
      cases hstep
      rw [Current, hnone] at hok
      cases hok
  · -- tryWaiting
    rename_i hstage
    cases hstep
    refine h.setCall hc (fun _ hcreates => (by cases hcreates)) fun _ => ?_
    rw [hstage]
    rfl
  · -- triedWaiting
    rename_i hstage
    split at hstep
    · cases hstep
      refine h.setCall hc (fun hsome _ => ?_) fun htries => (by cases htries)
      rw [h.plain c (List.mem_of_getElem? hc) (by rw [hstage]; rfl)] at hsome
      cases hsome
    · cases hstep
      exact { hquiet .handedOver rfl rfl with }
  · -- createRequest
    rename_i hstage
    rw [hstage] at hok
    split at hstep
    · rename_i htrue
      split at hstep
      · cases hstep
      · rename_i hfresh
        cases hstep
        exact h.createRequest hI hH hfresh rfl (hok htrue)
    · cases hstep
      exact hquiet _ rfl rfl
  · -- guardTerminal
    split at hstep
    · cases hstep
      exact hquiet _ rfl rfl
    · cases hstep
      exact hquiet _ rfl rfl
  · -- deleteIfUnconsumed
    rename_i request _
    split at hstep
    · cases hstep
      exact hquiet _ rfl rfl
    · cases hstep
      exact { hquiet (.deletedUnconsumed request) rfl rfl with }
  · -- deletedUnconsumed
    split at hstep
    · cases hstep
      exact hquiet _ rfl rfl
    · cases hstep
      exact hquiet _ rfl rfl
  · -- deliver
    split at hstep
    · cases hstep
      exact hquiet _ rfl rfl
    · cases hstep
      exact hquiet _ rfl rfl
  · -- findPending
    cases hstep
    exact hquiet _ rfl rfl
  · -- foundPending
    rename_i request waiter _ _
    split at hstep
    · split at hstep
      · cases hstep
        exact { hquiet (.deletedForWaiter request waiter) rfl rfl with }
      · cases hstep
        exact hquiet _ rfl rfl
    · cases hstep
      exact hquiet _ rfl rfl
  · -- deletedForWaiter
    rename_i request _ _
    cases hstep
    exact { hquiet (.waitForResponse request) rfl rfl with }
  · -- waitForResponse
    split at hstep
    · split at hstep
      · cases hstep
        exact hquiet _ rfl rfl
      · cases hstep
        exact h
    · cases hstep
      exact hquiet _ rfl rfl
  · cases hstep

theorem waitStep (h : Keyed w) (hI : Inv w) {x : Wait ν κ π ρ} (hx : w.waits[place]? = some x)
    {ok : Bool} (hstep : waitStep w place x ok = some w') : Keyed w' := by
  have hquiet : ∀ stage : WaitStage ν κ π ρ, Keyed (Updates.setWait w place x stage) :=
    fun _ => { h with }
  rw [Updates.waitStep] at hstep
  split at hstep
  · cases hstep
    exact hquiet _
  · split at hstep
    · cases hstep
      exact { h with }
    · cases hstep
      exact { h with }
  · cases hstep
    exact { h with }
  · cases hstep
    exact hquiet _
  · split at hstep
    · cases hstep
      split
      · exact { h with }
      · exact { h with }
    · cases hstep
      exact hquiet _
  · split at hstep
    · cases hstep
      exact { h with }
    · cases hstep
      exact hquiet _
    · cases hstep
  · -- responding
    rename_i request value hstage
    split at hstep
    · cases hstep
      have hin := hI.waitRequest x (List.mem_of_getElem? hx) request (by rw [hstage]; rfl)
      exact { h.commitResponse hI hin ⟨value, none⟩ with }
    · cases hstep
      exact hquiet _
  · cases hstep

omit [DecidableEq ν] in
theorem drainStep (h : Keyed w) (hI : Inv w) {stage : DrainStage ν κ π ρ}
    (hstage : w.drains[place]? = some stage) {ok : Bool} {response : UpdateResponse ρ}
    (hstep : drainStep w place stage ok response = some w') : Keyed w' := by
  have hquiet : ∀ stage' : DrainStage ν κ π ρ,
      Keyed { w with drains := w.drains.set place stage' } := fun _ => { h with }
  cases stage with
  | scan =>
    cases hstep
    exact hquiet _
  | next rest =>
    cases rest with
    | nil =>
      cases hstep
      exact hquiet _
    | cons request rest =>
      simp only [Updates.drainStep] at hstep
      split at hstep
      · cases hstep
        exact { h with }
      · cases hstep
        exact hquiet _
  | claimed request rest =>
    simp only [Updates.drainStep] at hstep
    split at hstep
    · cases hstep
      exact { h with }
    · cases hstep
      exact hquiet _
  | respond request answer rest =>
    simp only [Updates.drainStep] at hstep
    split at hstep
    · cases hstep
      have hin := hI.drainRequests _ (List.mem_of_getElem? hstage) request
        (List.mem_cons_self)
      exact { h.commitResponse hI hin answer with }
    · cases hstep
      exact hquiet _
  | done => cases hstep

theorem step (h : Keyed w) (hI : Inv w) (hH : Handover.Inv w) {event : Event ν κ π ρ}
    (hok : InTurn w event) (hstep : updateMachine.step w event = some w') : Keyed w' := by
  cases event with
  | submitCoordinatedUpdate name payload key =>
    cases hstep
    cases key with
    | none => exact h.addCall (fun htries => (by cases htries)) fun hsome => (by cases hsome)
    | some key => exact h.addCall (fun htries => (by cases htries)) fun _ => rfl
  | update name payload =>
    cases hstep
    exact h.addCall (fun _ => rfl) fun hsome => (by cases hsome)
  | call place ok updateId createdAt =>
    obtain ⟨c, hc, hcall⟩ := Option.bind_eq_some_iff.1 hstep
    exact h.callStep hI hH hc (hok.2 c hc) hcall
  | processWaitUpdateOperation name =>
    cases hstep
    exact { h with }
  | wait place ok =>
    obtain ⟨x, hx, hwait⟩ := Option.bind_eq_some_iff.1 hstep
    exact h.waitStep hI hx hwait
  | respond place value =>
    obtain ⟨x, hx, hrespond⟩ := Option.bind_eq_some_iff.1 hstep
    split at hrespond
    · cases hrespond
      exact { h with }
    · cases hrespond
  | drain =>
    cases hstep
    exact { h with }
  | drainStep place ok response =>
    obtain ⟨stage, hstage, hdrain⟩ := Option.bind_eq_some_iff.1 hstep
    exact h.drainStep hI hstage hdrain
  | cleanupExpiredResponses updateIds =>
    cases hstep
    exact h.cleanup updateIds

omit [DecidableEq ν] in
/-- What the steps of the requests have to find is so. -/
theorem fresh (h : Keyed w) (hH : Handover.Inv w) {event : Event ν κ π ρ} (hok : InTurn w event) :
    Fresh w event := by
  cases event with
  | call place ok updateId createdAt =>
    intro c hc
    constructor
    · rintro ⟨hcreates, -, hsome⟩
      exact h.looked c (List.mem_of_getElem? hc) hsome hcreates
    · intro id hreads existing hexisting
      have hcurrent := hok.2 c hc
      cases hstage : c.stage with
      | getResponse read =>
        rw [hstage] at hreads hcurrent
        obtain rfl := Option.some.inj hreads
        rw [Current, Option.mem_def.1 hexisting] at hcurrent
        exact Option.isNone_iff_eq_none.1 hcurrent
      | _ =>
        rw [hstage] at hreads
        cases hreads
  | wait place ok =>
    intro x hx r hr
    refine (hH.carried (.wait place) r ?_).2.1
    rw [Handover.Inv.carries_wait hx, Handover.waitCarries]
    unfold Wait.takes at hr
    split at hr
    · rename_i hstage
      rw [hstage]
      exact hr
    · rename_i hstage
      rw [hstage]
      exact hr
    · cases hr
  | drainStep place ok response =>
    intro htrue stage hstage r hr hnew htaken
    have hpending := hok.1 htrue stage hstage r hr hnew
    exact hnew (hH.delivered r hpending htaken)
  | submitCoordinatedUpdate _ _ _ | update _ _ | processWaitUpdateOperation _ | respond _ _ | drain
    | cleanupExpiredResponses _ => trivial

end Keyed

/-- In every run whose steps are in turn. -/
theorem key_run_once [DecidableEq ν] [DecidableEq κ] {run : List (Event ν κ π ρ)}
    (hok : updateMachine.EveryStep InTurn ({} : World ν κ π ρ) run) :
    updateMachine.EveryState RunOnce ({} : World ν κ π ρ) run := by
  have hinv : updateMachine.EveryState (fun w => Inv w ∧ Handover.Inv w ∧ Keyed w)
      ({} : World ν κ π ρ) run :=
    Machine.everyState_of_invariant
      (fun _ _ _ ⟨hI, hH, h⟩ hok' hstep =>
        ⟨hI.step (h.fresh hH hok') hstep, hH.step hok'.1 hstep, h.step hI hH hok' hstep⟩)
      ⟨Inv.initial, Handover.Inv.initial, Keyed.initial⟩ hok
  exact hinv.mono fun _ hI => hI.1.runOnce

/-- A call with a key times out and is repeated before the drain has answered it. -/
def repeatedAfterTimeout : List (Event Nat Nat Nat Nat) :=
  [.submitCoordinatedUpdate 0 5 (some 7), .call 0 true 0 0, .call 0 true 1 10, .call 0 true 0 0,
    .call 0 true 0 0, .call 0 false 0 0, .submitCoordinatedUpdate 0 5 (some 7), .call 1 true 0 0,
    .call 1 true 2 20, .call 1 true 0 0, .call 1 true 0 0, .drain,
    .drainStep 0 true ⟨none, none⟩, .drainStep 0 true ⟨none, none⟩,
    .drainStep 0 true ⟨some 1, none⟩, .drainStep 0 true ⟨none, none⟩,
    .drainStep 0 true ⟨none, none⟩, .drainStep 0 true ⟨some 2, none⟩]

/-- The handler runs for both requests. -/
theorem key_run_twice : ¬ updateMachine.EveryState RunOnce
    ({} : World Nat Nat Nat Nat) repeatedAfterTimeout := by
  intro h
  have honce := h.final.once 7
  revert honce
  decide

/-- The call is repeated after its answer, beside an update that a wait takes. -/
def repeatedAfterAnswer : List (Event Nat Nat Nat Nat) :=
  [.submitCoordinatedUpdate 0 5 (some 7), .call 0 true 0 0, .call 0 true 1 10, .drain,
    .drainStep 0 true ⟨none, none⟩, .drainStep 0 true ⟨none, none⟩,
    .drainStep 0 true ⟨some 1, none⟩, .drainStep 0 true ⟨none, none⟩, .call 0 true 0 0,
    .call 0 true 0 0, .call 0 true 0 0, .submitCoordinatedUpdate 0 5 (some 7), .call 1 true 0 0,
    .call 1 true 0 0, .processWaitUpdateOperation 3, .wait 0 true, .wait 0 true, .wait 0 true,
    .wait 0 true, .submitCoordinatedUpdate 3 5 (some 8), .call 2 true 0 0, .call 2 true 2 20,
    .call 2 true 0 0, .call 2 true 0 0, .call 2 true 0 0, .call 2 true 0 0, .call 2 true 0 0,
    .wait 0 true, .respond 0 (some 9),
    .wait 0 true, .call 2 true 0 0]

theorem repeated_run_once : updateMachine.EveryState RunOnce
    ({} : World Nat Nat Nat Nat) repeatedAfterAnswer :=
  key_run_once (by decide)

end Weft.Updates.Keys
