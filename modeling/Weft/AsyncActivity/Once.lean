import Weft.AsyncActivity.Model

/-! Which acknowledgements a token accepts. Where an activity that parks finds its step still the
workflow's current one and no acknowledgement of its token under way, each token accepts one
acknowledgement, and its outcome is the result of the token's own step. -/

namespace Weft.AsyncActivity
open Weft.Lib

universe u

variable {ρ : Type u}

/-- What the workflow has been fed, in memory or else in its checkpoint. -/
def World.results (w : World ρ) : List (Option (Resolution ρ)) :=
  (w.generator.map Generator.results).getD w.checkpoint

/-- The tokens that wait in memory: for an acknowledgement, for its commit or its delivery, for
their step, or for the checkpoint of their result. -/
def World.held (w : World ρ) : List Nat :=
  w.pendingAsyncActivityResolutions.map Resolution.token ++ (w.pendingAsyncActivities ++
    (w.calls.map Acknowledgement.token ++ w.staged))

/-- Each token accepts one acknowledgement at most; an outcome that is fed was accepted for the
token of that very step; and an accepted outcome is in the checkpoint or still stored for it, and
with the workflow once no activity and no acknowledgement is under way. -/
structure AcceptedOnce (w : World ρ) : Prop where
  once : (w.accepted.map Resolution.token).Nodup
  own : ∀ (i : Nat) (s : Resolution ρ), w.results[i]? = some (some s) →
    s.token = i ∧ s ∈ w.accepted
  kept : ∀ s ∈ w.accepted, w.checkpoint[s.token]? = some (some s) ∨ s ∈ w.resolutions
  settled : ∀ g, w.generator = some g → w.bodies = [] → w.calls = [] →
    ∀ s ∈ w.accepted, g.results[s.token]? = some (some s)

/-- An activity parks or ends at the workflow's current step with no acknowledgement of its token
under way, a token record is written before an acknowledgement of the token is committed, the
generator is not dropped between a result and its checkpoint, and records are recovered once in a
process, before the workflow is loaded. -/
def Orderly (w : World ρ) : Event ρ → Prop
  | .adopt => w.recovered = true
  | .release => ∀ g ∈ w.generator, g.due = false
  | .defer token => (∃ g ∈ w.generator, token = g.results.length) ∧
      ∀ call ∈ w.calls, call.token ≠ token
  | .register place ok => ok = true ∧ ∀ token ∈ w.registering[place]?,
      token ∈ w.pendingAsyncActivities ∨
        ∃ call ∈ w.calls, call.token = token ∧ call.committed = false
  | .finish token => (∃ g ∈ w.generator, token = g.results.length) ∧ token ∉ w.held
  | .recoverPendingAsyncActivities => w.recovered = false
  | _ => True

instance Orderly.decidable [DecidableEq ρ] (w : World ρ) (event : Event ρ) :
    Decidable (Orderly w event) := by
  cases event <;> simp only [Orderly] <;> infer_instance

/-- All that is held is the current step's token, at most once. -/
structure Inv (w : World ρ) : Prop where
  entries : ∀ (i : Nat) (s : Resolution ρ), w.checkpoint[i]? = some (some s) →
    s.token = i ∧ s ∈ w.accepted
  once : (w.accepted.map Resolution.token).Nodup
  kept : ∀ s ∈ w.accepted, w.checkpoint[s.token]? = some (some s) ∨ s ∈ w.resolutions
  resolutions : ∀ s ∈ w.resolutions, s ∈ w.accepted ∧ s.token = w.checkpoint.length
  stored : w.resolutions.length ≤ 1
  held : ∀ token ∈ w.held, token = w.checkpoint.length
  single : w.held.length ≤ 1
  unaccepted : ∀ token, token ∈ w.pendingAsyncActivities ∨ token ∈ w.records ∨
    (∃ call ∈ w.calls, call.token = token ∧ call.committed = false) →
    token = w.checkpoint.length ∧ token ∉ w.accepted.map Resolution.token
  records : w.records.length ≤ 1
  recorded : w.recovered = true → ∀ token ∈ w.records, token ∈ w.held
  queued : ∀ s ∈ w.pendingAsyncActivityResolutions, s ∈ w.resolutions
  committed : ∀ call ∈ w.calls, call.committed = true → call.resolution ∈ w.resolutions
  located : w.recovered = true → ∀ s ∈ w.resolutions, s.token ∈ w.held
  generator : ∀ g, w.generator = some g →
    (g.due = false ∧ g.results = w.checkpoint ∧ w.staged = []) ∨
    (g.due = true ∧ g.results = w.checkpoint ++ [none] ∧ w.held = []) ∨
    (g.due = true ∧ ∃ s ∈ w.resolutions, g.results = w.checkpoint ++ [some s] ∧
      w.staged = [s.token])
  dropped : w.generator = none → w.staged = []
  waiting : ∀ g, w.generator = some g → g.due = false → w.checkpoint.length ∈ w.bodies ∨
    w.checkpoint.length ∈ w.pendingAsyncActivities ∨
    w.checkpoint.length ∈ w.calls.map Acknowledgement.token
  bodies : ∀ token ∈ w.bodies, token ≤ w.checkpoint.length
  unrecovered : w.recovered = false → w.held = [] ∧ w.generator = none

namespace Inv

variable {w : World ρ}

theorem held_nil (h : Inv w) (hnone : w.checkpoint.length ∉ w.held) : w.held = [] := by
  apply List.eq_nil_iff_forall_not_mem.2
  intro token htoken
  rw [h.held token htoken] at htoken
  exact hnone htoken

theorem not_accepted (h : Inv w) (hrecovered : w.recovered = true)
    (hnone : w.checkpoint.length ∉ w.held) :
    w.checkpoint.length ∉ w.accepted.map Resolution.token := by
  intro hmem
  obtain ⟨s, hs, htoken⟩ := List.mem_map.1 hmem
  obtain hin | hin := h.kept s hs
  · rw [htoken, List.getElem?_length] at hin
    cases hin
  · apply hnone
    rw [← htoken]
    exact h.located hrecovered s hin

variable {g : Generator ρ}

theorem recovered_of_generator (h : Inv w) (hg : w.generator = some g) : w.recovered = true := by
  cases hr : w.recovered with
  | true => rfl
  | false =>
    rw [(h.unrecovered hr).2] at hg
    cases hg

theorem resolutions_nil (h : Inv w)
    (hnone : w.checkpoint.length ∉ w.accepted.map Resolution.token) : w.resolutions = [] := by
  apply List.eq_nil_iff_forall_not_mem.2
  intro s hs
  obtain ⟨haccepted, htoken⟩ := h.resolutions s hs
  apply hnone
  rw [← htoken]
  exact List.mem_map_of_mem haccepted

theorem records_nil (h : Inv w)
    (hsome : w.checkpoint.length ∈ w.accepted.map Resolution.token) : w.records = [] := by
  apply List.eq_nil_iff_forall_not_mem.2
  intro token htoken
  obtain ⟨heq, hnone⟩ := h.unaccepted token (.inr (.inl htoken))
  rw [heq] at hnone
  exact hnone hsome

theorem acceptedOnce (h : Inv w) : AcceptedOnce w where
  once := h.once
  own := by
    intro i s hi
    cases hg : w.generator with
    | none =>
      rw [World.results, hg] at hi
      exact h.entries i s hi
    | some g =>
      rw [World.results, hg] at hi
      change g.results[i]? = _ at hi
      obtain ⟨-, hres, -⟩ | ⟨-, hres, -⟩ | ⟨-, r, hr, hres, -⟩ := h.generator g hg
      · rw [hres] at hi
        exact h.entries i s hi
      · rw [hres, List.getElem?_append] at hi
        split at hi
        · exact h.entries i s hi
        · rw [List.getElem?_singleton] at hi
          split at hi <;> simp at hi
      · rw [hres, List.getElem?_append] at hi
        split at hi
        · exact h.entries i s hi
        · rename_i hlt
          rw [List.getElem?_singleton] at hi
          split at hi
          · rename_i hzero
            simp only [Option.some.injEq] at hi
            obtain rfl := hi
            obtain ⟨haccepted, htoken⟩ := h.resolutions r hr
            exact ⟨by omega, haccepted⟩
          · cases hi
  kept := h.kept
  settled := by
    intro g hg hbodies hcalls s hs
    have hin : w.checkpoint[s.token]? = some (some s) → ∀ e,
        (w.checkpoint ++ [e])[s.token]? = some (some s) := by
      intro hc e
      obtain ⟨hlt, -⟩ := List.getElem?_eq_some_iff.1 hc
      rw [List.getElem?_append_left hlt]
      exact hc
    have hrec := h.recovered_of_generator hg
    obtain ⟨hdue, hres, hstaged⟩ | ⟨-, hres, hheld⟩ | ⟨-, r, hr, hres, -⟩ := h.generator g hg
    · rw [hres]
      obtain hc | hc := h.kept s hs
      · exact hc
      · -- the resolution would be queued beside the token that the parked step waits with
        exfalso
        have hpending : w.checkpoint.length ∈ w.pendingAsyncActivities := by
          simpa [hbodies, hcalls] using h.waiting g hg hdue
        exact (h.unaccepted _ (.inl hpending)).2
          (by rw [← (h.resolutions s hc).2]; exact List.mem_map_of_mem hs)
    · rw [hres]
      obtain hc | hc := h.kept s hs
      · exact hin hc _
      · have := h.located hrec s hc
        rw [hheld] at this
        cases this
    · rw [hres]
      obtain hc | hc := h.kept s hs
      · exact hin hc _
      · have hone : s = r := by
          have hlen := h.stored
          obtain ⟨x, hx⟩ := List.length_eq_one_iff.1
            (Nat.le_antisymm hlen (List.length_pos_of_mem hr))
          rw [hx, List.mem_singleton] at hc hr
          rw [hc, hr]
        rw [hone, (h.resolutions r hr).2, List.getElem?_concat_length]

variable {w' : World ρ}

/-- A token goes from one place in memory to another. -/
theorem move (h : Inv w) (hcheckpoint : w'.checkpoint = w.checkpoint)
    (haccepted : w'.accepted = w.accepted) (hresolutions : w'.resolutions = w.resolutions)
    (hrecords : w'.records = w.records) (hrecovered : w'.recovered = w.recovered)
    (hgenerator : w'.generator = w.generator) (hbodies : w'.bodies = w.bodies)
    (hstaged : w'.staged = w.staged) (hheld : w'.held.Perm w.held)
    (hopen : ∀ token, token ∈ w'.pendingAsyncActivities ∨ (∃ call ∈ w'.calls, call.token = token ∧
      call.committed = false) → token ∈ w.pendingAsyncActivities ∨ ∃ call ∈ w.calls,
      call.token = token ∧ call.committed = false)
    (hqueued : ∀ s ∈ w'.pendingAsyncActivityResolutions, s ∈ w.resolutions)
    (hcommitted : ∀ call ∈ w'.calls, call.committed = true → call.resolution ∈ w.resolutions)
    (hwaiting : w.generator ≠ none → ∀ token, token ∈ w.pendingAsyncActivities ∨
      token ∈ w.calls.map Acknowledgement.token →
      token ∈ w'.pendingAsyncActivities ∨ token ∈ w'.calls.map Acknowledgement.token) :
    Inv w' where
  entries := by rw [hcheckpoint, haccepted]; exact h.entries
  once := by rw [haccepted]; exact h.once
  kept := by rw [hcheckpoint, haccepted, hresolutions]; exact h.kept
  resolutions := by rw [hcheckpoint, haccepted, hresolutions]; exact h.resolutions
  stored := by rw [hresolutions]; exact h.stored
  held := by
    intro token htoken
    rw [hcheckpoint]
    exact h.held token (hheld.subset htoken)
  single := by rw [hheld.length_eq]; exact h.single
  unaccepted := by
    intro token htoken
    rw [hcheckpoint, haccepted]
    apply h.unaccepted token
    obtain hin | hin | hin := htoken
    · exact (hopen token (.inl hin)).imp_right .inr
    · rw [hrecords] at hin
      exact .inr (.inl hin)
    · exact (hopen token (.inr hin)).imp_right .inr
  records := by rw [hrecords]; exact h.records
  recorded := by
    rw [hrecovered, hrecords]
    exact fun hr token htoken => hheld.symm.subset (h.recorded hr token htoken)
  queued := by rw [hresolutions]; exact hqueued
  committed := by rw [hresolutions]; exact hcommitted
  located := by
    rw [hrecovered, hresolutions]
    exact fun hr s hs => hheld.symm.subset (h.located hr s hs)
  generator := by
    intro g hg
    rw [hgenerator] at hg
    rw [hcheckpoint, hresolutions, hstaged]
    obtain hcase | ⟨hdue, hres, hnil⟩ | hcase := h.generator g hg
    · exact .inl hcase
    · refine .inr (.inl ⟨hdue, hres, ?_⟩)
      rw [hnil] at hheld
      exact hheld.eq_nil
    · exact .inr (.inr hcase)
  dropped := by rw [hgenerator, hstaged]; exact h.dropped
  waiting := by
    intro g hg hdue
    rw [hgenerator] at hg
    rw [hcheckpoint, hbodies]
    have hsome : w.generator ≠ none := by rw [hg]; exact Option.some_ne_none g
    exact (h.waiting g hg hdue).imp_right (hwaiting hsome _)
  bodies := by rw [hbodies, hcheckpoint]; exact h.bodies
  unrecovered := by
    intro hr
    rw [hrecovered] at hr
    obtain ⟨hnil, hnone⟩ := h.unrecovered hr
    rw [hnil] at hheld
    rw [hgenerator]
    exact ⟨hheld.eq_nil, hnone⟩

/-- The outcome of the current step is fed to the generator. -/
theorem deliver (h : Inv w) {r : Resolution ρ} (hr : r ∈ w.resolutions)
    (hcheckpoint : w'.checkpoint = w.checkpoint) (haccepted : w'.accepted = w.accepted)
    (hresolutions : w'.resolutions = w.resolutions) (hrecords : w'.records = w.records)
    (hrecovered : w'.recovered = true)
    (hgenerator : w'.generator = some ⟨w.checkpoint ++ [some r], true⟩)
    (hbodies : ∀ token ∈ w'.bodies, token ∈ w.bodies) (hstaged : w'.staged = [r.token])
    (hqueued : w'.pendingAsyncActivityResolutions = [])
    (hpending : w'.pendingAsyncActivities = []) (hcalls : w'.calls = []) : Inv w' := by
  obtain ⟨hmem, htoken⟩ := h.resolutions r hr
  have hheld : w'.held = [r.token] := by
    simp [World.held, hqueued, hpending, hcalls, hstaged]
  have hcurrent : w.checkpoint.length ∈ w.accepted.map Resolution.token := by
    rw [← htoken]
    exact List.mem_map_of_mem hmem
  have hnil := h.records_nil hcurrent
  exact
    { entries := by rw [hcheckpoint, haccepted]; exact h.entries
      once := by rw [haccepted]; exact h.once
      kept := by rw [hcheckpoint, haccepted, hresolutions]; exact h.kept
      resolutions := by rw [hcheckpoint, haccepted, hresolutions]; exact h.resolutions
      stored := by rw [hresolutions]; exact h.stored
      held := by
        intro token hin
        rw [hheld, List.mem_singleton] at hin
        rw [hin, hcheckpoint, htoken]
      single := by rw [hheld]; exact Nat.le_refl 1
      unaccepted := by
        intro token hin
        simp [hpending, hrecords, hnil, hcalls] at hin
      records := by rw [hrecords]; exact h.records
      recorded := by
        intro _ token hin
        rw [hrecords, hnil] at hin
        cases hin
      queued := by
        intro s hs
        rw [hqueued] at hs
        cases hs
      committed := by
        intro call hcall
        rw [hcalls] at hcall
        cases hcall
      located := by
        intro _ s hs
        rw [hresolutions] at hs
        rw [hheld, (h.resolutions s hs).2, htoken]
        exact List.mem_singleton_self _
      generator := by
        intro g hg
        rw [hgenerator, Option.some.injEq] at hg
        subst hg
        rw [hcheckpoint, hresolutions, hstaged]
        exact .inr (.inr ⟨rfl, r, hr, rfl, rfl⟩)
      dropped := by
        intro hnone
        rw [hgenerator] at hnone
        cases hnone
      waiting := by
        intro g hg hdue
        rw [hgenerator, Option.some.injEq] at hg
        subst hg
        cases hdue
      bodies := by
        intro token hin
        rw [hcheckpoint]
        exact h.bodies token (hbodies token hin)
      unrecovered := by
        intro hfalse
        rw [hrecovered] at hfalse
        cases hfalse }

variable {place : Nat} {call : Acknowledgement ρ}

/-- Where a call is under way, nothing else is held. -/
theorem held_of_call (h : Inv w) (hcall : w.calls[place]? = some call) :
    w.pendingAsyncActivityResolutions = [] ∧ w.pendingAsyncActivities = [] ∧ w.calls = [call] ∧
      place = 0 ∧ w.staged = [] := by
  obtain ⟨hlt, hget⟩ := List.getElem?_eq_some_iff.1 hcall
  have hsingle := h.single
  simp only [World.held, List.length_append, List.length_map] at hsingle
  refine ⟨List.length_eq_zero_iff.1 (by omega), List.length_eq_zero_iff.1 (by omega), ?_,
    by omega, List.length_eq_zero_iff.1 (by omega)⟩
  obtain ⟨x, hx⟩ := List.length_eq_one_iff.1 (show w.calls.length = 1 by omega)
  obtain rfl : place = 0 := by omega
  rw [hx, List.getElem?_cons_zero, Option.some.injEq] at hcall
  rw [hx, hcall]

variable {token : Nat}

section

variable (h : Inv w)

include h

/-- Where a token is pending, nothing else is held. -/
theorem held_of_pending (htoken : token ∈ w.pendingAsyncActivities) :
    w.pendingAsyncActivityResolutions = [] ∧ w.pendingAsyncActivities = [token] ∧ w.calls = [] ∧
      w.staged = [] := by
  have hsingle := h.single
  have hpos := List.length_pos_of_mem htoken
  simp only [World.held, List.length_append, List.length_map] at hsingle
  refine ⟨List.length_eq_zero_iff.1 (by omega), ?_, List.length_eq_zero_iff.1 (by omega),
    List.length_eq_zero_iff.1 (by omega)⟩
  obtain ⟨x, hx⟩ := List.length_eq_one_iff.1 (show w.pendingAsyncActivities.length = 1 by omega)
  rw [hx, List.mem_singleton] at htoken
  rw [hx, htoken]

theorem acknowledge (token : Nat) (outcome : OperationOutcome ρ) :
    Inv (consumePendingAsyncActivity w token outcome) := by
  rw [consumePendingAsyncActivity]
  split
  · rename_i htoken
    obtain ⟨-, hpending, hcalls, -⟩ := h.held_of_pending htoken
    refine h.move rfl rfl rfl rfl rfl rfl rfl rfl ?_ ?_ h.queued ?_ ?_
    · simp [World.held, hpending, hcalls]
    · rintro t (hin | ⟨call, hcall, heq, -⟩)
      · exact .inl (List.mem_of_mem_erase hin)
      · simp only [hcalls, List.nil_append, List.mem_singleton] at hcall
        subst hcall
        subst heq
        exact .inl htoken
    · intro call hcall hdone
      simp only [hcalls, List.nil_append, List.mem_singleton] at hcall
      subst hcall
      cases hdone
    · rintro - t (hin | hin)
      · right
        rw [hpending, List.mem_singleton] at hin
        simp [hin]
      · rw [hcalls] at hin
        cases hin
  · exact h

section

variable (hcall : w.calls[place]? = some call)

include hcall

theorem restoreClaim (hfree : call.committed = false) : Inv (restoreClaim w place call) := by
  obtain ⟨hqueued, hpending, hcalls, rfl, hstaged⟩ := h.held_of_call hcall
  refine h.move rfl rfl rfl rfl rfl rfl rfl rfl ?_ ?_ h.queued ?_ ?_
  · simp [World.held, AsyncActivity.restoreClaim, hcalls, hpending]
  · rintro t (hin | ⟨other, hother, -⟩)
    · simp only [AsyncActivity.restoreClaim, hpending, List.insert_nil, List.mem_singleton] at hin
      right
      exact ⟨call, by simp [hcalls], hin.symm, hfree⟩
    · simp [AsyncActivity.restoreClaim, hcalls] at hother
  · intro other hother
    simp [AsyncActivity.restoreClaim, hcalls] at hother
  · rintro - t (hin | hin)
    · rw [hpending] at hin
      cases hin
    · left
      simp only [hcalls, List.map_cons, List.map_nil, List.mem_singleton] at hin
      simp [AsyncActivity.restoreClaim, hin]

theorem commitAcknowledgement (hfree : call.committed = false) :
    Inv (commitAcknowledgement w place call) := by
  obtain ⟨hqueued, hpending, hcalls, rfl, hstaged⟩ := h.held_of_call hcall
  obtain ⟨htoken, hnew⟩ := h.unaccepted call.token
    (.inr (.inr ⟨call, by simp [hcalls], rfl, hfree⟩))
  have hnil : w.resolutions = [] := h.resolutions_nil (htoken ▸ hnew)
  have hrecords : (AsyncActivity.commitAcknowledgement w 0 call).records = [] := by
    show w.records.filter (· ≠ call.token) = []
    apply List.filter_eq_nil_iff.2
    intro token hin
    simp [(h.unaccepted token (.inr (.inl hin))).1, htoken]
  have hheld : (AsyncActivity.commitAcknowledgement w 0 call).held = [call.token] := by
    simp [World.held, AsyncActivity.commitAcknowledgement, hqueued, hpending, hcalls, hstaged]
  have hgen : ∀ g, w.generator = some g → g.due = false ∧ g.results = w.checkpoint := by
    intro g hg
    obtain ⟨hdue, hres, -⟩ | ⟨-, -, hheld⟩ | ⟨-, s, -, -, hs⟩ := h.generator g hg
    · exact ⟨hdue, hres⟩
    · simp [World.held, hcalls] at hheld
    · rw [hstaged] at hs
      cases hs
  exact
    { entries := by
        intro i s hi
        obtain ⟨heq, hin⟩ := h.entries i s hi
        exact ⟨heq, List.mem_append_left _ hin⟩
      once := by
        show ((w.accepted ++ [call.resolution]).map Resolution.token).Nodup
        rw [List.map_append, List.nodup_append]
        refine ⟨h.once, List.nodup_singleton _, ?_⟩
        rintro a ha b hb rfl
        rw [List.map_singleton, List.mem_singleton] at hb
        rw [hb] at ha
        exact hnew ha
      kept := by
        intro s hs
        obtain hold | hone := List.mem_append.1 hs
        · refine (h.kept s hold).imp_right fun hin => ?_
          rw [hnil] at hin
          cases hin
        · right
          exact List.mem_append_right _ hone
      resolutions := by
        intro s hs
        simp only [AsyncActivity.commitAcknowledgement, hnil, List.filter_nil, List.nil_append,
          List.mem_singleton] at hs
        subst hs
        exact ⟨List.mem_append_right _ (List.mem_singleton_self _), htoken⟩
      stored := by simp [AsyncActivity.commitAcknowledgement, hnil]
      held := by
        intro token hin
        rw [hheld, List.mem_singleton] at hin
        rw [hin]
        exact htoken
      single := by rw [hheld]; exact Nat.le_refl 1
      unaccepted := by
        intro token hin
        rw [hrecords] at hin
        simp [AsyncActivity.commitAcknowledgement, hpending, hcalls] at hin
      records := by rw [hrecords]; exact Nat.zero_le 1
      recorded := by
        intro _ token hin
        rw [hrecords] at hin
        cases hin
      queued := by
        intro s hs
        simp [AsyncActivity.commitAcknowledgement, hqueued] at hs
      committed := by
        intro other hother _
        simp only [AsyncActivity.commitAcknowledgement, hcalls, List.set_cons_zero,
          List.mem_singleton] at hother
        subst hother
        exact List.mem_append_right _ (List.mem_singleton_self _)
      located := by
        intro _ s hs
        simp only [AsyncActivity.commitAcknowledgement, hnil, List.filter_nil, List.nil_append,
          List.mem_singleton] at hs
        subst hs
        rw [hheld]
        exact List.mem_singleton_self _
      generator := by
        intro g hg
        obtain ⟨hdue, hres⟩ := hgen g hg
        exact .inl ⟨hdue, hres, hstaged⟩
      dropped := h.dropped
      waiting := by
        intro g _ _
        right; right
        simp [AsyncActivity.commitAcknowledgement, hcalls, htoken]
      bodies := h.bodies
      unrecovered := by
        intro hr
        have hnone := (h.unrecovered hr).1
        simp [World.held, hcalls] at hnone }

theorem resolve (hdone : call.committed = true) :
    Inv (resolvePendingAsyncActivity w place call) := by
  obtain ⟨hqueued, hpending, hcalls, rfl, hstaged⟩ := h.held_of_call hcall
  have hin : call.resolution ∈ w.resolutions :=
    h.committed call (by simp [hcalls]) hdone
  cases hg : w.generator with
  | none =>
    have heq : resolvePendingAsyncActivity w 0 call =
        { w with
          calls := []
          pendingAsyncActivityResolutions := [call.resolution] } := by
      simp [resolvePendingAsyncActivity, hg, hcalls, hqueued]
    rw [heq]
    refine h.move rfl rfl rfl rfl rfl rfl rfl rfl ?_ ?_ ?_ ?_ ?_
    · simp [World.held, hqueued, hpending, hcalls, hstaged, Acknowledgement.resolution]
    · rintro t (hmem | ⟨other, hother, -⟩)
      · exact .inl hmem
      · cases hother
    · intro s hs
      rw [List.mem_singleton] at hs
      rw [hs]
      exact hin
    · intro other hother
      cases hother
    · intro hsome
      exact absurd hg hsome
  | some g =>
    have hrec := h.recovered_of_generator hg
    have hres : g.results = w.checkpoint := by
      obtain ⟨-, hres, -⟩ | ⟨-, -, hheld⟩ | ⟨-, s, -, -, hs⟩ := h.generator g hg
      · exact hres
      · simp [World.held, hcalls] at hheld
      · rw [hstaged] at hs
        cases hs
    have heq : resolvePendingAsyncActivity w 0 call =
        { w with
          calls := []
          staged := [call.resolution.token]
          generator := some ⟨w.checkpoint ++ [some call.resolution], true⟩ } := by
      simp [resolvePendingAsyncActivity, deliverPendingAsyncActivityResolution,
        feedOperationResult, hg, hcalls, hstaged, hres]
    rw [heq]
    exact h.deliver hin rfl rfl rfl rfl hrec rfl (fun _ hb => hb) rfl hqueued hpending rfl

end

/-- A parked step is put into memory, and its record is being written. -/
theorem register (hg : w.generator = some g) (hbody : token ∈ w.bodies)
    (htoken : token = g.results.length) (hcalls : ∀ call ∈ w.calls, call.token ≠ token)
    (hqueued : ∀ s ∈ w.pendingAsyncActivityResolutions, s.token ≠ token) : Inv { w with
      bodies := w.bodies.erase token
      pendingAsyncActivities := w.pendingAsyncActivities.insert token
      registering := w.registering ++ [token] } := by
  have hrec := h.recovered_of_generator hg
  have hle := h.bodies token hbody
  obtain ⟨hres, hstaged⟩ : g.results = w.checkpoint ∧ w.staged = [] := by
    obtain ⟨-, hres, hstaged⟩ | ⟨-, hres, -⟩ | ⟨-, s, -, hres, -⟩ := h.generator g hg
    · exact ⟨hres, hstaged⟩
    all_goals
      rw [htoken, hres, List.length_append] at hle
      simp at hle
  rw [hres] at htoken
  by_cases hmem : token ∈ w.pendingAsyncActivities
  · rw [List.insert_of_mem hmem]
    refine
      { h with
        held := h.held
        single := h.single
        recorded := h.recorded
        located := h.located
        generator := h.generator
        waiting := ?_
        bodies := fun t ht => h.bodies t (List.mem_of_mem_erase ht)
        unrecovered := h.unrecovered }
    intro g' _ _
    right; left
    rw [← htoken]
    exact hmem
  · have hnone : w.checkpoint.length ∉ w.held := by
      rw [← htoken]
      simp only [World.held, hstaged, List.mem_append, List.mem_map, List.not_mem_nil, or_false]
      rintro (⟨s, hs, heq⟩ | hin | ⟨call, hcall, heq⟩)
      · exact hqueued s hs heq
      · exact hmem hin
      · exact hcalls call hcall heq
    have hnil := h.held_nil hnone
    have hnew := h.not_accepted hrec hnone
    simp only [World.held, List.append_eq_nil_iff, List.map_eq_nil_iff] at hnil
    obtain ⟨hq, hp, hc, -⟩ := hnil
    have hheld : World.held { w with
        bodies := w.bodies.erase token
        pendingAsyncActivities := w.pendingAsyncActivities.insert token
        registering := w.registering ++ [token] } = [token] := by
      simp [World.held, hq, hp, hc, hstaged]
    exact { h with
      held := by
        intro t ht
        rw [hheld, List.mem_singleton] at ht
        rw [ht]
        exact htoken
      single := by rw [hheld]; exact Nat.le_refl 1
      unaccepted := by
        rintro t (hin | hin)
        · simp only [hp, List.insert_nil, List.mem_singleton] at hin
          rw [hin, htoken]
          exact ⟨rfl, hnew⟩
        · exact h.unaccepted t (.inr hin)
      recorded := by
        intro _ t ht
        rw [hheld, (h.unaccepted t (.inr (.inl ht))).1, htoken]
        exact List.mem_singleton_self _
      located := by
        intro _ s hs
        rw [hheld, (h.resolutions s hs).2, htoken]
        exact List.mem_singleton_self _
      generator := by
        intro g' hg'
        rw [show w.generator = some g' from hg', Option.some.injEq] at hg
        subst hg
        refine .inl ⟨?_, hres, hstaged⟩
        obtain ⟨hdue, -⟩ | ⟨-, hlong, -⟩ | ⟨-, s, -, hlong, -⟩ := h.generator g' hg'
        · exact hdue
        all_goals
          rw [hres] at hlong
          exact absurd hlong.symm (by simp)
      waiting := by
        intro _ _ _
        right; left
        rw [← htoken]
        exact List.mem_insert_self
      bodies := fun t ht => h.bodies t (List.mem_of_mem_erase ht)
      unrecovered := by
        intro hr
        rw [show w.recovered = false from hr] at hrec
        cases hrec }

/-- A parking activity finds its outcome queued. -/
theorem takeQueued (hg : w.generator = some g) {r : Resolution ρ}
    (hr : r ∈ w.pendingAsyncActivityResolutions) (bodies : List Nat)
    (hbodies : ∀ token ∈ bodies, token ∈ w.bodies) : Inv (deliverPendingAsyncActivityResolution
      { w with
        bodies := bodies
        pendingAsyncActivityResolutions :=
          w.pendingAsyncActivityResolutions.eraseP (·.token = r.token) } r) := by
  have hsingle := h.single
  have hpos := List.length_pos_of_mem hr
  simp only [World.held, List.length_append, List.length_map] at hsingle
  have hpending : w.pendingAsyncActivities = [] := List.length_eq_zero_iff.1 (by omega)
  have hcalls : w.calls = [] := List.length_eq_zero_iff.1 (by omega)
  have hstaged : w.staged = [] := List.length_eq_zero_iff.1 (by omega)
  obtain ⟨x, hx⟩ :=
    List.length_eq_one_iff.1 (show w.pendingAsyncActivityResolutions.length = 1 by omega)
  obtain rfl : r = x := by
    rw [hx, List.mem_singleton] at hr
    exact hr
  have hres : g.results = w.checkpoint := by
    obtain ⟨-, hres, -⟩ | ⟨-, -, hheld⟩ | ⟨-, s, -, -, hs⟩ := h.generator g hg
    · exact hres
    · simp [World.held, hx] at hheld
    · rw [hstaged] at hs
      cases hs
  have heq : deliverPendingAsyncActivityResolution
      { w with
        bodies := bodies
        pendingAsyncActivityResolutions :=
          w.pendingAsyncActivityResolutions.eraseP (·.token = r.token) } r =
      { w with
        bodies := bodies
        pendingAsyncActivityResolutions := []
        staged := [r.token]
        generator := some ⟨w.checkpoint ++ [some r], true⟩ } := by
    simp [deliverPendingAsyncActivityResolution, feedOperationResult, hg, hx, hstaged, hres]
  rw [heq]
  exact h.deliver (h.queued r hr) rfl rfl rfl rfl (h.recovered_of_generator hg) rfl hbodies rfl rfl
    hpending hcalls

theorem defer (hbody : token ∈ w.bodies) (hok : Orderly w (.defer token)) :
    Inv (parkDeferredAsyncActivity { w with bodies := w.bodies.erase token } token) := by
  obtain ⟨⟨g, hg, htoken⟩, hcalls⟩ := hok
  rw [parkDeferredAsyncActivity]
  split
  · rename_i r hfind
    have hin := List.mem_of_find?_eq_some hfind
    have heq : r.token = token := by simpa using List.find?_some hfind
    subst heq
    exact h.takeQueued hg hin _ fun t ht => List.mem_of_mem_erase ht
  · rename_i hfind
    refine h.register hg hbody htoken hcalls ?_
    intro s hs
    simpa using List.find?_eq_none.1 hfind s hs

theorem recordWritten
    (hopen : token ∈ w.pendingAsyncActivities ∨ ∃ call ∈ w.calls, call.token = token ∧
      call.committed = false) :
    Inv { w with
      registering := w.registering.eraseIdx place
      records := w.records.insert token } := by
  have hheld : token ∈ w.held := by
    simp only [World.held, List.mem_append, List.mem_map]
    obtain hin | ⟨call, hcall, heq, -⟩ := hopen
    · exact .inr (.inl hin)
    · exact .inr (.inr (.inl ⟨call, hcall, heq⟩))
  obtain ⟨htoken, hnew⟩ := h.unaccepted token (hopen.imp_right .inr)
  exact { h with
    held := h.held
    single := h.single
    unaccepted := by
      rintro t (hin | hin | hin)
      · exact h.unaccepted t (.inl hin)
      · obtain rfl | hold := List.mem_insert_iff.1 hin
        · exact ⟨htoken, hnew⟩
        · exact h.unaccepted t (.inr (.inl hold))
      · exact h.unaccepted t (.inr (.inr hin))
    records := by
      by_cases hmem : token ∈ w.records
      · rw [List.insert_of_mem hmem]
        exact h.records
      · have hnil : w.records = [] := by
          apply List.eq_nil_iff_forall_not_mem.2
          intro t ht
          apply hmem
          rw [htoken, ← (h.unaccepted t (.inr (.inl ht))).1]
          exact ht
        rw [hnil]
        exact Nat.le_refl 1
    recorded := by
      intro hr t ht
      obtain rfl | hold := List.mem_insert_iff.1 ht
      · exact hheld
      · exact h.recorded hr t hold
    located := h.located
    generator := h.generator
    waiting := h.waiting
    unrecovered := h.unrecovered }

theorem finish (hok : Orderly w (.finish token)) (hbody : token ∈ w.bodies) :
    Inv (feedOperationResult { w with bodies := w.bodies.erase token } none) := by
  obtain ⟨⟨g, hg, htoken⟩, hnone⟩ := hok
  have hg' : w.generator = some g := hg
  have hle := h.bodies token hbody
  obtain ⟨hres, hstaged⟩ : g.results = w.checkpoint ∧ w.staged = [] := by
    obtain ⟨-, hres, hstaged⟩ | ⟨-, hres, -⟩ | ⟨-, s, -, hres, -⟩ := h.generator g hg
    · exact ⟨hres, hstaged⟩
    all_goals
      rw [htoken, hres, List.length_append] at hle
      simp at hle
  rw [htoken, hres] at hnone
  have heq : feedOperationResult { w with bodies := w.bodies.erase token } none =
      { w with
        bodies := w.bodies.erase token
        generator := some ⟨w.checkpoint ++ [none], true⟩ } := by
    simp [feedOperationResult, hg', hres]
  rw [heq]
  exact { h with
    held := h.held
    single := h.single
    recorded := h.recorded
    located := h.located
    generator := by
      intro g' hnew
      rw [Option.some.injEq] at hnew
      subst hnew
      exact .inr (.inl ⟨rfl, rfl, h.held_nil hnone⟩)
    dropped := by
      intro hnew
      cases hnew
    waiting := by
      intro g' hnew hdue
      rw [Option.some.injEq] at hnew
      subst hnew
      cases hdue
    bodies := fun t ht => h.bodies t (List.mem_of_mem_erase ht)
    unrecovered := by
      intro hr
      rw [(h.unrecovered hr).2] at hg'
      cases hg' }

theorem adopt (hg : w.generator = none) (hok : w.recovered = true) : Inv { w with
      generator := some ⟨w.checkpoint, false⟩
      bodies := w.bodies ++ [w.checkpoint.length] } where
  entries := h.entries
  once := h.once
  kept := h.kept
  resolutions := h.resolutions
  stored := h.stored
  held := h.held
  single := h.single
  unaccepted := h.unaccepted
  records := h.records
  recorded := h.recorded
  queued := h.queued
  committed := h.committed
  located := h.located
  generator := by
    intro g hnew
    rw [Option.some.injEq] at hnew
    subst hnew
    exact .inl ⟨rfl, rfl, h.dropped hg⟩
  dropped := by
    intro hnew
    cases hnew
  waiting := by
    intro g _ _
    left
    exact List.mem_append_right _ (List.mem_singleton_self _)
  bodies := by
    intro token htoken
    obtain hold | hnew := List.mem_append.1 htoken
    · exact h.bodies token hold
    · rw [List.mem_singleton] at hnew
      exact Nat.le_of_eq hnew
  unrecovered := by
    intro hr
    rw [show w.recovered = false from hr] at hok
    cases hok

theorem release (hok : ∀ g ∈ w.generator, g.due = false) :
    Inv { w with generator := none } := { h with
  held := h.held
  single := h.single
  recorded := h.recorded
  located := h.located
  generator := fun g hnew => (by cases hnew)
  dropped := by
    intro _
    cases hg : w.generator with
    | none => exact h.dropped hg
    | some g =>
      have hdue := hok g hg
      obtain ⟨-, -, hstaged⟩ | ⟨hdue', -⟩ | ⟨hdue', -⟩ := h.generator g hg
      · exact hstaged
      all_goals
        rw [hdue] at hdue'
        cases hdue'
  waiting := fun g hnew => (by cases hnew)
  unrecovered := fun hr => ⟨(h.unrecovered hr).1, rfl⟩ }

theorem crash : Inv w.restarted where
  entries := h.entries
  once := h.once
  kept := h.kept
  resolutions := h.resolutions
  stored := h.stored
  held := fun token htoken => (by cases htoken)
  single := Nat.zero_le 1
  unaccepted := by
    rintro token (hin | hin | ⟨call, hcall, -⟩)
    · cases hin
    · exact h.unaccepted token (.inr (.inl hin))
    · cases hcall
  records := h.records
  recorded := fun hr => (by cases hr)
  queued := fun s hs => (by cases hs)
  committed := fun call hcall => (by cases hcall)
  located := fun hr => (by cases hr)
  generator := fun g hg => (by cases hg)
  dropped := fun _ => rfl
  waiting := fun g hg => (by cases hg)
  bodies := fun token htoken => (by cases htoken)
  unrecovered := fun _ => ⟨rfl, rfl⟩

theorem recoverPendingAsyncActivities (hok : w.recovered = false) :
    Inv (recoverPendingAsyncActivities w) := by
  obtain ⟨hnil, hg⟩ := h.unrecovered hok
  simp only [World.held, List.append_eq_nil_iff, List.map_eq_nil_iff] at hnil
  obtain ⟨hq, hp, hc, hstaged⟩ := hnil
  have hpending : w.records.foldl (fun pending token => pending.insert token)
      w.pendingAsyncActivities = w.records := by
    rw [hp]
    obtain hzero | hone := Nat.le_one_iff_eq_zero_or_eq_one.1 h.records
    · rw [List.length_eq_zero_iff.1 hzero, List.foldl_nil]
    · obtain ⟨token, htoken⟩ := List.length_eq_one_iff.1 hone
      rw [htoken, List.foldl_cons, List.foldl_nil, List.insert_nil]
  have heq : AsyncActivity.recoverPendingAsyncActivities w =
      { w with
        recovered := true
        pendingAsyncActivities := w.records
        pendingAsyncActivityResolutions := w.resolutions } := by
    rw [AsyncActivity.recoverPendingAsyncActivities, hpending, hq, List.nil_append]
  have hheld : World.held { w with
      recovered := true
      pendingAsyncActivities := w.records
      pendingAsyncActivityResolutions := w.resolutions } =
      w.resolutions.map Resolution.token ++ w.records := by
    simp [World.held, hc, hstaged]
  rw [heq]
  exact { h with
    held := by
      intro token htoken
      rw [hheld] at htoken
      obtain hin | hin := List.mem_append.1 htoken
      · obtain ⟨s, hs, rfl⟩ := List.mem_map.1 hin
        exact (h.resolutions s hs).2
      · exact (h.unaccepted token (.inr (.inl hin))).1
    single := by
      rw [hheld, List.length_append, List.length_map]
      by_cases hcurrent : w.checkpoint.length ∈ w.accepted.map Resolution.token
      · rw [h.records_nil hcurrent]
        exact h.stored
      · rw [h.resolutions_nil hcurrent, List.length_nil, Nat.zero_add]
        exact h.records
    unaccepted := by
      rintro token (hin | hin | ⟨call, hcall, -⟩)
      · exact h.unaccepted token (.inr (.inl hin))
      · exact h.unaccepted token (.inr (.inl hin))
      · rw [show w.calls = [] from hc] at hcall
        cases hcall
    recorded := by
      intro _ token htoken
      rw [hheld]
      exact List.mem_append_right _ htoken
    queued := fun s hs => hs
    located := by
      intro _ s hs
      rw [hheld]
      exact List.mem_append_left _ (List.mem_map_of_mem hs)
    generator := by
      intro g hnew
      rw [show w.generator = none from hg] at hnew
      cases hnew
    waiting := by
      intro g hnew
      rw [show w.generator = none from hg] at hnew
      cases hnew
    unrecovered := fun hr => (by cases hr) }

/-- The checkpoint takes the result, and the records of the resolution go with it. -/
theorem persistCheckpoint {results : List (Option (Resolution ρ))}
    (hg : w.generator = some ⟨results, true⟩) : Inv { w with
      checkpoint := results
      resolutions := w.resolutions.filter (·.token ∉ w.staged)
      staged := []
      generator := some ⟨results, false⟩
      bodies := w.bodies ++ [results.length] } := by
  have hrec := h.recovered_of_generator hg
  obtain ⟨e, hres, hnil, hrecords, hresolutions, hentry, hkept⟩ :
      ∃ e, results = w.checkpoint ++ [e] ∧
        (w.pendingAsyncActivityResolutions = [] ∧ w.pendingAsyncActivities = [] ∧ w.calls = []) ∧
        w.records = [] ∧ w.resolutions.filter (·.token ∉ w.staged) = [] ∧
        (∀ s, e = some s → s.token = w.checkpoint.length ∧ s ∈ w.accepted) ∧
        ∀ s ∈ w.resolutions, e = some s := by
    obtain ⟨hdue, -⟩ | ⟨-, hres, hheld⟩ | ⟨-, r, hr, hres, hstaged⟩ := h.generator _ hg
    · cases hdue
    · have hnone : w.checkpoint.length ∉ w.held := by simp [hheld]
      have hempty := h.resolutions_nil (h.not_accepted hrec hnone)
      simp only [World.held, List.append_eq_nil_iff, List.map_eq_nil_iff] at hheld
      refine ⟨none, hres, ⟨hheld.1, hheld.2.1, hheld.2.2.1⟩, ?_, by simp [hempty],
        fun s hs => (by cases hs), by simp [hempty]⟩
      apply List.eq_nil_iff_forall_not_mem.2
      intro token htoken
      apply hnone
      rw [← (h.unaccepted token (.inr (.inl htoken))).1]
      exact h.recorded hrec token htoken
    · obtain ⟨haccepted, htoken⟩ := h.resolutions r hr
      have hsingle := h.single
      simp only [World.held, hstaged, List.length_append, List.length_map,
        List.length_singleton] at hsingle
      have hcurrent : w.checkpoint.length ∈ w.accepted.map Resolution.token := by
        rw [← htoken]
        exact List.mem_map_of_mem haccepted
      obtain ⟨x, hx⟩ := List.length_eq_one_iff.1
        (Nat.le_antisymm h.stored (List.length_pos_of_mem hr))
      obtain rfl : r = x := by
        rw [hx, List.mem_singleton] at hr
        exact hr
      refine ⟨some r, hres, ⟨List.length_eq_zero_iff.1 (by omega),
        List.length_eq_zero_iff.1 (by omega), List.length_eq_zero_iff.1 (by omega)⟩,
        h.records_nil hcurrent, by simp [hx, hstaged], ?_, ?_⟩
      · intro s hs
        cases hs
        exact ⟨htoken, haccepted⟩
      · intro s hs
        rw [hx, List.mem_singleton] at hs
        rw [hs]
  obtain ⟨hq, hp, hc⟩ := hnil
  rw [hresolutions]
  have hheld : World.held { w with
      checkpoint := results
      resolutions := []
      staged := []
      generator := some ⟨results, false⟩
      bodies := w.bodies ++ [results.length] } = [] := by
    simp [World.held, hq, hp, hc]
  subst hres
  exact { h with
    entries := by
      intro i s hi
      rw [List.getElem?_append] at hi
      split at hi
      · exact h.entries i s hi
      · rename_i hlt
        rw [List.getElem?_singleton] at hi
        split at hi
        · rename_i hzero
          obtain ⟨htoken, hin⟩ := hentry s (Option.some.inj hi)
          exact ⟨by omega, hin⟩
        · cases hi
    kept := by
      intro s hs
      left
      obtain hc | hc := h.kept s hs
      · obtain ⟨hlt, -⟩ := List.getElem?_eq_some_iff.1 hc
        rw [List.getElem?_append_left hlt]
        exact hc
      · have he := hkept s hc
        rw [(h.resolutions s hc).2, List.getElem?_concat_length, he]
    resolutions := fun s hs => (by cases hs)
    stored := Nat.zero_le 1
    held := by
      intro token htoken
      rw [hheld] at htoken
      cases htoken
    single := by rw [hheld]; exact Nat.zero_le 1
    unaccepted := by
      intro token hin
      simp [hp, hrecords, hc] at hin
    recorded := by
      intro _ token htoken
      rw [show w.records = [] from hrecords] at htoken
      cases htoken
    queued := by
      intro s hs
      rw [show w.pendingAsyncActivityResolutions = [] from hq] at hs
      cases hs
    committed := by
      intro call hcall
      rw [show w.calls = [] from hc] at hcall
      cases hcall
    located := fun _ s hs => (by cases hs)
    generator := by
      intro g hnew
      rw [Option.some.injEq] at hnew
      subst hnew
      exact .inl ⟨rfl, rfl, rfl⟩
    dropped := fun _ => rfl
    waiting := by
      intro _ _ _
      left
      exact List.mem_append_right _ (List.mem_singleton_self _)
    bodies := by
      intro token htoken
      show token ≤ (w.checkpoint ++ [e]).length
      obtain hold | hnew := List.mem_append.1 htoken
      · have := h.bodies token hold
        rw [List.length_append]
        omega
      · rw [List.mem_singleton] at hnew
        exact Nat.le_of_eq hnew
    unrecovered := by
      intro hr
      rw [show w.recovered = false from hr] at hrec
      cases hrec }

theorem step {event : Event ρ} (hok : Orderly w event)
    (hstep : asyncActivityMachine.step w event = some w') : Inv w' := by
  cases event with
  | acknowledge token outcome fits =>
    cases hstep
    cases fits with
    | false => exact h
    | true => exact h.acknowledge token outcome
  | commit place ok =>
    simp only [asyncActivityMachine] at hstep
    split at hstep
    · rename_i call hcall
      split at hstep
      · cases hstep
      · rename_i hfree
        cases hstep
        have hfree' : call.committed = false := by simpa using hfree
        cases ok with
        | false => exact h.restoreClaim hcall hfree'
        | true => exact h.commitAcknowledgement hcall hfree'
    · cases hstep
  | resolve place =>
    simp only [asyncActivityMachine] at hstep
    split at hstep
    · rename_i call hcall
      split at hstep
      · rename_i hdone
        cases hstep
        exact h.resolve hcall hdone
      · cases hstep
    · cases hstep
  | adopt =>
    simp only [asyncActivityMachine] at hstep
    split at hstep
    · rename_i hg
      cases hstep
      exact h.adopt hg hok
    · cases hstep
  | release =>
    cases hstep
    exact h.release hok
  | defer token =>
    simp only [asyncActivityMachine] at hstep
    split at hstep
    · rename_i hbody
      cases hstep
      exact h.defer hbody hok
    · cases hstep
  | register place ok =>
    obtain ⟨rfl, hopen⟩ := hok
    simp only [asyncActivityMachine] at hstep
    split at hstep
    · rename_i token htoken
      cases hstep
      exact h.recordWritten (hopen token htoken)
    · cases hstep
  | finish token =>
    simp only [asyncActivityMachine] at hstep
    split at hstep
    · rename_i hbody
      cases hstep
      exact h.finish hok hbody
    · cases hstep
  | persistCheckpoint =>
    simp only [asyncActivityMachine] at hstep
    split at hstep
    · rename_i results hg
      cases hstep
      exact h.persistCheckpoint hg
    · cases hstep
  | crash =>
    cases hstep
    exact h.crash
  | recoverPendingAsyncActivities =>
    cases hstep
    exact h.recoverPendingAsyncActivities hok

end

end Inv

theorem Inv.initial : Inv ({} : World ρ) where
  entries := fun i s hi => (by simp at hi)
  once := List.nodup_nil
  kept := fun s hs => (by cases hs)
  resolutions := fun s hs => (by cases hs)
  stored := Nat.zero_le 1
  held := fun token htoken => (by cases htoken)
  single := Nat.zero_le 1
  unaccepted := by
    rintro token (hin | hin | ⟨call, hcall, -⟩)
    · cases hin
    · cases hin
    · cases hcall
  records := Nat.zero_le 1
  recorded := fun _ token htoken => (by cases htoken)
  queued := fun s hs => (by cases hs)
  committed := fun call hcall => (by cases hcall)
  located := fun _ s hs => (by cases hs)
  generator := fun g hg => (by cases hg)
  dropped := fun _ => rfl
  waiting := fun g hg => (by cases hg)
  bodies := fun token htoken => (by cases htoken)
  unrecovered := fun hr => (by cases hr)

/-- A call that throws, for its payload or for its commit, leaves its token pending. -/
def FailureKeepsToken (w : World ρ) (event : Event ρ) : Prop :=
  ∀ w', asyncActivityMachine.step w event = some w' →
    match event with
    | .acknowledge token _ false => token ∈ w.pendingAsyncActivities →
        token ∈ w'.pendingAsyncActivities
    | .commit place false => ∀ call ∈ w.calls[place]?, call.token ∈ w'.pendingAsyncActivities
    | _ => True

theorem failureKeepsToken (w : World ρ) (event : Event ρ) : FailureKeepsToken w event := by
  intro w' hstep
  split
  · rename_i token outcome
    cases hstep
    exact fun htoken => htoken
  · rename_i place
    intro call hcall
    simp only [asyncActivityMachine, show w.calls[place]? = some call from hcall] at hstep
    split at hstep
    · cases hstep
    · cases hstep
      exact List.mem_insert_self
  · trivial

/-- In every run whose steps are orderly. -/
theorem token_accepted_once {run : List (Event ρ)}
    (hok : asyncActivityMachine.EveryStep Orderly ({} : World ρ) run) :
    asyncActivityMachine.EveryState AcceptedOnce ({} : World ρ) run ∧
      asyncActivityMachine.EveryStep FailureKeepsToken ({} : World ρ) run := by
  constructor
  · apply Machine.EveryState.mono fun w (h : Inv w) => h.acceptedOnce
    exact Machine.everyState_of_invariant (fun _ _ _ h => h.step) Inv.initial hok
  · exact (Machine.everyStep_true run _).mono fun w event _ => failureKeepsToken w event

/-- The workflow is loaded and parks again while an acknowledgement is being committed. -/
def parkedInCommit : List (Event Nat) :=
  [.adopt, .defer 0, .register 0 true, .crash, .recoverPendingAsyncActivities,
    .acknowledge 0 (.completed 10) true, .adopt, .defer 0, .commit 0 true, .resolve 0,
    .persistCheckpoint, .register 0 true, .acknowledge 0 (.completed 20) true, .commit 0 true,
    .resolve 0]

/-- The token is accepted twice; its second outcome is the result of the step after its own. -/
theorem token_accepted_twice : ¬ (asyncActivityMachine.EveryState AcceptedOnce
    ({} : World Nat) parkedInCommit ∧
      asyncActivityMachine.EveryStep FailureKeepsToken ({} : World Nat) parkedInCommit) := by
  intro h
  have honce := h.1.final.once
  revert honce
  decide

/-- The acknowledgement is over when the workflow is loaded, and a later one fails at first. -/
def parkedAfterCommit : List (Event Nat) :=
  [.adopt, .defer 0, .register 0 true, .acknowledge 0 (.completed 10) false, .crash,
    .recoverPendingAsyncActivities, .acknowledge 0 (.completed 10) true, .commit 0 true,
    .resolve 0, .adopt, .defer 0, .persistCheckpoint, .defer 1, .register 0 true,
    .acknowledge 1 (.failed "late") true, .commit 0 false, .acknowledge 1 (.completed 20) true,
    .commit 0 true, .resolve 0, .persistCheckpoint]

theorem recovered_token_accepted_once :
    asyncActivityMachine.EveryState AcceptedOnce ({} : World Nat) parkedAfterCommit ∧
      asyncActivityMachine.EveryStep FailureKeepsToken ({} : World Nat) parkedAfterCommit :=
  token_accepted_once (by decide)

end Weft.AsyncActivity
