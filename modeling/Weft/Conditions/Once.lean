import Weft.Conditions.Model
import Weft.Lib.Lists

/-! Each wait-condition settles once and at its own yield, exactly in the runs in which no deadline
timer fails to be cancelled after its wait was completed. -/

namespace Weft.Conditions
open Weft.Lib

/-- What a wait promises in a state of a run. -/
structure SettlesOnce (w : World) : Prop where
  /-- Each yield is fed by its own operation. -/
  own : ∀ (i : Nat) d, w.deliveries[i]? = some d → d.operation = i
  once : (w.deliveries.map Delivery.operation).Nodup
  /-- An operation that is over has settled, unless its run has ended or its generator is gone. -/
  settled : ∀ operation, w.phase operation = .returned →
    operation ∈ w.deliveries.map Delivery.operation ∨ w.running = false ∨ w.generator = false
  /-- A wait is told to be timed out only where its predicate is false, and to be met where it is
  true. -/
  met : ∀ d ∈ w.deliveries, w.phase d.operation ≠ .other → ∀ value, d.outcome = .completed value →
    d.predicate = some (decide (value ≠ some false))
  /-- A wait that was woken and finds its predicate true is fed, if there is a generator to feed. -/
  woken : ∀ operation, w.phase operation = .checking → w.predicate operation = some true →
    w.aborted = false → w.generator = true →
      ∀ w', waitMachine.step w (.checked operation (some true)) = some w' →
        operation ∈ w'.deliveries.map Delivery.operation

/-- Once the wait is completed its timer is cancelled, or its generator is gone. -/
def CancelsInTime (w : World) : Label → Prop
  | .cancelled operation ok =>
    w.phase operation = .cancelling .completed → ok = false → w.generator = false
  | _ => True

/-! ## The invariant -/

/-- The operation has been yielded, and nothing has been fed for it. -/
def Phase.isUnsettled : Phase → Bool
  | .requested | .arming | .parked _ | .checking => true
  | .cancelling exit => exit ≠ .completed
  | _ => false

structure Inv (w : World) : Prop where
  own : ∀ (i : Nat) d, w.deliveries[i]? = some d → d.operation = i
  fresh : ∀ operation, w.yields ≤ operation → w.phase operation = .absent
  bound : w.deliveries.length ≤ w.yields
  unsettled : ∀ operation, (w.phase operation).isUnsettled = true → w.generator = true →
    w.deliveries.length = operation
  completed : ∀ operation, w.phase operation = .cancelling .completed →
    operation ∈ w.deliveries.map Delivery.operation ∨ w.generator = false
  stopped : ∀ operation, w.phase operation = .cancelling .stopped →
    w.running = false ∨ w.generator = false
  returned : ∀ operation, w.phase operation = .returned →
    operation ∈ w.deliveries.map Delivery.operation ∨ w.running = false ∨ w.generator = false
  aborted : w.aborted = true → w.generator = false
  met : ∀ d ∈ w.deliveries, w.phase d.operation ≠ .other → ∀ value, d.outcome = .completed value →
    d.predicate = some (decide (value ≠ some false))

theorem nodup_of_own {deliveries : List Delivery}
    (h : ∀ (i : Nat) d, deliveries[i]? = some d → d.operation = i) :
    (deliveries.map Delivery.operation).Nodup := by
  have hrange : deliveries.map Delivery.operation = List.range deliveries.length := by
    refine List.ext_getElem (by simp) fun i hi _ => ?_
    rw [List.length_map] at hi
    rw [List.getElem_map, List.getElem_range]
    exact h i _ (List.getElem?_eq_getElem hi)
  rw [hrange]
  exact List.nodup_range

variable {w : World}

variable {w w' : World}

/-- The clock, the predicates and the registered waiter do not count. -/
theorem Inv.congr (h : Inv w) (hyields : w'.yields = w.yields) (hphase : w'.phase = w.phase)
    (hdeliveries : w'.deliveries = w.deliveries)
    (hgenerator : w'.generator = true → w.generator = true)
    (hrunning : w'.running = true → w.running = true)
    (haborted : w'.aborted = true → w'.generator = false) : Inv w' := by
  have hgone : w.generator = false → w'.generator = false := by
    intro hgone
    by_contra hthere
    rw [hgenerator (by simpa using hthere)] at hgone
    cases hgone
  have hended : w.running = false → w'.running = false := by
    intro hended
    by_contra hgoes
    rw [hrunning (by simpa using hgoes)] at hended
    cases hended
  constructor
  · rw [hdeliveries]
    exact h.own
  · rw [hyields, hphase]
    exact h.fresh
  · rw [hyields, hdeliveries]
    exact h.bound
  · rw [hphase, hdeliveries]
    exact fun k hk hthere => h.unsettled k hk (hgenerator hthere)
  · rw [hphase, hdeliveries]
    exact fun k hk => (h.completed k hk).imp_right hgone
  · rw [hphase]
    exact fun k hk => (h.stopped k hk).imp hended hgone
  · rw [hphase, hdeliveries]
    exact fun k hk => (h.returned k hk).imp_right (Or.imp hended hgone)
  · exact haborted
  · rw [hphase, hdeliveries]
    exact h.met

theorem Inv.release (h : Inv w) : Inv (releaseConditionWaiter w) :=
  h.congr rfl rfl rfl id id h.aborted

/-! ## One operation moves on -/

variable {operation : Nat} {phase : Phase}

/-- The operation goes to another phase and feeds nothing. -/
theorem Inv.setPhase (h : Inv w) (hyielded : operation < w.yields)
    (hunsettled : phase.isUnsettled = true → w.generator = true → w.deliveries.length = operation)
    (hcompleted : phase = .cancelling .completed →
      operation ∈ w.deliveries.map Delivery.operation ∨ w.generator = false)
    (hstopped : phase = .cancelling .stopped → w.running = false ∨ w.generator = false)
    (hreturned : phase = .returned → operation ∈ w.deliveries.map Delivery.operation ∨
      w.running = false ∨ w.generator = false)
    (hkind : w.phase operation ≠ .other) : Inv (w.setPhase operation phase) := by
  have hphase : ∀ k, (w.setPhase operation phase).phase k =
      if k = operation then phase else w.phase k := fun k => Function.update_apply _ _ _ _
  constructor
  · exact h.own
  · intro k hk
    have hk' : w.yields ≤ k := hk
    rw [hphase, if_neg (by omega)]
    exact h.fresh k hk'
  · exact h.bound
  · intro k hk
    rw [hphase] at hk
    split_ifs at hk with hsame
    · exact hsame ▸ hunsettled hk
    · exact h.unsettled k hk
  · intro k hk
    rw [hphase] at hk
    split_ifs at hk with hsame
    · exact hsame ▸ hcompleted hk
    · exact h.completed k hk
  · intro k hk
    rw [hphase] at hk
    split_ifs at hk with hsame
    · exact hstopped hk
    · exact h.stopped k hk
  · intro k hk
    rw [hphase] at hk
    split_ifs at hk with hsame
    · exact hsame ▸ hreturned hk
    · exact h.returned k hk
  · exact h.aborted
  · intro d hd hd'
    refine h.met d hd fun hother => ?_
    rw [hphase] at hd'
    split_ifs at hd' with hsame
    · exact hkind (hsame ▸ hother)
    · exact hd' hother

theorem Inv.yielded (h : Inv w) (hphase : w.phase operation ≠ .absent) : operation < w.yields := by
  by_contra hlate
  exact hphase (h.fresh operation (not_lt.1 hlate))

theorem isUnsettled_ne (h : phase.isUnsettled = true) : phase ≠ .absent ∧ phase ≠ .other := by
  constructor
  · rintro rfl
    cases h
  · rintro rfl
    cases h

/-- An operation for which nothing has been fed goes on without feeding. -/
theorem Inv.goesOn (h : Inv w) (hbefore : (w.phase operation).isUnsettled = true)
    (hafter : phase.isUnsettled = true)
    (hstopped : phase = .cancelling .stopped → w.running = false ∨ w.generator = false) :
    Inv (w.setPhase operation phase) := by
  obtain ⟨habsent, hother⟩ := isUnsettled_ne hbefore
  refine h.setPhase (h.yielded habsent)
    (fun _ => h.unsettled operation hbefore) ?_ hstopped ?_ hother
  · rintro rfl
    cases hafter
  · rintro rfl
    cases hafter

/-- It is fed what it settles with, and has its own yield fed. -/
theorem Inv.settle (h : Inv w) {outcome : Outcome}
    (hbefore : (w.phase operation).isUnsettled = true)
    (hafter : phase = .returned ∨ phase = .cancelling .completed)
    (hmet : ∀ value, outcome = .completed value →
      w.predicate operation = some (decide (value ≠ some false))) :
    Inv ((feedOperationResult w operation outcome).setPhase operation phase) := by
  obtain ⟨habsent, hother⟩ := isUnsettled_ne hbefore
  have hyielded := h.yielded habsent
  have hnot : phase.isUnsettled = false ∧ phase ≠ .cancelling .stopped := by
    obtain rfl | rfl := hafter
    · exact ⟨rfl, by decide⟩
    · exact ⟨rfl, by decide⟩
  cases hgenerator : w.generator with
  | false =>
    rw [feedOperationResult, hgenerator, if_neg Bool.false_ne_true]
    refine h.setPhase hyielded (fun hbad => ?_) (fun _ => .inr hgenerator)
      (fun hbad => (hnot.2 hbad).elim) (fun _ => .inr (.inr hgenerator)) hother
    rw [hnot.1] at hbad
    cases hbad
  | true =>
    have hlength := h.unsettled operation hbefore hgenerator
    let delivery : Delivery := ⟨operation, outcome, w.predicate operation⟩
    generalize hw' : (feedOperationResult w operation outcome).setPhase operation phase = w'
    rw [feedOperationResult, hgenerator, if_pos rfl] at hw'
    have hdeliveries : w'.deliveries = w.deliveries ++ [delivery] := by rw [← hw']; rfl
    have hyields : w'.yields = w.yields := by rw [← hw']; rfl
    have hrunning : w'.running = w.running := by rw [← hw']; rfl
    have hsame : w'.generator = w.generator := by rw [← hw']; exact hgenerator.symm
    have haborted : w'.aborted = w.aborted := by rw [← hw']; rfl
    have hphase : ∀ k, w'.phase k = if k = operation then phase else w.phase k := by
      intro k
      rw [← hw']
      exact Function.update_apply _ _ _ _
    have hmem : operation ∈ w'.deliveries.map Delivery.operation := by
      rw [hdeliveries, List.map_append]
      exact List.mem_append_right _ List.mem_cons_self
    have hmore : ∀ {k}, k ∈ w.deliveries.map Delivery.operation →
        k ∈ w'.deliveries.map Delivery.operation := by
      intro k hk
      rw [hdeliveries, List.map_append]
      exact List.mem_append_left _ hk
    constructor
    · intro i d hd
      rw [hdeliveries] at hd
      obtain ⟨-, hd⟩ | ⟨rfl, rfl⟩ := getElem?_concat_cases hd
      · exact h.own i d hd
      · show operation = w.deliveries.length
        omega
    · intro k hk
      rw [hyields] at hk
      rw [hphase, if_neg (by omega)]
      exact h.fresh k hk
    · rw [hdeliveries, hyields, List.length_append, List.length_singleton]
      omega
    · intro k hk _
      rw [hphase] at hk
      split_ifs at hk with hk'
      · rw [hnot.1] at hk
        cases hk
      · exact (hk' ((h.unsettled k hk hgenerator).symm.trans hlength)).elim
    · intro k hk
      rw [hphase] at hk
      split_ifs at hk with hk'
      · exact .inl (hk' ▸ hmem)
      · rw [hsame]
        exact (h.completed k hk).imp_left hmore
    · intro k hk
      rw [hphase] at hk
      split_ifs at hk with hk'
      · exact (hnot.2 hk).elim
      · rw [hrunning, hsame]
        exact h.stopped k hk
    · intro k hk
      rw [hphase] at hk
      split_ifs at hk with hk'
      · exact .inl (hk' ▸ hmem)
      · rw [hrunning, hsame]
        exact (h.returned k hk).imp_left hmore
    · rw [haborted, hsame]
      exact h.aborted
    · intro d hd hd' value hvalue
      rw [hdeliveries] at hd
      obtain hd | hd := List.mem_append.1 hd
      · refine h.met d hd (fun hbad => ?_) value hvalue
        rw [hphase] at hd'
        split_ifs at hd' with hk'
        · exact hother (hk' ▸ hbad)
        · exact hd' hbad
      · obtain rfl := List.mem_singleton.1 hd
        exact hmet value hvalue

/-! ## The processor -/

variable {value : Option Bool}

theorem evaluate_some {predicate : Option Bool} {deadline : Option Int} {now : Int}
    (h : evaluateConditionOutcome predicate deadline now = .ok (some value)) :
    predicate = some (decide (value ≠ some false)) := by
  unfold evaluateConditionOutcome at h
  split at h
  · cases h
  · cases Except.ok.inj h
    cases deadline with
    | none => rfl
    | some deadline => rfl
  · split at h
    · cases h
    · split_ifs at h
      · cases Except.ok.inj h
        rfl
      · cases Except.ok.inj h

theorem leave_cases (w : World) (operation : Nat) (exit : Exit) :
    leave w operation exit = (releaseConditionWaiter w).setPhase operation (.cancelling exit) ∨
      leave w operation exit = finish (releaseConditionWaiter w) operation exit := by
  unfold leave
  dsimp only
  split
  · exact .inl rfl
  · exact .inr rfl

theorem leave_deliveries (w : World) (operation : Nat) :
    (leave w operation .completed).deliveries = w.deliveries := by
  obtain hleave | hleave := leave_cases w operation .completed
  · rw [hleave]
    rfl
  · rw [hleave]
    rfl

/-- Where the predicate is true the wait is completed, whatever its deadline. -/
theorem fed_of_predicate {operation : Nat} (hpredicate : w.predicate operation = some true)
    (haborted : w.aborted = false) (hgenerator : w.generator = true) :
    operation ∈ (runConditionWaitStep w operation).deliveries.map Delivery.operation := by
  have hevaluate : ({ w with waiter := some operation } : World).evaluate operation =
      .ok (some (if (w.deadline operation).isNone then none else some true)) := by
    unfold World.evaluate evaluateConditionOutcome
    simp only [hpredicate]
  unfold runConditionWaitStep
  split_ifs with hbad
  · rw [haborted] at hbad
    cases hbad
  · simp only [hevaluate]
    rw [leave_deliveries, completeOperation, feedOperationResult]
    simp only [releaseConditionWaiter, hgenerator, if_true]
    rw [List.map_append]
    exact List.mem_append_right _ List.mem_cons_self

theorem Inv.settlesOnce (h : Inv w) : SettlesOnce w := by
  refine ⟨h.own, nodup_of_own h.own, h.returned, h.met, ?_⟩
  intro operation hphase hpredicate haborted hgenerator w' hstep
  simp only [waitMachine, step, Option.ite_none_right_eq_some, Option.some.injEq] at hstep
  obtain ⟨-, rfl⟩ := hstep
  exact fed_of_predicate hpredicate haborted hgenerator

section

variable (h : Inv w)

include h

section

variable (hbefore : (w.phase operation).isUnsettled = true)

include hbefore

/-- The loop is left without an outcome. -/
theorem Inv.leave_stopped (hended : w.running = false ∨ w.generator = false) :
    Inv (leave w operation .stopped) := by
  obtain ⟨habsent, hother⟩ := isUnsettled_ne hbefore
  obtain hleave | hleave := leave_cases w operation .stopped
  · rw [hleave]
    exact h.release.goesOn hbefore rfl fun _ => hended
  · rw [hleave]
    exact h.release.setPhase (h.yielded habsent) (fun hbad => by cases hbad)
      (fun hbad => by cases hbad) (fun hbad => by cases hbad) (fun _ => .inr hended) hother

/-- Something was thrown in it. -/
theorem Inv.leave_threw : Inv (leave w operation .threw) := by
  obtain hleave | hleave := leave_cases w operation .threw
  · rw [hleave]
    exact h.release.goesOn hbefore rfl fun hbad => by cases hbad
  · rw [hleave]
    exact h.release.settle hbefore (.inl rfl) fun value hvalue => by cases hvalue

/-- It was left with an outcome, which has been fed. -/
theorem Inv.leave_completed (hmet : w.predicate operation = some (decide (value ≠ some false))) :
    Inv (leave (completeOperation w operation value) operation .completed) := by
  have hvalue : ∀ value', Outcome.completed value = .completed value' →
      w.predicate operation = some (decide (value' ≠ some false)) := by
    rintro value' ⟨⟩
    exact hmet
  have hwaiter : ∀ phase, (releaseConditionWaiter (completeOperation w operation value)).setPhase
      operation phase = releaseConditionWaiter
        ((feedOperationResult w operation (.completed value)).setPhase operation phase) :=
    fun _ => rfl
  obtain hleave | hleave := leave_cases (completeOperation w operation value) operation .completed
  · rw [hleave, hwaiter]
    exact (h.settle hbefore (.inr rfl) hvalue).release
  · rw [hleave, finish, hwaiter]
    · exact (h.settle hbefore (.inl rfl) hvalue).release
    · exact fun hbad => by cases hbad

theorem Inv.runConditionWaitStep : Inv (runConditionWaitStep w operation) := by
  unfold Weft.Conditions.runConditionWaitStep
  split_ifs with haborted
  · exact h.leave_stopped hbefore (.inr (h.aborted haborted))
  have hwaits : Inv { w with waiter := some operation } := h.congr rfl rfl rfl id id h.aborted
  dsimp only
  split
  · exact hwaits.leave_threw hbefore
  · rename_i value hvalue
    exact hwaits.release.leave_completed hbefore (evaluate_some hvalue)
  · exact hwaits.goesOn hbefore rfl fun hbad => by cases hbad

theorem Inv.failed : Inv ((failOperation w operation).setPhase operation .returned) :=
  h.settle hbefore (.inl rfl) fun _ hvalue => by cases hvalue

end

theorem Inv.process (hbefore : w.phase operation = .requested) :
    Inv (processWaitConditionOperation w operation) := by
  have hunsettled : (w.phase operation).isUnsettled = true := by
    rw [hbefore]
    rfl
  obtain ⟨habsent, hother⟩ := isUnsettled_ne hunsettled
  unfold processWaitConditionOperation
  split_ifs with haborted
  · exact h.setPhase (h.yielded habsent) (fun hbad => by cases hbad) (fun hbad => by cases hbad)
      (fun hbad => by cases hbad) (fun _ => .inr (.inr (h.aborted haborted))) hother
  split
  · exact h.failed hunsettled
  · rename_i value hvalue
    refine h.settle hunsettled (.inl rfl) ?_
    rintro value' ⟨⟩
    exact evaluate_some hvalue
  · split
    · exact h.goesOn hunsettled rfl fun hbad => by cases hbad
    · exact h.runConditionWaitStep hunsettled

theorem Inv.notify : Inv (notifyConditionWaiters w) := by
  unfold notifyConditionWaiters
  split
  · exact h
  · split
    · rename_i operation _ woken hparked
      exact h.goesOn (by rw [hparked]; rfl) rfl fun hbad => by cases hbad
    · exact h

/-- The generator yields its next operation. -/
theorem Inv.yieldOperation (hruns : w.runs = true) (hphase : phase = .requested ∨ phase = .other)
    (deadline : Option Int) (predicate : Option Bool) :
    Inv (yieldOperation w phase deadline predicate) := by
  simp only [World.runs, Bool.and_eq_true, decide_eq_true_eq] at hruns
  obtain ⟨hgenerator, hfed⟩ := hruns
  have hlength : w.deliveries.length = w.yields := le_antisymm h.bound hfed
  have hnot : phase ≠ .returned ∧ (∀ exit, phase ≠ .cancelling exit) := by
    obtain rfl | rfl := hphase
    · exact ⟨by decide, fun exit hbad => by cases hbad⟩
    · exact ⟨by decide, fun exit hbad => by cases hbad⟩
  have hupdate : ∀ k, (Weft.Conditions.yieldOperation w phase deadline predicate).phase k =
      if k = w.yields then phase else w.phase k := fun k => Function.update_apply _ _ _ _
  constructor
  · exact h.own
  · intro k hk
    have hk' : w.yields + 1 ≤ k := hk
    rw [hupdate, if_neg (by omega)]
    exact h.fresh k (by omega)
  · exact h.bound.trans (Nat.le_succ _)
  · intro k hk hthere
    rw [hupdate] at hk
    split_ifs at hk with hnew
    · exact hlength.trans hnew.symm
    · exact h.unsettled k hk hthere
  · intro k hk
    rw [hupdate] at hk
    split_ifs at hk
    · exact (hnot.2 _ hk).elim
    · exact h.completed k hk
  · intro k hk
    rw [hupdate] at hk
    split_ifs at hk
    · exact (hnot.2 _ hk).elim
    · exact h.stopped k hk
  · intro k hk
    rw [hupdate] at hk
    split_ifs at hk
    · exact (hnot.1 hk).elim
    · exact h.returned k hk
  · exact h.aborted
  · intro d hd hd'
    refine h.met d hd fun hbad => ?_
    rw [hupdate] at hd'
    split_ifs at hd' with hnew
    · rw [hnew, h.fresh _ le_rfl] at hbad
      cases hbad
    · exact hd' hbad

/-- An operation of another kind settles. -/
theorem Inv.settleOther (hother : w.phase w.deliveries.length = .other) (outcome : Outcome) :
    Inv (feedOperationResult w w.deliveries.length outcome) := by
  cases hgenerator : w.generator with
  | false =>
    rw [feedOperationResult, hgenerator, if_neg Bool.false_ne_true]
    exact h
  | true =>
    have hyielded : w.deliveries.length < w.yields := by
      refine h.yielded ?_
      rw [hother]
      exact fun hbad => by cases hbad
    let delivery : Delivery := ⟨w.deliveries.length, outcome, w.predicate w.deliveries.length⟩
    generalize hw' : feedOperationResult w w.deliveries.length outcome = w'
    rw [feedOperationResult, hgenerator, if_pos rfl] at hw'
    have hdeliveries : w'.deliveries = w.deliveries ++ [delivery] := by rw [← hw']
    have hyields : w'.yields = w.yields := by rw [← hw']
    have hrunning : w'.running = w.running := by rw [← hw']
    have hsame : w'.generator = w.generator := by rw [← hw', hgenerator]
    have haborted : w'.aborted = w.aborted := by rw [← hw']
    have hphase : w'.phase = w.phase := by rw [← hw']
    have hmore : ∀ {k}, k ∈ w.deliveries.map Delivery.operation →
        k ∈ w'.deliveries.map Delivery.operation := by
      intro k hk
      rw [hdeliveries, List.map_append]
      exact List.mem_append_left _ hk
    constructor
    · intro i d hd
      rw [hdeliveries] at hd
      obtain ⟨-, hd⟩ | ⟨rfl, rfl⟩ := getElem?_concat_cases hd
      · exact h.own i d hd
      · rfl
    · rw [hyields, hphase]
      exact h.fresh
    · rw [hdeliveries, hyields, List.length_append, List.length_singleton]
      omega
    · intro k hk _
      rw [hphase] at hk
      have hplace := h.unsettled k hk hgenerator
      rw [← hplace, hother] at hk
      cases hk
    · intro k hk
      rw [hphase] at hk
      rw [hsame]
      exact (h.completed k hk).imp_left hmore
    · intro k hk
      rw [hphase] at hk
      rw [hrunning, hsame]
      exact h.stopped k hk
    · intro k hk
      rw [hphase] at hk
      rw [hrunning, hsame]
      exact (h.returned k hk).imp_left hmore
    · rw [haborted, hsame]
      exact h.aborted
    · intro d hd hd' value hvalue
      rw [hphase] at hd'
      rw [hdeliveries] at hd
      obtain hd | hd := List.mem_append.1 hd
      · exact h.met d hd hd' value hvalue
      · obtain rfl := List.mem_singleton.1 hd
        exact (hd' hother).elim

/-- The timer of the deadline is cancelled, or is not. -/
theorem Inv.cancelled {exit : Exit} {ok : Bool} (hbefore : w.phase operation = .cancelling exit)
    (hintime : exit = .completed → ok = false → w.generator = false) :
    Inv (cancelled w operation exit ok) := by
  have hyielded : operation < w.yields := by
    refine h.yielded ?_
    rw [hbefore]
    exact fun hbad => by cases hbad
  have hkind : w.phase operation ≠ .other := by
    rw [hbefore]
    exact fun hbad => by cases hbad
  have hreturns : (operation ∈ w.deliveries.map Delivery.operation ∨ w.running = false ∨
      w.generator = false) → Inv (w.setPhase operation .returned) := fun hsettled =>
    h.setPhase hyielded (fun hbad => by cases hbad) (fun hbad => by cases hbad)
      (fun hbad => by cases hbad) (fun _ => hsettled) hkind
  cases exit with
  | completed =>
    cases ok with
    | true => exact hreturns ((h.completed operation hbefore).imp_right .inr)
    | false =>
      have hgone := hintime rfl rfl
      have hnothing : failOperation w operation = w := by
        rw [failOperation, feedOperationResult, hgone, if_neg Bool.false_ne_true]
      show Inv ((failOperation w operation).setPhase operation .returned)
      rw [hnothing]
      exact hreturns (.inr (.inr hgone))
  | stopped =>
    cases ok with
    | true => exact hreturns (.inr (h.stopped operation hbefore))
    | false => exact h.failed (by rw [hbefore]; rfl)
  | threw =>
    have hunsettled : (w.phase operation).isUnsettled = true := by rw [hbefore]; rfl
    have hfails := h.failed hunsettled
    cases ok with
    | true => exact hfails
    | false => exact hfails

end

/-! ## Runs -/

theorem step_inv {a : Label} (h : Inv w) (hintime : CancelsInTime w a)
    (hstep : step w a = some w') : Inv w' := by
  cases a with
  | yieldWait deadline predicate =>
    simp only [step, Option.ite_none_right_eq_some, Option.some.injEq] at hstep
    obtain ⟨hruns, rfl⟩ := hstep
    exact h.yieldOperation hruns (.inl rfl) deadline predicate
  | yieldOther =>
    simp only [step, Option.ite_none_right_eq_some, Option.some.injEq] at hstep
    obtain ⟨hruns, rfl⟩ := hstep
    exact h.yieldOperation hruns (.inr rfl) none none
  | settleOther outcome =>
    simp only [step, Option.ite_none_right_eq_some, Option.some.injEq] at hstep
    obtain ⟨hother, rfl⟩ := hstep
    exact h.settleOther hother outcome
  | process operation =>
    simp only [step, Option.ite_none_right_eq_some, Option.some.injEq] at hstep
    obtain ⟨hbefore, rfl⟩ := hstep
    exact h.process hbefore
  | armed operation ok =>
    simp only [step, Option.ite_none_right_eq_some, Option.some.injEq] at hstep
    obtain ⟨hbefore, rfl⟩ := hstep
    have hunsettled : (w.phase operation).isUnsettled = true := by rw [hbefore]; rfl
    cases ok with
    | true => exact h.runConditionWaitStep hunsettled
    | false => exact h.failed hunsettled
  | wake operation =>
    simp only [step, Option.ite_none_right_eq_some, Option.some.injEq] at hstep
    obtain ⟨hbefore, rfl⟩ := hstep
    have hunsettled : (w.phase operation).isUnsettled = true := by rw [hbefore]; rfl
    unfold wake
    split_ifs with haborted
    · exact h.leave_stopped hunsettled (.inr (h.aborted haborted))
    · exact h.goesOn hunsettled rfl fun hbad => by cases hbad
  | checked operation answer =>
    simp only [step, Option.ite_none_right_eq_some, Option.some.injEq] at hstep
    obtain ⟨⟨hbefore, hanswer⟩, rfl⟩ := hstep
    have hunsettled : (w.phase operation).isUnsettled = true := by rw [hbefore]; rfl
    cases answer with
    | none => exact h.leave_threw hunsettled
    | some answer =>
      cases answer with
      | true => exact h.runConditionWaitStep hunsettled
      | false => exact h.leave_stopped hunsettled (.inl (hanswer rfl))
  | cancelled operation ok =>
    simp only [step] at hstep
    split at hstep
    · rename_i exit hbefore
      cases hstep
      exact h.cancelled hbefore fun hexit hok => hintime (hexit ▸ hbefore) hok
    · cases hstep
  | notify =>
    cases hstep
    exact h.notify
  | setPredicate operation predicate =>
    cases hstep
    exact h.congr rfl rfl rfl id id h.aborted
  | tick now =>
    cases hstep
    exact h.congr rfl rfl rfl id id h.aborted
  | endRun =>
    cases hstep
    exact h.congr rfl rfl rfl id (fun hbad => by cases hbad) h.aborted
  | dropGenerator =>
    cases hstep
    exact h.congr rfl rfl rfl (fun hbad => by cases hbad) id fun _ => rfl
  | cleanupConditionWaiters =>
    cases hstep
    exact h.notify.release
  | dispose =>
    cases hstep
    have hdisposed : Inv { w with aborted := true, generator := false } :=
      h.congr rfl rfl rfl (fun hbad => by cases hbad) id fun _ => rfl
    exact hdisposed.notify.release

/-- A timer that is not cancelled fails a wait that was completed, at whatever its generator yields
next. -/
theorem not_settlesOnce_of_not_cancelsInTime {a : Label} (h : Inv w) (hlate : ¬ CancelsInTime w a)
    (hstep : step w a = some w') : ¬ SettlesOnce w' := by
  cases a with
  | cancelled operation ok =>
    have hphase : w.phase operation = .cancelling .completed := by
      by_contra hbad
      exact hlate fun hphase => (hbad hphase).elim
    have hok : ok = false := by
      by_contra hbad
      exact hlate fun _ hok => (hbad hok).elim
    have hgenerator : w.generator = true := by
      by_contra hbad
      exact hlate fun _ _ => by simpa using hbad
    simp only [step, hphase] at hstep
    cases hstep
    have hfed : operation ∈ w.deliveries.map Delivery.operation := by
      obtain hfed | hgone := h.completed operation hphase
      · exact hfed
      · rw [hgenerator] at hgone
        cases hgone
    intro hsettles
    have honce := hsettles.once
    rw [cancelled, hok, if_neg Bool.false_ne_true, failOperation, feedOperationResult,
      if_pos hgenerator]
      at honce
    simp only [World.setPhase, List.map_append, List.map_cons, List.map_nil] at honce
    exact List.disjoint_of_nodup_append honce hfed (List.mem_singleton_self _)
  | yieldWait deadline predicate => exact (hlate trivial).elim
  | yieldOther => exact (hlate trivial).elim
  | settleOther outcome => exact (hlate trivial).elim
  | process operation => exact (hlate trivial).elim
  | armed operation ok => exact (hlate trivial).elim
  | wake operation => exact (hlate trivial).elim
  | checked operation answer => exact (hlate trivial).elim
  | notify => exact (hlate trivial).elim
  | setPredicate operation predicate => exact (hlate trivial).elim
  | tick now => exact (hlate trivial).elim
  | endRun => exact (hlate trivial).elim
  | dropGenerator => exact (hlate trivial).elim
  | cleanupConditionWaiters => exact (hlate trivial).elim
  | dispose => exact (hlate trivial).elim

theorem inv_init : Inv {} where
  own := fun i d hd => by cases hd
  fresh := fun _ _ => rfl
  bound := le_rfl
  unsettled := fun _ hbad => by cases hbad
  completed := fun _ hbad => by cases hbad
  stopped := fun _ hbad => by cases hbad
  returned := fun _ hbad => by cases hbad
  aborted := fun hbad => by cases hbad
  met := fun d hd => by cases hd

theorem settlesOnce_iff (labels : List Label) :
    waitMachine.EveryState SettlesOnce {} labels ↔
      waitMachine.EveryStep CancelsInTime {} labels := by
  -- a state in which the promise is broken has no invariant to keep
  have hstep : ∀ w a w', (SettlesOnce w → Inv w) → SettlesOnce w → step w a = some w' →
      (SettlesOnce w' → Inv w') ∧ (SettlesOnce w' ↔ CancelsInTime w a) := by
    intro w a w' hJ hI hstep
    by_cases hintime : CancelsInTime w a
    · have hafter := step_inv (hJ hI) hintime hstep
      exact ⟨fun _ => hafter, iff_of_true hafter.settlesOnce hintime⟩
    · have hbroken := not_settlesOnce_of_not_cancelsInTime (hJ hI) hintime hstep
      exact ⟨fun hbad => (hbroken hbad).elim, iff_of_false hbroken hintime⟩
  have hinit : SettlesOnce {} → Inv {} := fun _ => inv_init
  exact (Machine.everyState_iff_everyStep (M := waitMachine) hstep hinit).trans
    (and_iff_right inv_init.settlesOnce)

/-- The wait is completed, the generator goes on to its next yield, and the deadline timer cannot be
cancelled: the wait fails there. -/
theorem settles_twice :
    ∃ labels : List Label, (waitMachine.final {} labels).deliveries =
        [⟨0, .completed (some true), some true⟩, ⟨0, .failed, some true⟩] ∧
      ¬ waitMachine.EveryState SettlesOnce {} labels := by
  refine ⟨[.yieldWait (some 300) (some false), .process 0, .armed 0 true,
    .setPredicate 0 (some true), .notify, .wake 0, .checked 0 (some true), .yieldOther,
    .cancelled 0 false], by decide, fun h => ?_⟩
  have honce := h.final.once
  revert honce
  decide

end Weft.Conditions
