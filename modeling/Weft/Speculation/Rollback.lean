import Weft.Speculation.Stored

/-! The rollback of a speculation: in a run where nothing completes once it has begun, and nothing
that it depends on is answered without running, it compensates each activity once, the last
first. -/

namespace Weft.Speculation
open Weft.Lib

universe u

variable {κ : Type u}

/-! ## What a rollback has to do -/

def Entry.compensation : Entry → Option Nat
  | .answered _ _ => none
  | .compensated execution => some execution

/-- The compensations that have been called, in their order. -/
def compensated (w : World κ) : List Nat := w.log.reverse.filterMap Entry.compensation

/-- No activity that was compensated is answered from its recorded result afterwards. -/
def NoneAnswered (log : List Entry) : Prop :=
  ∀ promise execution,
    ¬ List.Sublist [.answered promise (some execution), .compensated execution] log

structure RolledBack (w : World κ) : Prop where
  once : w.driver = .failed → ∀ promise ∈ w.completions, (compensated w).count promise = 1
  reversed : w.driver = .failed →
    (compensated w).filter (· ∈ w.before) = w.before.reverse
  succeeded : w.driver = .succeeded → compensated w = []
  unanswered : NoneAnswered w.log

/-! ## The invariant -/

/-- How many compensations a rollback has not called; all of them before there is one. -/
def Driver.uncalled (length : Nat) : Driver → Nat
  | .rollingBack index => index
  | .failed => 0
  | _ => length

structure Inv (w : World κ) : Prop where
  nodup : w.compensations.Nodup
  answered : ∀ promise ∈ w.compensations, Answered w.promises promise
  uniform : w.reconciled = [] → w.compensations = w.completions
  before : w.driver.isFailing = true → w.before = w.completions ∧ w.reconciled = []
  called : compensated w =
    (w.compensations.drop (w.driver.uncalled w.compensations.length)).reverse
  unanswered : NoneAnswered w.log

/-- A step that calls no compensation, gives no result and takes none back. -/
structure Keeps (w w' : World κ) : Prop where
  failing : w'.driver.isFailing = w.driver.isFailing
  uncalled : ∀ length, w'.driver.uncalled length = w.driver.uncalled length
  compensations : w'.compensations = w.compensations
  completions : w'.completions = w.completions
  reconciled : w'.reconciled = w.reconciled
  before : w'.before = w.before
  log : w'.log = w.log
  answered : ∀ promise, Answered w.promises promise → Answered w'.promises promise

variable {w w' : World κ}

theorem Inv.keeps (h : Inv w) (hkeeps : Keeps w w') : Inv w' := by
  have hcompensated : compensated w' = compensated w := by rw [compensated, hkeeps.log, compensated]
  constructor
  · rw [hkeeps.compensations]
    exact h.nodup
  · rw [hkeeps.compensations]
    exact fun promise hmem => hkeeps.answered promise (h.answered promise hmem)
  · rw [hkeeps.reconciled, hkeeps.compensations, hkeeps.completions]
    exact h.uniform
  · rw [hkeeps.failing, hkeeps.before, hkeeps.completions, hkeeps.reconciled]
    exact h.before
  · rw [hcompensated, hkeeps.compensations, hkeeps.uncalled]
    exact h.called
  · rw [hkeeps.log]
    exact h.unanswered

variable {driver : Driver}

theorem uncalled_of_not_failing (h : driver.isFailing = false) (length : Nat) :
    driver.uncalled length = length := by
  cases driver with
  | rollingBack _ => cases h
  | failed => cases h
  | body | waiting _ | draining | succeeded => rfl

/-- While the speculation does not fail, no compensation counts as called. -/
theorem drop_uncalled (h : driver.isFailing = false) (compensations : List Nat) :
    (compensations.drop (driver.uncalled compensations.length)).reverse = [] := by
  rw [uncalled_of_not_failing h, List.drop_length, List.reverse_nil]

variable {w : World κ}

theorem Inv.none_called (h : Inv w) (hlive : w.driver.isFailing = false) : compensated w = [] :=
  h.called.trans (drop_uncalled hlive w.compensations)

theorem initial_inv (left : κ → Option Status) : Inv (initial left) where
  nodup := List.nodup_nil
  answered _ hmem := nomatch hmem
  uniform _ := rfl
  before hfailing := nomatch hfailing
  called := rfl
  unanswered _ _ hsub := nomatch hsub

/-- Of a failed speculation the invariant says what the rollback was for. -/
theorem Inv.rolledBack (h : Inv w) : RolledBack w := by
  have hall : w.driver = .failed →
      compensated w = w.completions.reverse ∧ w.before = w.completions ∧ w.completions.Nodup := by
    intro hfailed
    obtain ⟨hbefore, hreconciled⟩ := h.before (by rw [hfailed]; rfl)
    have hsame := h.uniform hreconciled
    have hcalled := h.called
    rw [hfailed, hsame] at hcalled
    exact ⟨hcalled, hbefore, hsame ▸ h.nodup⟩
  constructor
  · intro hfailed promise hmem
    obtain ⟨hcalled, -, hnodup⟩ := hall hfailed
    rw [hcalled, List.count_reverse]
    exact List.count_eq_one_of_mem hnodup hmem
  · intro hfailed
    obtain ⟨hcalled, hbefore, -⟩ := hall hfailed
    rw [hcalled, hbefore, List.filter_eq_self]
    intro promise hmem
    exact decide_eq_true (List.mem_reverse.1 hmem)
  · intro hsucceeded
    exact h.none_called (by rw [hsucceeded]; rfl)
  · exact h.unanswered

/-! ## The steps -/

theorem noneAnswered_compensated {log : List Entry} (h : NoneAnswered log) (execution : Nat) :
    NoneAnswered (.compensated execution :: log) := by
  intro promise other hsub
  cases hsub with
  | cons _ hsub => exact h promise other hsub

variable {execution : Option Nat}

theorem noneAnswered_answered {log : List Entry} (h : NoneAnswered log) (promise : Nat)
    (hfresh : ∀ n, execution = some n → Entry.compensated n ∉ log) :
    NoneAnswered (.answered promise execution :: log) := by
  intro other n hsub
  cases hsub with
  | cons _ hsub => exact h other n hsub
  | cons_cons _ hsub => exact hfresh n rfl (List.singleton_sublist.1 hsub)

theorem mem_compensated {execution : Nat} :
    execution ∈ compensated w ↔ Entry.compensated execution ∈ w.log := by
  simp only [compensated, List.mem_filterMap, List.mem_reverse]
  constructor
  · rintro ⟨entry, hmem, hentry⟩
    cases entry with
    | answered _ _ => cases hentry
    | compensated _ =>
      cases hentry
      exact hmem
  · exact fun hmem => ⟨_, hmem, rfl⟩

variable {promise : Nat}

theorem keeps_setTask {old new : Task κ} (hold : w.promises[promise]? = some old)
    (hnew : old.hasAnswer = false ∨ new.hasAnswer = true) : Keeps w (setTask w promise new) where
  failing := rfl
  uncalled _ := rfl
  compensations := rfl
  completions := rfl
  reconciled := rfl
  before := rfl
  log := rfl
  answered _ hanswered := hanswered.set hold hnew

variable {activity : Activity κ}

section

variable (h : Inv w)

include h

theorem Inv.recordCompensation {new : Task κ}
    (htask : w.promises[promise]? = some (.running activity)) (hnew : new.hasAnswer = true)
    (hlive : hasCompensation w promise activity = true → w.driver.isFailing = false) :
    Inv (setTask (recordCompensation w promise activity) promise new) := by
  rw [Speculation.recordCompensation]
  split_ifs with hours
  · have hnotFailing := hlive hours
    have hfresh : promise ∉ w.compensations :=
      fun hmem => not_answered htask rfl (h.answered promise hmem)
    constructor
    · exact List.nodup_append.2 ⟨h.nodup, List.nodup_singleton _, by
        intro a ha b hb
        rw [List.mem_singleton.1 hb]
        exact fun hab => hfresh (hab ▸ ha)⟩
    · intro other hmem
      obtain hmem | hmem := List.mem_append.1 hmem
      · exact (h.answered other hmem).set htask (.inl rfl)
      · rw [List.mem_singleton.1 hmem]
        exact answered_set_self htask hnew
    · intro hreconciled
      exact congrArg (· ++ [promise]) (h.uniform hreconciled)
    · intro hfailing
      exact (Bool.false_ne_true (hnotFailing.symm.trans hfailing)).elim
    · exact (h.none_called hnotFailing).trans (drop_uncalled hnotFailing _).symm
    · exact h.unanswered
  · exact h.keeps (keeps_setTask htask (.inl rfl))

theorem Inv.stage (key : κ) (promise : Nat) : Inv (stage w key promise) :=
  h.keeps ⟨rfl, fun _ => rfl, rfl, rfl, rfl, rfl, rfl, fun _ hanswered => hanswered⟩

theorem Inv.completeActivity (htask : w.promises[promise]? = some (.running activity))
    (hlive : hasCompensation w promise activity = true → w.driver.isFailing = false) :
    Inv (completeActivity w promise activity) := by
  rw [Speculation.completeActivity]
  cases activity.key with
  | none => exact h.recordCompensation htask rfl hlive
  | some key =>
    dsimp only
    split_ifs
    · exact h.recordCompensation htask rfl hlive
    · exact (h.recordCompensation htask rfl hlive).stage key promise

theorem Inv.reconcile {old : Task κ} (hold : w.promises[promise]? = some old)
    (hnone : old.hasAnswer = false)
    (hlive : hasCompensation w promise activity = true → w.driver.isFailing = false) :
    Inv (reconcile w promise activity) := by
  have hset : Inv (setTask w promise (.settled true)) := h.keeps (keeps_setTask hold (.inl hnone))
  rw [Speculation.reconcile]
  split_ifs with hours
  · have hnotFailing := hlive hours
    constructor
    · exact hset.nodup
    · exact hset.answered
    · intro hreconciled
      exact (List.append_ne_nil_of_right_ne_nil _ (List.cons_ne_nil _ _) hreconciled).elim
    · intro hfailing
      exact (Bool.false_ne_true (hnotFailing.symm.trans hfailing)).elim
    · exact hset.called
    · exact hset.unanswered
  · exact hset

theorem Inv.answer (promise : Nat) (hfresh : ∀ n, execution = some n → n ∉ compensated w) :
    Inv { w with log := .answered promise execution :: w.log } := by
  have hsame : compensated { w with log := .answered promise execution :: w.log } =
    compensated w := by
    simp only [compensated, List.reverse_cons, List.filterMap_append]
    exact List.append_nil _
  constructor
  · exact h.nodup
  · exact h.answered
  · exact h.uniform
  · exact h.before
  · exact hsame.trans h.called
  · exact noneAnswered_answered h.unanswered promise fun n hn hmem =>
      hfresh n hn (mem_compensated.2 hmem)

theorem Inv.hear {promise branch : Nat} {ok : Bool} {task : Task κ}
    (htask : w.promises[promise]? = some task)
    (hhear : Speculation.hear w promise branch ok task = some w') : Inv w' := by
  cases task with
  | all left =>
    simp only [Speculation.hear] at hhear
    split_ifs at hhear
    all_goals
      cases hhear
      exact h.keeps (keeps_setTask htask (.inl rfl))
  | race branches =>
    simp only [Speculation.hear] at hhear
    split_ifs at hhear
    cases hhear
    exact h.keeps (keeps_setTask htask (.inl rfl))
  | resolving _ _ | running _ | verifying _ _ | outside | peeking _ | settled _ => cases hhear

/-- The promises of an operation come after those that are there. -/
theorem Inv.append {promises : List (Task κ)} (hmore : w.promises <+: promises) :
    Inv { w with promises } :=
  h.keeps ⟨rfl, fun _ => rfl, rfl, rfl, rfl, rfl, rfl, fun _ hanswered => hanswered.prefix hmore⟩

theorem Inv.openRace {operations : List (Operation κ)}
    (htask : w.promises[promise]? = some (.peeking operations)) (signal : Bool) :
    Inv (openRace w promise operations signal) := by
  have hopen : ∀ promises branches, w.promises <+: promises →
      Inv (setTask { w with promises } promise (.race branches)) := by
    intro promises branches hmore
    have hstill : promises[promise]? = some (.peeking operations) := by
      obtain ⟨rest, rfl⟩ := hmore
      rw [List.getElem?_append_left (List.getElem?_eq_some_iff.1 htask).1]
      exact htask
    exact (h.append hmore).keeps (keeps_setTask hstill (.inl rfl))
  unfold Speculation.openRace
  split_ifs
  · exact hopen _ _ (List.prefix_append _ _)
  · exact hopen _ _ (prefix_executeSubOperations _ _)

/-- Once the speculation fails, its compensations are those of its completions. -/
theorem Inv.beginRollback (hlive : w.driver.isFailing = false) (hreconciled : w.reconciled = []) :
    Inv (beginRollback w) := by
  constructor
  · exact h.nodup
  · exact h.answered
  · exact h.uniform
  · exact fun _ => ⟨rfl, hreconciled⟩
  · exact (h.none_called hlive).trans (congrArg List.reverse List.drop_length).symm
  · exact h.unanswered

theorem Inv.compensate {index execution : Nat} (hdriver : w.driver = .rollingBack (index + 1))
    (hplace : w.compensations[index]? = some execution) :
    Inv { w with driver := .rollingBack index, log := .compensated execution :: w.log } := by
  have hcalled := h.called
  rw [hdriver] at hcalled
  have hdrop : w.compensations.drop index = execution :: w.compensations.drop (index + 1) := by
    obtain ⟨hindex, rfl⟩ := List.getElem?_eq_some_iff.1 hplace
    exact List.drop_eq_getElem_cons hindex
  constructor
  · exact h.nodup
  · exact h.answered
  · exact h.uniform
  · exact fun _ => h.before (by rw [hdriver]; rfl)
  · have hmore : compensated
        { w with driver := .rollingBack index, log := .compensated execution :: w.log } =
          compensated w ++ [execution] := by
      simp only [compensated, List.reverse_cons, List.filterMap_append]
      rfl
    rw [hmore, hcalled]
    simp only [Driver.uncalled]
    rw [hdrop, List.reverse_cons]
  · exact noneAnswered_compensated h.unanswered execution

/-- A driver that goes on while it does not fail. -/
theorem Inv.drive (hlive : w.driver.isFailing = false) (hnext : driver.isFailing = false) :
    Inv { w with driver } := by
  refine h.keeps ⟨hnext.trans hlive.symm, fun length => ?_, rfl, rfl, rfl, rfl, rfl, fun _ ha => ha⟩
  rw [uncalled_of_not_failing hlive]
  exact uncalled_of_not_failing hnext length

/-- Nothing that a record holds has been compensated. -/
theorem Inv.uncompensated {key : κ} {execution : Nat} (hstored : Stored w)
    (hrecord : w.records key = some (.completed (some execution))) : execution ∉ compensated w := by
  intro hmem
  by_cases hsucceeded : w.driver = .succeeded
  · rw [h.none_called (by rw [hsucceeded]; rfl)] at hmem
    cases hmem
  · rw [h.called] at hmem
    have hrecorded := List.mem_of_mem_drop (List.mem_reverse.1 hmem)
    exact hstored.kept hsucceeded key execution hrecord (.inl hrecorded)

variable [DecidableEq κ]

theorem Inv.putRecord (key : κ) (record : ReconciliationRecord) : Inv (putRecord w key record) :=
  h.keeps ⟨rfl, fun _ => rfl, rfl, rfl, rfl, rfl, rfl, fun _ hanswered => hanswered⟩

theorem Inv.resolveActivity {key : κ} {verdict : Verdict}
    (htask : w.promises[promise]? = some (.resolving activity key))
    (hfresh : ∀ execution, w.records key = some (.completed (some execution)) →
      execution ∉ compensated w)
    (hlive : hasCompensation w promise activity = true → reconciles w activity key verdict = true →
      w.driver.isFailing = false) :
    Inv (resolveActivity w promise activity key verdict) := by
  have hset : ∀ new, Inv (setTask w promise new) :=
    fun new => h.keeps (keeps_setTask htask (.inl rfl))
  have hput : ∀ record new, Inv (setTask (Speculation.putRecord w key record) promise new) :=
    fun record new => (Inv.putRecord h key record).keeps (keeps_setTask htask (.inl rfl))
  unfold Speculation.resolveActivity
  cases hrecord : w.records key with
  | none => exact hput _ _
  | some record =>
    cases record with
    | completed execution =>
      have hunused : ∀ n, execution = some n → n ∉ compensated w := by
        rintro n rfl
        exact hfresh n hrecord
      refine (h.answer promise hunused).reconcile htask rfl fun hours => ?_
      exact hlive hours (by simp only [reconciles, hrecord])
    | started execution =>
      dsimp only
      split_ifs with hverify
      · cases verdict with
        | notCompleted => exact hput _ _
        | completed =>
          refine (h.putRecord key _).reconcile htask rfl fun hours => ?_
          exact hlive hours (by simpa only [reconciles, hrecord] using hverify)
        | refused => exact hset _
      · exact hset _

end

theorem initial_stored (left : κ → Option Status) : Stored (initial left) := by
  have hearlier : ∀ key record, (initial left).records key = some record →
      record.execution = none := by
    intro key record hrecord
    obtain ⟨status, -, rfl⟩ := Option.map_eq_some_iff.1 hrecord
    cases status <;> rfl
  constructor
  · intro key record execution hrecord hexecution
    rw [hearlier key record hrecord] at hexecution
    cases hexecution
  · exact fun _ hmem => nomatch hmem
  · intro _ key execution hrecord
    cases hearlier key _ hrecord

variable [DecidableEq κ]

theorem Inv.step {event : Event κ} (h : Inv w) (hstored : Stored w) (hok : Contained w event)
    (hstep : Speculation.step w event = some w') : Inv w' := by
  cases event with
  | yield operation =>
    simp only [Speculation.step] at hstep
    split at hstep
    · rename_i hdriver
      cases hstep
      have hmore := h.append (prefix_executeSubOperation w.promises operation)
      exact hmore.drive (by rw [hdriver]; rfl) rfl
    · cases hstep
  | «return» =>
    simp only [Speculation.step] at hstep
    split_ifs at hstep with hdriver
    cases hstep
    exact h.drive (by rw [hdriver]; rfl) rfl
  | throw =>
    simp only [Speculation.step] at hstep
    split_ifs at hstep with hdriver
    cases hstep
    exact h.beginRollback (by rw [hdriver]; rfl) hok
  | resume =>
    simp only [Speculation.step] at hstep
    split at hstep
    · rename_i hdriver
      split at hstep
      · cases hstep
        exact h.drive (by rw [hdriver]; rfl) rfl
      · cases hstep
    · cases hstep
  | drain ok =>
    simp only [Speculation.step] at hstep
    split_ifs at hstep with hdriver hfailed
    · cases hstep
      exact h.drive (by rw [hdriver]; rfl) rfl
    · cases hstep
      exact h.beginRollback (by rw [hdriver]; rfl) (hok (by simpa using hfailed))
  | compensate =>
    simp only [Speculation.step] at hstep
    split at hstep
    · rename_i index hdriver
      split at hstep
      · rename_i execution hplace
        cases hstep
        exact h.compensate hdriver hplace
      · cases hstep
    · cases hstep
  | rolledBack =>
    simp only [Speculation.step] at hstep
    split_ifs at hstep with hdriver
    cases hstep
    refine h.keeps ⟨?_, fun length => ?_, rfl, rfl, rfl, rfl, rfl, fun _ ha => ha⟩
    · rw [hdriver]
      rfl
    · rw [hdriver]
      rfl
  | resolve promise verdict =>
    simp only [Speculation.step] at hstep
    split at hstep
    · rename_i activity key htask
      cases hstep
      exact h.resolveActivity htask (fun _ hrecord => h.uncompensated hstored hrecord)
        (hok activity key htask).1
    · cases hstep
  | complete promise =>
    simp only [Speculation.step] at hstep
    split at hstep
    · rename_i activity htask
      cases hstep
      exact h.completeActivity htask (hok activity htask)
    · cases hstep
  | reject promise =>
    simp only [Speculation.step] at hstep
    split at hstep
    case h_5 => cases hstep
    all_goals
      rename_i htask
      cases hstep
      exact h.keeps (keeps_setTask htask (.inr rfl))
  | verified promise ok =>
    simp only [Speculation.step] at hstep
    split at hstep
    · rename_i key htask
      cases hstep
      cases ok with
      | true => exact (h.stage key promise).keeps (keeps_setTask htask (.inr rfl))
      | false => exact h.keeps (keeps_setTask htask (.inr rfl))
    · cases hstep
  | fulfil promise =>
    simp only [Speculation.step] at hstep
    split at hstep
    case h_3 => cases hstep
    all_goals
      rename_i htask
      cases hstep
      exact h.keeps (keeps_setTask htask (.inr rfl))
  | hear promise branch =>
    simp only [Speculation.step] at hstep
    split at hstep
    · rename_i htask _
      exact h.hear htask hstep
    · cases hstep
  | openRace promise signal =>
    simp only [Speculation.step] at hstep
    split at hstep
    · rename_i operations htask
      cases hstep
      exact h.openRace htask signal
    · cases hstep
  | commit =>
    simp only [Speculation.step] at hstep
    cases hstep
    rw [commit]
    split_ifs
    all_goals exact h.keeps ⟨rfl, fun _ => rfl, rfl, rfl, rfl, rfl, rfl, fun _ ha => ha⟩
  | later activity =>
    simp only [Speculation.step] at hstep
    split_ifs at hstep
    cases hstep
    refine h.keeps ⟨rfl, fun _ => rfl, rfl, rfl, rfl, rfl, rfl, fun _ hanswered => ?_⟩
    exact hanswered.prefix (List.prefix_append _ _)

/-- In a run whose steps are contained every speculation that fails has been rolled back, and none
that succeeds. -/
theorem everyState_rolledBack (left : κ → Option Status) (events : List (Event κ))
    (hok : machine.EveryStep Contained (initial left) events) :
    machine.EveryState RolledBack (initial left) events := by
  have hinv : machine.EveryState (fun w => Inv w ∧ Stored w) (initial left) events :=
    Machine.everyState_of_invariant
      (fun _ _ _ ⟨hI, hS⟩ hok' hstep => ⟨hI.step hS hok' hstep, hS.step hok' hstep⟩)
      ⟨initial_inv left, initial_stored left⟩ hok
  exact hinv.mono fun _ hI => hI.1.rolledBack

/-! ## Rollbacks that are complete, and what is left by others -/

def reversible : Operation Nat := .activity ⟨true, false, none⟩

def keyed : Activity Nat := ⟨true, false, some 0⟩

def verified : Activity Nat := ⟨true, true, some 0⟩

/-- Two branches complete, the second first, and the verification of the first fails; then the body
throws. After the next commit the workflow calls the activity again. -/
def bothUndone : List (Event Nat) :=
  [.yield (.parallel [.activity verified, reversible]), .resolve 0 .refused, .complete 1,
    .complete 0,
    .verified 0 false, .hear 2 0, .resume, .throw, .compensate, .compensate, .rolledBack, .commit,
    .later verified, .resolve 3 .notCompleted]

theorem contained_bothUndone : machine.EveryStep Contained (initial fun _ => none) bothUndone := by
  refine ⟨trivial, fun _ _ htask => ?_, fun _ _ _ => rfl, fun _ _ _ => rfl, trivial, trivial,
    trivial, rfl, trivial, trivial, trivial, fun _ _ hmem => (nomatch hmem), trivial,
    fun _ _ htask => ?_, trivial⟩
  all_goals
    cases htask
    exact ⟨fun _ h => (nomatch h), fun _ h => nomatch h⟩

theorem bothUndone_rolledBack :
    machine.EveryState RolledBack (initial fun _ => none) bothUndone :=
  everyState_rolledBack _ bothUndone contained_bothUndone

/-- The first branch fails, and the second completes when the rollback is over. -/
def completedLate : List (Event Nat) :=
  [.yield (.parallel [reversible, reversible]), .reject 0, .hear 2 0, .resume, .throw, .rolledBack,
    .complete 1]

/-- The result is that of an execution before the speculation. -/
def answeredBefore : List (Event Nat) :=
  [.yield (.activity keyed), .resolve 0 .refused, .resume, .throw, .rolledBack]

/-- The completion is stored after its compensation, and read by the next activity with the key. -/
def answeredAfter : List (Event Nat) :=
  [.yield (.activity keyed), .resolve 0 .refused, .complete 0, .resume, .throw, .compensate,
    .rolledBack, .commit, .later keyed, .resolve 1 .refused]

/-- The branch that completes late and the one that is answered are never compensated, and an
activity that was compensated is answered from its record. -/
theorem not_rolled_back :
    ¬ machine.EveryState RolledBack (initial fun _ => none) completedLate ∧
      ¬ machine.EveryState RolledBack (initial fun _ => some .completed) answeredBefore ∧
      ¬ machine.EveryState RolledBack (initial fun _ => none) answeredAfter := by
  refine ⟨fun h => ?_, fun h => ?_, fun h => ?_⟩
  · have hcount : (compensated (machine.final (initial fun _ => none) completedLate)).count 1 = 1 :=
      h.final.once rfl 1 (List.mem_singleton_self 1)
    cases hcount
  · have hcount : (compensated (machine.final (initial fun _ => some .completed)
        answeredBefore)).count 0 = 1 :=
      h.final.once rfl 0 (List.mem_singleton_self 0)
    cases hcount
  · exact h.final.unanswered 1 0 (List.Sublist.refl _)

end Weft.Speculation
