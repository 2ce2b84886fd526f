import Weft.Speculation.Model

/-! What is stored under the keys of a speculation: in a run whose steps are contained no completion
is stored that a rollback takes back, whatever is read from the records later. -/

namespace Weft.Speculation
open Weft.Lib

universe u

variable {κ : Type u}

/-! ## The condition on the steps -/

def Driver.isFailing : Driver → Bool
  | .rollingBack _ => true
  | .failed => true
  | _ => false

/-- The record, or what the verifier says of it, gives a result. -/
def reconciles (w : World κ) (activity : Activity κ) (key : κ) (verdict : Verdict) : Bool :=
  match w.records key, verdict with
  | some (.completed _), _ => true
  | some (.started _), .completed => activity.verify
  | _, _ => false

/-- The result counts for the rollback. -/
def hasCompensation (w : World κ) (promise : Nat) (activity : Activity κ) : Bool :=
  isOurs w promise && activity.compensate

/-- The activity of a promise that has no result yet. -/
def Task.pending : Task κ → Option (Activity κ)
  | .resolving activity _ => some activity
  | .running activity => some activity
  | _ => none

/-- The execution has recorded its compensation, or can still record it. -/
def Reversible (w : World κ) (execution : Nat) : Prop :=
  execution ∈ w.compensations ∨ ∃ activity,
    w.promises[execution]?.bind Task.pending = some activity ∧
      hasCompensation w execution activity = true

/-- Nothing with a compensation gives a result once the speculation fails, and nothing has given one
without running when it fails. Until the speculation has succeeded no commit stores the completion
of an execution with a compensation, and no verifier says of one that it is completed. -/
def Contained [DecidableEq κ] (w : World κ) : Event κ → Prop
  | .throw => w.reconciled = []
  | .drain ok => ok = false → w.reconciled = []
  | .complete promise => ∀ activity, w.promises[promise]? = some (.running activity) →
      hasCompensation w promise activity = true → w.driver.isFailing = false
  | .resolve promise verdict => ∀ activity key,
      w.promises[promise]? = some (.resolving activity key) →
        (hasCompensation w promise activity = true → reconciles w activity key verdict = true →
          w.driver.isFailing = false) ∧
        (activity.verify = true → verdict = .completed → ∀ execution,
          w.records key = some (.started (some execution)) → Reversible w execution →
            w.driver = .succeeded)
  | .commit => isAccepted w = true → ∀ entry ∈ w.staged, entry.2 ∈ w.compensations →
      w.driver = .succeeded
  | _ => True

/-! ## The invariant of the records -/

def ReconciliationRecord.execution : ReconciliationRecord → Option Nat
  | .started execution => execution
  | .completed execution => execution

/-- Until the speculation has succeeded no record holds a result that a rollback takes back. -/
structure Stored (w : World κ) : Prop where
  placed : ∀ key record execution, w.records key = some record →
    record.execution = some execution → execution < w.promises.length
  staged : ∀ entry ∈ w.staged, Answered w.promises entry.2
  kept : w.driver ≠ .succeeded → ∀ key execution,
    w.records key = some (.completed (some execution)) → ¬ Reversible w execution

/-- A step that leaves the records as they are and gives no execution that was there a
compensation. -/
structure Narrows (w w' : World κ) : Prop where
  records : w'.records = w.records
  length : w.promises.length ≤ w'.promises.length
  answered : ∀ promise, Answered w.promises promise → Answered w'.promises promise
  reversible : ∀ execution < w.promises.length, Reversible w' execution → Reversible w execution
  staged : ∀ entry ∈ w'.staged, entry ∈ w.staged ∨ Answered w'.promises entry.2
  succeeded : w.driver = .succeeded → w'.driver = .succeeded

variable {w w' w'' : World κ} {promise : Nat} {activity : Activity κ}

theorem Stored.narrows (h : Stored w) (hnarrows : Narrows w w') : Stored w' := by
  constructor
  · rw [hnarrows.records]
    exact fun key record execution hrecord hexecution =>
      (h.placed key record execution hrecord hexecution).trans_le hnarrows.length
  · intro entry hentry
    obtain hold | hnew := hnarrows.staged entry hentry
    · exact hnarrows.answered _ (h.staged entry hold)
    · exact hnew
  · intro hdriver key execution hrecord hreversible
    rw [hnarrows.records] at hrecord
    have hplace := h.placed key _ execution hrecord rfl
    exact h.kept (fun hsucceeded => hdriver (hnarrows.succeeded hsucceeded)) key execution hrecord
      (hnarrows.reversible execution hplace hreversible)

theorem Narrows.trans (h : Narrows w w') (h' : Narrows w' w'') : Narrows w w'' where
  records := h'.records.trans h.records
  length := h.length.trans h'.length
  answered promise hanswered := h'.answered promise (h.answered promise hanswered)
  reversible execution hplace hreversible :=
    h.reversible execution hplace (h'.reversible execution (hplace.trans_le h.length) hreversible)
  staged entry hentry := by
    obtain hold | hnew := h'.staged entry hentry
    · exact (h.staged entry hold).imp_right (h'.answered _)
    · exact .inr hnew
  succeeded hsucceeded := h'.succeeded (h.succeeded hsucceeded)

theorem Answered.place (h : Answered w.promises promise) : promise < w.promises.length := by
  obtain ⟨_, htask, _⟩ := h
  exact (List.getElem?_eq_some_iff.1 htask).1

/-- What has an answer can record no compensation any more. -/
theorem Answered.not_reversible (h : Answered w.promises promise)
    (hnone : promise ∉ w.compensations) : ¬ Reversible w promise := by
  rintro (hmem | ⟨activity, hpending, -⟩)
  · exact hnone hmem
  · obtain ⟨task, htask, hanswer⟩ := h
    rw [htask, Option.bind_some] at hpending
    cases task with
    | resolving _ _ | running _ => cases hanswer
    | verifying _ _ | settled _ | outside | all _ | peeking _ | race _ => cases hpending

/-! ## The steps -/

theorem narrows_setTask {old new : Task κ} (hold : w.promises[promise]? = some old)
    (hanswer : old.hasAnswer = false ∨ new.hasAnswer = true)
    (hpending : ∀ activity, new.pending = some activity → old.pending = some activity) :
    Narrows w (setTask w promise new) where
  records := rfl
  length := List.length_set.ge
  answered _ hanswered := hanswered.set hold hanswer
  reversible execution _ := by
    refine Or.imp_right fun ⟨activity, htask, hours⟩ => ⟨activity, ?_, hours⟩
    by_cases hsame : promise = execution
    · subst hsame
      rw [setTask, List.getElem?_set_self (List.getElem?_eq_some_iff.1 hold).1] at htask
      rw [hold]
      exact hpending activity htask
    · rwa [setTask, List.getElem?_set_ne hsame] at htask
  staged _ hentry := .inl hentry
  succeeded := id

/-- The promises of an operation come after those that are there. -/
theorem narrows_append {promises : List (Task κ)} (hmore : w.promises <+: promises) :
    Narrows w { w with promises } where
  records := rfl
  length := hmore.length_le
  answered _ hanswered := hanswered.prefix hmore
  reversible execution hplace := by
    refine Or.imp_right fun ⟨activity, htask, hours⟩ => ⟨activity, ?_, hours⟩
    obtain ⟨rest, rfl⟩ := hmore
    rwa [List.getElem?_append_left hplace] at htask
  staged _ hentry := .inl hentry
  succeeded := id

/-- An activity after the speculation is not of it, and none of the earlier ones becomes so. -/
theorem narrows_later (activity : Activity κ) :
    Narrows w { w with
      promises := w.promises ++ [activityTask activity]
      ours := some (w.ours.getD w.promises.length) } where
  records := rfl
  length := (List.prefix_append _ _).length_le
  answered _ hanswered := hanswered.prefix (List.prefix_append _ _)
  reversible execution hplace := by
    refine Or.imp_right fun ⟨other, htask, hours⟩ => ⟨other, ?_, ?_⟩
    · rwa [List.getElem?_append_left hplace] at htask
    · simp only [hasCompensation, isOurs, Bool.and_eq_true, decide_eq_true_eq] at hours ⊢
      refine ⟨?_, hours.2⟩
      cases hbound : w.ours with
      | none => rfl
      | some bound =>
        rw [hbound] at hours
        exact decide_eq_true hours.1
  staged _ hentry := .inl hentry
  succeeded := id

theorem narrows_drive {driver : Driver} {before : List Nat} {log : List Entry}
    (hdriver : w.driver = .succeeded → driver = .succeeded) :
    Narrows w { w with driver, before, log } :=
  ⟨rfl, le_rfl, fun _ h => h, fun _ _ h => h, fun _ h => .inl h, hdriver⟩

theorem narrows_recordCompensation {new : Task κ}
    (htask : w.promises[promise]? = some (.running activity)) (hnew : new.hasAnswer = true) :
    Narrows w (setTask (recordCompensation w promise activity) promise new) := by
  have hpending : ∀ activity, new.pending = some activity → False := by
    cases new with
    | resolving _ _ | running _ => cases hnew
    | verifying _ _ | settled _ | outside | all _ | peeking _ | race _ => exact fun _ h => nomatch h
  have hset : Narrows w (setTask w promise new) :=
    narrows_setTask htask (.inl rfl) fun activity h => (hpending activity h).elim
  rw [recordCompensation]
  split_ifs with hours
  · refine ⟨hset.records, hset.length, hset.answered, fun execution hplace hreversible => ?_,
      hset.staged, hset.succeeded⟩
    obtain hmem | hrest := hreversible
    · obtain hold | hpromise := List.mem_append.1 hmem
      · exact .inl hold
      · rw [List.mem_singleton.1 hpromise]
        exact .inr ⟨activity, by rw [htask]; rfl, hours⟩
    · exact hset.reversible execution hplace (.inr hrest)
  · exact hset

theorem narrows_stage {key : κ} (hanswered : Answered w.promises promise) :
    Narrows w (stage w key promise) where
  records := rfl
  length := le_rfl
  answered _ h := h
  reversible _ _ h := h
  staged entry hentry := by
    obtain hold | hnew := List.mem_append.1 hentry
    · exact .inl hold
    · rw [List.mem_singleton.1 hnew]
      exact .inr hanswered
  succeeded := id

theorem narrows_completeActivity (htask : w.promises[promise]? = some (.running activity)) :
    Narrows w (completeActivity w promise activity) := by
  have hset : ∀ new : Task κ, new.hasAnswer = true →
      Narrows w (setTask (recordCompensation w promise activity) promise new) :=
    fun _ hnew => narrows_recordCompensation htask hnew
  rw [completeActivity]
  cases activity.key with
  | none => exact hset _ rfl
  | some key =>
    dsimp only
    split_ifs
    · exact hset _ rfl
    · have hanswered : Answered
          (setTask (recordCompensation w promise activity) promise (.settled true)).promises
          promise := by
        have hrunning : (recordCompensation w promise activity).promises[promise]? =
            some (.running activity) := by
          rw [recordCompensation]
          split_ifs <;> exact htask
        exact answered_set_self hrunning rfl
      exact (hset _ rfl).trans (narrows_stage hanswered)

theorem narrows_reconcile {old : Task κ} (hold : w.promises[promise]? = some old)
    (hnone : old.hasAnswer = false) : Narrows w (reconcile w promise activity) := by
  have hset : Narrows w (setTask w promise (.settled true)) :=
    narrows_setTask hold (.inl hnone) fun _ h => nomatch h
  rw [reconcile]
  split_ifs
  · exact ⟨hset.records, hset.length, hset.answered, hset.reversible, hset.staged, hset.succeeded⟩
  · exact hset

theorem narrows_hear {branch : Nat} {ok : Bool} {task : Task κ}
    (htask : w.promises[promise]? = some task)
    (hhear : hear w promise branch ok task = some w') : Narrows w w' := by
  cases task with
  | all left =>
    simp only [hear] at hhear
    split_ifs at hhear
    all_goals
      cases hhear
      exact narrows_setTask htask (.inl rfl) fun _ hpending => nomatch hpending
  | race branches =>
    simp only [hear] at hhear
    split_ifs at hhear
    cases hhear
    exact narrows_setTask htask (.inl rfl) fun _ hpending => nomatch hpending
  | resolving _ _ | running _ | verifying _ _ | outside | peeking _ | settled _ => cases hhear

theorem narrows_openRace {operations : List (Operation κ)}
    (htask : w.promises[promise]? = some (.peeking operations)) (signal : Bool) :
    Narrows w (openRace w promise operations signal) := by
  have hopen : ∀ promises branches, w.promises <+: promises →
      Narrows w (setTask { w with promises } promise (.race branches)) := by
    intro promises branches hmore
    have hstill : promises[promise]? = some (.peeking operations) := by
      obtain ⟨rest, rfl⟩ := hmore
      rw [List.getElem?_append_left (List.getElem?_eq_some_iff.1 htask).1]
      exact htask
    exact (narrows_append hmore).trans
      (narrows_setTask hstill (.inl rfl) fun _ hpending => nomatch hpending)
  unfold openRace
  split_ifs
  · exact hopen _ _ (List.prefix_append _ _)
  · exact hopen _ _ (prefix_executeSubOperations _ _)

variable [DecidableEq κ]

theorem of_update {records : κ → Option ReconciliationRecord} {key other : κ}
    {record found : ReconciliationRecord}
    (h : Function.update records key (some record) other = some found) :
    found = record ∨ records other = some found := by
  by_cases hsame : other = key
  · subst hsame
    rw [Function.update_self] at h
    exact .inl (Option.some.inj h).symm
  · rw [Function.update_of_ne hsame] at h
    exact .inr h

theorem Stored.putRecord {key : κ} {record : ReconciliationRecord} (h : Stored w)
    (hplaced : ∀ execution, record.execution = some execution → execution < w.promises.length)
    (hkept : w.driver ≠ .succeeded → ∀ execution, record = .completed (some execution) →
      ¬ Reversible w execution) :
    Stored (putRecord w key record) := by
  constructor
  · intro other found execution hfound hexecution
    obtain rfl | hold := of_update hfound
    · exact hplaced execution hexecution
    · exact h.placed other found execution hold hexecution
  · exact h.staged
  · intro hdriver other execution hfound
    obtain hsame | hold := of_update hfound
    · exact hkept hdriver execution hsame.symm
    · exact h.kept hdriver other execution hold

theorem Stored.resolveActivity {key : κ} {verdict : Verdict} (h : Stored w)
    (htask : w.promises[promise]? = some (.resolving activity key))
    (hverified : activity.verify = true → verdict = .completed → ∀ execution,
      w.records key = some (.started (some execution)) → Reversible w execution →
        w.driver = .succeeded) :
    Stored (resolveActivity w promise activity key verdict) := by
  have hplace : promise < w.promises.length := (List.getElem?_eq_some_iff.1 htask).1
  have hstarted : Stored
      (setTask (Speculation.putRecord w key (.started (some promise))) promise
        (.running activity)) := by
    have hput : Stored (Speculation.putRecord w key (.started (some promise))) :=
      h.putRecord (fun _ hexecution => Option.some.inj hexecution ▸ hplace) fun _ _ hsame =>
        nomatch hsame
    exact hput.narrows (narrows_setTask htask (.inl rfl) fun _ hpending => hpending)
  have hrefused : Stored (setTask w promise (.settled false)) :=
    h.narrows (narrows_setTask htask (.inl rfl) fun _ hpending => nomatch hpending)
  unfold Speculation.resolveActivity
  cases hrecord : w.records key with
  | none => exact hstarted
  | some record =>
    cases record with
    | completed execution =>
      have hanswer : Stored { w with log := .answered promise execution :: w.log } :=
        h.narrows (narrows_drive id)
      exact hanswer.narrows (narrows_reconcile htask rfl)
    | started execution =>
      dsimp only
      split_ifs with hverify
      · cases verdict with
        | notCompleted => exact hstarted
        | completed =>
          have hput : Stored (Speculation.putRecord w key (.completed execution)) := by
            refine h.putRecord (fun n hn => h.placed key _ n hrecord hn) ?_
            intro hdriver n hn hreversible
            cases hn
            exact hdriver (hverified hverify rfl n hrecord hreversible)
          exact hput.narrows (narrows_reconcile htask rfl)
        | refused => exact hrefused
      · exact hrefused

/-- A record after a commit was there before, or is a staged completion. -/
theorem stored_or_staged {staged : List (κ × Nat)} {key : κ} {record : ReconciliationRecord}
    {records : κ → Option ReconciliationRecord}
    (h : staged.foldl (fun (records : κ → Option ReconciliationRecord) entry =>
      Function.update records entry.1 (some (.completed (some entry.2)))) records key =
        some record) :
    records key = some record ∨ ∃ entry ∈ staged, record = .completed (some entry.2) := by
  induction staged generalizing records with
  | nil => exact .inl h
  | cons entry rest ih =>
    obtain hfirst | ⟨other, hmem, hother⟩ := ih h
    · obtain hentry | hold := of_update hfirst
      · exact .inr ⟨entry, List.mem_cons_self, hentry⟩
      · exact .inl hold
    · exact .inr ⟨other, List.mem_cons_of_mem entry hmem, hother⟩

theorem Stored.commit (h : Stored w)
    (hok : isAccepted w = true → ∀ entry ∈ w.staged, entry.2 ∈ w.compensations →
      w.driver = .succeeded) :
    Stored (commit w) := by
  rw [Speculation.commit]
  split_ifs with haccepted
  · constructor
    · intro key record execution hrecord hexecution
      obtain hold | ⟨entry, hmem, rfl⟩ := stored_or_staged hrecord
      · exact h.placed key record execution hold hexecution
      · cases hexecution
        exact (h.staged entry hmem).place
    · exact fun _ hmem => nomatch hmem
    · intro hdriver key execution hrecord
      obtain hold | ⟨entry, hmem, hentry⟩ := stored_or_staged hrecord
      · exact h.kept hdriver key execution hold
      · cases hentry
        exact (h.staged entry hmem).not_reversible fun hcompensation =>
          hdriver (hok haccepted entry hmem hcompensation)
  · exact h.narrows ⟨rfl, le_rfl, fun _ h => h, fun _ _ h => h,
      (fun _ hmem => nomatch hmem), id⟩


theorem Stored.step {event : Event κ} (h : Stored w) (hok : Contained w event)
    (hstep : Speculation.step w event = some w') : Stored w' := by
  cases event with
  | yield operation =>
    simp only [Speculation.step] at hstep
    split at hstep
    · rename_i hdriver
      cases hstep
      have hmore := h.narrows (narrows_append (prefix_executeSubOperation w.promises operation))
      exact hmore.narrows (narrows_drive fun hsucceeded => nomatch hdriver.symm.trans hsucceeded)
    · cases hstep
  | «return» =>
    simp only [Speculation.step] at hstep
    split_ifs at hstep with hdriver
    cases hstep
    exact h.narrows (narrows_drive fun hsucceeded => nomatch hdriver.symm.trans hsucceeded)
  | throw =>
    simp only [Speculation.step] at hstep
    split_ifs at hstep with hdriver
    cases hstep
    exact h.narrows (narrows_drive fun hsucceeded => nomatch hdriver.symm.trans hsucceeded)
  | resume =>
    simp only [Speculation.step] at hstep
    split at hstep
    · rename_i hdriver
      split at hstep
      · cases hstep
        exact h.narrows (narrows_drive fun hsucceeded => nomatch hdriver.symm.trans hsucceeded)
      · cases hstep
    · cases hstep
  | drain ok =>
    simp only [Speculation.step] at hstep
    split_ifs at hstep with hdriver hfailed
    · cases hstep
      exact h.narrows (narrows_drive fun _ => rfl)
    · cases hstep
      exact h.narrows (narrows_drive fun hsucceeded => nomatch hdriver.symm.trans hsucceeded)
  | compensate =>
    simp only [Speculation.step] at hstep
    split at hstep
    · rename_i hdriver
      split at hstep
      · cases hstep
        exact h.narrows (narrows_drive fun hsucceeded => nomatch hdriver.symm.trans hsucceeded)
      · cases hstep
    · cases hstep
  | rolledBack =>
    simp only [Speculation.step] at hstep
    split_ifs at hstep with hdriver
    cases hstep
    exact h.narrows (narrows_drive fun hsucceeded => nomatch hdriver.symm.trans hsucceeded)
  | resolve promise verdict =>
    simp only [Speculation.step] at hstep
    split at hstep
    · rename_i activity key htask
      cases hstep
      exact h.resolveActivity htask (hok activity key htask).2
    · cases hstep
  | complete promise =>
    simp only [Speculation.step] at hstep
    split at hstep
    · rename_i activity htask
      cases hstep
      exact h.narrows (narrows_completeActivity htask)
    · cases hstep
  | reject promise =>
    simp only [Speculation.step] at hstep
    split at hstep
    case h_5 => cases hstep
    all_goals
      rename_i htask
      cases hstep
      exact h.narrows (narrows_setTask htask (.inr rfl) fun _ hpending => nomatch hpending)
  | verified promise ok =>
    simp only [Speculation.step] at hstep
    split at hstep
    · rename_i key htask
      cases hstep
      have hset : ∀ ok, Narrows w (setTask w promise (.settled ok)) :=
        fun _ => narrows_setTask htask (.inr rfl) fun _ hpending => nomatch hpending
      cases ok with
      | true => exact h.narrows ((hset true).trans (narrows_stage (answered_set_self htask rfl)))
      | false => exact h.narrows (hset false)
    · cases hstep
  | fulfil promise =>
    simp only [Speculation.step] at hstep
    split at hstep
    case h_3 => cases hstep
    all_goals
      rename_i htask
      cases hstep
      exact h.narrows (narrows_setTask htask (.inr rfl) fun _ hpending => nomatch hpending)
  | hear promise branch =>
    simp only [Speculation.step] at hstep
    split at hstep
    · rename_i htask _
      exact h.narrows (narrows_hear htask hstep)
    · cases hstep
  | openRace promise signal =>
    simp only [Speculation.step] at hstep
    split at hstep
    · rename_i operations htask
      cases hstep
      exact h.narrows (narrows_openRace htask signal)
    · cases hstep
  | commit =>
    simp only [Speculation.step] at hstep
    cases hstep
    exact h.commit hok
  | later activity =>
    simp only [Speculation.step] at hstep
    split_ifs at hstep
    cases hstep
    exact h.narrows (narrows_later activity)

end Weft.Speculation
