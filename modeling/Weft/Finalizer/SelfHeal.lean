import Weft.Finalizer.Claims

/-! The timers of a finalizer. Where a drive that gives up gets its timer written, and a dead letter
for missing state is not overtaken by another claim, a marker that is stored has a timer row. -/

namespace Weft.Finalizer
open Weft.Lib

def owedToken (w : World) : Option Nat :=
  match w.marker with
  | some (.claim claim) => some claim.token
  | _ => none

def DriveStage.inProgress : DriveStage → Bool
  | .returned => false
  | .done => false
  | _ => true

/-- A marker that is stored has a timer row, or a drive that holds the row which had fired. -/
def Driven (w : World) : Prop :=
  ∀ token, owedToken w = some token → (∃ row ∈ w.timers, row.token = token) ∨
    ∃ d ∈ w.drives, d.stage.inProgress = true ∧ d.row.token = token

def DriveStage.rearms : DriveStage → Bool
  | .rearming _ => true
  | _ => false

def DriveStage.missing : DriveStage → Option TeardownClaim
  | .deadLetterMissingState claim => some claim
  | _ => none

/-- As long as its marker is stored, the write of a drive that arms its timer again takes place, and
a dead letter for missing finalizer state that is answered finds the claim it has read. -/
def Heals (w : World) : Event → Prop
  | .drive place reply _ _ => ∀ d ∈ w.drives[place]?, owedToken w = some d.row.token →
      (d.stage.rearms = true → reply ≠ .lost) ∧
      ∀ c ∈ d.stage.missing, reply = .ok → w.marker = some (.claim c)
  | _ => True

instance Heals.decidable (w : World) (event : Event) : Decidable (Heals w event) := by
  cases event <;> simp only [Heals] <;> infer_instance

/-- When the timer that a drive is about to write will fire. -/
def DriveStage.fireAt : DriveStage → Option Nat
  | .settleAborted _ fireAt => some fireAt
  | .settleFailure _ fireAt => some fireAt
  | .rearming fireAt => some fireAt
  | _ => none

/-- A drive that has returned leaves a later row behind, which is not the one that is deleted. -/
structure Covered (w : World) : Prop where
  due : ∀ d ∈ w.drives, d.row.fireAt ≤ w.now
  later : ∀ d ∈ w.drives, ∀ fireAt ∈ d.stage.fireAt, d.row.fireAt < fireAt
  returned : ∀ d ∈ w.drives, d.stage = .returned → owedToken w = some d.row.token →
    ∃ row ∈ w.timers, row.token = d.row.token ∧ d.row.fireAt < row.fireAt
  stored : ∀ token, owedToken w = some token → ∃ row ∈ w.timers, row.token = token

theorem teardownBackoff_pos (failedAttempt : Nat) : 0 < teardownBackoff failedAttempt := by
  unfold teardownBackoff teardownBackoffSchedule
  split
  · decide
  · rename_i index
    match index with
    | 0 => decide
    | 1 => decide
    | 2 => decide
    | 3 => decide
    | n + 4 => simp

namespace Covered

variable {timeout : Option Nat} {w : World}

theorem driven (h : Covered w) : Driven w := fun token htoken => .inl (h.stored token htoken)

theorem initial : Covered ({} : World) where
  due := fun _ hd => (by cases hd)
  later := fun _ hd => (by cases hd)
  returned := fun _ hd => (by cases hd)
  stored := fun _ ht => (by cases ht)

variable {place : Nat} {d : Drive}

section

variable (h : Covered w)

include h

section

variable (hd : w.drives[place]? = some d)

include hd

/-- A drive goes on, timers are only added, and the marker keeps its token or goes. -/
theorem advance (w' : World) (hnow : w'.now = w.now) (hdrives : w'.drives = w.drives)
    (htimers : ∀ row ∈ w.timers, row ∈ w'.timers)
    (howed : ∀ token, owedToken w' = some token → owedToken w = some token) (stage : DriveStage)
    (hlater : ∀ fireAt ∈ stage.fireAt, d.row.fireAt < fireAt)
    (hreturned : stage = .returned → owedToken w' = some d.row.token →
      ∃ row ∈ w'.timers, row.token = d.row.token ∧ d.row.fireAt < row.fireAt) :
    Covered (setDrive w' place d stage) := by
  have hmem := List.mem_of_getElem? hd
  have hsplit : ∀ d' ∈ (setDrive w' place d stage).drives,
      d' ∈ w.drives ∨ d' = { d with stage := stage } := by
    intro d' hd'
    rw [← hdrives]
    exact List.mem_or_eq_of_mem_set hd'
  refine ⟨?_, ?_, ?_, ?_⟩
  · intro d' hd'
    change d'.row.fireAt ≤ w'.now
    rw [hnow]
    obtain hin | rfl := hsplit d' hd'
    · exact h.due d' hin
    · exact h.due d hmem
  · intro d' hd'
    obtain hin | rfl := hsplit d' hd'
    · exact h.later d' hin
    · exact hlater
  · intro d' hd' hstage htoken
    obtain hin | rfl := hsplit d' hd'
    · obtain ⟨row, hrow, hrest⟩ := h.returned d' hin hstage (howed _ htoken)
      exact ⟨row, htimers row hrow, hrest⟩
    · exact hreturned hstage htoken
  · intro token htoken
    obtain ⟨row, hrow, heq⟩ := h.stored token (howed token htoken)
    exact ⟨row, htimers row hrow, heq⟩

/-- A drive goes on and does not return. -/
theorem proceed (stage : DriveStage) (hlater : ∀ fireAt ∈ stage.fireAt, d.row.fireAt < fireAt)
    (hstage : stage ≠ .returned) : Covered (setDrive w place d stage) :=
  h.advance hd _ rfl rfl (fun _ hrow => hrow) (fun _ ht => ht) stage hlater
    (fun heq => absurd heq hstage)

/-- A drive returns where its token is owed no more. -/
theorem leave (hgone : owedToken w ≠ some d.row.token) : Covered (setDrive w place d .returned) :=
  h.advance hd _ rfl rfl (fun _ hrow => hrow) (fun _ ht => ht) .returned
    (fun _ hf => (by cases hf)) (fun _ ht => absurd ht hgone)

/-- A conditional batch, after which a drive that returns is covered. -/
theorem settleOn {expectedBytes : MarkerBytes} (reply : Reply) {write : World → World}
    {settled lost : DriveStage} (hnow : (write w).now = w.now)
    (hdrives : (write w).drives = w.drives) (htimers : ∀ row ∈ w.timers, row ∈ (write w).timers)
    (howed : w.marker = some expectedBytes → ∀ token, owedToken (write w) = some token →
      owedToken w = some token)
    (hsettledLater : settled.fireAt = none) (hlostLater : lost.fireAt = none)
    (hsettled : settled = .returned → owedToken (write w) = some d.row.token →
      ∃ row ∈ (write w).timers, row.token = d.row.token ∧ d.row.fireAt < row.fireAt)
    (hlost : lost = .returned → reply = .ok → owedToken w = some d.row.token →
      w.marker = some expectedBytes) :
    Covered (settleOn w place d expectedBytes reply write settled lost) := by
  have hnone : ∀ stage : DriveStage, stage.fireAt = none →
      ∀ fireAt ∈ stage.fireAt, d.row.fireAt < fireAt := by
    intro stage hnone fireAt hf
    rw [hnone] at hf
    cases hf
  have hrearm : DriveStage.rearm ≠ .returned := by decide
  unfold Finalizer.settleOn
  by_cases hm : w.marker = some expectedBytes
  · cases reply with
    | lost => exact h.proceed hd .rearm (hnone _ rfl) hrearm
    | applied =>
      simp only [hm]
      exact h.advance hd _ hnow hdrives htimers (howed hm) .rearm (hnone _ rfl)
        (fun heq => absurd heq hrearm)
    | ok =>
      simp only [hm]
      exact h.advance hd _ hnow hdrives htimers (howed hm) settled (hnone _ hsettledLater) hsettled
  · simp only [hm, and_false, if_false]
    by_cases hok : reply = .ok
    · simp only [hok, if_true]
      exact h.advance hd _ rfl rfl (fun _ hrow => hrow) (fun _ ht => ht) lost (hnone _ hlostLater)
        (fun heq ht => absurd (hlost heq hok ht) hm)
    · simp only [hok, if_false]
      exact h.proceed hd .rearm (hnone _ rfl) hrearm

end

theorem driveStep (hinv : Inv timeout w) (hd : w.drives[place]? = some d) {reply : Reply}
    {eligible registered : Bool} (hok : Heals w (.drive place reply eligible registered))
    {w' : World} (hstep : driveStep timeout w place d reply eligible registered = some w') :
    Covered w' := by
  have hmem := List.mem_of_getElem? hd
  have hheals := hok d hd
  have hkept : ∀ row ∈ w.timers, row ∈ w.timers := fun _ hrow => hrow
  have hpass : ∀ stage : DriveStage, stage.fireAt = none → stage ≠ .returned →
      Covered (setDrive w place d stage) := by
    intro stage hnone hstage
    refine h.proceed hd stage ?_ hstage
    intro fireAt hf
    rw [hnone] at hf
    cases hf
  rw [Finalizer.driveStep] at hstep
  split at hstep
  · -- readMarker
    split at hstep
    · cases hstep
      exact hpass .rearm rfl (by decide)
    · split at hstep
      · rename_i hmarker
        cases hstep
        exact h.leave hd (by simp [owedToken, hmarker])
      · cases hstep
        exact hpass (.clear _) rfl (by simp)
      · rename_i c hmarker
        split at hstep
        · cases hstep
          exact hpass (.loadWorkflowState c) rfl (by simp)
        · rename_i htoken
          cases hstep
          exact h.leave hd (by simpa [owedToken, hmarker] using htoken)
  · -- clear
    cases hstep
    exact h.settleOn hd reply rfl rfl hkept (fun _ _ ht => (by cases ht)) rfl rfl
      (fun _ ht => (by cases ht)) (fun heq => (by cases heq))
  · -- loadWorkflowState
    repeat' split at hstep
    all_goals cases hstep
    · exact hpass .rearm rfl (by decide)
    · exact hpass (.resolve _) rfl (by simp)
    · exact hpass (.clear _) rfl (by simp)
  · -- resolve
    split at hstep
    all_goals cases hstep
    · exact hpass (.readFinalizerState _) rfl (by simp)
    · exact hpass .rearm rfl (by decide)
  · -- readFinalizerState
    repeat' split at hstep
    all_goals cases hstep
    · exact hpass .rearm rfl (by decide)
    · exact hpass (.encodeRunning _) rfl (by simp)
    · exact hpass (.deadLetterMissingState _) rfl (by simp)
  · -- deadLetterMissingState
    rename_i c hstage
    cases hstep
    exact h.settleOn hd reply rfl rfl hkept (fun _ _ ht => (by cases ht)) rfl rfl
      (fun _ ht => (by cases ht))
      (fun _ hreply ht => (hheals ht).2 c (by rw [hstage]; rfl) hreply)
  · -- encodeRunning
    cases hstep
    exact hpass (.claimMarker _ _) rfl (by simp)
  · -- claimMarker
    rename_i c r hstage
    cases hstep
    refine h.settleOn hd reply rfl rfl hkept ?_ rfl rfl (fun heq => (by cases heq))
      (fun heq => (by cases heq))
    intro hm token ht
    have hread : c.token = d.row.token := hinv.reads d hmem c (by rw [hstage]; rfl)
    have hrow : r.token = d.row.token := (hinv.prepared d hmem (c, r) (by rw [hstage]; rfl)).1
    have heq : r.token = token := Option.some.inj ht
    rw [owedToken, hm]
    exact congrArg some (hread.trans (hrow.symm.trans heq))
  · -- claimed
    cases hstep
    exact hpass (.attempting _) rfl (by simp)
  · -- settleSuccess
    cases hstep
    exact h.settleOn hd reply rfl rfl hkept (fun _ _ ht => (by cases ht)) rfl rfl
      (fun _ ht => (by cases ht)) (fun heq => (by cases heq))
  · -- settleAborted
    rename_i r fireAt hstage
    cases hstep
    have hlater := h.later d hmem fireAt (by rw [hstage]; rfl)
    have htoken := (hinv.held d hmem r (by rw [hstage]; rfl)).1
    refine h.settleOn hd reply rfl rfl (fun _ hrow => List.mem_cons_of_mem _ hrow) ?_ rfl rfl
      (fun _ _ => ⟨_, List.mem_cons_self, rfl, hlater⟩) (fun heq => (by cases heq))
    intro hm token ht
    rw [owedToken, hm]
    exact (congrArg some htoken).trans ht
  · -- settleFailure
    rename_i r fireAt hstage
    cases hstep
    have hlater := h.later d hmem fireAt (by rw [hstage]; rfl)
    have htoken := (hinv.held d hmem r (by rw [hstage]; rfl)).1
    refine h.settleOn hd reply rfl rfl (fun _ hrow => List.mem_cons_of_mem _ hrow) ?_ rfl rfl
      (fun _ _ => ⟨_, List.mem_cons_self, rfl, hlater⟩) (fun heq => (by cases heq))
    intro hm token ht
    rw [owedToken, hm]
    exact (congrArg some htoken).trans ht
  · -- readForDeadLetter
    split at hstep
    all_goals cases hstep
    · exact hpass .rearm rfl (by decide)
    · exact hpass (.deadLetter _) rfl (by simp)
  · -- deadLetter
    cases hstep
    exact h.settleOn hd reply rfl rfl hkept (fun _ _ ht => (by cases ht)) rfl rfl
      (fun _ ht => (by cases ht)) (fun heq => (by cases heq))
  · -- rearm
    cases hstep
    refine h.proceed hd (.rearming _) ?_ (by simp)
    intro fireAt hf
    cases hf
    have hdue := h.due d hmem
    rw [teardownSelfHealDelay]
    omega
  · -- rearming
    rename_i fireAt hstage
    cases hstep
    have hlater := h.later d hmem fireAt (by rw [hstage]; rfl)
    split
    · exact h.advance hd { w with timers := ⟨d.row.token, fireAt⟩ :: w.timers } rfl rfl
        (fun _ hrow => List.mem_cons_of_mem _ hrow) (fun _ ht => ht) .returned
        (fun _ hf => (by cases hf)) (fun _ _ => ⟨_, List.mem_cons_self, rfl, hlater⟩)
    · rename_i hlost
      apply h.leave hd
      intro ht
      exact hlost ((hheals ht).1 (by rw [hstage]; rfl))
  · cases hstep

theorem finishStep (hd : w.drives[place]? = some d) {result : AttemptResult} {w' : World}
    (hstep : finishStep w place d result = some w') : Covered w' := by
  have hdue := h.due d (List.mem_of_getElem? hd)
  rw [Finalizer.finishStep] at hstep
  split at hstep
  · rename_i r hstage
    split at hstep
    · cases hstep
      exact h.proceed hd _ (fun _ hf => (by cases hf)) (by simp)
    · cases hstep
      refine h.proceed hd _ ?_ (by simp)
      intro fireAt hf
      cases hf
      rw [teardownSelfHealDelay]
      omega
    · simp only at hstep
      split at hstep
      · cases hstep
        exact h.proceed hd _ (fun _ hf => (by cases hf)) (by simp)
      · cases hstep
        refine h.proceed hd _ ?_ (by simp)
        intro fireAt hf
        cases hf
        have hpos := teardownBackoff_pos (r.attempts + 1)
        omega
  · cases hstep

/-- The scheduler deletes the row of a drive that has returned. -/
theorem deleteFired (hd : w.drives[place]? = some d) (hstage : d.stage = .returned) :
    Covered { setDrive w place d .done with timers := w.timers.filter (· ≠ d.row) } := by
  have hmem := List.mem_of_getElem? hd
  -- a row that goes has a later one of its token, which stays
  have hstay : ∀ row ∈ w.timers, owedToken w = some row.token →
      ∃ row' ∈ w.timers.filter (· ≠ d.row), row'.token = row.token ∧ row.fireAt ≤ row'.fireAt := by
    intro row hrow htoken
    by_cases heq : row = d.row
    · subst heq
      obtain ⟨row', hrow', htoken', hlater⟩ := h.returned d hmem hstage htoken
      refine ⟨row', List.mem_filter.2 ⟨hrow', ?_⟩, htoken', Nat.le_of_lt hlater⟩
      simp only [ne_eq, decide_not, Bool.not_eq_true', decide_eq_false_iff_not]
      rintro rfl
      exact Nat.lt_irrefl _ hlater
    · exact ⟨row, List.mem_filter.2 ⟨hrow, by simpa using heq⟩, rfl, Nat.le_refl _⟩
  have hset := h.proceed hd .done (fun _ hf => (by cases hf)) (by decide)
  exact { hset with
    returned := by
      intro d' hd' hstage' htoken
      obtain ⟨row, hrow, heq, hlater⟩ := hset.returned d' hd' hstage' htoken
      obtain ⟨row', hrow', heq', hle⟩ := hstay row hrow (heq ▸ htoken)
      exact ⟨row', hrow', heq'.trans heq, Nat.lt_of_lt_of_le hlater hle⟩
    stored := by
      intro token htoken
      obtain ⟨row, hrow, rfl⟩ := h.stored token htoken
      obtain ⟨row', hrow', heq', -⟩ := hstay row hrow htoken
      exact ⟨row', hrow', heq'⟩ }

theorem step (hinv : Inv timeout w) {event : Event} {w' : World} (hok : Heals w event)
    (hstep : (finalizerMachine timeout).step w event = some w') : Covered w' := by
  cases event with
  | tick delay =>
    cases hstep
    exact { h with due := fun d hd => Nat.le_trans (h.due d hd) (Nat.le_add_right _ _) }
  | terminate token =>
    simp only [finalizerMachine] at hstep
    split at hstep
    · cases hstep
    · rename_i hnew
      cases hstep
      exact { h with
        returned := by
          intro d hd _ htoken
          refine absurd ?_ hnew
          rw [show token = d.row.token from Option.some.inj htoken]
          exact hinv.driveRows d hd
        stored := by
          intro token' htoken
          cases htoken
          exact ⟨_, List.mem_cons_self, rfl⟩ }
  | loseFinalizerState =>
    cases hstep
    exact { h with }
  | fire row =>
    simp only [finalizerMachine] at hstep
    split at hstep
    · rename_i hfire
      cases hstep
      have hsplit : ∀ d ∈ w.drives ++ [⟨row, .readMarker⟩],
          d ∈ w.drives ∨ d = ⟨row, .readMarker⟩ := by
        intro d hd
        exact (List.mem_append.1 hd).imp_right List.mem_singleton.1
      exact { h with
        due := by
          intro d hd
          obtain hold | rfl := hsplit d hd
          · exact h.due d hold
          · exact hfire.2
        later := by
          intro d hd fireAt hf
          obtain hold | rfl := hsplit d hd
          · exact h.later d hold fireAt hf
          · cases hf
        returned := by
          intro d hd hstage htoken
          obtain hold | rfl := hsplit d hd
          · exact h.returned d hold hstage htoken
          · cases hstage }
    · cases hstep
  | drive place reply eligible registered =>
    obtain ⟨d, hd, hdrive⟩ := Option.bind_eq_some_iff.1 hstep
    exact h.driveStep hinv hd hok hdrive
  | finish place result =>
    obtain ⟨d, hd, hfinish⟩ := Option.bind_eq_some_iff.1 hstep
    exact h.finishStep hd hfinish
  | crash place =>
    obtain ⟨d, hd, rfl⟩ := Option.map_eq_some_iff.1 hstep
    exact h.proceed hd .done (fun _ hf => (by cases hf)) (by decide)
  | deleteFired place =>
    obtain ⟨d, hd, hdelete⟩ := Option.bind_eq_some_iff.1 hstep
    split at hdelete
    · rename_i hstage
      cases hdelete
      exact h.deleteFired hd hstage
    · cases hdelete

end

end Covered

/-- In every run whose steps meet the condition. -/
theorem finalizer_driven (timeout : Option Nat) {run : List Event}
    (hok : (finalizerMachine timeout).EveryStep Heals {} run) :
    (finalizerMachine timeout).EveryState Driven {} run := by
  apply Machine.EveryState.mono fun w (h : Inv timeout w ∧ Covered w) => h.2.driven
  refine Machine.everyState_of_invariant ?_ ⟨Inv.initial, Covered.initial⟩ hok
  intro w event w' h hok hstep
  exact ⟨h.1.step hstep, h.2.step h.1 hok hstep⟩

/-- An engine without the finalizer gives up, and the write of its timer fails. -/
def rearmLost : List Event :=
  [.terminate 1, .fire ⟨1, 0⟩, .drive 0 .ok true false, .drive 0 .ok true false,
    .drive 0 .ok true false, .drive 0 .ok true false, .drive 0 .lost true false, .deleteFired 0]

theorem finalizer_stranded : ¬ (finalizerMachine none).EveryState Driven {} rearmLost := by
  intro h
  have hdriven := h.final 1 (by decide)
  revert hdriven
  decide

/-- Two drives of one row, of which one fails its attempt and the other gives up, and the next one
succeeds. -/
def healedRun : List Event :=
  [.terminate 1, .fire ⟨1, 0⟩, .fire ⟨1, 0⟩, .drive 0 .ok true true, .drive 0 .ok true true,
    .drive 0 .ok true true, .drive 0 .ok true true, .drive 0 .ok true true, .drive 0 .ok true true,
    .drive 0 .ok true true, .drive 1 .ok true true, .drive 1 .ok true true, .drive 1 .ok true true,
    .drive 1 .ok true true, .drive 1 .ok true true, .deleteFired 1, .finish 0 .failed,
    .drive 0 .ok true true, .deleteFired 0, .tick 60000, .fire ⟨1, 60000⟩, .drive 2 .ok true true,
    .drive 2 .ok true true, .drive 2 .ok true true, .drive 2 .ok true true, .drive 2 .ok true true,
    .drive 2 .ok true true, .drive 2 .ok true true, .finish 2 .ok, .drive 2 .ok true true,
    .deleteFired 2]

theorem healed_driven : (finalizerMachine none).EveryState Driven {} healedRun :=
  finalizer_driven none (by decide +kernel)

end Weft.Finalizer
