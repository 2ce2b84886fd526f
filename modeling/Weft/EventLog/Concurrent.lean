import Weft.EventLog.Integrity
import Weft.Storage.Cursor

/-! `verifyEventLog` read by read, with commits in between. A commit moves the head, so that a
pass that fails over it is repeated, and no honest log is reported as broken. -/

namespace Weft.EventLog
open Weft.Js Weft.Storage Weft.Lib Weft.Lib.HashChain

universe u

/-! ## The verifier -/

/-- Where the verifier stands. `attempts` counts the attempts after the current one. -/
inductive VerifyPhase (V R : Type u) where
  | readWatermark (attempts : Nat)
  | readHead (attempts : Nat) (watermark : Option (EventLogWatermark R))
  | openScan (attempts : Nat) (watermark : Option (EventLogWatermark R)) (head : EventHeadRecord)
  | scanning (attempts : Nat) (watermark : Option (EventLogWatermark R)) (head : EventHeadRecord)
      (cursor : ScanCursor V) (chain : ScannedChain)
  | rereadWatermark (attempts : Nat) (watermark : Option (EventLogWatermark R))
      (head : EventHeadRecord) (firstInvalidSequence : Int)
  | rereadHead (attempts : Nat) (watermark : Option (EventLogWatermark R))
      (head : EventHeadRecord) (firstInvalidSequence : Int)
      (watermarkAfter : Option (EventLogWatermark R))
  | done (result : VerifyResult)
deriving DecidableEq

variable {V P T R : Type u}

def nextAttempt : Nat → VerifyPhase V R
  | 0 => .done .indeterminate
  | attempts + 1 => .readWatermark attempts

def passEnded (attempts : Nat) (watermark : Option (EventLogWatermark R)) (head : EventHeadRecord) :
    VerifyPass → VerifyPhase V R
  | .ok => .done .valid
  | .invalid sequence => .rereadWatermark attempts watermark head sequence

section

variable (codec : LogCodec V P T R) (mode : ScanMode) (id : Component)

/-- One read of the verifier, and what it does until the next one. -/
def verifyStep (s : Store V) : VerifyPhase V R → Option (VerifyPhase V R)
  | .readWatermark attempts => some (.readHead attempts (readEventLogWatermark codec s id))
  | .readHead attempts watermark => some (.openScan attempts watermark (readEventHead codec s id))
  | .openScan attempts watermark head =>
    some (.scanning attempts watermark head
      (Storage.openScan mode s (KEYS.eventPrefix id) (snapshotOptions id watermark))
      (startChain (snapshotSeed watermark)))
  | .scanning attempts watermark head cursor chain =>
    match cursor.next s (KEYS.eventPrefix id) (snapshotOptions id watermark) with
    | none => some (passEnded attempts watermark head (finishPass watermark head chain))
    | some (row, cursor') =>
      match scanRow codec (expectedFirst watermark) chain row.2 with
      | .error sequence => some (passEnded attempts watermark head (.invalid sequence))
      | .ok chain' => some (.scanning attempts watermark head cursor' chain')
  | .rereadWatermark attempts watermark head sequence =>
    some (.rereadHead attempts watermark head sequence (readEventLogWatermark codec s id))
  | .rereadHead attempts watermark head sequence watermarkAfter =>
    if watermarkMoved watermark watermarkAfter || headMoved head (readEventHead codec s id) then
      some (nextAttempt attempts)
    else some (.done (.invalid sequence))
  | .done _ => none

structure VerifierState (V R : Type u) where
  store : Store V
  phase : VerifyPhase V R

inductive VerifierLabel (P T : Type u) where
  /-- Any workflow commits a checkpoint. -/
  | commit (commit : LogCommit P T)
  | verify

def verifierMachine : Machine (VerifierState V R) (VerifierLabel P T) where
  step state
    | .commit commit => (commitCheckpoint codec state.store commit).map fun t => ⟨t, state.phase⟩
    | .verify => (verifyStep codec mode id state.store state.phase).map fun phase =>
        ⟨state.store, phase⟩

def verifierStart (s : Store V) : VerifierState V R := ⟨s, nextAttempt MAX_ATTEMPTS⟩

/-! ## The verifier alone -/

/-- What follows a pass, if nobody commits any more. -/
def afterPass (s : Store V) (attempts : Nat) (watermark : Option (EventLogWatermark R))
    (head : EventHeadRecord) : VerifyPass → VerifyResult
  | .ok => .valid
  | .invalid sequence =>
    if watermarkMoved watermark (readEventLogWatermark codec s id) ||
        headMoved head (readEventHead codec s id) then verifyAttempts codec s id attempts
    else .invalid sequence

/-- A pass over the rows that are left. -/
def passFrom (watermark : Option (EventLogWatermark R)) (head : EventHeadRecord) (rows : List V)
    (chain : ScannedChain) : VerifyPass :=
  match rows.foldlM (scanRow codec (expectedFirst watermark)) chain with
  | .error sequence => .invalid sequence
  | .ok chain => finishPass watermark head chain

/-- What the verifier ends with, if nobody commits any more. -/
def outcome (s : Store V) : VerifyPhase V R → VerifyResult
  | .readWatermark attempts => verifyAttempts codec s id (attempts + 1)
  | .readHead attempts watermark =>
    afterPass codec id s attempts watermark (readEventHead codec s id)
      (verifyAgainstSnapshot codec s id watermark (readEventHead codec s id))
  | .openScan attempts watermark head =>
    afterPass codec id s attempts watermark head (verifyAgainstSnapshot codec s id watermark head)
  | .scanning attempts watermark head cursor chain =>
    afterPass codec id s attempts watermark head (passFrom codec watermark head
      ((cursor.pending s (KEYS.eventPrefix id) (snapshotOptions id watermark)).map (·.2)) chain)
  | .rereadWatermark attempts watermark head sequence =>
    afterPass codec id s attempts watermark head (.invalid sequence)
  | .rereadHead attempts watermark head sequence watermarkAfter =>
    if watermarkMoved watermark watermarkAfter || headMoved head (readEventHead codec s id) then
      verifyAttempts codec s id attempts
    else .invalid sequence
  | .done result => result

/-- A bound for the reads that are left, if nobody commits any more. -/
def stepsLeft (s : Store V) : VerifyPhase V R → Nat
  | .readWatermark attempts => attempts * (s.entries.length + 6) + (s.entries.length + 6)
  | .readHead attempts _ => attempts * (s.entries.length + 6) + (s.entries.length + 5)
  | .openScan attempts _ _ => attempts * (s.entries.length + 6) + (s.entries.length + 4)
  | .scanning attempts watermark _ cursor _ => attempts * (s.entries.length + 6) +
      ((cursor.pending s (KEYS.eventPrefix id) (snapshotOptions id watermark)).length + 3)
  | .rereadWatermark attempts _ _ _ => attempts * (s.entries.length + 6) + 2
  | .rereadHead attempts _ _ _ _ => attempts * (s.entries.length + 6) + 1
  | .done _ => 0

end

variable {codec : LogCodec V P T R} {mode : ScanMode} {id : Component} {s t : Store V}

theorem verifyAttempts_succ (s : Store V) (attempts : Nat) :
    verifyAttempts codec s id (attempts + 1) =
      afterPass codec id s attempts (readEventLogWatermark codec s id) (readEventHead codec s id)
        (verifyAgainstSnapshot codec s id (readEventLogWatermark codec s id)
          (readEventHead codec s id)) := by
  rw [verifyAttempts]
  cases verifyAgainstSnapshot codec s id (readEventLogWatermark codec s id)
      (readEventHead codec s id) with
  | ok => rfl
  | invalid sequence => rfl

theorem outcome_nextAttempt (s : Store V) (attempts : Nat) :
    outcome codec id s (nextAttempt attempts) = verifyAttempts codec s id attempts := by
  cases attempts with
  | zero => rfl
  | succ attempts => rfl

theorem outcome_passEnded (s : Store V) (attempts : Nat) (watermark : Option (EventLogWatermark R))
    (head : EventHeadRecord) (pass : VerifyPass) :
    outcome codec id s (passEnded attempts watermark head pass) =
      afterPass codec id s attempts watermark head pass := by
  cases pass with
  | ok => rfl
  | invalid sequence => rfl

theorem pending_snapshot (s : Store V) (watermark : Option (EventLogWatermark R)) :
    (Storage.openScan mode s (KEYS.eventPrefix id) (snapshotOptions id watermark)).pending s
      (KEYS.eventPrefix id) (snapshotOptions id watermark) =
        scan s (KEYS.eventPrefix id) (snapshotOptions id watermark) :=
  ScanCursor.pending_openScan rfl rfl mode

variable {phase phase' : VerifyPhase V R}

/-- Reading does not change what the verifier ends with. -/
theorem outcome_step (h : verifyStep codec mode id s phase = some phase') :
    outcome codec id s phase' = outcome codec id s phase := by
  cases phase with
  | readWatermark attempts =>
    cases h
    exact (verifyAttempts_succ s attempts).symm
  | readHead attempts watermark =>
    cases h
    rfl
  | openScan attempts watermark head =>
    cases h
    simp only [outcome, pending_snapshot]
    rfl
  | scanning attempts watermark head cursor chain =>
    rw [outcome, passFrom]
    simp only [verifyStep] at h
    cases hnext : cursor.next s (KEYS.eventPrefix id) (snapshotOptions id watermark) with
    | none =>
      rw [hnext] at h
      cases h
      rw [outcome_passEnded, ScanCursor.pending_of_next_none hnext]
      rfl
    | some found =>
      rw [hnext] at h
      rw [ScanCursor.pending_of_next rfl rfl hnext, List.map_cons, List.foldlM_cons]
      simp only at h
      cases hrow : scanRow codec (expectedFirst watermark) chain found.1.2 with
      | error sequence =>
        rw [hrow] at h
        cases h
        exact outcome_passEnded s attempts watermark head _
      | ok chain' =>
        rw [hrow] at h
        cases h
        rfl
  | rereadWatermark attempts watermark head sequence =>
    cases h
    rfl
  | rereadHead attempts watermark head sequence watermarkAfter =>
    rw [outcome]
    simp only [verifyStep] at h
    split_ifs at h ⊢
    · cases h
      exact outcome_nextAttempt s attempts
    · cases h
      rfl
  | done result => cases h

theorem length_scan_le (s : Store V) (watermark : Option (EventLogWatermark R)) :
    (scan s (KEYS.eventPrefix id) (snapshotOptions id watermark)).length ≤ s.entries.length := by
  rw [scan_unlimited _ _ _ rfl rfl]
  exact List.length_filter_le _ _

theorem stepsLeft_passEnded (s : Store V) (attempts : Nat)
    (watermark : Option (EventLogWatermark R)) (head : EventHeadRecord) (pass : VerifyPass) :
    stepsLeft id s (passEnded attempts watermark head pass) ≤
      attempts * (s.entries.length + 6) + 2 := by
  cases pass with
  | ok => exact Nat.zero_le _
  | invalid sequence => exact le_refl _

theorem stepsLeft_step (h : verifyStep codec mode id s phase = some phase') :
    stepsLeft id s phase' < stepsLeft id s phase := by
  cases phase with
  | readWatermark attempts | readHead attempts watermark =>
    cases h
    simp only [stepsLeft]
    omega
  | openScan attempts watermark head =>
    cases h
    have hle : (scan s (KEYS.eventPrefix id) _).length ≤ _ := length_scan_le s watermark
    simp only [stepsLeft, pending_snapshot]
    omega
  | scanning attempts watermark head cursor chain =>
    simp only [verifyStep] at h
    cases hnext : cursor.next s (KEYS.eventPrefix id) (snapshotOptions id watermark) with
    | none =>
      rw [hnext] at h
      cases h
      refine (stepsLeft_passEnded s attempts watermark head _).trans_lt ?_
      simp only [stepsLeft]
      omega
    | some found =>
      rw [hnext] at h
      have hpending := ScanCursor.pending_of_next rfl rfl hnext
      simp only at h
      cases hrow : scanRow codec (expectedFirst watermark) chain found.1.2 with
      | error sequence =>
        rw [hrow] at h
        cases h
        refine (stepsLeft_passEnded s attempts watermark head _).trans_lt ?_
        simp only [stepsLeft]
        omega
      | ok chain' =>
        rw [hrow] at h
        cases h
        simp only [stepsLeft, hpending, List.length_cons]
        omega
  | rereadWatermark attempts watermark head sequence =>
    cases h
    simp only [stepsLeft]
    omega
  | rereadHead attempts watermark head sequence watermarkAfter =>
    simp only [verifyStep] at h
    split_ifs at h
    · cases h
      cases attempts with
      | zero => exact Nat.succ_pos _
      | succ attempts =>
        simp only [nextAttempt, stepsLeft, Nat.succ_mul]
        omega
    · cases h
      exact Nat.succ_pos _
  | done result => cases h

variable {phase : VerifyPhase V R}

theorem verifyStep_eq_none (h : verifyStep codec mode id s phase = none) :
    ∃ result, phase = .done result := by
  cases phase with
  | done result => exact ⟨result, rfl⟩
  | readWatermark | readHead | openScan | rereadWatermark => cases h
  | scanning attempts watermark head cursor chain =>
    simp only [verifyStep] at h
    split at h
    · cases h
    · split at h <;> cases h
  | rereadHead attempts watermark head sequence watermarkAfter =>
    simp only [verifyStep] at h
    split_ifs at h

/-- Without further commits the verifier ends with its outcome. -/
theorem verifier_ends (s : Store V) (phase : VerifyPhase V R) :
    ∃ n, (verifierMachine codec mode id).final ⟨s, phase⟩ (List.replicate n .verify) =
      ⟨s, .done (outcome codec id s phase)⟩ := by
  induction hsteps : stepsLeft id s phase using Nat.strongRecOn generalizing phase with
  | _ steps ih =>
    cases hstep : verifyStep codec mode id s phase with
    | none =>
      obtain ⟨result, rfl⟩ := verifyStep_eq_none hstep
      exact ⟨0, rfl⟩
    | some phase' =>
      have hlt := stepsLeft_step hstep
      obtain ⟨n, hn⟩ := ih _ (hsteps ▸ hlt) phase' rfl
      have hmachine : (verifierMachine codec mode id).step ⟨s, phase⟩ .verify =
          some ⟨s, phase'⟩ := by
        simp [verifierMachine, hstep]
      refine ⟨n + 1, ?_⟩
      rw [List.replicate_succ, Machine.final, hmachine]
      simp only
      rw [hn, outcome_step hstep]

/-- On a store that nobody changes, the reads add up to `verifyEventLog`. -/
theorem outcome_start (s : Store V) :
    outcome codec id s (verifierStart s).phase = verifyEventLog codec s id :=
  outcome_nextAttempt s MAX_ATTEMPTS

/-! ## The verifier among commits -/

/-- What was read before is the current record or an earlier one. -/
def Earlier (codec : LogCodec V P T R) (id : Component) (s : Store V) : VerifyPhase V R → Prop
  | .readHead _ watermark => watermark = readEventLogWatermark codec s id ∨
      watermarkMoved watermark (readEventLogWatermark codec s id) = true
  | .scanning _ _ head cursor _ => head.sequence ≤ (readEventHead codec s id).sequence ∧
      cursor.Under (KEYS.eventPrefix id)
  | .openScan _ _ head | .rereadWatermark _ _ head _ | .rereadHead _ _ head _ _ =>
      head.sequence ≤ (readEventHead codec s id).sequence
  | .readWatermark _ | .done _ => True

/-- The log of `id` is honest and of ten digits, and the verifier is on its way to an outcome
that locates no corruption. -/
structure Unalarmed (codec : LogCodec V P T R) (id : Component) (s : Store V)
    (phase : VerifyPhase V R) : Prop where
  log : ∃ history floor, Represents codec s id history floor ∧ history.length ≤ 10 ^ 10
  earlier : Earlier codec id s phase
  not_located : ∀ sequence, outcome codec id s phase ≠ .invalid sequence

theorem verifyAttempts_ne_invalid (h : verifyEventLog codec s id = .valid) (attempts : Nat)
    (sequence : Int) : verifyAttempts codec s id attempts ≠ .invalid sequence := by
  cases attempts with
  | zero => exact nofun
  | succ attempts =>
    rw [verifyAttempts_succ, (verify_valid_iff s id).1 h]
    exact nofun

variable {attempts : Nat} {watermark : Option (EventLogWatermark R)}

variable {head : EventHeadRecord}

/-- A pass that fails over a moved head or watermark is repeated. -/
theorem afterPass_of_moved (h : verifyEventLog codec s id = .valid)
    (hmoved : (watermarkMoved watermark (readEventLogWatermark codec s id) || headMoved head
      (readEventHead codec s id)) = true) (pass : VerifyPass) (sequence : Int) :
    afterPass codec id s attempts watermark head pass ≠ .invalid sequence := by
  cases pass with
  | ok => exact nofun
  | invalid first =>
    rw [afterPass, if_pos hmoved]
    exact verifyAttempts_ne_invalid h attempts sequence

theorem headMoved_of_lt {head headAfter : EventHeadRecord}
    (h : head.sequence < headAfter.sequence) : headMoved head headAfter = true := by
  simp [headMoved, h.ne']

/-- Before the head is read, a commit does no harm: the watermark is current or has moved. -/
theorem outcome_readHead (h : verifyEventLog codec s id = .valid)
    (hearlier : Earlier codec id s (.readHead attempts watermark)) (sequence : Int) :
    outcome codec id s (.readHead attempts watermark) ≠ .invalid sequence := by
  rcases hearlier with rfl | hmoved
  · rw [outcome, (verify_valid_iff s id).1 h]
    exact nofun
  · exact afterPass_of_moved h (by rw [hmoved, Bool.true_or]) _ sequence

variable {history : List V}

theorem Represents.watermark_sequence {floor : Nat} (h : Represents codec s id history floor) :
    ((readEventLogWatermark codec s id).map (·.sequence)).getD (-1) =
      if floor = 0 then -1 else (floor : Int) := by
  have hmark := h.watermark
  cases hread : readEventLogWatermark codec s id with
  | none =>
    rw [hread] at hmark
    split_ifs at hmark ⊢ with hfloor
    · rfl
    · cases hmark
  | some mark =>
    rw [hread] at hmark
    split_ifs at hmark ⊢ with hfloor
    · cases hmark
    · exact (Prod.mk.inj (Option.some.inj hmark)).1

variable {c : LogCommit P T}

/-- A commit leaves the watermark or moves it forward. -/
theorem Represents.commit_watermark {floor : Nat}
    (h : Represents codec s c.workflowId history floor)
    (hstep : commitCheckpoint codec s c = some t) :
    readEventLogWatermark codec t c.workflowId = readEventLogWatermark codec s c.workflowId ∨
      ((readEventLogWatermark codec s c.workflowId).map (·.sequence)).getD (-1) <
        ((readEventLogWatermark codec t c.workflowId).map (·.sequence)).getD (-1) := by
  obtain ⟨floor', ⟨-, hsame⟩ | ⟨hlt, -⟩, ht⟩ := h.commit hstep
  · exact .inl hsame
  · rw [h.watermark_sequence, ht.watermark_sequence]
    right
    split_ifs <;> omega

theorem earlier_readHead (h : Earlier codec id s (.readHead attempts watermark))
    (hmark : readEventLogWatermark codec t id = readEventLogWatermark codec s id ∨
      ((readEventLogWatermark codec s id).map (·.sequence)).getD (-1) <
      ((readEventLogWatermark codec t id).map (·.sequence)).getD (-1)) :
    Earlier codec id t (.readHead attempts watermark) := by
  rcases hmark with hsame | hforward
  · rw [Earlier, hsame]
    exact h
  · right
    rcases h with rfl | hmoved
    · exact decide_eq_true hforward
    · exact decide_eq_true ((of_decide_eq_true hmoved).trans hforward)

/-- A commit of the workflow itself: the head moves, and every pass under way is repeated. -/
theorem unalarmed_commit (h : Unalarmed codec c.workflowId s phase) (hten : TenDigits codec s c)
    (hstep : commitCheckpoint codec s c = some t) : Unalarmed codec c.workflowId t phase := by
  obtain ⟨⟨history, floor, hlog, -⟩, hearlier, houtcome⟩ := h
  obtain ⟨floor', -, ht⟩ := hlog.commit hstep
  have hhead := hlog.head_sequence
  have hhead' := ht.head_sequence
  have hmark := hlog.commit_watermark hstep
  rw [List.length_append, List.length_singleton] at hhead'
  rw [TenDigits] at hten
  have hlength : (history ++ [committedBytes codec s c]).length ≤ 10 ^ 10 := by
    rw [List.length_append, List.length_singleton]
    omega
  have hvalid := ht.valid hlength
  have hlt : (readEventHead codec s c.workflowId).sequence <
      (readEventHead codec t c.workflowId).sequence := by
    push_cast at hhead'
    omega
  have hmoved : ∀ {head : EventHeadRecord} (b : Bool),
      head.sequence ≤ (readEventHead codec s c.workflowId).sequence →
        (b || headMoved head (readEventHead codec t c.workflowId)) = true := by
    intro head b hle
    rw [headMoved_of_lt (hle.trans_lt hlt), Bool.or_true]
  refine ⟨⟨_, floor', ht, hlength⟩, ?_, fun sequence => ?_⟩
  · cases phase with
    | readWatermark | done => trivial
    | readHead attempts watermark => exact earlier_readHead hearlier hmark
    | scanning attempts watermark head cursor chain =>
      exact ⟨hearlier.1.trans hlt.le, hearlier.2⟩
    | openScan attempts watermark head => exact hearlier.trans hlt.le
    | rereadWatermark attempts watermark head first => exact hearlier.trans hlt.le
    | rereadHead attempts watermark head first watermarkAfter => exact hearlier.trans hlt.le
  · cases phase with
    | done result => exact houtcome sequence
    | readWatermark attempts => exact verifyAttempts_ne_invalid hvalid (attempts + 1) sequence
    | readHead attempts watermark =>
      exact outcome_readHead hvalid (earlier_readHead hearlier hmark) sequence
    | scanning attempts watermark head cursor chain =>
      exact afterPass_of_moved hvalid (hmoved _ hearlier.1) _ sequence
    | openScan attempts watermark head =>
      exact afterPass_of_moved hvalid (hmoved _ hearlier) _ sequence
    | rereadWatermark attempts watermark head first =>
      exact afterPass_of_moved hvalid (hmoved _ hearlier) (.invalid first) sequence
    | rereadHead attempts watermark head first watermarkAfter =>
      rw [outcome, if_pos (hmoved _ hearlier)]
      exact verifyAttempts_ne_invalid hvalid attempts sequence

/-- What the verifier ends with depends on the records of the log alone. -/
theorem outcome_congr (hget : ∀ k, KEYS.eventPrefix id <+: k → t.get k = s.get k)
    (hearlier : Earlier codec id s phase) :
    Earlier codec id t phase ∧ outcome codec id t phase = outcome codec id s phase := by
  have hhead : readEventHead codec t id = readEventHead codec s id := by
    rw [readEventHead, hget _ (prefix_eventHead id), readEventHead]
  have hmark : readEventLogWatermark codec t id = readEventLogWatermark codec s id := by
    rw [readEventLogWatermark, hget _ (prefix_eventWatermark id), readEventLogWatermark]
  have hpass : ∀ watermark head, verifyAgainstSnapshot codec t id watermark head =
      verifyAgainstSnapshot codec s id watermark head := by
    intro watermark head
    rw [verifyAgainstSnapshot, ScanCursor.scan_congr (eventPrefix_last id) (by decide) rfl rfl hget,
      verifyAgainstSnapshot]
  have hattempts : ∀ attempts, verifyAttempts codec t id attempts =
      verifyAttempts codec s id attempts := by
    intro attempts
    induction attempts with
    | zero => rfl
    | succ attempts ih => simp only [verifyAttempts, hmark, hhead, hpass, ih]
  have hafter : ∀ attempts watermark head pass, afterPass codec id t attempts watermark head pass =
      afterPass codec id s attempts watermark head pass := by
    intro attempts watermark head pass
    cases pass with
    | ok => rfl
    | invalid first => rw [afterPass, hmark, hhead, hattempts, afterPass]
  cases phase with
  | done result => exact ⟨trivial, rfl⟩
  | readWatermark attempts => exact ⟨trivial, hattempts _⟩
  | readHead attempts watermark =>
    refine ⟨?_, ?_⟩
    · rw [Earlier, hmark]
      exact hearlier
    · rw [outcome, hafter, hhead, hpass, outcome]
  | openScan attempts watermark head =>
    refine ⟨?_, ?_⟩
    · rw [Earlier, hhead]
      exact hearlier
    · rw [outcome, hafter, hpass, outcome]
  | scanning attempts watermark head cursor chain =>
    refine ⟨?_, ?_⟩
    · rw [Earlier, hhead]
      exact hearlier
    · rw [outcome, hafter,
        ScanCursor.pending_congr (eventPrefix_last id) (by decide) rfl rfl hget hearlier.2, outcome]
  | rereadWatermark attempts watermark head first =>
    refine ⟨?_, ?_⟩
    · rw [Earlier, hhead]
      exact hearlier
    · rw [outcome, hafter, outcome]
  | rereadHead attempts watermark head first watermarkAfter =>
    refine ⟨?_, ?_⟩
    · rw [Earlier, hhead]
      exact hearlier
    · rw [outcome, hhead, hattempts, outcome]

theorem unalarmed_commit_other (h : Unalarmed codec id s phase) (hid : id ≠ c.workflowId)
    (hstep : commitCheckpoint codec s c = some t) : Unalarmed codec id t phase := by
  obtain ⟨⟨history, floor, hlog, hlength⟩, hearlier, hlocated⟩ := h
  obtain ⟨hearlier', houtcome⟩ :=
    outcome_congr (fun k hk => get_commit_other hid hstep hk) hearlier
  refine ⟨⟨history, floor, hlog.commit_other hid hstep, hlength⟩, hearlier', fun sequence => ?_⟩
  rw [houtcome]
  exact hlocated sequence

theorem earlier_passEnded (h : head.sequence ≤ (readEventHead codec s id).sequence)
    (pass : VerifyPass) : Earlier codec id s (passEnded attempts watermark head pass) := by
  cases pass with
  | ok => trivial
  | invalid first => exact h

theorem earlier_step (h : Earlier codec id s phase)
    (hstep : verifyStep codec mode id s phase = some phase') : Earlier codec id s phase' := by
  cases phase with
  | readWatermark attempts =>
    cases hstep
    exact .inl rfl
  | readHead attempts watermark =>
    cases hstep
    exact le_refl (readEventHead codec s id).sequence
  | openScan attempts watermark head =>
    cases hstep
    exact ⟨h, ScanCursor.under_openScan (eventPrefix_last id) (by decide) rfl rfl mode⟩
  | scanning attempts watermark head cursor chain =>
    simp only [verifyStep] at hstep
    split at hstep
    next hnext =>
      cases hstep
      exact earlier_passEnded h.1 _
    next row cursor' hnext =>
      split at hstep
      · cases hstep
        exact earlier_passEnded h.1 _
      · cases hstep
        exact ⟨h.1, ScanCursor.under_next h.2 hnext⟩
  | rereadWatermark attempts watermark head first =>
    cases hstep
    exact h
  | rereadHead attempts watermark head first watermarkAfter =>
    simp only [verifyStep] at hstep
    split_ifs at hstep
    · cases hstep
      cases attempts with
      | zero => trivial
      | succ attempts => trivial
    · cases hstep
      trivial
  | done result => cases hstep

theorem unalarmed_verify (h : Unalarmed codec id s phase)
    (hstep : verifyStep codec mode id s phase = some phase') : Unalarmed codec id s phase' := by
  refine ⟨h.log, earlier_step h.earlier hstep, fun sequence => ?_⟩
  rw [outcome_step hstep]
  exact h.not_located sequence

/-- No corruption is located, and the verifier comes to its end when the commits stop. -/
def NoFalseAlarm (codec : LogCodec V P T R) (mode : ScanMode) (id : Component)
    (state : VerifierState V R) : Prop :=
  (∀ sequence, state.phase ≠ .done (.invalid sequence)) ∧
    ∃ n, ((verifierMachine codec mode id).final state (List.replicate n .verify)).phase =
        .done .valid ∨
      ((verifierMachine codec mode id).final state (List.replicate n .verify)).phase =
        .done .indeterminate

theorem Unalarmed.noFalseAlarm (h : Unalarmed codec id s phase) :
    NoFalseAlarm codec mode id ⟨s, phase⟩ := by
  refine ⟨?_, ?_⟩
  · rintro sequence rfl
    exact h.not_located sequence rfl
  · obtain ⟨n, hn⟩ : ∃ n, (verifierMachine codec mode id).final ⟨s, phase⟩
        (List.replicate n .verify) = _ := verifier_ends s phase
    refine ⟨n, ?_⟩
    rw [hn]
    cases houtcome : outcome codec id s phase with
    | valid => exact .inl rfl
    | indeterminate => exact .inr rfl
    | invalid sequence => exact (h.not_located sequence houtcome).elim

/-- The sequences that are appended to the log of `id` have at most ten digits. -/
def TenDigitsOf (codec : LogCodec V P T R) (id : Component) (state : VerifierState V R) :
    VerifierLabel P T → Prop
  | .commit commit => commit.workflowId = id → TenDigits codec state.store commit
  | .verify => True

instance (state : VerifierState V R) (label : VerifierLabel P T) :
    Decidable (TenDigitsOf codec id state label) :=
  match label with
  | .commit commit =>
    inferInstanceAs (Decidable (commit.workflowId = id → TenDigits codec state.store commit))
  | .verify => isTrue trivial

theorem unalarmed_step {state state' : VerifierState V R} {label : VerifierLabel P T}
    (h : Unalarmed codec id state.store state.phase) (hten : TenDigitsOf codec id state label)
    (hstep : (verifierMachine codec mode id).step state label = some state') :
    Unalarmed codec id state'.store state'.phase := by
  cases label with
  | commit commit =>
    obtain ⟨t, hcommit, rfl⟩ := Option.map_eq_some_iff.1 hstep
    by_cases hid : id = commit.workflowId
    · subst hid
      exact unalarmed_commit h (hten rfl) hcommit
    · exact unalarmed_commit_other h hid hcommit
  | verify =>
    obtain ⟨phase, hverify, rfl⟩ := Option.map_eq_some_iff.1 hstep
    exact unalarmed_verify h hverify

/-- However commits come in between the reads of the verifier, it locates no corruption, as
long as the sequences of the log have at most ten digits. -/
theorem no_false_alarm_of_ten_digits (codec : LogCodec V P T R) (mode : ScanMode)
    (id : Component) (s : Store V) (hfresh : ∀ k, KEYS.eventPrefix id <+: k → s.get k = none)
    (labels : List (VerifierLabel P T))
    (hten : (verifierMachine codec mode id).EveryStep (TenDigitsOf codec id) (verifierStart s)
      labels) :
    (verifierMachine codec mode id).EveryState (NoFalseAlarm codec mode id) (verifierStart s)
      labels := by
  have hlog : Represents codec s id [] 0 := .of_fresh hfresh
  have hvalid := hlog.valid (by rw [List.length_nil]; omega)
  have hstart : Unalarmed codec id s (verifierStart s : VerifierState V R).phase := by
    refine ⟨⟨[], 0, hlog, by rw [List.length_nil]; omega⟩, trivial, fun sequence => ?_⟩
    rw [outcome_start, hvalid]
    exact nofun
  have hevery := Machine.everyState_of_invariant
    (I := fun state : VerifierState V R => Unalarmed codec id state.store state.phase)
    (fun _ _ _ hI hok hstep => unalarmed_step hI hok hstep) hstart hten
  exact hevery.mono fun state h => h.noFalseAlarm

/-- The log grows and is compacted while the verifier reads it. -/
theorem no_false_alarm_busy_log :
    (verifierMachine textLogCodec .keys orderRun).EveryState
      (NoFalseAlarm textLogCodec .keys orderRun) (verifierStart OrderedStore.empty)
      [.commit (checkpoint (js "1") none), .verify, .commit (checkpoint (js "2") none), .verify,
        .verify, .commit (checkpoint (js "3") (some 1)), .verify, .verify, .verify] :=
  no_false_alarm_of_ten_digits textLogCodec .keys orderRun OrderedStore.empty (fun _ _ => rfl) _
    (by decide)

/-! ## Eleven digits -/

/-- A log that does not verify is reported when nobody commits any more. -/
theorem verifier_locates (codec : LogCodec V P T R) (mode : ScanMode) (id : Component) (s : Store V)
    (h : verifyEventLog codec s id ≠ .valid) :
    ∃ n sequence, (verifierMachine codec mode id).final (verifierStart s)
      (List.replicate n .verify) = ⟨s, .done (.invalid sequence)⟩ := by
  obtain ⟨n, hn⟩ : ∃ n, (verifierMachine codec mode id).final (verifierStart s)
    (List.replicate n .verify) = _ := verifier_ends s (verifierStart s).phase
  rw [outcome_start] at hn
  rw [verifyEventLog_eq] at hn h
  cases hpass : verifyAgainstSnapshot codec s id (readEventLogWatermark codec s id)
      (readEventHead codec s id) with
  | ok =>
    rw [hpass] at h
    exact (h rfl).elim
  | invalid sequence =>
    rw [hpass] at hn
    exact ⟨n, sequence, hn⟩

theorem repeated_commits_end (mode : ScanMode) (id : Component) (phase : VerifyPhase V R)
    {floor n : Nat} (h : Represents codec s c.workflowId history floor) (hfloor : floor < 10 ^ 10)
    (hlength : history.length + n ≤ 10 ^ 10 + 1) :
    ∃ t history' floor', Represents codec t c.workflowId history' floor' ∧ floor' < 10 ^ 10 ∧
      history'.length = history.length + n ∧ ∀ rest,
        (verifierMachine codec mode id).final ⟨s, phase⟩ (List.replicate n
          (VerifierLabel.commit c) ++ rest) =
          (verifierMachine codec mode id).final ⟨t, phase⟩ rest := by
  induction n generalizing s history floor with
  | zero => exact ⟨s, history, floor, h, hfloor, rfl, fun _ => rfl⟩
  | succ n ih =>
    obtain ⟨t, hstep⟩ := h.commit_enabled (c := c) (by simp only [MAX_SAFE_INTEGER]; omega)
    obtain ⟨floor', hcases, ht⟩ := h.commit hstep
    have hadd : (history ++ [committedBytes codec s c]).length = history.length + 1 := by simp
    obtain ⟨u, history', floor'', hu, hfloor'', hlength', hfinal⟩ := ih ht
      (floor_lt_of_commit hfloor (by omega) hcases) (by omega)
    refine ⟨u, history', floor'', hu, hfloor'', by omega, fun rest => ?_⟩
    have hmachine : (verifierMachine codec mode id).step ⟨s, phase⟩ (.commit c) =
        some ⟨t, phase⟩ := by
      simp [verifierMachine, hstep]
    rw [List.replicate_succ, List.cons_append, Machine.final, hmachine]
    exact hfinal rest

/-- Once the head has eleven digits, the verifier locates a corruption in an honest log. -/
theorem eleven_digits_raise_alarm :
    ∃ n sequence, ((verifierMachine textLogCodec .keys orderRun).final
      (verifierStart OrderedStore.empty)
      (List.replicate (10 ^ 10 + 1) (VerifierLabel.commit (checkpoint (js "1") none)) ++
        List.replicate n VerifierLabel.verify)).phase = .done (.invalid sequence) := by
  have hfresh : Represents textLogCodec OrderedStore.empty orderRun [] 0 :=
    .of_fresh (noLogs_empty orderRun)
  obtain ⟨t, history, floor, ht, hfloor, hlength, hrun⟩ := repeated_commits_end .keys orderRun
    (verifierStart OrderedStore.empty).phase (n := 10 ^ 10 + 1) (c := checkpoint (js "1") none)
    hfresh (by omega) (by rw [List.length_nil]; omega)
  rw [List.length_nil, Nat.zero_add] at hlength
  obtain ⟨n, sequence, hn⟩ := verifier_locates textLogCodec .keys orderRun t
    (ht.not_valid hfloor hlength)
  exact ⟨n, sequence, congrArg VerifierState.phase ((hrun _).trans hn)⟩

end Weft.EventLog
