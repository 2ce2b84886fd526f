import Weft.Finalizer.Model

/-! The claims on a finalizer's marker. For each token one outcome is written at most and the count
of attempts never falls; an attempt that begins within the stale window of its claim begins before
the outcome and while no other one is within its own window. -/

namespace Weft.Finalizer
open Weft.Lib

/-- The claim a drive has read and still goes by. -/
def DriveStage.reads : DriveStage → Option TeardownClaim
  | .loadWorkflowState claim => some claim
  | .resolve claim => some claim
  | .readFinalizerState claim => some claim
  | .deadLetterMissingState claim => some claim
  | .encodeRunning claim => some claim
  | .claimMarker claim _ => some claim
  | _ => none

/-- The claim a drive has found to be owed or stale. -/
def DriveStage.checked : DriveStage → Option TeardownClaim
  | .readFinalizerState claim => some claim
  | .deadLetterMissingState claim => some claim
  | .encodeRunning claim => some claim
  | .claimMarker claim _ => some claim
  | _ => none

/-- The claim a drive is about to write over the one it has read. -/
def DriveStage.prepared : DriveStage → Option (TeardownClaim × TeardownClaim)
  | .claimMarker claim running => some (claim, running)
  | _ => none

/-- The claim a drive has written and not settled. -/
def DriveStage.held : DriveStage → Option TeardownClaim
  | .claimed running => some running
  | .attempting running => some running
  | .settleSuccess running => some running
  | .settleAborted running _ => some running
  | .settleFailure running _ => some running
  | .readForDeadLetter running => some running
  | .deadLetter running => some running
  | _ => none

/-- The drive goes by no claim and holds none. -/
def DriveStage.Idle (stage : DriveStage) : Prop :=
  stage.reads = none ∧ stage.checked = none ∧ stage.prepared = none ∧ stage.held = none

/-- The drive whose attempt the event begins, with its claim. -/
def starts (w : World) : Event → Option (Nat × TeardownClaim)
  | .drive place _ _ _ => (w.drives[place]?).bind fun d =>
    match d.stage with
    | .claimed running => some (place, running)
    | _ => none
  | _ => none

/-- No outcome was written for the token, and no other attempt for it is within its stale window. -/
def StartsAlone (timeout : Option Nat) (w : World) (place : Nat) (running : TeardownClaim) : Prop :=
  running.token ∉ w.outcomes.map Prod.fst ∧
    ∀ (other : Nat) (d : Drive), other ≠ place → w.drives[other]? = some d → ∀ r ∈ d.stage.held,
      d.stage = .attempting r → r.token = running.token →
      runningClaimIsStale timeout w.now r = true

def AttemptsKept (timeout : Option Nat) (w : World) (event : Event) : Prop :=
  ∀ w', (finalizerMachine timeout).step w event = some w' → ∀ c c', w.marker = some (.claim c) →
    w'.marker = some (.claim c') → c.token = c'.token → c.attempts ≤ c'.attempts

def SettledOnce (w : World) : Prop := (w.outcomes.map Prod.fst).Nodup

/-- The marker still has the claim, or is not the token's any more without an outcome for it. -/
def Owns (w : World) (r : TeardownClaim) : Prop :=
  w.marker = some (.claim r) ∨
    (∀ c, w.marker = some (.claim c) → c.token ≠ r.token) ∧ r.token ∉ w.outcomes.map Prod.fst

structure Inv (timeout : Option Nat) (w : World) : Prop where
  rows : ∀ row ∈ w.timers, row.token ∈ w.armed
  driveRows : ∀ d ∈ w.drives, d.row.token ∈ w.armed
  marker : ∀ c, w.marker = some (.claim c) →
    c.token ∈ w.armed ∧ c.token ∉ w.outcomes.map Prod.fst
  outcomes : (w.outcomes.map Prod.fst).Nodup
  outcomesArmed : ∀ token ∈ w.outcomes.map Prod.fst, token ∈ w.armed
  reads : ∀ d ∈ w.drives, ∀ c ∈ d.stage.reads, c.token = d.row.token
  checked : ∀ d ∈ w.drives, ∀ c ∈ d.stage.checked, runningClaimIsStale timeout w.now c = true
  prepared : ∀ d ∈ w.drives, ∀ p ∈ d.stage.prepared,
    p.2.token = d.row.token ∧ p.2.attempts = p.1.attempts
  held : ∀ d ∈ w.drives, ∀ r ∈ d.stage.held,
    r.token = d.row.token ∧ (runningClaimIsStale timeout w.now r = false → Owns w r)
  apart : ∀ (i j : Nat) (d d' : Drive), w.drives[i]? = some d → w.drives[j]? = some d' →
    ∀ r ∈ d.stage.held, ∀ r' ∈ d'.stage.held, r.token = r'.token →
    runningClaimIsStale timeout w.now r = false →
    runningClaimIsStale timeout w.now r' = false → i = j

/-- A claim that is stale stays so. -/
theorem runningClaimIsStale_mono {timeout : Option Nat} {now later : Nat} (hle : now ≤ later)
    {claim : TeardownClaim} (h : runningClaimIsStale timeout now claim = true) :
    runningClaimIsStale timeout later claim = true := by
  unfold runningClaimIsStale at h ⊢
  split at h
  · rfl
  · rfl
  · simp only [decide_eq_true_eq] at h ⊢
    omega

namespace Inv

variable {timeout : Option Nat} {w : World}

theorem initial : Inv timeout ({} : World) where
  rows := fun _ hr => (by cases hr)
  driveRows := fun _ hd => (by cases hd)
  marker := fun _ hm => (by cases hm)
  outcomes := List.nodup_nil
  outcomesArmed := fun _ ht => (by cases ht)
  reads := fun _ hd => (by cases hd)
  checked := fun _ hd => (by cases hd)
  prepared := fun _ hd => (by cases hd)
  held := fun _ hd => (by cases hd)
  apart := fun i j d d' hd => (by simp at hd)

theorem tick (h : Inv timeout w) (delay : Nat) : Inv timeout { w with now := w.now + delay } := by
  have hfresh : ∀ r, runningClaimIsStale timeout (w.now + delay) r = false →
      runningClaimIsStale timeout w.now r = false := by
    intro r hr
    by_contra hstale
    rw [Bool.not_eq_false] at hstale
    rw [runningClaimIsStale_mono (Nat.le_add_right w.now delay) hstale] at hr
    cases hr
  exact { h with
    checked := fun d hd c hc =>
      runningClaimIsStale_mono (Nat.le_add_right w.now delay) (h.checked d hd c hc)
    held := by
      intro d hd r hr
      obtain ⟨htoken, howns⟩ := h.held d hd r hr
      exact ⟨htoken, fun hf => howns (hfresh r hf)⟩
    apart := fun i j d d' hd hd' r hr r' hr' heq hf hf' =>
      h.apart i j d d' hd hd' r hr r' hr' heq (hfresh r hf) (hfresh r' hf') }

variable {place : Nat} {d : Drive}

/-- A drive goes on; what it holds afterwards is its own. -/
theorem setDrive (h : Inv timeout w) (hd : w.drives[place]? = some d) (stage : DriveStage)
    (hreads : ∀ c ∈ stage.reads, c.token = d.row.token)
    (hchecked : ∀ c ∈ stage.checked, runningClaimIsStale timeout w.now c = true)
    (hprepared : ∀ p ∈ stage.prepared, p.2.token = d.row.token ∧ p.2.attempts = p.1.attempts)
    (hheld : ∀ r ∈ stage.held, r.token = d.row.token ∧
      (runningClaimIsStale timeout w.now r = false → Owns w r))
    (hapart : ∀ r ∈ stage.held, runningClaimIsStale timeout w.now r = false →
      ∀ (j : Nat) (d' : Drive), j ≠ place → w.drives[j]? = some d' →
      ∀ r' ∈ d'.stage.held, r'.token = r.token → runningClaimIsStale timeout w.now r' = true) :
    Inv timeout (setDrive w place d stage) := by
  have hmem := List.mem_of_getElem? hd
  exact { h with
    driveRows := by
      intro d' hd'
      obtain hin | rfl := List.mem_or_eq_of_mem_set hd'
      · exact h.driveRows d' hin
      · exact h.driveRows d hmem
    reads := by
      intro d' hd' c hc
      obtain hin | rfl := List.mem_or_eq_of_mem_set hd'
      · exact h.reads d' hin c hc
      · exact hreads c hc
    checked := by
      intro d' hd' c hc
      obtain hin | rfl := List.mem_or_eq_of_mem_set hd'
      · exact h.checked d' hin c hc
      · exact hchecked c hc
    prepared := by
      intro d' hd' p hp
      obtain hin | rfl := List.mem_or_eq_of_mem_set hd'
      · exact h.prepared d' hin p hp
      · exact hprepared p hp
    held := by
      intro d' hd' r hr
      obtain hin | rfl := List.mem_or_eq_of_mem_set hd'
      · exact h.held d' hin r hr
      · exact hheld r hr
    apart := by
      intro i j a b ha hb r hr r' hr' heq hf hf'
      obtain ⟨rfl, rfl⟩ | ⟨hi, ha'⟩ := getElem?_set_cases ha
      · obtain ⟨rfl, rfl⟩ | ⟨hj, hb'⟩ := getElem?_set_cases hb
        · rfl
        · have hstale := hapart r hr hf j b hj hb' r' hr' heq.symm
          cases (hf'.symm.trans hstale : false = true)
      · obtain ⟨rfl, rfl⟩ | ⟨-, hb'⟩ := getElem?_set_cases hb
        · have hstale := hapart r' hr' hf' i a hi ha' r hr heq
          cases (hf.symm.trans hstale : false = true)
        · exact h.apart i j a b ha' hb' r hr r' hr' heq hf hf' }

/-- A drive goes on without a claim. -/
theorem idle (h : Inv timeout w) (hd : w.drives[place]? = some d) (stage : DriveStage)
    (hidle : stage.Idle) : Inv timeout (Finalizer.setDrive w place d stage) := by
  obtain ⟨hreads, hchecked, hprepared, hheld⟩ := hidle
  apply h.setDrive hd
  · rw [hreads]
    exact fun c hc => (by cases hc)
  · rw [hchecked]
    exact fun c hc => (by cases hc)
  · rw [hprepared]
    exact fun p hp => (by cases hp)
  · rw [hheld]
    exact fun r hr => (by cases hr)
  · rw [hheld]
    exact fun r hr => (by cases hr)

/-- A drive goes on with a claim it has read. -/
theorem readOn (h : Inv timeout w) (hd : w.drives[place]? = some d) (stage : DriveStage)
    (hreads : ∀ c ∈ stage.reads, c.token = d.row.token)
    (hchecked : ∀ c ∈ stage.checked, runningClaimIsStale timeout w.now c = true)
    (hprepared : ∀ p ∈ stage.prepared, p.2.token = d.row.token ∧ p.2.attempts = p.1.attempts)
    (hheld : stage.held = none) : Inv timeout (Finalizer.setDrive w place d stage) := by
  apply h.setDrive hd stage hreads hchecked hprepared
  · rw [hheld]
    exact fun r hr => (by cases hr)
  · rw [hheld]
    exact fun r hr => (by cases hr)

/-- A drive goes on with the claim it holds. -/
theorem holdOn (h : Inv timeout w) (hd : w.drives[place]? = some d) (stage : DriveStage)
    (hreads : stage.reads = none) (hchecked : stage.checked = none)
    (hprepared : stage.prepared = none) (hheld : ∀ r ∈ stage.held, r ∈ d.stage.held) :
    Inv timeout (Finalizer.setDrive w place d stage) := by
  apply h.setDrive hd
  · rw [hreads]
    exact fun c hc => (by cases hc)
  · rw [hchecked]
    exact fun c hc => (by cases hc)
  · rw [hprepared]
    exact fun p hp => (by cases hp)
  · exact fun r hr => h.held d (List.mem_of_getElem? hd) r (hheld r hr)
  · intro r hr hf j d' hj hd' r' hr' heq
    by_contra hstale
    rw [Bool.not_eq_true] at hstale
    exact hj (h.apart j place d' d hd' hd r' hr' r (hheld r hr) heq hstale hf)

variable {c : TeardownClaim}

/-- The marker's claim gives way to one with its token, where nobody holds it within its window. -/
theorem writeClaim (h : Inv timeout w) (hm : w.marker = some (.claim c)) (c' : TeardownClaim)
    (htoken : c'.token = c.token)
    (hfree : ∀ d ∈ w.drives, c ∈ d.stage.held → runningClaimIsStale timeout w.now c = true) :
    Inv timeout (writeClaim c' w) := { h with
  marker := by
    intro c'' heq
    cases heq
    rw [htoken]
    exact h.marker c hm
  held := by
    intro d hd r hr
    obtain ⟨hrow, howns⟩ := h.held d hd r hr
    refine ⟨hrow, fun hf => ?_⟩
    obtain heq | ⟨hgone, hout⟩ := howns hf
    · rw [hm] at heq
      cases heq
      cases (hf.symm.trans (hfree d hd hr) : false = true)
    · refine .inr ⟨?_, hout⟩
      intro c'' heq
      cases heq
      rw [htoken]
      exact hgone c hm }

/-- The same with a timer for the claim. -/
theorem writeOwed (h : Inv timeout w) (hm : w.marker = some (.claim c)) (attempts : Nat)
    {row : TimerRow} (htoken : row.token = c.token)
    (hfree : ∀ d ∈ w.drives, c ∈ d.stage.held → runningClaimIsStale timeout w.now c = true) :
    Inv timeout (writeOwed attempts row w) := by
  have hwrite := h.writeClaim hm (owedClaim attempts row.token) htoken hfree
  exact { hwrite with
    rows := by
      intro row' hrow'
      obtain rfl | hin := List.mem_cons.1 hrow'
      · rw [htoken]
        exact (h.marker c hm).1
      · exact h.rows row' hin }

/-- The marker goes. -/
theorem clearMarker (h : Inv timeout w) : Inv timeout (clearMarker w) := { h with
  marker := fun _ hm => (by cases hm)
  held := by
    intro d hd r hr
    obtain ⟨hrow, howns⟩ := h.held d hd r hr
    refine ⟨hrow, fun hf => .inr ⟨fun _ hm => (by cases hm), ?_⟩⟩
    obtain heq | ⟨-, hout⟩ := howns hf
    · exact (h.marker r heq).2
    · exact hout }

/-- The marker goes with an outcome, where nobody holds its claim within its window. -/
theorem writeOutcome (h : Inv timeout w) (hm : w.marker = some (.claim c)) (outcome : Outcome)
    (hfree : ∀ d ∈ w.drives, c ∈ d.stage.held → runningClaimIsStale timeout w.now c = true) :
    Inv timeout (writeOutcome c.token outcome w) := by
  obtain ⟨harmed, hnew⟩ := h.marker c hm
  exact { h with
    marker := fun _ hm' => (by cases hm')
    outcomes := List.nodup_cons.2 ⟨hnew, h.outcomes⟩
    outcomesArmed := by
      intro token ht
      obtain rfl | hin := List.mem_cons.1 ht
      · exact harmed
      · exact h.outcomesArmed token hin
    held := by
      intro d hd r hr
      obtain ⟨hrow, howns⟩ := h.held d hd r hr
      refine ⟨hrow, fun hf => .inr ⟨fun _ hm' => (by cases hm'), ?_⟩⟩
      obtain heq | ⟨hgone, hout⟩ := howns hf
      · rw [hm] at heq
        cases heq
        cases (hf.symm.trans (hfree d hd hr) : false = true)
      · intro ht
        obtain heq | hin := List.mem_cons.1 ht
        · exact hgone c hm heq.symm
        · exact hout hin }

/-- After a drive has let go of its claim, whoever else holds it is out of its window. -/
theorem free_of_held (h : Inv timeout w) (hd : w.drives[place]? = some d) (hc : c ∈ d.stage.held)
    {stage : DriveStage} (hidle : stage.held = none) :
    ∀ d' ∈ (Finalizer.setDrive w place d stage).drives, c ∈ d'.stage.held →
      runningClaimIsStale timeout w.now c = true := by
  intro d' hd' hc'
  obtain ⟨j, hj⟩ := List.getElem?_of_mem hd'
  obtain ⟨-, rfl⟩ | ⟨hne, hold⟩ := getElem?_set_cases hj
  · rw [hidle] at hc'
    cases hc'
  · by_contra hf
    rw [Bool.not_eq_true] at hf
    exact hne (h.apart j place d' d hold hd c hc' c hc rfl hf hf)

variable {expectedBytes : MarkerBytes} {write : World → World} {settled lost : DriveStage}

/-- A conditional batch after which the drive is idle. -/
theorem settleOn (h : Inv timeout w) (hd : w.drives[place]? = some d) (reply : Reply)
    (hsettled : settled.Idle) (hlost : lost.Idle)
    (hcomm : ∀ stage, Finalizer.setDrive (write w) place d stage =
      write (Finalizer.setDrive w place d stage))
    (hwrite : ∀ stage : DriveStage, stage.Idle → w.marker = some expectedBytes →
      Inv timeout (write (Finalizer.setDrive w place d stage))) :
    Inv timeout (settleOn w place d expectedBytes reply write settled lost) := by
  unfold Finalizer.settleOn
  have hrearm : DriveStage.rearm.Idle := ⟨rfl, rfl, rfl, rfl⟩
  have hstage : (if reply = .ok then if w.marker = some expectedBytes then settled else lost
      else .rearm).Idle := by
    split
    · split
      · exact hsettled
      · exact hlost
    · exact hrearm
  by_cases hmatch : reply ≠ .lost ∧ w.marker = some expectedBytes
  · simp only [if_pos hmatch, hcomm]
    exact hwrite _ hstage hmatch.2
  · simp only [if_neg hmatch]
    exact h.idle hd _ hstage

/-- The claim is written over one that is owed or stale. -/
theorem claimMarker (h : Inv timeout w) (hd : w.drives[place]? = some d) {c r : TeardownClaim}
    (hstage : d.stage = .claimMarker c r) (reply : Reply) :
    Inv timeout (Finalizer.settleOn w place d (.claim c) reply (Finalizer.writeClaim r)
      (.claimed r) .rearm) := by
  have hmem := List.mem_of_getElem? hd
  have hrow : r.token = d.row.token := (h.prepared d hmem (c, r) (by rw [hstage]; rfl)).1
  have hread : c.token = d.row.token := h.reads d hmem c (by rw [hstage]; rfl)
  have hstale := h.checked d hmem c (by rw [hstage]; rfl)
  have hrearm : DriveStage.rearm.Idle := ⟨rfl, rfl, rfl, rfl⟩
  have hwrite : w.marker = some (.claim c) → Inv timeout (Finalizer.writeClaim r w) :=
    fun hm => h.writeClaim hm r (hrow.trans hread.symm) (fun _ _ _ => hstale)
  have hdrives : (Finalizer.writeClaim r w).drives[place]? = some d := hd
  unfold Finalizer.settleOn
  by_cases hm : w.marker = some (.claim c)
  · cases reply with
    | lost => exact h.idle hd _ hrearm
    | applied =>
      simp only [hm]
      exact (hwrite hm).idle hdrives _ hrearm
    | ok =>
      simp only [hm]
      refine (hwrite hm).setDrive hdrives (.claimed r)
        (fun c hc => (by cases hc)) (fun c hc => (by cases hc)) (fun p hp => (by cases hp)) ?_ ?_
      · intro r' hr'
        cases hr'
        exact ⟨hrow, fun _ => .inl rfl⟩
      · intro r' hr' _ j d' hj hd' held hheld heq
        cases hr'
        -- whoever held the marker within its window would hold the claim that was found stale
        by_contra hf
        change ¬ runningClaimIsStale timeout w.now held = true at hf
        rw [Bool.not_eq_true] at hf
        obtain hown | ⟨hgone, -⟩ := (h.held d' (List.mem_of_getElem? hd') held hheld).2 hf
        · rw [hm] at hown
          cases hown
          cases (hf.symm.trans hstale : false = true)
        · exact hgone c hm (hread.trans (hrow.symm.trans heq.symm))
  · simp only [hm, and_false, if_false, ite_self]
    exact h.idle hd _ hrearm

/-- The batch that settles a claim the drive holds. -/
theorem settleHeld (h : Inv timeout w) (hd : w.drives[place]? = some d) {r : TeardownClaim}
    (hr : r ∈ d.stage.held) (reply : Reply)
    (hcomm : ∀ stage, Finalizer.setDrive (write w) place d stage =
      write (Finalizer.setDrive w place d stage))
    (hwrite : ∀ stage : DriveStage, Inv timeout (Finalizer.setDrive w place d stage) →
      w.marker = some (.claim r) → (∀ d' ∈ (Finalizer.setDrive w place d stage).drives,
      r ∈ d'.stage.held → runningClaimIsStale timeout w.now r = true) →
      Inv timeout (write (Finalizer.setDrive w place d stage))) :
    Inv timeout (Finalizer.settleOn w place d (.claim r) reply write .returned .rearm) := by
  refine h.settleOn hd reply ⟨rfl, rfl, rfl, rfl⟩ ⟨rfl, rfl, rfl, rfl⟩ hcomm ?_
  intro stage hidle hm
  exact hwrite stage (h.idle hd stage hidle) hm (h.free_of_held hd hr hidle.2.2.2)

variable {reply : Reply} {eligible registered : Bool} {w' : World}

theorem driveStep (h : Inv timeout w) (hd : w.drives[place]? = some d)
    (hstep : driveStep timeout w place d reply eligible registered = some w') : Inv timeout w' := by
  have hmem := List.mem_of_getElem? hd
  have hreads := h.reads d hmem
  have hchecked := h.checked d hmem
  have hheld := h.held d hmem
  have hnone : ∀ stage : DriveStage, stage.checked = none →
      ∀ c ∈ stage.checked, runningClaimIsStale timeout w.now c = true := by
    intro stage hc c hin
    rw [hc] at hin
    cases hin
  rw [Finalizer.driveStep] at hstep
  split at hstep
  · -- readMarker
    split at hstep
    · cases hstep
      exact h.idle hd _ ⟨rfl, rfl, rfl, rfl⟩
    · split at hstep
      · cases hstep
        exact h.idle hd _ ⟨rfl, rfl, rfl, rfl⟩
      · cases hstep
        exact h.idle hd _ ⟨rfl, rfl, rfl, rfl⟩
      · split at hstep
        · rename_i c _ htoken
          cases hstep
          refine h.readOn hd (.loadWorkflowState c) ?_ (hnone _ rfl) (fun p hp => (by cases hp)) rfl
          intro c' hc'
          cases hc'
          exact htoken
        · cases hstep
          exact h.idle hd _ ⟨rfl, rfl, rfl, rfl⟩
  · -- clear
    cases hstep
    refine h.settleOn hd reply ⟨rfl, rfl, rfl, rfl⟩ ⟨rfl, rfl, rfl, rfl⟩ (fun _ => rfl) ?_
    intro stage hidle _
    exact (h.idle hd stage hidle).clearMarker
  · -- loadWorkflowState
    rename_i c hstage
    split at hstep
    · cases hstep
      exact h.idle hd _ ⟨rfl, rfl, rfl, rfl⟩
    · split at hstep
      · cases hstep
        refine h.readOn hd (.resolve c) ?_ (hnone _ rfl) (fun p hp => (by cases hp)) rfl
        exact fun c' hc' => hreads c' (by rw [hstage]; exact hc')
      · cases hstep
        exact h.idle hd _ ⟨rfl, rfl, rfl, rfl⟩
  · -- resolve
    rename_i c hstage
    split at hstep
    · rename_i hcheck
      cases hstep
      refine h.readOn hd (.readFinalizerState c) ?_ ?_ (fun p hp => (by cases hp)) rfl
      · exact fun c' hc' => hreads c' (by rw [hstage]; exact hc')
      · intro c' hc'
        cases hc'
        exact hcheck.2
    · cases hstep
      exact h.idle hd _ ⟨rfl, rfl, rfl, rfl⟩
  · -- readFinalizerState
    rename_i c hstage
    split at hstep
    · cases hstep
      exact h.idle hd _ ⟨rfl, rfl, rfl, rfl⟩
    · split at hstep
      all_goals
        cases hstep
        exact h.readOn hd _ (fun c' hc' => hreads c' (by rw [hstage]; exact hc'))
          (fun c' hc' => hchecked c' (by rw [hstage]; exact hc')) (fun p hp => (by cases hp)) rfl
  · -- deadLetterMissingState
    rename_i c hstage
    cases hstep
    refine h.settleOn hd reply ⟨rfl, rfl, rfl, rfl⟩ ⟨rfl, rfl, rfl, rfl⟩ (fun _ => rfl) ?_
    intro stage hidle hm
    exact (h.idle hd stage hidle).writeOutcome hm .deadLettered
      (fun _ _ _ => hchecked c (by rw [hstage]; rfl))
  · -- encodeRunning
    rename_i c hstage
    cases hstep
    refine h.readOn hd (.claimMarker c _) (fun c' hc' => hreads c' (by rw [hstage]; exact hc'))
      (fun c' hc' => hchecked c' (by rw [hstage]; exact hc')) ?_ rfl
    intro p hp
    cases hp
    exact ⟨rfl, rfl⟩
  · -- claimMarker
    rename_i c r hstage
    cases hstep
    exact h.claimMarker hd hstage reply
  · -- claimed
    rename_i r hstage
    cases hstep
    exact h.holdOn hd (.attempting r) rfl rfl rfl (fun r' hr' => by rw [hstage]; exact hr')
  · -- settleSuccess
    rename_i r hstage
    cases hstep
    exact h.settleHeld hd (by rw [hstage]; rfl) reply (fun _ => rfl)
      (fun stage hinv hm hfree => hinv.writeOutcome hm .completed hfree)
  · -- settleAborted
    rename_i r fireAt hstage
    cases hstep
    have htoken := (hheld r (by rw [hstage]; rfl)).1
    exact h.settleHeld hd (by rw [hstage]; rfl) reply (fun _ => rfl)
      (fun stage hinv hm hfree => hinv.writeOwed hm _ htoken.symm hfree)
  · -- settleFailure
    rename_i r fireAt hstage
    cases hstep
    have htoken := (hheld r (by rw [hstage]; rfl)).1
    exact h.settleHeld hd (by rw [hstage]; rfl) reply (fun _ => rfl)
      (fun stage hinv hm hfree => hinv.writeOwed hm _ htoken.symm hfree)
  · -- readForDeadLetter
    rename_i r hstage
    split at hstep
    · cases hstep
      exact h.idle hd _ ⟨rfl, rfl, rfl, rfl⟩
    · cases hstep
      exact h.holdOn hd (.deadLetter r) rfl rfl rfl (fun r' hr' => by rw [hstage]; exact hr')
  · -- deadLetter
    rename_i r hstage
    cases hstep
    exact h.settleHeld hd (by rw [hstage]; rfl) reply (fun _ => rfl)
      (fun stage hinv hm hfree => hinv.writeOutcome hm .deadLettered hfree)
  · -- rearm
    cases hstep
    exact h.idle hd _ ⟨rfl, rfl, rfl, rfl⟩
  · -- rearming
    rename_i fireAt hstage
    cases hstep
    have hrow := h.driveRows d hmem
    split
    · have hidle := h.idle hd .returned ⟨rfl, rfl, rfl, rfl⟩
      exact { hidle with
        rows := by
          intro row hin
          obtain rfl | hin := List.mem_cons.1 hin
          · exact hrow
          · exact h.rows row hin }
    · exact h.idle hd _ ⟨rfl, rfl, rfl, rfl⟩
  · cases hstep

theorem finishStep (h : Inv timeout w) (hd : w.drives[place]? = some d) {result : AttemptResult}
    (hstep : finishStep w place d result = some w') : Inv timeout w' := by
  rw [Finalizer.finishStep] at hstep
  split at hstep
  · rename_i r hstage
    split at hstep
    · cases hstep
      exact h.holdOn hd _ rfl rfl rfl (fun r' hr' => by rw [hstage]; exact hr')
    · cases hstep
      exact h.holdOn hd _ rfl rfl rfl (fun r' hr' => by rw [hstage]; exact hr')
    · simp only at hstep
      split at hstep
      all_goals
        cases hstep
        exact h.holdOn hd _ rfl rfl rfl (fun r' hr' => by rw [hstage]; exact hr')
  · cases hstep

/-- A token is armed. -/
theorem terminate (h : Inv timeout w) {token : Nat} (hnew : token ∉ w.armed) :
    Inv timeout { w with
      marker := some (.claim (owedClaim 0 token))
      finalizerState := true
      timers := ⟨token, w.now⟩ :: w.timers
      armed := token :: w.armed } := { h with
  rows := by
    intro row hrow
    obtain rfl | hin := List.mem_cons.1 hrow
    · exact List.mem_cons_self
    · exact List.mem_cons_of_mem _ (h.rows row hin)
  driveRows := fun d hd => List.mem_cons_of_mem _ (h.driveRows d hd)
  marker := by
    intro c hc
    cases hc
    exact ⟨List.mem_cons_self, fun hout => hnew (h.outcomesArmed token hout)⟩
  outcomesArmed := fun t ht => List.mem_cons_of_mem _ (h.outcomesArmed t ht)
  held := by
    intro d hd r hr
    obtain ⟨hrow, howns⟩ := h.held d hd r hr
    refine ⟨hrow, fun hf => .inr ⟨?_, ?_⟩⟩
    · intro c hc heq
      cases hc
      apply hnew
      rw [show token = r.token from heq, hrow]
      exact h.driveRows d hd
    · obtain hm | ⟨-, hout⟩ := howns hf
      · exact (h.marker r hm).2
      · exact hout }

theorem step (h : Inv timeout w) {event : Event}
    (hstep : (finalizerMachine timeout).step w event = some w') : Inv timeout w' := by
  cases event with
  | tick delay =>
    cases hstep
    exact h.tick delay
  | terminate token =>
    simp only [finalizerMachine] at hstep
    split at hstep
    · cases hstep
    · rename_i hnew
      cases hstep
      exact h.terminate hnew
  | loseFinalizerState =>
    cases hstep
    exact { h with }
  | fire row =>
    simp only [finalizerMachine] at hstep
    split at hstep
    · rename_i hfire
      cases hstep
      have hsplit : ∀ d ∈ w.drives ++ [⟨row, .readMarker⟩],
          d ∈ w.drives ∨ d = ⟨row, .readMarker⟩ := by
        intro d hd
        exact (List.mem_append.1 hd).imp_right List.mem_singleton.1
      exact { h with
        driveRows := by
          intro d hd
          obtain hold | rfl := hsplit d hd
          · exact h.driveRows d hold
          · exact h.rows row hfire.1
        reads := by
          intro d hd c hc
          obtain hold | rfl := hsplit d hd
          · exact h.reads d hold c hc
          · cases hc
        checked := by
          intro d hd c hc
          obtain hold | rfl := hsplit d hd
          · exact h.checked d hold c hc
          · cases hc
        prepared := by
          intro d hd p hp
          obtain hold | rfl := hsplit d hd
          · exact h.prepared d hold p hp
          · cases hp
        held := by
          intro d hd r hr
          obtain hold | rfl := hsplit d hd
          · exact h.held d hold r hr
          · cases hr
        apart := by
          intro i j a b ha hb r hr r' hr'
          obtain ⟨-, ha'⟩ | ⟨-, rfl⟩ := getElem?_concat_cases ha
          · obtain ⟨-, hb'⟩ | ⟨-, rfl⟩ := getElem?_concat_cases hb
            · exact h.apart i j a b ha' hb' r hr r' hr'
            · cases hr'
          · cases hr }
    · cases hstep
  | drive place reply eligible registered =>
    obtain ⟨d, hd, hdrive⟩ := Option.bind_eq_some_iff.1 hstep
    exact h.driveStep hd hdrive
  | finish place result =>
    obtain ⟨d, hd, hfinish⟩ := Option.bind_eq_some_iff.1 hstep
    exact h.finishStep hd hfinish
  | crash place =>
    obtain ⟨d, hd, rfl⟩ := Option.map_eq_some_iff.1 hstep
    exact h.idle hd _ ⟨rfl, rfl, rfl, rfl⟩
  | deleteFired place =>
    obtain ⟨d, hd, hdelete⟩ := Option.bind_eq_some_iff.1 hstep
    split at hdelete
    · cases hdelete
      have hidle := h.idle hd .done ⟨rfl, rfl, rfl, rfl⟩
      exact { hidle with rows := fun row hrow => h.rows row (List.mem_filter.1 hrow).1 }
    · cases hdelete

/-- What a drive within the window of its claim finds when it begins the attempt. -/
theorem startsAlone (h : Inv timeout w) {event : Event} {p : Nat × TeardownClaim}
    (hp : p ∈ starts w event) (hf : runningClaimIsStale timeout w.now p.2 = false) :
    StartsAlone timeout w p.1 p.2 := by
  cases event with
  | drive place reply eligible registered =>
    obtain ⟨d, hd, hstart⟩ := Option.bind_eq_some_iff.1 hp
    split at hstart
    · rename_i r hstage
      cases hstart
      have hr : r ∈ d.stage.held := by rw [hstage]; rfl
      refine ⟨?_, ?_⟩
      · obtain hm | ⟨-, hout⟩ := (h.held d (List.mem_of_getElem? hd) r hr).2 hf
        · exact (h.marker r hm).2
        · exact hout
      · intro other d' hne hd' r' hr' _ heq
        by_contra hf'
        rw [Bool.not_eq_true] at hf'
        exact hne (h.apart other place d' d hd' hd r' hr' r hr heq hf' hf)
    · cases hstart
  | _ => cases hp

variable {c c' : TeardownClaim}

/-- A conditional batch keeps the count where its write does. -/
theorem attempts_settleOn (hm : w.marker = some (.claim c))
    (hm' : (Finalizer.settleOn w place d expectedBytes reply write settled lost).marker =
      some (.claim c'))
    (hwrite : expectedBytes = .claim c → (write w).marker = some (.claim c') →
      c.attempts ≤ c'.attempts) :
    c.attempts ≤ c'.attempts := by
  by_cases hmatch : reply ≠ .lost ∧ w.marker = some expectedBytes
  · have heq : (write w).marker = some (.claim c') := by
      simpa only [Finalizer.settleOn, if_pos hmatch, Finalizer.setDrive] using hm'
    rw [hm] at hmatch
    exact hwrite (Option.some.inj hmatch.2).symm heq
  · have heq : w.marker = some (.claim c') := by
      simpa only [Finalizer.settleOn, if_neg hmatch, Finalizer.setDrive] using hm'
    rw [hm] at heq
    cases heq
    exact Nat.le_refl _

theorem attempts_driveStep (h : Inv timeout w) (hd : w.drives[place]? = some d)
    (hstep : Finalizer.driveStep timeout w place d reply eligible registered = some w')
    (hm : w.marker = some (.claim c)) (hm' : w'.marker = some (.claim c')) :
    c.attempts ≤ c'.attempts := by
  have hsame : w'.marker = w.marker → c.attempts ≤ c'.attempts := by
    intro heq
    rw [heq, hm] at hm'
    cases hm'
    exact Nat.le_refl _
  rw [Finalizer.driveStep] at hstep
  split at hstep
  case h_8 r stage hstage =>
    -- claimMarker
    cases hstep
    refine attempts_settleOn hm hm' fun hexpected hwrite => ?_
    cases hexpected
    cases hwrite
    have hprepared := h.prepared d (List.mem_of_getElem? hd) _ (by rw [hstage]; rfl)
    exact Nat.le_of_eq hprepared.2.symm
  case h_11 r fireAt hstage =>
    cases hstep
    refine attempts_settleOn hm hm' fun hexpected hwrite => ?_
    cases hexpected
    cases hwrite
    exact Nat.le_refl _
  case h_12 r fireAt hstage =>
    cases hstep
    refine attempts_settleOn hm hm' fun hexpected hwrite => ?_
    cases hexpected
    cases hwrite
    exact Nat.le_succ _
  case h_2 | h_6 | h_10 | h_14 =>
    -- the batches that delete the marker
    cases hstep
    exact attempts_settleOn hm hm' fun _ hwrite => (by cases hwrite)
  case h_16 fireAt hstage =>
    cases hstep
    apply hsame
    split <;> rfl
  all_goals
    repeat' split at hstep
    all_goals cases hstep
    all_goals exact hsame rfl

theorem attemptsKept (h : Inv timeout w) (event : Event) : AttemptsKept timeout w event := by
  intro w' hstep c c' hm hm' htoken
  have hsame : w'.marker = w.marker → c.attempts ≤ c'.attempts := by
    intro heq
    rw [heq, hm] at hm'
    cases hm'
    exact Nat.le_refl _
  cases event with
  | tick delay =>
    cases hstep
    exact hsame rfl
  | terminate token =>
    simp only [finalizerMachine] at hstep
    split at hstep
    · cases hstep
    · rename_i hnew
      cases hstep
      cases hm'
      exact absurd ((h.marker c hm).1) (by rw [htoken]; exact hnew)
  | loseFinalizerState =>
    cases hstep
    exact hsame rfl
  | fire row =>
    simp only [finalizerMachine] at hstep
    split at hstep
    · cases hstep
      exact hsame rfl
    · cases hstep
  | drive place reply eligible registered =>
    obtain ⟨d, hd, hdrive⟩ := Option.bind_eq_some_iff.1 hstep
    exact h.attempts_driveStep hd hdrive hm hm'
  | finish place result =>
    obtain ⟨d, hd, hfinish⟩ := Option.bind_eq_some_iff.1 hstep
    apply hsame
    rw [Finalizer.finishStep] at hfinish
    split at hfinish
    · split at hfinish
      · cases hfinish
        rfl
      · cases hfinish
        rfl
      · simp only at hfinish
        split at hfinish
        all_goals
          cases hfinish
          rfl
    · cases hfinish
  | crash place =>
    obtain ⟨d, hd, rfl⟩ := Option.map_eq_some_iff.1 hstep
    exact hsame rfl
  | deleteFired place =>
    obtain ⟨d, hd, hdelete⟩ := Option.bind_eq_some_iff.1 hstep
    split at hdelete
    · cases hdelete
      exact hsame rfl
    · cases hdelete

end Inv

/-- In every run. -/
theorem finalizer_settles_once (timeout : Option Nat) (run : List Event) :
    (finalizerMachine timeout).EveryState SettledOnce {} run ∧
      (finalizerMachine timeout).EveryStep (fun w event => AttemptsKept timeout w event ∧
        ∀ p ∈ starts w event, runningClaimIsStale timeout w.now p.2 = false →
          StartsAlone timeout w p.1 p.2) {} run := by
  have htrue := Machine.everyStep_true (M := finalizerMachine timeout) run {}
  constructor
  · apply Machine.EveryState.mono fun w (h : Inv timeout w) => h.outcomes
    exact Machine.everyState_of_invariant (fun _ _ _ h _ => h.step) Inv.initial htrue
  · refine Machine.everyStep_of_invariant (I := Inv timeout) ?_ Inv.initial htrue
    intro w event w' h _ hstep
    exact ⟨h.step hstep, h.attemptsKept event, fun p hp hf => h.startsAlone hp hf⟩

/-- A drive stops between its claim and the attempt, and another one takes the claim over, runs the
finalizer and settles it. -/
def stalledDrive : List Event :=
  [.terminate 1, .fire ⟨1, 0⟩, .drive 0 .ok true true, .drive 0 .ok true true,
    .drive 0 .ok true true, .drive 0 .ok true true, .drive 0 .ok true true, .drive 0 .ok true true,
    .tick 330000, .fire ⟨1, 0⟩, .drive 1 .ok true true, .drive 1 .ok true true,
    .drive 1 .ok true true, .drive 1 .ok true true, .drive 1 .ok true true, .drive 1 .ok true true,
    .drive 1 .ok true true, .finish 1 .ok, .drive 1 .ok true true, .drive 0 .ok true true]

theorem finalizer_starts_late : ¬ ((finalizerMachine none).EveryState SettledOnce {} stalledDrive ∧
    (finalizerMachine none).EveryStep (fun w event => AttemptsKept none w event ∧
      ∀ p ∈ starts w event, StartsAlone none w p.1 p.2) {} stalledDrive) := by
  rintro ⟨-, hstep⟩
  have hlate := hstep.mono fun w event h p hp => (h.2 p hp).1
  revert hlate
  decide

end Weft.Finalizer
