import Weft.Lease.Manager

/-! Fencing safety of the lease. The stored epoch only moves up, each epoch is won once,
and a fenced batch lands only while the store holds the epoch of its writer. -/

namespace Weft.Lease
open Weft.Js Weft.Storage Weft.Lib

/-! ## What one continuation does -/

/-- The epoch an acquire is about to commit follows the one it read. -/
def MintsNext (expectedEpoch : Option Bytes) (nextEpoch : Nat) : Prop :=
  nextEpoch < MAX_SAFE_INTEGER ∧
    match expectedEpoch with
    | none => nextEpoch = 1
    | some raw => ∃ e, decodeEpoch raw = some e ∧ nextEpoch = e + 1

def SameLease (m m' : LeaseManager) : Prop :=
  m'.heldEpoch = m.heldEpoch ∧ m'.heldEpochBytes = m.heldEpochBytes

/-- What a call can be suspended at right after code of its own ran. -/
def Fresh : Task → Prop
  | .takeOwnership _ expectedEpoch _ nextEpoch _ _ => MintsNext expectedEpoch nextEpoch
  | .fencedBatch .. => False
  | _ => True

theorem SameLease.refl (m : LeaseManager) : SameLease m m := ⟨rfl, rfl⟩

theorem reportLeaseLost_sameLease (m : LeaseManager) (reason : LeaseLostReason) :
    SameLease m (m.reportLeaseLost reason) := by
  unfold LeaseManager.reportLeaseLost
  split
  · exact SameLease.refl m
  · exact ⟨rfl, rfl⟩

theorem renewFailed_sameLease (codec : HolderCodec) (m : LeaseManager) (clock : Nat → Int) :
    SameLease m (renewFailed codec m clock) := by
  unfold renewFailed
  dsimp only
  split
  · exact reportLeaseLost_sameLease m _
  · exact SameLease.refl m

theorem renewSettled_spec (codec : HolderCodec) (f : Nat) (e : Engine) (renewedAt : Int)
    (holderBytes : Bytes) (clock : Nat → Int) (r : Response) :
    SameLease e.leaseManager
        (renewSettled codec f e renewedAt holderBytes clock r).leaseManager ∧
      (renewSettled codec f e renewedAt holderBytes clock r).inFlightLeaseAcquire =
        e.inFlightLeaseAcquire := by
  have hd := reportLeaseLost_sameLease e.leaseManager .deposed
  have hf := renewFailed_sameLease codec e.leaseManager clock
  unfold renewSettled
  dsimp only
  rcases r with _ | (_ | _) | _ | _
  case committed.false =>
    by_cases hl : e.leaseManager.leaseLost = true
    · simp only [hl, if_true]
      split
      · exact ⟨hd, rfl⟩
      · exact ⟨hd, rfl⟩
    · simp only [hl, Bool.false_eq_true, if_false]
      split
      · exact ⟨hd, rfl⟩
      · exact ⟨hd, rfl⟩
  case committed.true =>
    dsimp only
    split
    · exact ⟨⟨rfl, rfl⟩, rfl⟩
    · exact ⟨⟨rfl, rfl⟩, rfl⟩
  all_goals
    dsimp only
    split
    · exact ⟨hf, rfl⟩
    · exact ⟨hf, rfl⟩

theorem acquireLoop_fresh (m : LeaseManager) (l : AcquireLocals) (clock : Nat → Int) :
    Fresh (acquireLoop m l clock) := by
  unfold acquireLoop
  split
  · trivial
  · split
    · trivial
    · trivial

theorem tryAcquireOnce_fresh (codec : HolderCodec) (options : LeaseManagerOptions)
    (l : AcquireLocals) (epochRaw holderRaw : Option Bytes) (clock : Nat → Int) :
    Fresh (tryAcquireOnce codec options l epochRaw holderRaw clock) := by
  unfold tryAcquireOnce
  dsimp only
  split
  · trivial
  · rename_i hcorrupt
    split
    · trivial
    · split
      · trivial
      · split
        · trivial
        · rename_i hlt
          refine ⟨not_le.1 hlt, ?_⟩
          cases epochRaw with
          | none => rfl
          | some raw =>
            cases he : decodeEpoch raw with
            | none => exact (hcorrupt ⟨by simp, by simpa using he⟩).elim
            | some e => exact ⟨e, he, by simp [he]⟩

theorem waitForHandoff_fresh (codec : HolderCodec) (l : AcquireLocals)
    (holderRaw : Option Bytes) (clock : Nat → Int) :
    Fresh (waitForHandoff codec l holderRaw clock) := by
  unfold waitForHandoff
  dsimp only
  split
  · trivial
  · trivial

theorem releaseHolder_fresh (m : LeaseManager) :
    Fresh (releaseHolder m) ∧ (releaseHolder m).isAcquire = false := by
  unfold releaseHolder
  split
  · exact ⟨trivial, rfl⟩
  · exact ⟨trivial, rfl⟩

/-- A continuation either leaves the held epoch alone, or records the one just committed. -/
theorem resume_cases (codec : HolderCodec) (options : LeaseManagerOptions) (f : Nat)
    (e : Engine) (t : Task) (r : Response) (clock : Nat → Int) :
    (SameLease e.leaseManager (resume codec options f e t r clock).1.leaseManager ∧
        (resume codec options f e t r clock).1.inFlightLeaseAcquire = e.inFlightLeaseAcquire ∧
        Fresh (resume codec options f e t r clock).2 ∧
        ((resume codec options f e t r clock).2.isAcquire = true → t.isAcquire = true)) ∨
      ∃ l expectedEpoch expectedHolder nextEpoch acquiredAt holderBytes,
        t = .takeOwnership l expectedEpoch expectedHolder nextEpoch acquiredAt holderBytes ∧
        r = .committed true ∧
        resume codec options f e t r clock =
          ({ e with leaseManager :=
              recordOwnership e.leaseManager nextEpoch acquiredAt holderBytes },
            .settled .acquired) := by
  unfold resume
  split
  case h_1 => exact .inl ⟨.refl _, rfl, trivial, fun _ => rfl⟩
  case h_2 l holderRaw epochRaw =>
    exact .inl ⟨.refl _, rfl, tryAcquireOnce_fresh codec options l epochRaw holderRaw clock,
      fun _ => rfl⟩
  case h_3 => exact .inr ⟨_, _, _, _, _, _, rfl, rfl, rfl⟩
  case h_4 => exact .inl ⟨.refl _, rfl, trivial, fun _ => rfl⟩
  case h_5 l holderRaw =>
    exact .inl ⟨.refl _, rfl, waitForHandoff_fresh codec l holderRaw clock, fun _ => rfl⟩
  case h_6 l =>
    exact .inl ⟨.refl _, rfl, acquireLoop_fresh e.leaseManager l clock, fun _ => rfl⟩
  case h_7 renewedAt holderBytes =>
    obtain ⟨hsame, hflight⟩ := renewSettled_spec codec f e renewedAt holderBytes clock r
    exact .inl ⟨hsame, hflight, trivial, fun h => by cases h⟩
  case h_8 =>
    obtain ⟨hfresh, hacq⟩ := releaseHolder_fresh e.leaseManager
    exact .inl ⟨.refl _, rfl, hfresh, fun h => by rw [hacq] at h; cases h⟩
  case h_15 =>
    left
    split
    · exact ⟨.refl _, rfl, trivial, fun h => by cases h⟩
    · exact ⟨.refl _, rfl, trivial, fun h => by cases h⟩
  all_goals exact .inl ⟨⟨rfl, rfl⟩, rfl, trivial, fun h => by cases h⟩

/-! ## What serving a request does to the epoch -/

/-- A request that writes other keys leaves this one alone. -/
theorem serve_get_of_untouched (s : Store Bytes) (r : Request) (k : JsString)
    (h : ∀ op ∈ r.operations, op.key ≠ k) : (serve s r).2.get k = s.get k := by
  have hfree := get_applyBatchOperations_of_untouched s r.operations k h
  cases r with
  | get key => rfl
  | wait => rfl
  | batch operations =>
    simp only [serve, batch]
    split_ifs
    · exact hfree
    · rfl
  | conditionalBatch conditions operations =>
    simp only [serve]
    cases hcb : conditionalBatch s conditions operations with
    | none => rfl
    | some out =>
      obtain ⟨_ | _, s'⟩ := out
      · rw [conditionalBatch_refused hcb]
      · rw [(conditionalBatch_committed hcb).2]
        exact hfree

variable {s : Store Bytes} {operations : List (BatchOperation Bytes)}

variable {conditions : List (ConditionalBatchCondition Bytes)}

theorem serve_conditionalBatch_committed
    (h : (serve s (.conditionalBatch conditions operations)).1 = .committed true) :
    (∀ c ∈ conditions, s.get c.key = c.expectedValue) ∧
      (serve s (.conditionalBatch conditions operations)).2 =
        applyBatchOperations s operations := by
  simp only [serve] at h ⊢
  cases hcb : conditionalBatch s conditions operations with
  | none => simp [hcb] at h
  | some out =>
    obtain ⟨b, s'⟩ := out
    simp only [hcb, Response.committed.injEq] at h
    subst h
    exact conditionalBatch_committed hcb

theorem serve_conditionalBatch_ne_done (s : Store Bytes)
    (conditions : List (ConditionalBatchCondition Bytes))
    (operations : List (BatchOperation Bytes)) :
    (serve s (.conditionalBatch conditions operations)).1 ≠ .done := by
  simp only [serve]
  cases conditionalBatch s conditions operations with
  | none => simp
  | some out => simp

theorem serve_conditionalBatch_refused
    (h : (serve s (.conditionalBatch conditions operations)).1 ≠ .committed true) :
    (serve s (.conditionalBatch conditions operations)).2 = s := by
  simp only [serve] at h ⊢
  cases hcb : conditionalBatch s conditions operations with
  | none => rfl
  | some out =>
    obtain ⟨_ | _, s'⟩ := out
    · exact conditionalBatch_refused hcb
    · simp [hcb] at h

variable {d : Delivery}

theorem effect_of_ne_lost (s : Store Bytes) (r : Request) (h : d ≠ .lost) :
    d.effect s r = (serve s r).2 := by
  cases d with
  | served => rfl
  | lost => exact (h rfl).elim
  | answerLost => rfl

theorem effect_get_of_untouched (s : Store Bytes) (r : Request) (d : Delivery) (k : JsString)
    (h : ∀ op ∈ r.operations, op.key ≠ k) : (d.effect s r).get k = s.get k := by
  by_cases hd : d = .lost
  · rw [hd]
    rfl
  · rw [effect_of_ne_lost s r hd]
    exact serve_get_of_untouched s r k h

theorem avoidsLeaseKeys_ne (h : avoidsLeaseKeys operations = true) :
    ∀ op ∈ operations, op.key ≠ KEYS.leaseEpoch := by
  intro op hop
  have := List.all_eq_true.1 h op hop
  simp only [decide_eq_true_eq] at this
  exact this.1

def Task.isTakeOwnership : Task → Bool
  | .takeOwnership .. => true
  | _ => false

variable {t : Task}

/-- No request but that of `takeOwnership` writes the epoch. -/
theorem request_avoids_epoch (ht : t.isTakeOwnership = false)
    (hops : ∀ b operations base, t = .fencedBatch b operations base →
      avoidsLeaseKeys operations = true) :
    ∀ op ∈ t.request.operations, op.key ≠ KEYS.leaseEpoch := by
  cases t with
  | takeOwnership => cases ht
  | renewHolder =>
    simp [Task.request, Request.operations, BatchOperation.key, KEYS.leaseHolder_ne_leaseEpoch]
  | deleteHolder =>
    simp [Task.request, Request.operations, BatchOperation.key, KEYS.leaseHolder_ne_leaseEpoch]
  | fencedBatch b operations base =>
    have hfree := avoidsLeaseKeys_ne (hops b operations base rfl)
    rcases b with _ | b
    · cases base with
      | nil => exact hfree
      | cons c cs => exact hfree
    · exact hfree
  | _ => simp [Task.request, Request.operations]

variable {expectedEpoch expectedHolder : Option Bytes} {nextEpoch : Nat} {holderBytes : Bytes}

/-- A `takeOwnership` that commits moves the epoch from the one it read to the next. -/
theorem takeOwnership_commits {l : AcquireLocals} {acquiredAt : Int}
    (h : Commits s (.takeOwnership l expectedEpoch expectedHolder nextEpoch acquiredAt holderBytes)
      d) :
    s.get KEYS.leaseEpoch = expectedEpoch ∧
      (d.effect s (Task.request (.takeOwnership l expectedEpoch expectedHolder nextEpoch
        acquiredAt holderBytes))).get KEYS.leaseEpoch = some (encodeEpoch nextEpoch) := by
  obtain ⟨hd, hserve⟩ := h
  obtain ⟨hcond, heff⟩ := serve_conditionalBatch_committed hserve
  refine ⟨hcond _ List.mem_cons_self, ?_⟩
  rw [effect_of_ne_lost s _ hd, Task.request, heff]
  simp [applyBatchOperations, applyBatchOperation, KEYS.leaseHolder_ne_leaseEpoch.symm]

theorem takeOwnership_refused {l : AcquireLocals} {acquiredAt : Int}
    (h : ¬ Commits s (.takeOwnership l expectedEpoch expectedHolder nextEpoch acquiredAt
      holderBytes) d) :
    d.effect s (Task.request (.takeOwnership l expectedEpoch expectedHolder nextEpoch
      acquiredAt holderBytes)) = s := by
  by_cases hd : d = .lost
  · rw [hd]
    rfl
  · rw [effect_of_ne_lost s _ hd]
    exact serve_conditionalBatch_refused fun hc => h ⟨hd, hc⟩

/-! ## The invariant -/

def HeldOk (wins : List (Nat × Nat)) (i : Nat) (m : LeaseManager) : Prop :=
  m.heldEpochBytes = m.heldEpoch.map encodeEpoch ∧ ∀ e, m.heldEpoch = some e → (e, i) ∈ wins

/-- An acquire that was told it committed has won an epoch above the one held; a fenced batch
carries an epoch its engine won, not above the one held. -/
def FlightOk (wins : List (Nat × Nat)) (mode : OwnershipMode) (held : Option Nat)
    (fl : Flight) : Prop :=
  match fl.task with
  | .takeOwnership _ expectedEpoch _ nextEpoch _ _ =>
      MintsNext expectedEpoch nextEpoch ∧
        (fl.response = some (.committed true) →
          (nextEpoch, fl.engine) ∈ wins ∧ ∀ h, held = some h → h < nextEpoch)
  | .fencedBatch epochBytes operations _ =>
      avoidsLeaseKeys operations = true ∧ (epochBytes = none → mode = .none) ∧
        ∀ b, epochBytes = some b →
          ∃ e h, b = encodeEpoch e ∧ (e, fl.engine) ∈ wins ∧ held = some h ∧ e ≤ h
  | _ => True

structure Inv (options : Nat → EngineOptions) (s : System) : Prop where
  bounded : ∀ w ∈ s.wins, ∃ raw e,
    s.store.get KEYS.leaseEpoch = some raw ∧ decodeEpoch raw = some e ∧ w.1 ≤ e
  unique : (s.wins.map Prod.fst).Nodup
  held : ∀ i, HeldOk s.wins i (s.engines i).leaseManager
  flights : ∀ f fl, s.flights f = some fl →
    FlightOk s.wins (options fl.engine).ownershipMode
      (s.engines fl.engine).leaseManager.heldEpoch fl
  tracked : ∀ f fl, s.flights f = some fl → fl.task.isAcquire = true →
    (s.engines fl.engine).inFlightLeaseAcquire = some f

variable {wins : List (Nat × Nat)}

theorem HeldOk.of_sameLease {i : Nat} {m m' : LeaseManager} (h : HeldOk wins i m)
    (hsame : SameLease m m') : HeldOk wins i m' := by
  unfold HeldOk
  rw [hsame.1, hsame.2]
  exact h

variable {mode : OwnershipMode} {held : Option Nat}

theorem FlightOk.of_fresh {i : Nat} (h : Fresh t) : FlightOk wins mode held ⟨i, t, none⟩ := by
  cases t with
  | takeOwnership => exact ⟨h, fun hr => by cases hr⟩
  | fencedBatch => exact h.elim
  | _ => trivial

theorem FlightOk.mono_wins {wins wins' : List (Nat × Nat)} {fl : Flight}
    (hsub : ∀ w ∈ wins, w ∈ wins') (h : FlightOk wins mode held fl) :
    FlightOk wins' mode held fl := by
  obtain ⟨i, t, r⟩ := fl
  cases t with
  | takeOwnership =>
    obtain ⟨hmint, hwon⟩ := h
    refine ⟨hmint, fun hr => ?_⟩
    obtain ⟨hmem, hlt⟩ := hwon hr
    exact ⟨hsub _ hmem, hlt⟩
  | fencedBatch =>
    obtain ⟨hops, hmode, hepoch⟩ := h
    refine ⟨hops, hmode, fun b hb => ?_⟩
    obtain ⟨e, h, hbe, hmem, hheld, hle⟩ := hepoch b hb
    exact ⟨e, h, hbe, hsub _ hmem, hheld, hle⟩
  | _ => trivial

variable {options : Nat → EngineOptions}

variable {s : System}

/-- A won epoch is at most the stored one. -/
theorem Inv.win_le (hs : Inv options s) {w : Nat × Nat} (hw : w ∈ s.wins) {raw : Bytes} {e : Nat}
    (hraw : s.store.get KEYS.leaseEpoch = some raw) (he : decodeEpoch raw = some e) : w.1 ≤ e := by
  obtain ⟨raw', e', hraw', he', hle⟩ := hs.bounded w hw
  rw [hraw] at hraw'
  obtain rfl := Option.some.inj hraw'
  rw [he] at he'
  obtain rfl := Option.some.inj he'
  exact hle

theorem Inv.win_lt_max (hs : Inv options s) {w : Nat × Nat} (hw : w ∈ s.wins) :
    w.1 < MAX_SAFE_INTEGER := by
  obtain ⟨raw, e, -, he, hle⟩ := hs.bounded w hw
  exact lt_of_le_of_lt hle (decodeEpoch_eq_some he).2.2

/-- Fresh managers over any store, with nothing in flight. -/
structure Initial (s : System) : Prop where
  managers : ∀ i, (s.engines i).leaseManager = {}
  flights : ∀ f, s.flights f = none
  wins : s.wins = []

theorem Initial.inv (hs : Initial s) : Inv options s where
  bounded := by simp [hs.wins]
  unique := by simp [hs.wins]
  held := by
    intro i
    rw [hs.managers i]
    exact ⟨rfl, fun e h => by cases h⟩
  flights := by
    intro f fl h
    rw [hs.flights f] at h
    cases h
  tracked := by
    intro f fl h
    rw [hs.flights f] at h
    cases h

/-! ## One step keeps it -/

theorem inv_setEngine (hs : Inv options s) (i : Nat) (e : Engine)
    (hsame : SameLease (s.engines i).leaseManager e.leaseManager)
    (hacq : e.inFlightLeaseAcquire = (s.engines i).inFlightLeaseAcquire) :
    Inv options (s.setEngine i e) := { hs with
  held := by
    intro j
    by_cases hj : j = i
    · subst hj
      simpa [System.setEngine] using (hs.held j).of_sameLease hsame
    · simpa [System.setEngine, hj] using hs.held j
  flights := by
    intro f fl hfl
    have h := hs.flights f fl hfl
    by_cases hj : fl.engine = i
    · rw [hj, ← hsame.1] at h
      simpa [System.setEngine, hj] using h
    · simpa [System.setEngine, hj] using h
  tracked := by
    intro f fl hfl hacquire
    have h := hs.tracked f fl hfl hacquire
    by_cases hj : fl.engine = i
    · rw [hj, ← hacq] at h
      simpa [System.setEngine, hj] using h
    · simpa [System.setEngine, hj] using h }

/-- Code of engine `i` ran and left call `f` suspended at `t`. What has to hold of the other
calls of the engine, and of the new suspension, for the invariant to go on. -/
theorem inv_suspend (hs : Inv options s) (i f : Nat) (e : Engine) (t : Task)
    (hheld : HeldOk s.wins i e.leaseManager)
    (hothers : ∀ g fl, g ≠ f → s.flights g = some fl → fl.engine = i →
      FlightOk s.wins (options i).ownershipMode e.leaseManager.heldEpoch fl)
    (hnew : FlightOk s.wins (options i).ownershipMode e.leaseManager.heldEpoch ⟨i, t, none⟩)
    (htrackOthers : ∀ g fl, g ≠ f → s.flights g = some fl → fl.engine = i →
      fl.task.isAcquire = true → e.inFlightLeaseAcquire = some g)
    (htrackNew : t.isAcquire = true → e.inFlightLeaseAcquire = some f) :
    Inv options ((s.setEngine i e).setFlight f ⟨i, t, none⟩) := { hs with
  held := by
    intro j
    by_cases hj : j = i
    · subst hj
      simpa [System.setFlight, System.setEngine] using hheld
    · simpa [System.setFlight, System.setEngine, hj] using hs.held j
  flights := by
    intro g fl hfl
    by_cases hg : g = f
    · simp only [System.setFlight, hg, if_true, Option.some.injEq] at hfl
      subst hfl
      simpa [System.setFlight, System.setEngine] using hnew
    · have hfl' : s.flights g = some fl := by simpa [System.setFlight, System.setEngine, hg]
        using hfl
      by_cases hj : fl.engine = i
      · simpa [System.setFlight, System.setEngine, hj] using hothers g fl hg hfl' hj
      · simpa [System.setFlight, System.setEngine, hj] using hs.flights g fl hfl'
  tracked := by
    intro g fl hfl hacquire
    by_cases hg : g = f
    · simp only [System.setFlight, hg, if_true, Option.some.injEq] at hfl
      subst hfl
      simpa [System.setFlight, System.setEngine, hg] using htrackNew hacquire
    · have hfl' : s.flights g = some fl := by simpa [System.setFlight, System.setEngine, hg]
        using hfl
      by_cases hj : fl.engine = i
      · simpa [System.setFlight, System.setEngine, hj] using htrackOthers g fl hg hfl' hj hacquire
      · simpa [System.setFlight, System.setEngine, hj] using hs.tracked g fl hfl' hacquire }

variable {s s' : System} {f i : Nat}

variable {e : Engine}

/-- Call `f` starts and leaves the held epoch alone. -/
theorem inv_call (hs : Inv options s) (h : s.call f i e t = some s')
    (hsame : SameLease (s.engines i).leaseManager e.leaseManager)
    (hnew : FlightOk s.wins (options i).ownershipMode e.leaseManager.heldEpoch ⟨i, t, none⟩)
    (hacq : if t.isAcquire then e.inFlightLeaseAcquire = some f ∧
      (s.engines i).inFlightLeaseAcquire = none else e.inFlightLeaseAcquire =
      (s.engines i).inFlightLeaseAcquire) :
    Inv options s' := by
  unfold System.call at h
  split_ifs at h with hfree
  cases h
  refine inv_suspend hs i f e t ((hs.held i).of_sameLease hsame) ?_ hnew ?_ ?_
  · intro g fl _ hfl hi
    rw [hsame.1, ← hi]
    exact hs.flights g fl hfl
  · intro g fl _ hfl hi hacquire
    have htr := hs.tracked g fl hfl hacquire
    rw [hi] at htr
    split at hacq
    · rw [hacq.2] at htr
      cases htr
    · rw [hacq, htr]
  · intro ht
    rw [if_pos ht] at hacq
    exact hacq.1

variable {mo : LeaseManagerOptions} {clock : Nat → Int}

theorem acquire_inv (hs : Inv options s) (hidle : (s.engines i).inFlightLeaseAcquire = none)
    (h : s.call f i (trackAcquire (s.engines i) f (acquire mo (s.engines i).leaseManager clock)
      (acquire mo (s.engines i).leaseManager clock)) (acquire mo
      (s.engines i).leaseManager clock) = some s') :
    Inv options s' := by
  have hfresh := acquireLoop_fresh (s.engines i).leaseManager
    ⟨clock 0, clock 0 + mo.waitTimeoutMs, none, true⟩ fun n => clock (n + 1)
  refine inv_call hs h ?_ (FlightOk.of_fresh hfresh) ?_
  · unfold trackAcquire
    split_ifs
    · exact ⟨rfl, rfl⟩
    · exact ⟨rfl, rfl⟩
  · unfold trackAcquire
    split_ifs
    · exact ⟨rfl, hidle⟩
    · rfl

variable {codec : HolderCodec}

theorem renewOnce_task {options : LeaseManagerOptions} {m : LeaseManager}
    (h : renewOnce codec options m clock = some t) : Fresh t ∧ t.isAcquire = false := by
  unfold renewOnce at h
  split_ifs at h
  split at h
  · cases h
    exact ⟨trivial, rfl⟩
  · cases h

theorem renew_inv (hs : Inv options s)
    (hsame : SameLease (s.engines i).leaseManager e.leaseManager)
    (hacq : e.inFlightLeaseAcquire = (s.engines i).inFlightLeaseAcquire)
    (h : (renewOnce codec mo (s.engines i).leaseManager clock).bind (fun t => s.call f i e t) =
      some s') :
    Inv options s' := by
  obtain ⟨t, ht, hcall⟩ := Option.bind_eq_some_iff.1 h
  obtain ⟨hfresh, hno⟩ := renewOnce_task ht
  refine inv_call hs hcall hsame (FlightOk.of_fresh hfresh) ?_
  rw [if_neg (by simp [hno])]
  exact hacq

theorem release_inv (hs : Inv options s)
    (h : s.call f i { s.engines i with leaseManager := (release (s.engines i).leaseManager).1 }
      (release (s.engines i).leaseManager).2 = some s') :
    Inv options s' := by
  have hspec : SameLease (s.engines i).leaseManager (release (s.engines i).leaseManager).1 ∧
      Fresh (release (s.engines i).leaseManager).2 ∧
      (release (s.engines i).leaseManager).2.isAcquire = false := by
    unfold release
    dsimp only
    split
    · exact ⟨⟨rfl, rfl⟩, trivial, rfl⟩
    · exact ⟨⟨rfl, rfl⟩, releaseHolder_fresh _⟩
  refine inv_call hs h hspec.1 (FlightOk.of_fresh hspec.2.1) ?_
  rw [if_neg (by simp [hspec.2.2])]

theorem fencedCommit_inv (hs : Inv options s)
    {baseConditions : List (ConditionalBatchCondition Bytes)}
    (hops : avoidsLeaseKeys operations = true)
    (h : s.call f i (fencedCommit (options i).ownershipMode
      (s.engines i) operations baseConditions).1 (fencedCommit (options i).ownershipMode
      (s.engines i) operations baseConditions).2 = some s') :
    Inv options s' := by
  obtain ⟨hbytes, hwon⟩ := hs.held i
  unfold fencedCommit at h
  cases hr : resolveFenceEpochOrHalt (options i).ownershipMode (s.engines i) with
  | inl e' =>
    have he' : SameLease (s.engines i).leaseManager e'.leaseManager ∧
        e'.inFlightLeaseAcquire = (s.engines i).inFlightLeaseAcquire := by
      unfold resolveFenceEpochOrHalt at hr
      split at hr
      · obtain rfl := Sum.inl.inj hr
        exact ⟨.refl _, rfl⟩
      · split at hr
        · cases hr
        · split at hr
          · obtain rfl := Sum.inl.inj hr
            exact ⟨.refl _, rfl⟩
          · cases hr
    simp only [hr] at h
    exact inv_call hs h he'.1 trivial (by rw [if_neg (by simp [Task.isAcquire])]; exact he'.2)
  | inr epochBytes =>
    simp only [hr] at h
    refine inv_call hs h (.refl _) ⟨hops, ?_, ?_⟩ (by rw [if_neg (by simp [Task.isAcquire])])
    · rintro rfl
      unfold resolveFenceEpochOrHalt at hr
      split at hr
      · cases hr
      · split at hr
        · assumption
        · split at hr
          · cases hr
          · cases hr
    rintro b rfl
    have hb : (s.engines i).leaseManager.heldEpochBytes = some b := by
      unfold resolveFenceEpochOrHalt at hr
      split at hr
      · cases hr
      · split at hr
        · cases hr
        · split at hr
          · cases hr
          · rename_i bytes hbytes
            cases Sum.inr.inj hr
            exact hbytes
    rw [hbytes] at hb
    obtain ⟨e, he, rfl⟩ := Option.map_eq_some_iff.1 hb
    exact ⟨e, e, rfl, hwon e he, he, le_refl e⟩

/-- What a delivered request does to the flights, once the epoch and the wins are settled. -/
private theorem inv_deliver_of (hs : Inv options s) {r : Response} {store : Store Bytes}
    (hf : s.flights f = some ⟨i, t, none⟩)
    (hbounded : ∀ w ∈ wins, ∃ raw e, store.get KEYS.leaseEpoch = some raw ∧
      decodeEpoch raw = some e ∧ w.1 ≤ e)
    (hunique : (wins.map Prod.fst).Nodup) (hsub : ∀ w ∈ s.wins, w ∈ wins)
    (hnew : FlightOk wins (options i).ownershipMode (s.engines i).leaseManager.heldEpoch ⟨i, t,
      some r⟩) :
    Inv options { (s.setFlight f ⟨i, t, some r⟩) with store := store, wins := wins } where
  bounded := hbounded
  unique := hunique
  held := by
    intro j
    obtain ⟨hbytes, hwon⟩ := hs.held j
    exact ⟨hbytes, fun e he => hsub _ (hwon e he)⟩
  flights := by
    intro g fl hfl
    by_cases hg : g = f
    · simp only [System.setFlight, hg, if_true, Option.some.injEq] at hfl
      subst hfl
      exact hnew
    · simp only [System.setFlight, hg, if_false] at hfl
      exact (hs.flights g fl hfl).mono_wins hsub
  tracked := by
    intro g fl hfl hacquire
    by_cases hg : g = f
    · simp only [System.setFlight, hg, if_true, Option.some.injEq] at hfl
      subst hfl
      subst hg
      exact hs.tracked g ⟨i, t, none⟩ hf hacquire
    · simp only [System.setFlight, hg, if_false] at hfl
      exact hs.tracked g fl hfl hacquire

/-- An acquire that commits wins an epoch above every epoch won before. -/
theorem win_is_new (hs : Inv options s) {expectedEpoch : Option Bytes}
    (hmint : MintsNext expectedEpoch nextEpoch)
    (hread : s.store.get KEYS.leaseEpoch = expectedEpoch) :
    (∀ w ∈ s.wins, w.1 < nextEpoch) ∧ decodeEpoch (encodeEpoch nextEpoch) = some nextEpoch := by
  obtain ⟨hmax, hnext⟩ := hmint
  cases expectedEpoch with
  | none =>
    refine ⟨fun w hw => ?_, decodeEpoch_encodeEpoch (le_of_eq hnext.symm) hmax⟩
    obtain ⟨raw, e, hraw, -⟩ := hs.bounded w hw
    rw [hread] at hraw
    cases hraw
  | some raw =>
    obtain ⟨e, he, rfl⟩ := hnext
    refine ⟨fun w hw => ?_, decodeEpoch_encodeEpoch (Nat.le_add_left 1 e) hmax⟩
    exact Nat.lt_succ_of_le (hs.win_le hw hread he)

theorem Inv.effect_epoch (hs : Inv options s) (d : Delivery)
    (hf : s.flights f = some ⟨i, t, none⟩) (ht : t.isTakeOwnership = false) :
    (d.effect s.store t.request).get KEYS.leaseEpoch = s.store.get KEYS.leaseEpoch := by
  refine effect_get_of_untouched s.store t.request d _ (request_avoids_epoch ht ?_)
  rintro b operations base rfl
  exact (hs.flights f _ hf).1

theorem deliver_inv (hs : Inv options s) (d : Delivery) (hf : s.flights f = some ⟨i, t, none⟩) :
    Inv options { (s.setFlight f ⟨i, t, some (d.answer s.store t.request)⟩) with
      store := d.effect s.store t.request
      wins := recordWin s i t d } := by
  have hok := hs.flights f _ hf
  by_cases ht : t.isTakeOwnership = true
  · cases t with
    | takeOwnership l expectedEpoch expectedHolder nextEpoch acquiredAt holderBytes =>
      by_cases hc : Commits s.store
          (.takeOwnership l expectedEpoch expectedHolder nextEpoch acquiredAt holderBytes) d
      · obtain ⟨hread, hwritten⟩ := takeOwnership_commits hc
        obtain ⟨habove, hdecode⟩ := win_is_new hs hok.1 hread
        simp only [recordWin, hc, if_true]
        refine inv_deliver_of hs hf ?_ ?_ (fun w hw => List.mem_cons_of_mem _ hw) ?_
        · intro w hw
          refine ⟨_, _, hwritten, hdecode, ?_⟩
          rcases List.mem_cons.1 hw with rfl | hw
          · exact le_refl _
          · exact le_of_lt (habove w hw)
        · refine List.nodup_cons.2 ⟨?_, hs.unique⟩
          intro hmem
          obtain ⟨w, hw, heq⟩ := List.mem_map.1 hmem
          exact (habove w hw).ne heq
        · refine ⟨hok.1, fun _ => ⟨List.mem_cons_self, fun h hh => ?_⟩⟩
          exact habove (h, i) ((hs.held i).2 h hh)
      · have hsame := takeOwnership_refused hc
        simp only [recordWin, hc, if_false, hsame]
        refine inv_deliver_of hs hf hs.bounded hs.unique (fun w hw => hw) ⟨hok.1, fun hr => ?_⟩
        refine (hc ?_).elim
        cases d with
        | served => exact ⟨by simp, Option.some.inj hr⟩
        | lost => cases hr
        | answerLost => cases hr
    | _ => cases ht
  · rw [Bool.not_eq_true] at ht
    have hwins : recordWin s i t d = s.wins := by
      cases t with
      | takeOwnership => cases ht
      | _ => rfl
    rw [hwins]
    refine inv_deliver_of hs hf ?_ hs.unique (fun w hw => hw) ?_
    · rw [hs.effect_epoch d hf ht]
      exact hs.bounded
    · cases t with
      | takeOwnership => cases ht
      | fencedBatch => exact hok
      | _ => trivial

/-- The epoch recorded by an acquire is above the one its engine held, so the fenced batches of
that engine stay below it. -/
theorem FlightOk.of_recorded {next : Nat} {fl : Flight} (h : FlightOk wins mode held fl)
    (hacq : fl.task.isAcquire = false) (hlt : ∀ h, held = some h → h < next) :
    FlightOk wins mode (some next) fl := by
  obtain ⟨i, t, r⟩ := fl
  cases t with
  | takeOwnership => cases hacq
  | fencedBatch =>
    obtain ⟨hops, hmode, hepoch⟩ := h
    refine ⟨hops, hmode, fun b hb => ?_⟩
    obtain ⟨e, h, hbe, hmem, hheld, hle⟩ := hepoch b hb
    exact ⟨e, next, hbe, hmem, rfl, le_of_lt (lt_of_le_of_lt hle (hlt h hheld))⟩
  | _ => trivial

theorem trackAcquire_leaseManager (e : Engine) (f : Nat) (t t' : Task) :
    (trackAcquire e f t t').leaseManager = e.leaseManager := by
  unfold trackAcquire
  split_ifs
  · rfl
  · rfl
  · rfl

theorem resume_inv (hs : Inv options s) (codec : HolderCodec) (mo : LeaseManagerOptions)
    {r : Response} (clock : Nat → Int) (hf : s.flights f = some ⟨i, t, some r⟩) :
    Inv options ((s.setEngine i (trackAcquire (resume codec mo f (s.engines i) t r clock).1 f t
      (resume codec mo f (s.engines i) t r clock).2)).setFlight f
        ⟨i, (resume codec mo f (s.engines i) t r clock).2, none⟩) := by
  have honly : t.isAcquire = true → ∀ g fl, g ≠ f → s.flights g = some fl → fl.engine = i →
      fl.task.isAcquire = false := by
    intro ht g fl hg hfl hi
    by_contra hacq
    have h1 := hs.tracked g fl hfl (by simpa using hacq)
    have h2 := hs.tracked f _ hf ht
    rw [hi, h2] at h1
    exact hg (Option.some.inj h1).symm
  rcases resume_cases codec mo f (s.engines i) t r clock with
    ⟨hsame, hacq, hfresh, himp⟩ | ⟨l, x, y, next, at', hb, rfl, rfl, heq⟩
  · refine inv_suspend hs i f _ _ ?_ ?_ ?_ ?_ ?_
    · rw [trackAcquire_leaseManager]
      exact (hs.held i).of_sameLease hsame
    · intro g fl _ hfl hi
      rw [trackAcquire_leaseManager, hsame.1, ← hi]
      exact hs.flights g fl hfl
    · exact FlightOk.of_fresh hfresh
    · intro g fl hg hfl hi hacquire
      have htr := hs.tracked g fl hfl hacquire
      rw [hi] at htr
      have ht : t.isAcquire = false := by
        by_contra ht
        have := honly (by simpa using ht) g fl hg hfl hi
        rw [this] at hacquire
        cases hacquire
      have ht' : (resume codec mo f (s.engines i) t r clock).2.isAcquire = false := by
        by_contra ht'
        have := himp (by simpa using ht')
        rw [ht] at this
        cases this
      simp [trackAcquire, ht, ht', hacq, htr]
    · intro ht'
      simp [trackAcquire, ht']
  · have hok := hs.flights f _ hf
    obtain ⟨hmem, hlt⟩ := hok.2 rfl
    rw [heq]
    refine inv_suspend hs i f _ _ ?_ ?_ trivial ?_ (fun h => by cases h)
    · rw [trackAcquire_leaseManager]
      refine ⟨rfl, fun e he => ?_⟩
      cases he
      exact hmem
    · intro g fl hg hfl hi
      have hok' := hs.flights g fl hfl
      rw [hi] at hok'
      rw [trackAcquire_leaseManager]
      exact hok'.of_recorded (honly rfl g fl hg hfl hi) hlt
    · intro g fl hg hfl hi hacquire
      rw [honly rfl g fl hg hfl hi] at hacquire
      cases hacquire

theorem step_inv (codec : HolderCodec) (options : Nat → EngineOptions) {a : Label}
    (hs : Inv options s) (h : step codec options s a = some s') : Inv options s' := by
  cases a with
  | acquire f i clock =>
    simp only [step] at h
    split_ifs at h with hidle
    exact acquire_inv hs (by simpa using hidle) h
  | renewOnce f i clock => exact renew_inv hs (.refl _) rfl h
  | renewUnderGuard f i clock =>
    simp only [step] at h
    split_ifs at h
    refine renew_inv hs ?_ ?_ h
    · exact ⟨rfl, rfl⟩
    · rfl
  | release f i => exact release_inv hs h
  | stop i =>
    cases h
    exact inv_setEngine hs i _ ⟨rfl, rfl⟩ rfl
  | fencedCommit f i operations baseConditions =>
    simp only [step] at h
    split_ifs at h with hops
    exact fencedCommit_inv hs hops h
  | deliver f d =>
    simp only [step] at h
    split at h
    · rename_i i t hf
      split_ifs at h
      cases h
      exact deliver_inv hs d hf
    · cases h
  | resume f clock =>
    simp only [step] at h
    split at h
    · rename_i i t r hf
      split_ifs at h
      cases h
      exact resume_inv hs codec (options i).toLeaseManagerOptions clock hf
    · cases h
  | crash i =>
    cases h
    exact inv_setEngine hs i _ (.refl _) rfl

/-! ## Fencing safety -/

/-- The stored epoch as a number, `0` before the first acquire. -/
def storedEpoch (s : System) : Nat := ((s.store.get KEYS.leaseEpoch).map getBigUint64).getD 0

/-- Whatever the step does, the epoch stays in the store and does not go down. -/
def EpochKept (codec : HolderCodec) (options : Nat → EngineOptions) (s : System)
    (a : Label) : Prop :=
  ∀ t, step codec options s a = some t →
    ((s.store.get KEYS.leaseEpoch).isSome → (t.store.get KEYS.leaseEpoch).isSome) ∧
      storedEpoch s ≤ storedEpoch t

def EpochsWonOnce (s : System) : Prop :=
  ∀ e i j, (e, i) ∈ s.wins → (e, j) ∈ s.wins → i = j

/-- If the step lands a fenced batch of a lease-owning engine, the store holds the epoch that the
engine holds, and no other engine has won that epoch or a later one. -/
def LandsOnlyHeld (options : Nat → EngineOptions) (s : System) : Label → Prop
  | .deliver f d => ∀ i epochBytes operations base,
      s.flights f = some ⟨i, .fencedBatch epochBytes operations base, none⟩ →
      (options i).ownershipMode = .lease →
      Lands s.store (.fencedBatch epochBytes operations base) d →
      s.store.get KEYS.leaseEpoch = (s.engines i).leaseManager.heldEpochBytes ∧
        ∃ e, (s.engines i).leaseManager.heldEpoch = some e ∧
          s.store.get KEYS.leaseEpoch = some (encodeEpoch e) ∧
          ∀ e' j, (e', j) ∈ s.wins → e ≤ e' → e' = e ∧ j = i
  | _ => True

theorem nodup_fst_unique (h : (wins.map Prod.fst).Nodup) {e i j : Nat} (hi : (e, i) ∈ wins)
    (hj : (e, j) ∈ wins) : i = j := by
  have := List.inj_on_of_nodup_map h hi hj rfl
  exact (Prod.ext_iff.1 this).2

theorem epochKept_of_get_eq {s t : System}
    (h : t.store.get KEYS.leaseEpoch = s.store.get KEYS.leaseEpoch) :
    ((s.store.get KEYS.leaseEpoch).isSome → (t.store.get KEYS.leaseEpoch).isSome) ∧
      storedEpoch s ≤ storedEpoch t := by
  unfold storedEpoch
  rw [h]
  exact ⟨id, le_refl _⟩

theorem call_store (h : s.call f i e t = some s') : s'.store = s.store := by
  unfold System.call at h
  split_ifs at h
  cases h
  rfl

/-- Only a delivered request touches the store. -/
theorem step_store {options : Nat → EngineOptions} {a : Label}
    (h : step codec options s a = some s') :
    s'.store = s.store ∨ ∃ f d i t, a = .deliver f d ∧ s.flights f = some ⟨i, t, none⟩ ∧
      s'.store = d.effect s.store t.request := by
  cases a with
  | acquire f i clock =>
    simp only [step] at h
    split_ifs at h
    exact .inl (call_store h)
  | renewOnce f i clock =>
    obtain ⟨t, -, hcall⟩ := Option.bind_eq_some_iff.1 h
    exact .inl (call_store hcall)
  | renewUnderGuard f i clock =>
    simp only [step] at h
    split_ifs at h
    obtain ⟨t, -, hcall⟩ := Option.bind_eq_some_iff.1 h
    exact .inl (call_store hcall)
  | release f i => exact .inl (call_store h)
  | stop i =>
    cases h
    exact .inl rfl
  | fencedCommit f i operations baseConditions =>
    simp only [step] at h
    split_ifs at h
    exact .inl (call_store h)
  | deliver f d =>
    simp only [step] at h
    split at h
    · rename_i i t hf
      split_ifs at h
      cases h
      exact .inr ⟨f, d, i, t, rfl, hf, rfl⟩
    · cases h
  | resume f clock =>
    simp only [step] at h
    split at h
    · split_ifs at h
      cases h
      exact .inl rfl
    · cases h
  | crash i =>
    cases h
    exact .inl rfl

theorem step_epochKept (codec : HolderCodec) (options : Nat → EngineOptions) (hs : Inv options s)
    (a : Label) : EpochKept codec options s a := by
  intro s' h
  rcases step_store h with hsame | ⟨f, d, i, t, rfl, hf, heff⟩
  · exact epochKept_of_get_eq (by rw [hsame])
  have hok := hs.flights f _ hf
  cases t with
  | takeOwnership l expectedEpoch expectedHolder nextEpoch acquiredAt holderBytes =>
    by_cases hc : Commits s.store
        (.takeOwnership l expectedEpoch expectedHolder nextEpoch acquiredAt holderBytes) d
    · obtain ⟨hread, hwritten⟩ := takeOwnership_commits hc
      obtain ⟨-, hdecode⟩ := win_is_new hs hok.1 hread
      rw [← heff] at hwritten
      refine ⟨fun _ => by rw [hwritten]; rfl, ?_⟩
      unfold storedEpoch
      rw [hwritten, hread]
      simp only [Option.map_some, Option.getD_some, (decodeEpoch_eq_some hdecode).1]
      cases expectedEpoch with
      | none => simp
      | some raw =>
        obtain ⟨-, e, he, rfl⟩ := hok.1
        simp only [Option.map_some, Option.getD_some, (decodeEpoch_eq_some he).1]
        omega
    · rw [takeOwnership_refused hc] at heff
      exact epochKept_of_get_eq (by rw [heff])
  | _ =>
    refine epochKept_of_get_eq ?_
    rw [heff]
    exact hs.effect_epoch d hf rfl

theorem step_landsOnlyHeld (hs : Inv options s) (a : Label) : LandsOnlyHeld options s a := by
  cases a with
  | deliver f d =>
    intro i epochBytes operations base hf hlease hlands
    obtain ⟨-, hmode, hepoch⟩ := hs.flights f _ hf
    obtain ⟨b, rfl⟩ : ∃ b, epochBytes = some b := by
      cases epochBytes with
      | none =>
        have hnone := hmode rfl
        rw [hlease] at hnone
        cases hnone
      | some b => exact ⟨b, rfl⟩
    obtain ⟨e, h, rfl, hmem, hheld, hle⟩ := hepoch b rfl
    obtain ⟨hcond, -⟩ := serve_conditionalBatch_committed
      (hlands.2.resolve_right (serve_conditionalBatch_ne_done s.store _ _))
    have hstored : s.store.get KEYS.leaseEpoch = some (encodeEpoch e) :=
      hcond ⟨KEYS.leaseEpoch, some (encodeEpoch e)⟩ (by simp [fenceConditions])
    obtain ⟨raw, n, hraw, hn, hen⟩ := hs.bounded _ hmem
    rw [hstored] at hraw
    cases hraw
    have hne : n = e := by
      have hlt : e < 2 ^ 64 := lt_trans (hs.win_lt_max hmem) (by decide)
      rw [← (decodeEpoch_eq_some hn).1, getBigUint64_encodeEpoch hlt]
    subst hne
    have hwon := (hs.held i).2 h hheld
    have hhe : h = n := le_antisymm (hs.win_le hwon hstored hn) hle
    subst hhe
    refine ⟨?_, h, hheld, hstored, ?_⟩
    · rw [(hs.held i).1, hheld, hstored]
      rfl
    · intro e' j hj hle'
      have heq : e' = h := le_antisymm (hs.win_le hj hstored hn) hle'
      subst heq
      exact ⟨rfl, nodup_fst_unique hs.unique hj hmem⟩
  | _ => trivial

theorem lease_fencing_safe (codec : HolderCodec) (options : Nat → EngineOptions)
    (s : System) (hs : Initial s) (as : List Label) :
    (leaseSystem codec options).EveryStep
        (fun s a => EpochKept codec options s a ∧ LandsOnlyHeld options s a) s as ∧
      (leaseSystem codec options).EveryState EpochsWonOnce s as := by
  have h0 : Inv options s := hs.inv
  have htrue := Machine.everyStep_true (M := leaseSystem codec options) as s
  constructor
  · refine Machine.everyStep_of_invariant (I := Inv options) ?_ h0 htrue
    intro s a t hs _ ht
    exact ⟨step_inv codec options hs ht, step_epochKept codec options hs a,
      step_landsOnlyHeld hs a⟩
  · refine (Machine.everyState_of_invariant (I := Inv options) ?_ h0 htrue).mono ?_
    · intro s a t hs _ ht
      exact step_inv codec options hs ht
    · intro t ht e i j hi hj
      exact nodup_fst_unique ht.unique hi hj

/-! A handoff: engine `0` acquires and sends a fenced batch, its lease runs out, engine `1`
acquires, and only then does the batch arrive. -/

def asciiBytes (s : String) : Bytes := s.toList.map fun c => UInt8.ofNat c.toNat

def handoffOptions (i : Nat) : EngineOptions :=
  ⟨⟨if i = 0 then js "a" else js "b", 10, 5⟩, .lease⟩

def holderJson (r : LeaseHolderRecord) : Bytes :=
  asciiBytes "\x7b\"holderId\":\"" ++ r.holderId.map (fun u => UInt8.ofNat u.val) ++
    asciiBytes ("\",\"expiresAt\":" ++ toString r.expiresAt ++ ",\"epoch\":" ++
      toString r.epoch ++ "\x7d")

def handoffCodec : HolderCodec where
  encodeHolder := holderJson
  decodeHolder raw :=
    [⟨js "a", 10, 1⟩, ⟨js "b", 30, 2⟩].find? fun r => holderJson r = raw

def handoffStart : System := ⟨OrderedStore.empty, fun _ => {}, fun _ => none, []⟩

def acquireRun (f i : Nat) (now : Int) : List Label :=
  [.acquire f i (fun _ => now), .deliver f .served, .resume f (fun _ => now), .deliver f .served,
    .resume f (fun _ => now), .deliver f .served, .resume f (fun _ => now)]

def handoffRun : List Label :=
  acquireRun 0 0 0 ++ [Label.fencedCommit 1 0 [.put (js "wf:x") [1]] []] ++ acquireRun 2 1 20 ++
    [Label.deliver 1 .served]

theorem lease_fencing_safe_handoff :
    Initial handoffStart ∧
      ((leaseSystem handoffCodec handoffOptions).final handoffStart handoffRun).wins =
        [(2, 1), (1, 0)] ∧
      ((leaseSystem handoffCodec handoffOptions).final handoffStart handoffRun).store.get
        (js "wf:x") = none ∧
      (leaseSystem handoffCodec handoffOptions).EveryStep
        (fun s a => EpochKept handoffCodec handoffOptions s a ∧
          LandsOnlyHeld handoffOptions s a)
        handoffStart handoffRun ∧
      (leaseSystem handoffCodec handoffOptions).EveryState EpochsWonOnce handoffStart
        handoffRun := by
  have h0 : Initial handoffStart := ⟨fun _ => rfl, fun _ => rfl, rfl⟩
  refine ⟨h0, by decide +kernel, by decide +kernel, ?_⟩
  exact lease_fencing_safe handoffCodec handoffOptions handoffStart h0 handoffRun

end Weft.Lease
