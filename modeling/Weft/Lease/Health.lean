import Weft.Lease.Corruption
import Weft.Lease.Json

/-! The health of a lease manager under one clock that never goes back: at most one manager takes
itself for healthy at any time. -/

namespace Weft.Lease
open Weft.Js Weft.Storage Weft.Lib

/-! ## Health -/

structure LastKnownLease where
  holderId : JsString
  heldSince : Int
  expiresAt : Int
  lastRenewedAt : Int
  fencingEpoch : Nat
deriving DecidableEq, Repr

inductive LeaseManagerHealth where
  | noLease
  | healthy (lastKnownLease : LastKnownLease)
  | contested (lossReason : Option LeaseLostReason) (lastKnownLease : LastKnownLease)
deriving DecidableEq, Repr

def LeaseManager.health (codec : HolderCodec) (m : LeaseManager) (now : Int) : LeaseManagerHealth :=
  if m.stopped then .noLease
  else match m.lastHolderBytes.bind codec.decodeHolder, m.heldEpoch, m.heldSince,
      m.lastRenewedAt with
    | some holder, some heldEpoch, some heldSince, some lastRenewedAt =>
      let lastKnownLease : LastKnownLease :=
        ⟨holder.holderId, heldSince, holder.expiresAt, lastRenewedAt, heldEpoch⟩
      match m.leaseLostReason with
      | some reason => .contested (some reason) lastKnownLease
      | none =>
        if now ≥ holder.expiresAt then .contested none lastKnownLease
        else .healthy lastKnownLease
    | _, _, _, _ => .noLease

def LeaseManagerHealth.isHealthy : LeaseManagerHealth → Bool
  | .healthy _ => true
  | _ => false

theorem health_healthy {codec : HolderCodec} {m : LeaseManager} {now : Int}
    (h : (m.health codec now).isHealthy = true) :
    m.stopped = false ∧ ∃ b r, m.lastHolderBytes = some b ∧ codec.decodeHolder b = some r ∧
      now < r.expiresAt := by
  unfold LeaseManager.health at h
  split_ifs at h with hstopped
  · cases h
  · split at h
    · rename_i holder heldEpoch heldSince lastRenewedAt hholder _ _ _
      dsimp only at h
      split at h
      · cases h
      · split_ifs at h with hexpired
        · cases h
        · obtain ⟨b, hb, hr⟩ := Option.bind_eq_some_iff.1 hholder
          exact ⟨by simpa using hstopped, b, holder, hb, hr, not_le.1 hexpired⟩
    · cases h

/-! ## One clock -/

/-- The readings of a clock that stands at `now` and moves on by some ticks before each. -/
def readings (now : Int) (ticks : Nat → Nat) : Nat → Int
  | 0 => now + ticks 0
  | n + 1 => readings now ticks n + ticks (n + 1)

theorem le_readings (now : Int) (ticks : Nat → Nat) (n : Nat) : now ≤ readings now ticks n := by
  induction n with
  | zero => simp [readings]
  | succ n ih =>
    rw [readings]
    omega

theorem readings_mono (now : Int) (ticks : Nat → Nat) {n k : Nat} (h : n ≤ k) :
    readings now ticks n ≤ readings now ticks k := by
  induction h with
  | refl => exact le_rfl
  | step _ ih =>
    rw [readings]
    omega

def Label.withClock (clock : Nat → Int) : Label → Label
  | .acquire f i _ => .acquire f i clock
  | .renewOnce f i _ => .renewOnce f i clock
  | .renewUnderGuard f i _ => .renewUnderGuard f i clock
  | .resume f _ => .resume f clock
  | a => a

structure TimedSystem where
  system : System
  now : Int

structure TimedLabel where
  label : Label
  ticks : Nat → Nat

/-- No code reads the clock more than three times before its next request. -/
def timedStep (codec : HolderCodec) (options : Nat → EngineOptions) (s : TimedSystem)
    (a : TimedLabel) : Option TimedSystem :=
  (step codec options s.system (a.label.withClock (readings s.now a.ticks))).map fun t =>
    ⟨t, readings s.now a.ticks 3⟩

def timedLeaseSystem (codec : HolderCodec) (options : Nat → EngineOptions) :
    Machine TimedSystem TimedLabel := ⟨timedStep codec options⟩

/-- At `now` and at any later instant before the next step, one engine at most is healthy. -/
def HealthExclusive (codec : HolderCodec) (s : TimedSystem) : Prop :=
  ∀ t, s.now ≤ t → ∀ i j,
    ((s.system.engines i).leaseManager.health codec t).isHealthy = true →
    ((s.system.engines j).leaseManager.health codec t).isHealthy = true → i = j

/-! ## What the stored record says of the local ones -/

section

variable (codec : HolderCodec) (options : Nat → EngineOptions)

/-- Where a record of engine `i` is not expired and the engine not stopped, engine `i` has won the
stored epoch, and the stored record lasts at least as long. -/
def Backed (s : System) (now : Int) (i : Nat) (b : Bytes) : Prop :=
  ∀ r, codec.decodeHolder b = some r →
    r.expiresAt ≤ now ∨ (s.engines i).leaseManager.stopped = true ∨
      ∃ stored r' e, s.store.get KEYS.leaseHolder = some stored ∧
        codec.decodeHolder stored = some r' ∧ r.expiresAt ≤ r'.expiresAt ∧
        s.store.get KEYS.leaseEpoch = some (encodeEpoch e) ∧ (e, i) ∈ s.wins

/-- A record that engine `i` wrote or is about to write. -/
def Written (s : System) (now : Int) (i : Nat) (r : LeaseHolderRecord) : Prop :=
  (r.epoch, i) ∈ s.wins ∧ 1 ≤ r.epoch ∧ 0 ≤ r.expiresAt ∧
    r.expiresAt ≤ now + (options i).ttlMs ∧
    ∃ h, (s.engines i).leaseManager.heldEpoch = some h ∧ r.epoch ≤ h

def LastOk (s : System) (now : Int) (i : Nat) : Prop :=
  ∀ b, (s.engines i).leaseManager.lastHolderBytes = some b →
    (∃ r, b = codec.encodeHolder r ∧ Written options s now i r) ∧ Backed codec s now i b

def CallOk (s : System) (now : Int) (fl : Flight) : Prop :=
  match fl.task with
  | .takeOwnership _ _ expectedHolder nextEpoch acquiredAt holderBytes =>
      holderBytes = codec.encodeHolder
        ⟨(options fl.engine).holderId, acquiredAt + (options fl.engine).ttlMs, nextEpoch⟩ ∧
      0 ≤ acquiredAt ∧ acquiredAt ≤ now ∧
      (∀ b r, expectedHolder = some b → codec.decodeHolder b = some r → r.expiresAt ≤ now) ∧
      (fl.response = some (.committed true) → Backed codec s now fl.engine holderBytes)
  | .renewHolder prior _ holderBytes =>
      (∃ r r', prior = codec.encodeHolder r ∧ holderBytes = codec.encodeHolder r' ∧
        Written options s now fl.engine r ∧ Written options s now fl.engine r' ∧
        r.expiresAt ≤ r'.expiresAt ∧ r.epoch ≤ r'.epoch) ∧
      (fl.response = some (.committed true) → Backed codec s now fl.engine holderBytes)
  | .awaitRenewal _ => (s.engines fl.engine).leaseManager.stopped = true
  | .deleteHolder prior =>
      (s.engines fl.engine).leaseManager.stopped = true ∧
        ∃ r, prior = codec.encodeHolder r ∧ (r.epoch, fl.engine) ∈ s.wins
  | _ => True

structure Timely (s : System) (now : Int) : Prop where
  clock : 0 ≤ now
  stored : s.wins ≠ [] → ∀ b, s.store.get KEYS.leaseHolder = some b →
    ∃ r, b = codec.encodeHolder r ∧ s.store.get KEYS.leaseEpoch = some (encodeEpoch r.epoch)
  last : ∀ i, LastOk codec options s now i
  calls : ∀ f fl, s.flights f = some fl → CallOk codec options s now fl

/-! ## Later states -/

/-- A state from a later instant: no win is lost, nobody starts again, no held epoch goes down. -/
structure Later (s s' : System) (now now' : Int) : Prop where
  clock : now ≤ now'
  wins : ∀ w ∈ s.wins, w ∈ s'.wins
  stopped : ∀ i, (s.engines i).leaseManager.stopped = true →
    (s'.engines i).leaseManager.stopped = true
  held : ∀ i h, (s.engines i).leaseManager.heldEpoch = some h →
    ∃ h', (s'.engines i).leaseManager.heldEpoch = some h' ∧ h ≤ h'

variable {codec options}

variable {s s' : System} {now now' : Int} {i : Nat}

variable {r : LeaseHolderRecord}

theorem Written.later (hl : Later s s' now now') (h : Written options s now i r) :
    Written options s' now' i r := by
  obtain ⟨hwon, hpos, hstart, hend, held, hheld, hle⟩ := h
  obtain ⟨held', hheld', hle'⟩ := hl.held i held hheld
  have hclock := hl.clock
  exact ⟨hl.wins _ hwon, hpos, hstart, by omega, held', hheld', hle.trans hle'⟩

theorem Backed.later {b : Bytes} (hl : Later s s' now now')
    (hholder : s'.store.get KEYS.leaseHolder = s.store.get KEYS.leaseHolder)
    (hepoch : s'.store.get KEYS.leaseEpoch = s.store.get KEYS.leaseEpoch)
    (h : Backed codec s now i b) : Backed codec s' now' i b := by
  intro r hr
  have hclock := hl.clock
  rcases h r hr with hexpired | hstopped | ⟨stored, r', e, hstored, hr', hle, he, hwon⟩
  · exact .inl (by omega)
  · exact .inr (.inl (hl.stopped i hstopped))
  · exact .inr (.inr ⟨stored, r', e, hholder.trans hstored, hr', hle, hepoch.trans he,
      hl.wins _ hwon⟩)

theorem CallOk.later {fl : Flight} (hl : Later s s' now now')
    (hbacked : ∀ b, Backed codec s now fl.engine b → Backed codec s' now' fl.engine b)
    (h : CallOk codec options s now fl) : CallOk codec options s' now' fl := by
  obtain ⟨i, t, r⟩ := fl
  have hclock := hl.clock
  cases t with
  | takeOwnership l expectedEpoch expectedHolder nextEpoch acquiredAt holderBytes =>
    obtain ⟨hbytes, hstart, hend, hexpired, hcommitted⟩ := h
    exact ⟨hbytes, hstart, hend.trans hclock, fun b r hb hr => (hexpired b r hb hr).trans hclock,
      fun hr => hbacked _ (hcommitted hr)⟩
  | renewHolder prior renewedAt holderBytes =>
    obtain ⟨⟨p, q, hp, hq, hwp, hwq, hlast, hmore⟩, hcommitted⟩ := h
    exact ⟨⟨p, q, hp, hq, hwp.later hl, hwq.later hl, hlast, hmore⟩,
      fun hr => hbacked _ (hcommitted hr)⟩
  | awaitRenewal renewal => exact hl.stopped i h
  | deleteHolder prior =>
    obtain ⟨hstopped, p, hp, hwon⟩ := h
    exact ⟨hl.stopped i hstopped, p, hp, hl.wins _ hwon⟩
  | _ => trivial

theorem LastOk.later (hl : Later s s' now now')
    (hbacked : ∀ b, Backed codec s now i b → Backed codec s' now' i b)
    (hlast : (s'.engines i).leaseManager.lastHolderBytes =
      (s.engines i).leaseManager.lastHolderBytes)
    (h : LastOk codec options s now i) : LastOk codec options s' now' i := by
  intro b hb
  obtain ⟨⟨r, hr, hwritten⟩, hback⟩ := h b (hlast ▸ hb)
  exact ⟨⟨r, hr, hwritten.later hl⟩, hbacked b hback⟩

/-! ## Local code -/

variable {s : System}

variable {e : Engine}

/-- Code of engine `i` ran and left call `f` at `t`. -/
private theorem later_suspend (hnow : now ≤ now') (i f : Nat) (t : Task)
    (hstopped : (s.engines i).leaseManager.stopped = true → e.leaseManager.stopped = true)
    (hheld : ∀ h, (s.engines i).leaseManager.heldEpoch = some h →
      ∃ h', e.leaseManager.heldEpoch = some h' ∧ h ≤ h') :
    Later s ((s.setEngine i e).setFlight f ⟨i, t, none⟩) now now' where
  clock := hnow
  wins := fun w hw => hw
  stopped := by
    intro j hj
    by_cases hji : j = i
    · subst hji
      simpa [System.setEngine, System.setFlight] using hstopped hj
    · simpa [System.setEngine, System.setFlight, hji] using hj
  held := by
    intro j h hj
    by_cases hji : j = i
    · subst hji
      simpa [System.setEngine, System.setFlight] using hheld h hj
    · exact ⟨h, by simpa [System.setEngine, System.setFlight, hji] using hj, le_rfl⟩

variable {t : Task}

theorem timely_suspend (hs : Timely codec options s now) (hnow : now ≤ now') (i f : Nat)
    (hstopped : (s.engines i).leaseManager.stopped = true → e.leaseManager.stopped = true)
    (hheld : ∀ h, (s.engines i).leaseManager.heldEpoch = some h →
      ∃ h', e.leaseManager.heldEpoch = some h' ∧ h ≤ h')
    (hlast : e.leaseManager.lastHolderBytes = (s.engines i).leaseManager.lastHolderBytes ∨ ∀ b,
      e.leaseManager.lastHolderBytes = some b →
      Backed codec s now i b ∧ ∃ r, b = codec.encodeHolder r ∧ (r.epoch, i) ∈ s.wins ∧
      1 ≤ r.epoch ∧ 0 ≤ r.expiresAt ∧ r.expiresAt ≤ now' + (options i).ttlMs ∧ ∃ h,
      e.leaseManager.heldEpoch = some h ∧ r.epoch ≤ h)
    (hcall : CallOk codec options ((s.setEngine i e).setFlight f ⟨i, t, none⟩) now' ⟨i, t, none⟩) :
    Timely codec options ((s.setEngine i e).setFlight f ⟨i, t, none⟩) now' := by
  have hl := later_suspend hnow i f t hstopped hheld
  have hbacked : ∀ j b, Backed codec s now j b →
      Backed codec ((s.setEngine i e).setFlight f ⟨i, t, none⟩) now' j b :=
    fun j b h => h.later hl rfl rfl
  refine ⟨hs.clock.trans hnow, hs.stored, fun j => ?_, fun g fl hfl => ?_⟩
  · by_cases hji : j = i
    · subst hji
      have hengine : ((s.setEngine j e).setFlight f ⟨j, t, none⟩).engines j = e := if_pos rfl
      rcases hlast with hsame | hnew
      · exact (hs.last j).later hl (hbacked j) (by rw [hengine, hsame])
      · intro b hb
        rw [hengine] at hb
        obtain ⟨hback, r, hr, hwon, hone, hstart, hend, hheldAt⟩ := hnew b hb
        refine ⟨⟨r, hr, hwon, hone, hstart, hend, ?_⟩, hbacked j b hback⟩
        rw [hengine]
        exact hheldAt
    · refine (hs.last j).later hl (hbacked j) ?_
      simp [System.setEngine, System.setFlight, hji]
  · by_cases hg : g = f
    · simp only [System.setFlight, hg, if_true, Option.some.injEq] at hfl
      subst hfl
      exact hcall
    · simp only [System.setFlight, hg, if_false] at hfl
      exact (hs.calls g fl hfl).later hl (hbacked fl.engine)

theorem timely_setEngine (hs : Timely codec options s now) (hnow : now ≤ now') (i : Nat)
    (hstopped : (s.engines i).leaseManager.stopped = true → e.leaseManager.stopped = true)
    (hheld : e.leaseManager.heldEpoch = (s.engines i).leaseManager.heldEpoch)
    (hlast : e.leaseManager.lastHolderBytes = (s.engines i).leaseManager.lastHolderBytes) :
    Timely codec options (s.setEngine i e) now' := by
  have hl : Later s (s.setEngine i e) now now' := by
    refine ⟨hnow, fun w hw => hw, fun j hj => ?_, fun j h hj => ⟨h, ?_, le_rfl⟩⟩
    · by_cases hji : j = i
      · subst hji
        simpa [System.setEngine] using hstopped hj
      · simpa [System.setEngine, hji] using hj
    · by_cases hji : j = i
      · subst hji
        simpa [System.setEngine, hheld] using hj
      · simpa [System.setEngine, hji] using hj
  have hbacked : ∀ j b, Backed codec s now j b → Backed codec (s.setEngine i e) now' j b :=
    fun j b h => h.later hl rfl rfl
  refine ⟨hs.clock.trans hnow, hs.stored, fun j => (hs.last j).later hl (hbacked j) ?_,
    fun g fl hfl => (hs.calls g fl hfl).later hl (hbacked fl.engine)⟩
  by_cases hji : j = i
  · subst hji
    simpa [System.setEngine] using hlast
  · simp [System.setEngine, hji]

theorem timely_call (hs : Timely codec options s now) (hnow : now ≤ now') {i f : Nat}
    (hstopped : (s.engines i).leaseManager.stopped = true → e.leaseManager.stopped = true)
    (hheld : e.leaseManager.heldEpoch = (s.engines i).leaseManager.heldEpoch)
    (hlast : e.leaseManager.lastHolderBytes = (s.engines i).leaseManager.lastHolderBytes)
    (hcall : CallOk codec options ((s.setEngine i e).setFlight f ⟨i, t, none⟩) now' ⟨i, t, none⟩)
    (h : s.call f i e t = some s') : Timely codec options s' now' := by
  unfold System.call at h
  split_ifs at h
  cases h
  exact timely_suspend hs hnow i f hstopped (fun h hh => ⟨h, hheld.trans hh, le_rfl⟩) (.inl hlast)
    hcall

/-- A call at which nothing is claimed. -/
def Task.isPlain : Task → Bool
  | .takeOwnership .. | .renewHolder .. | .awaitRenewal _ | .deleteHolder _ => false
  | _ => true

variable {now : Int}

theorem CallOk.of_plain {fl : Flight} (h : fl.task.isPlain = true) :
    CallOk codec options s now fl := by
  obtain ⟨i, t, r⟩ := fl
  cases t with
  | takeOwnership => cases h
  | renewHolder => cases h
  | awaitRenewal => cases h
  | deleteHolder => cases h
  | _ => trivial

/-- The manager as far as health depends on it, the last record apart. -/
def SameStanding (m m' : LeaseManager) : Prop :=
  m'.stopped = m.stopped ∧ m'.heldEpoch = m.heldEpoch

theorem reportLeaseLost_standing (m : LeaseManager) (reason : LeaseLostReason) :
    SameStanding m (m.reportLeaseLost reason) ∧
      (m.reportLeaseLost reason).lastHolderBytes = m.lastHolderBytes := by
  unfold LeaseManager.reportLeaseLost
  split_ifs
  · exact ⟨⟨rfl, rfl⟩, rfl⟩
  · exact ⟨⟨rfl, rfl⟩, rfl⟩

theorem renewFailed_standing (codec : HolderCodec) (m : LeaseManager) (clock : Nat → Int) :
    SameStanding m (renewFailed codec m clock) ∧
      (renewFailed codec m clock).lastHolderBytes = m.lastHolderBytes := by
  unfold renewFailed
  dsimp only
  split_ifs
  · exact reportLeaseLost_standing m _
  · exact ⟨⟨rfl, rfl⟩, rfl⟩

theorem renewSettled_standing (codec : HolderCodec) (f : Nat) (e : Engine) (renewedAt : Int)
    (holderBytes : Bytes) (clock : Nat → Int) (r : Response) :
    SameStanding e.leaseManager
        (renewSettled codec f e renewedAt holderBytes clock r).leaseManager ∧
      ((renewSettled codec f e renewedAt holderBytes clock r).leaseManager.lastHolderBytes =
          e.leaseManager.lastHolderBytes ∨
        r = .committed true ∧
          (renewSettled codec f e renewedAt holderBytes clock r).leaseManager.lastHolderBytes =
            some holderBytes) := by
  obtain ⟨hlost, hlostLast⟩ := reportLeaseLost_standing e.leaseManager .deposed
  obtain ⟨hfailed, hfailedLast⟩ := renewFailed_standing codec e.leaseManager clock
  unfold renewSettled
  dsimp only
  rcases r with _ | (_ | _) | _ | _
  case committed.true =>
    dsimp only
    split
    · exact ⟨⟨rfl, rfl⟩, .inr ⟨rfl, rfl⟩⟩
    · exact ⟨⟨rfl, rfl⟩, .inr ⟨rfl, rfl⟩⟩
  case committed.false =>
    by_cases hl : e.leaseManager.leaseLost = true
    · simp only [hl, if_true]
      split
      · exact ⟨hlost, .inl hlostLast⟩
      · exact ⟨hlost, .inl hlostLast⟩
    · simp only [hl, Bool.false_eq_true, if_false]
      split
      · exact ⟨hlost, .inl hlostLast⟩
      · exact ⟨hlost, .inl hlostLast⟩
  all_goals
    dsimp only
    split
    · exact ⟨hfailed, .inl hfailedLast⟩
    · exact ⟨hfailed, .inl hfailedLast⟩

theorem acquireLoop_plain (m : LeaseManager) (l : AcquireLocals) (clock : Nat → Int) :
    (acquireLoop m l clock).isPlain = true := by
  unfold acquireLoop
  split_ifs <;> rfl

theorem acquire_plain (mo : LeaseManagerOptions) (m : LeaseManager) (clock : Nat → Int) :
    (acquire mo m clock).isPlain = true := acquireLoop_plain m _ _

theorem fencedCommit_plain (mode : OwnershipMode) (e : Engine)
    (operations : List (BatchOperation Bytes)) (base : List (ConditionalBatchCondition Bytes)) :
    (fencedCommit mode e operations base).2.isPlain = true ∧
      (fencedCommit mode e operations base).1.leaseManager = e.leaseManager := by
  have hhalt : ∀ e', resolveFenceEpochOrHalt mode e = .inl e' →
      e'.leaseManager = e.leaseManager := by
    intro e' he'
    unfold resolveFenceEpochOrHalt at he'
    split at he'
    · exact (congrArg Engine.leaseManager (Sum.inl.inj he')).symm
    · split at he'
      · cases he'
      · split at he'
        · exact (congrArg Engine.leaseManager (Sum.inl.inj he')).symm
        · cases he'
  unfold fencedCommit
  cases hr : resolveFenceEpochOrHalt mode e with
  | inl e' => exact ⟨rfl, hhalt e' hr⟩
  | inr epochBytes => exact ⟨rfl, rfl⟩

variable (codec) in
/-- An attempt goes out only over a holder that has run out. -/
theorem tryAcquireOnce_cases (mo : LeaseManagerOptions) (l : AcquireLocals)
    (epochRaw holderRaw : Option Bytes) (clock : Nat → Int) :
    (tryAcquireOnce codec mo l epochRaw holderRaw clock).isPlain = true ∨
      ∃ nextEpoch, tryAcquireOnce codec mo l epochRaw holderRaw clock =
          takeOwnership codec mo l epochRaw holderRaw nextEpoch (clock 1) ∧
        ∀ b r, holderRaw = some b → codec.decodeHolder b = some r → r.expiresAt ≤ clock 0 := by
  unfold tryAcquireOnce
  dsimp only
  split_ifs with hundecodable horphan hlive hceiling
  · exact .inl rfl
  · exact .inl rfl
  · exact .inl rfl
  · exact .inl rfl
  · refine .inr ⟨_, rfl, ?_⟩
    rintro b r rfl hr
    by_contra hlt
    exact hlive (by simpa [hr] using not_le.1 hlt)

/-- `release` deletes the record that the engine wrote last. -/
theorem releaseHolder_callOk {m : LeaseManager}
    (hstopped : (s.engines i).leaseManager.stopped = true)
    (hlast : ∀ b, m.lastHolderBytes = some b →
      ∃ r, b = codec.encodeHolder r ∧ (r.epoch, i) ∈ s.wins) :
    CallOk codec options s now ⟨i, releaseHolder m, none⟩ := by
  cases hb : m.lastHolderBytes with
  | none =>
    have hsettled : releaseHolder m = .settled (.released true) := by rw [releaseHolder, hb]
    rw [hsettled]
    trivial
  | some b =>
    have hdelete : releaseHolder m = .deleteHolder b := by rw [releaseHolder, hb]
    rw [hdelete]
    exact ⟨hstopped, hlast b hb⟩

variable {f i : Nat}

theorem timely_resume (hpositive : ∀ i, 0 < (options i).ttlMs) (hinv : Inv options s)
    (hs : Timely codec options s now) {r : Response} {clock : Nat → Int} (hfirst : now ≤ clock 0)
    (hmono : clock 0 ≤ clock 1) (hend : clock 1 ≤ now') (hf : s.flights f = some ⟨i, t, some r⟩)
    {e' : Engine} {t' : Task}
    (hresume : resume codec (options i).toLeaseManagerOptions f (s.engines i) t r clock =
      (e', t')) :
    Timely codec options
      ((s.setEngine i (trackAcquire e' f t t')).setFlight f ⟨i, t', none⟩) now' := by
  have hnow : now ≤ now' := by omega
  have hok := hs.calls f _ hf
  have hpos := hs.clock
  -- nearly every continuation leaves the manager as it was and claims nothing
  have hquiet : SameStanding (s.engines i).leaseManager e'.leaseManager →
      e'.leaseManager.lastHolderBytes = (s.engines i).leaseManager.lastHolderBytes →
      CallOk codec options
        ((s.setEngine i (trackAcquire e' f t t')).setFlight f ⟨i, t', none⟩) now' ⟨i, t', none⟩ →
      Timely codec options
        ((s.setEngine i (trackAcquire e' f t t')).setFlight f ⟨i, t', none⟩) now' := by
    rintro ⟨hstopped, hheld⟩ hlast hcall
    refine timely_suspend hs hnow i f ?_ ?_ (.inl ?_) hcall
    · rw [trackAcquire_leaseManager, hstopped]
      exact id
    · rw [trackAcquire_leaseManager, hheld]
      exact fun h hh => ⟨h, hh, le_rfl⟩
    · rw [trackAcquire_leaseManager, hlast]
  have hplain : SameStanding (s.engines i).leaseManager e'.leaseManager →
      e'.leaseManager.lastHolderBytes = (s.engines i).leaseManager.lastHolderBytes →
      t'.isPlain = true → Timely codec options
        ((s.setEngine i (trackAcquire e' f t t')).setFlight f ⟨i, t', none⟩) now' :=
    fun hsame hlast ht => hquiet hsame hlast (.of_plain ht)
  unfold resume at hresume
  split at hresume
  case h_1 => obtain ⟨rfl, rfl⟩ := Prod.mk.inj hresume; exact hplain ⟨rfl, rfl⟩ rfl rfl
  case h_2 l holderRaw epochRaw =>
    obtain ⟨rfl, rfl⟩ := Prod.mk.inj hresume
    rcases tryAcquireOnce_cases codec (options i).toLeaseManagerOptions l epochRaw
      holderRaw clock with ht | ⟨nextEpoch, heq, hexpired⟩
    · exact hplain ⟨rfl, rfl⟩ rfl ht
    · refine hquiet ⟨rfl, rfl⟩ rfl ?_
      rw [heq]
      refine ⟨rfl, by omega, hend, fun b r hb hr => ?_, fun hr => by cases hr⟩
      have := hexpired b r hb hr
      omega
  case h_3 l expectedEpoch expectedHolder nextEpoch acquiredAt holderBytes =>
    obtain ⟨rfl, rfl⟩ := Prod.mk.inj hresume
    obtain ⟨⟨hmax, hnext⟩, hwon⟩ := hinv.flights f _ hf
    obtain ⟨hmem, habove⟩ := hwon rfl
    obtain ⟨hbytes, hstart, hend', -, hcommitted⟩ := hok
    have hone : 1 ≤ nextEpoch := by
      cases expectedEpoch with
      | none => exact (show nextEpoch = 1 from hnext).ge
      | some raw =>
        obtain ⟨e, -, hsucc⟩ := hnext
        omega
    have httl : 0 < (options i).ttlMs := hpositive i
    refine timely_suspend hs hnow i f ?_ ?_ (.inr ?_) trivial
    · rw [trackAcquire_leaseManager]
      exact id
    · rw [trackAcquire_leaseManager]
      exact fun h hh => ⟨nextEpoch, rfl, (habove h hh).le⟩
    · rw [trackAcquire_leaseManager]
      intro b hb
      cases hb
      refine ⟨hcommitted rfl, _, hbytes, hmem, hone, ?_, ?_, nextEpoch, rfl, le_rfl⟩
      · show 0 ≤ acquiredAt + (options i).ttlMs
        omega
      · show acquiredAt + (options i).ttlMs ≤ now' + (options i).ttlMs
        have hend'' : acquiredAt ≤ now := hend'
        omega
  case h_4 => obtain ⟨rfl, rfl⟩ := Prod.mk.inj hresume; exact hplain ⟨rfl, rfl⟩ rfl rfl
  case h_5 l holderRaw =>
    obtain ⟨rfl, rfl⟩ := Prod.mk.inj hresume
    refine hplain ⟨rfl, rfl⟩ rfl ?_
    unfold waitForHandoff
    dsimp only
    split_ifs <;> rfl
  case h_6 l =>
    obtain ⟨rfl, rfl⟩ := Prod.mk.inj hresume
    exact hplain ⟨rfl, rfl⟩ rfl (acquireLoop_plain _ _ _)
  case h_7 prior renewedAt holderBytes =>
    obtain ⟨rfl, rfl⟩ := Prod.mk.inj hresume
    obtain ⟨⟨p, q, -, hq, -, ⟨hwon, hone, hstart, hend', h, hheld, hle⟩, -⟩, hcommitted⟩ := hok
    obtain ⟨⟨hstopped, hsameHeld⟩, hlast⟩ :=
      renewSettled_standing codec f (s.engines i) renewedAt holderBytes clock r
    refine timely_suspend hs hnow i f ?_ ?_ ?_ trivial
    · rw [trackAcquire_leaseManager, hstopped]
      exact id
    · rw [trackAcquire_leaseManager, hsameHeld]
      exact fun h hh => ⟨h, hh, le_rfl⟩
    · rw [trackAcquire_leaseManager, hsameHeld]
      rcases hlast with hsame | ⟨hr, hnew⟩
      · exact .inl hsame
      · refine .inr fun b hb => ?_
        rw [hnew] at hb
        cases hb
        have hend'' : q.expiresAt ≤ now + (options i).ttlMs := hend'
        exact ⟨hcommitted (congrArg some hr), q, hq, hwon, hone, hstart, by omega, h, hheld, hle⟩
  case h_8 renewal =>
    obtain ⟨rfl, rfl⟩ := Prod.mk.inj hresume
    refine hquiet ⟨rfl, rfl⟩ rfl (releaseHolder_callOk ?_ fun b hb => ?_)
    · have hstopped : (s.engines i).leaseManager.stopped = true := hok
      simpa [System.setEngine, System.setFlight, trackAcquire_leaseManager] using hstopped
    · obtain ⟨⟨q, hq, hwon, -⟩, -⟩ := hs.last i b hb
      exact ⟨q, hq, hwon⟩
  case h_9 prior =>
    obtain ⟨rfl, rfl⟩ := Prod.mk.inj hresume
    refine timely_suspend hs hnow i f ?_ ?_ (.inr ?_) trivial
    · rw [trackAcquire_leaseManager]
      exact id
    · rw [trackAcquire_leaseManager]
      exact fun h hh => ⟨h, hh, le_rfl⟩
    · rw [trackAcquire_leaseManager]
      exact fun b hb => by cases hb
  case h_15 epochBytes =>
    split_ifs at hresume <;> obtain ⟨rfl, rfl⟩ := Prod.mk.inj hresume <;>
      exact hplain ⟨rfl, rfl⟩ rfl rfl
  all_goals obtain ⟨rfl, rfl⟩ := Prod.mk.inj hresume; exact hplain ⟨rfl, rfl⟩ rfl rfl

theorem release_standing (m : LeaseManager) :
    (release m).1.stopped = true ∧ (release m).1.heldEpoch = m.heldEpoch ∧
      (release m).1.lastHolderBytes = m.lastHolderBytes ∧
      ((∃ renewal, (release m).2 = .awaitRenewal renewal) ∨
        (release m).2 = releaseHolder { m with stopped := true }) := by
  unfold release
  dsimp only
  split
  · exact ⟨rfl, rfl, rfl, .inl ⟨_, rfl⟩⟩
  · exact ⟨rfl, rfl, rfl, .inr rfl⟩

/-! ## Deliveries -/

/-- What a delivered request leaves, once it is known what becomes of the backing of a record. -/
private theorem timely_deliver_of (hs : Timely codec options s now) (hnow : now ≤ now')
    {r : Response} {store : Store Bytes} {wins : List (Nat × Nat)}
    (hwins : ∀ w ∈ s.wins, w ∈ wins)
    (hstored : wins ≠ [] → ∀ b, store.get KEYS.leaseHolder = some b →
      ∃ r, b = codec.encodeHolder r ∧ store.get KEYS.leaseEpoch = some (encodeEpoch r.epoch))
    (hbacked : ∀ j b, Backed codec s now j b →
      Backed codec { (s.setFlight f ⟨i, t, some r⟩) with store := store, wins := wins } now' j b)
    (hnew : CallOk codec options
      { (s.setFlight f ⟨i, t, some r⟩) with store := store, wins := wins } now' ⟨i, t, some r⟩) :
    Timely codec options
      { (s.setFlight f ⟨i, t, some r⟩) with store := store, wins := wins } now' := by
  have hl : Later s { (s.setFlight f ⟨i, t, some r⟩) with store := store, wins := wins } now now' :=
    ⟨hnow, hwins, fun _ h => h, fun _ h hh => ⟨h, hh, le_rfl⟩⟩
  refine ⟨hs.clock.trans hnow, hstored, fun j => (hs.last j).later hl (hbacked j) rfl,
    fun g fl hfl => ?_⟩
  by_cases hg : g = f
  · simp only [System.setFlight, hg, if_true, Option.some.injEq] at hfl
    subst hfl
    exact hnew
  · simp only [System.setFlight, hg, if_false] at hfl
    exact (hs.calls g fl hfl).later hl (hbacked fl.engine)

/-- A delivery that leaves both keys and tells nobody of a commit. -/
private theorem timely_deliver_quiet (hs : Timely codec options s now) (hnow : now ≤ now')
    {r : Response} {store : Store Bytes} (hf : s.flights f = some ⟨i, t, none⟩)
    (hholder : store.get KEYS.leaseHolder = s.store.get KEYS.leaseHolder)
    (hepoch : store.get KEYS.leaseEpoch = s.store.get KEYS.leaseEpoch)
    (hanswer : t.isPlain = false → r ≠ .committed true) :
    Timely codec options { (s.setFlight f ⟨i, t, some r⟩) with store := store } now' := by
  let s' : System := { (s.setFlight f ⟨i, t, some r⟩) with store := store }
  have hl : Later s s' now now' :=
    ⟨hnow, fun _ h => h, fun _ h => h, fun _ h hh => ⟨h, hh, le_rfl⟩⟩
  have hbacked : ∀ j b, Backed codec s now j b → Backed codec s' now' j b :=
    fun j b h => h.later hl hholder hepoch
  refine timely_deliver_of hs hnow (fun _ h => h) ?_ hbacked ?_
  · rw [hholder, hepoch]
    exact hs.stored
  · have hold := (hs.calls f _ hf).later hl (hbacked i)
    cases t with
    | takeOwnership l expectedEpoch expectedHolder nextEpoch acquiredAt holderBytes =>
      obtain ⟨hbytes, hstart, hend, hexpired, -⟩ := hold
      exact ⟨hbytes, hstart, hend, hexpired,
        fun hr => absurd (Option.some.inj hr) (hanswer rfl)⟩
    | renewHolder prior renewedAt holderBytes =>
      exact ⟨hold.1, fun hr => absurd (Option.some.inj hr) (hanswer rfl)⟩
    | awaitRenewal renewal => exact hold
    | deleteHolder prior => exact hold
    | _ => trivial

theorem takeOwnership_commits_holder {s : Store Bytes} {d : Delivery} {l : AcquireLocals}
    {expectedEpoch expectedHolder : Option Bytes} {nextEpoch : Nat} {acquiredAt : Int}
    {holderBytes : Bytes}
    (hc : Commits s
      (.takeOwnership l expectedEpoch expectedHolder nextEpoch acquiredAt holderBytes) d) :
    s.get KEYS.leaseHolder = expectedHolder ∧
      (d.effect s (Task.takeOwnership l expectedEpoch expectedHolder nextEpoch acquiredAt
        holderBytes).request).get KEYS.leaseHolder = some holderBytes := by
  obtain ⟨hd, hserve⟩ := hc
  obtain ⟨hread, hwrote⟩ := serve_conditionalBatch_committed hserve
  refine ⟨hread ⟨KEYS.leaseHolder, expectedHolder⟩ (by simp), ?_⟩
  rw [effect_of_ne_lost s _ hd]
  have hwrote' : (serve s (Task.takeOwnership l expectedEpoch expectedHolder nextEpoch acquiredAt
      holderBytes).request).2 = applyBatchOperations s
        [.put KEYS.leaseEpoch (encodeEpoch nextEpoch), .put KEYS.leaseHolder holderBytes] := hwrote
  rw [hwrote']
  simp [applyBatchOperations, applyBatchOperation]

theorem answer_committed {s : Store Bytes} {d : Delivery}
    (h : d.answer s t.request = .committed true) : Commits s t d := by
  cases d with
  | served => exact ⟨by simp, h⟩
  | lost => cases h
  | answerLost => cases h

/-- What a conditional batch on the holder alone does when it commits. -/
theorem holderBatch_commits {s : Store Bytes} {d : Delivery} {prior : Bytes}
    {operations : List (BatchOperation Bytes)}
    (ht : t.request = .conditionalBatch [⟨KEYS.leaseHolder, some prior⟩] operations)
    (hc : Commits s t d) : s.get KEYS.leaseHolder = some prior ∧
      d.effect s t.request = applyBatchOperations s operations := by
  obtain ⟨hd, hserve⟩ := hc
  rw [effect_of_ne_lost s _ hd]
  rw [ht] at hserve ⊢
  obtain ⟨hread, hwrote⟩ := serve_conditionalBatch_committed hserve
  exact ⟨hread _ List.mem_cons_self, hwrote⟩

theorem refused_effect {s : Store Bytes} {d : Delivery}
    {conditions : List (ConditionalBatchCondition Bytes)}
    {operations : List (BatchOperation Bytes)}
    (ht : t.request = .conditionalBatch conditions operations) (hc : ¬ Commits s t d) :
    d.effect s t.request = s := by
  by_cases hd : d = .lost
  · rw [hd]
    rfl
  · rw [effect_of_ne_lost s _ hd, ht]
    exact serve_conditionalBatch_refused fun hserve => hc ⟨hd, by rw [ht]; exact hserve⟩

/-- A written record is within what `decodeHolder` accepts. -/
theorem Written.decode (h : Written options s now i r) (hcodec : codec.Lawful)
    (hbound : ∀ i, now + (options i).ttlMs ≤ (MAX_SAFE_INTEGER : Int))
    (hmax : r.epoch < MAX_SAFE_INTEGER) :
    ∃ r', codec.decodeHolder (codec.encodeHolder r) = some r' ∧ r'.expiresAt = r.expiresAt ∧
      r'.epoch = r.epoch := by
  obtain ⟨-, hone, hstart, hend, -⟩ := h
  exact hcodec.decode_encode r hstart (hend.trans (hbound i)) hone hmax.le

/-- A stored record that some engine wrote carries the stored epoch. -/
theorem Timely.stored_epoch (hs : Timely codec options s now) (hcodec : codec.Lawful)
    (hwon : (r.epoch, i) ∈ s.wins)
    (hread : s.store.get KEYS.leaseHolder = some (codec.encodeHolder r)) :
    s.store.get KEYS.leaseEpoch = some (encodeEpoch r.epoch) := by
  obtain ⟨r', hbytes, hepoch⟩ := hs.stored (List.ne_nil_of_mem hwon) _ hread
  rw [(hcodec.encode_inj r r' hbytes).2, hepoch]

theorem timely_deliver (hcodec : codec.Lawful)
    (hbound : ∀ i, now' + (options i).ttlMs ≤ (MAX_SAFE_INTEGER : Int)) (hinv : Inv options s)
    (hs : Timely codec options s now) (hnow : now ≤ now') (d : Delivery)
    (hf : s.flights f = some ⟨i, t, none⟩) :
    Timely codec options { (s.setFlight f ⟨i, t, some (d.answer s.store t.request)⟩) with
      store := d.effect s.store t.request
      wins := recordWin s i t d } now' := by
  have hok := hs.calls f _ hf
  have hbound' : ∀ i, now + (options i).ttlMs ≤ (MAX_SAFE_INTEGER : Int) := fun i => by
    have := hbound i
    omega
  cases t with
  | takeOwnership l expectedEpoch expectedHolder nextEpoch acquiredAt holderBytes =>
    by_cases hc : Commits s.store
        (.takeOwnership l expectedEpoch expectedHolder nextEpoch acquiredAt holderBytes) d
    · obtain ⟨-, hepoch⟩ := takeOwnership_commits hc
      obtain ⟨hread, hholder⟩ := takeOwnership_commits_holder hc
      obtain ⟨hbytes, hstart, hend, hexpired, -⟩ := hok
      simp only [recordWin, hc, if_true]
      refine timely_deliver_of hs hnow (fun w hw => List.mem_cons_of_mem _ hw) ?_ ?_ ?_
      · intro _ b hb
        rw [hholder] at hb
        cases hb
        exact ⟨_, hbytes, hepoch⟩
      · intro j b hback r hr
        rcases hback r hr with h | h | ⟨stored, r', e, hstored, hr', hle, -, -⟩
        · exact .inl (h.trans hnow)
        · exact .inr (.inl h)
        · have := hexpired stored r' (hread ▸ hstored) hr'
          exact .inl (by omega)
      · refine ⟨hbytes, hstart, hend.trans hnow, fun b r hb hr => (hexpired b r hb hr).trans hnow,
          fun _ r hr => ?_⟩
        exact .inr (.inr ⟨holderBytes, r, nextEpoch, hholder, hr, le_rfl, hepoch,
          List.mem_cons_self⟩)
    · have hsame := takeOwnership_refused hc
      simp only [recordWin, hc, if_false]
      exact timely_deliver_quiet hs hnow hf (by rw [hsame]) (by rw [hsame])
        fun _ hr => hc (answer_committed hr)
  | renewHolder prior renewedAt holderBytes =>
    by_cases hc : Commits s.store (.renewHolder prior renewedAt holderBytes) d
    · obtain ⟨hread, hwrote⟩ := holderBatch_commits rfl hc
      obtain ⟨⟨p, q, rfl, rfl, hp, hq, hlast, hmore⟩, -⟩ := hok
      have hepochStored := hs.stored_epoch hcodec hp.1 hread
      have hepoch := (hinv.effect_epoch d hf rfl).trans hepochStored
      have hheld : (d.effect s.store (Task.renewHolder (codec.encodeHolder p) renewedAt
          (codec.encodeHolder q)).request).get KEYS.leaseHolder = some (codec.encodeHolder q) := by
        rw [hwrote]
        simp [applyBatchOperations, applyBatchOperation]
      -- the renewed record keeps the epoch of the one it replaces
      have hsame : q.epoch = p.epoch := by
        have hdecode := decodeEpoch_encodeEpoch hp.2.1 (hinv.win_lt_max hp.1)
        exact le_antisymm (hinv.win_le hq.1 hepochStored hdecode) hmore
      obtain ⟨p', hp', hpexpires, -⟩ := hp.decode hcodec hbound' (hinv.win_lt_max hp.1)
      obtain ⟨q', hq', hqexpires, -⟩ := hq.decode hcodec hbound' (hinv.win_lt_max hq.1)
      refine timely_deliver_of hs hnow (fun _ h => h) ?_ ?_ ?_
      · intro _ b hb
        rw [hheld] at hb
        cases hb
        exact ⟨q, rfl, by rw [hepoch, hsame]⟩
      · intro j b hback r hr
        rcases hback r hr with h | h | ⟨stored, r', e, hstored, hr', hle, he, hwon⟩
        · exact .inl (h.trans hnow)
        · exact .inr (.inl h)
        · rw [hread] at hstored
          cases hstored
          rw [hp'] at hr'
          obtain rfl := Option.some.inj hr'
          refine .inr (.inr ⟨_, q', e, hheld, hq', by omega, ?_, hwon⟩)
          exact (hinv.effect_epoch d hf rfl).trans he
      · have hl : Later s { (s.setFlight f ⟨i, .renewHolder (codec.encodeHolder p) renewedAt
            (codec.encodeHolder q), some (d.answer s.store (Task.renewHolder (codec.encodeHolder p)
              renewedAt (codec.encodeHolder q)).request)⟩) with
            store := d.effect s.store (Task.renewHolder (codec.encodeHolder p) renewedAt
              (codec.encodeHolder q)).request
            wins := s.wins } now now' :=
          ⟨hnow, fun _ h => h, fun _ h => h, fun _ h hh => ⟨h, hh, le_rfl⟩⟩
        refine ⟨⟨p, q, rfl, rfl, hp.later hl, hq.later hl, hlast, hmore⟩, fun _ r hr => ?_⟩
        exact .inr (.inr ⟨_, r, p.epoch, hheld, hr, le_rfl, hepoch, hp.1⟩)
    · have hsame := refused_effect rfl hc
      exact timely_deliver_quiet hs hnow hf (by rw [hsame]) (by rw [hsame])
        fun _ hr => hc (answer_committed hr)
  | deleteHolder prior =>
    by_cases hc : Commits s.store (.deleteHolder prior) d
    · obtain ⟨hread, hwrote⟩ := holderBatch_commits rfl hc
      obtain ⟨hstopped, p, rfl, hp⟩ := hok
      have hepochStored := hs.stored_epoch hcodec hp hread
      have hgone : (d.effect s.store (Task.deleteHolder (codec.encodeHolder p)).request).get
          KEYS.leaseHolder = none := by
        rw [hwrote]
        simp [applyBatchOperations, applyBatchOperation]
      refine timely_deliver_of hs hnow (fun _ h => h) ?_ ?_ ⟨hstopped, p, rfl, hp⟩
      · intro _ b hb
        rw [hgone] at hb
        cases hb
      · intro j b hback r hr
        rcases hback r hr with h | h | ⟨stored, r', e, -, -, -, he, hwon⟩
        · exact .inl (h.trans hnow)
        · exact .inr (.inl h)
        · -- the engine whose record is deleted is the one that won the stored epoch
          rw [hepochStored] at he
          have heq : p.epoch = e := encodeEpoch_injective (hinv.win_lt_max hp)
            (hinv.win_lt_max hwon) (Option.some.inj he)
          have hij : i = j := nodup_fst_unique hinv.unique hp (heq ▸ hwon)
          exact .inr (.inl (hij ▸ hstopped))
    · have hsame := refused_effect rfl hc
      exact timely_deliver_quiet hs hnow hf (by rw [hsame]) (by rw [hsame])
        fun _ hr => hc (answer_committed hr)
  | fencedBatch epochBytes operations base =>
    have hops := (hinv.flights f _ hf).1
    exact timely_deliver_quiet hs hnow hf
      (effect_get_of_untouched _ _ _ _ (fencedBatch_avoids_holder hops))
      (hinv.effect_epoch d hf rfl) (fun h => by cases h)
  | _ =>
    exact timely_deliver_quiet hs hnow hf
      (effect_get_of_untouched _ _ _ _ fun op hop => by cases hop)
      (effect_get_of_untouched _ _ _ _ fun op hop => by cases hop)
        (fun _ h => by cases d <;> cases h)

/-! ## Runs -/

theorem step_timely (hcodec : codec.Lawful) (hpositive : ∀ i, 0 < (options i).ttlMs)
    (hbound : ∀ i, now' + (options i).ttlMs ≤ (MAX_SAFE_INTEGER : Int)) (hinv : Inv options s)
    (hs : Timely codec options s now) {clock : Nat → Int} (hfirst : now ≤ clock 0)
    (hmono : clock 0 ≤ clock 1) (hend : clock 1 ≤ now') {a : Label}
    (h : step codec options s (a.withClock clock) = some s') : Timely codec options s' now' := by
  have hnow : now ≤ now' := by omega
  have hclock := hs.clock
  -- a renewal writes a record that lasts at least as long as the last one
  have hrenew : ∀ i f t e, renewOnce codec (options i).toLeaseManagerOptions
      (s.engines i).leaseManager clock = some t →
      e.leaseManager.stopped = (s.engines i).leaseManager.stopped →
      e.leaseManager.heldEpoch = (s.engines i).leaseManager.heldEpoch →
      e.leaseManager.lastHolderBytes = (s.engines i).leaseManager.lastHolderBytes →
      s.call f i e t = some s' → Timely codec options s' now' := by
    intro i f t e ht hstopped hheld hlast hcall
    obtain ⟨-, epoch, prior, hepoch, hprior, rfl⟩ := renewOnce_eq_some ht
    obtain ⟨⟨p, rfl, hp⟩, -⟩ := hs.last i prior hprior
    obtain ⟨hwon, hone, hstart, hlasts, h, hh, hle⟩ := hp
    rw [hepoch] at hh
    cases hh
    have httl := hpositive i
    have hl := later_suspend (s := s) hnow i f (e := e) (.renewHolder (codec.encodeHolder p)
      (clock 0) (codec.encodeHolder
        ⟨(options i).holderId, clock 0 + (options i).ttlMs, epoch⟩))
      (by rw [hstopped]; exact id) (by rw [hheld]; exact fun h hh => ⟨h, hh, le_rfl⟩)
    refine timely_call hs hnow (by rw [hstopped]; exact id) hheld hlast ?_ hcall
    refine ⟨⟨p, _, rfl, rfl, ?_, ?_, ?_, hle⟩, fun hr => by cases hr⟩
    · exact Written.later hl ⟨hwon, hone, hstart, hlasts, epoch, hepoch, hle⟩
    · refine ⟨(hinv.held i).2 epoch hepoch, hone.trans hle, ?_, ?_, epoch, ?_, le_rfl⟩
      · show 0 ≤ clock 0 + (options i).ttlMs
        omega
      · show clock 0 + (options i).ttlMs ≤ now' + (options i).ttlMs
        omega
      · show ((s.setEngine i e).engines i).leaseManager.heldEpoch = some epoch
        simp [System.setEngine, hheld, hepoch]
    · show p.expiresAt ≤ clock 0 + (options i).ttlMs
      omega
  cases a with
  | acquire f i c =>
    simp only [Label.withClock, step] at h
    split_ifs at h
    refine timely_call hs hnow ?_ ?_ ?_ (.of_plain (acquire_plain _ _ _)) h
    · rw [trackAcquire_leaseManager]
      exact id
    · rw [trackAcquire_leaseManager]
    · rw [trackAcquire_leaseManager]
  | renewOnce f i c =>
    obtain ⟨t, ht, hcall⟩ := Option.bind_eq_some_iff.1 h
    exact hrenew i f t (s.engines i) ht rfl rfl rfl hcall
  | renewUnderGuard f i c =>
    simp only [Label.withClock, step] at h
    split_ifs at h
    obtain ⟨t, ht, hcall⟩ := Option.bind_eq_some_iff.1 h
    exact hrenew i f t { s.engines i with leaseManager :=
      { (s.engines i).leaseManager with inFlightRenewal := some f } } ht rfl rfl rfl hcall
  | release f i =>
    obtain ⟨hstopped, hheld, hlast, hcall⟩ := release_standing (s.engines i).leaseManager
    let e : Engine := { s.engines i with leaseManager := (release (s.engines i).leaseManager).1 }
    have hstoppedAfter : ((s.setEngine i e).engines i).leaseManager.stopped = true := by
      simpa [System.setEngine, e] using hstopped
    have hok : CallOk codec options
        ((s.setEngine i e).setFlight f ⟨i, (release (s.engines i).leaseManager).2, none⟩) now'
        ⟨i, (release (s.engines i).leaseManager).2, none⟩ := by
      rcases hcall with ⟨renewal, ht⟩ | ht
      · rw [ht]
        exact hstoppedAfter
      · rw [ht]
        refine releaseHolder_callOk hstoppedAfter fun b hb => ?_
        obtain ⟨⟨r, hr, hwon, -⟩, -⟩ := hs.last i b hb
        exact ⟨r, hr, hwon⟩
    have hcall' : s.call f i e (release (s.engines i).leaseManager).2 = some s' := h
    exact timely_call hs hnow (fun _ => hstopped) hheld hlast hok hcall'
  | stop i =>
    cases h
    exact timely_setEngine hs hnow i (fun _ => rfl) rfl rfl
  | fencedCommit f i operations base =>
    simp only [Label.withClock, step] at h
    split_ifs at h
    obtain ⟨hplain, hmanager⟩ := fencedCommit_plain (options i).ownershipMode (s.engines i)
      operations base
    refine timely_call hs hnow ?_ ?_ ?_ (.of_plain hplain) h
    · rw [hmanager]
      exact id
    · rw [hmanager]
    · rw [hmanager]
  | deliver f d =>
    simp only [Label.withClock, step] at h
    split at h
    · rename_i i t hf
      split_ifs at h
      cases h
      exact timely_deliver hcodec hbound hinv hs hnow d hf
    · cases h
  | resume f c =>
    simp only [Label.withClock, step] at h
    split at h
    · rename_i i t r hf
      split_ifs at h
      cases h
      exact timely_resume hpositive hinv hs hfirst hmono hend hf rfl
    · cases h
  | crash i =>
    cases h
    exact timely_setEngine hs hnow i id rfl rfl

theorem Timely.exclusive {s : TimedSystem} (hinv : Inv options s.system)
    (hs : Timely codec options s.system s.now) : HealthExclusive codec s := by
  intro t ht i j hi hj
  -- a healthy manager has won the stored epoch
  have hwinner : ∀ k, ((s.system.engines k).leaseManager.health codec t).isHealthy = true →
      ∃ e, s.system.store.get KEYS.leaseEpoch = some (encodeEpoch e) ∧ (e, k) ∈ s.system.wins := by
    intro k hk
    obtain ⟨hrunning, b, r, hb, hr, hlive⟩ := health_healthy hk
    rcases (hs.last k b hb).2 r hr with hexpired | hstopped | ⟨-, -, e, -, -, -, he, hwon⟩
    · omega
    · rw [hrunning] at hstopped
      cases hstopped
    · exact ⟨e, he, hwon⟩
  obtain ⟨e, he, hwon⟩ := hwinner i hi
  obtain ⟨e', he', hwon'⟩ := hwinner j hj
  rw [he] at he'
  have heq : e = e' := encodeEpoch_injective (hinv.win_lt_max hwon) (hinv.win_lt_max hwon')
    (Option.some.inj he')
  subst heq
  exact nodup_fst_unique hinv.unique hwon hwon'

/-- While the clock and the expiries are safe integers, one manager at most is healthy. -/
theorem health_exclusive (hcodec : codec.Lawful) (hpositive : ∀ i, 0 < (options i).ttlMs)
    (s : TimedSystem) (hs : Initial s.system) (hclock : 0 ≤ s.now) (as : List TimedLabel) :
    (timedLeaseSystem codec options).EveryState
      (fun t => (∀ i, t.now + (options i).ttlMs ≤ (MAX_SAFE_INTEGER : Int)) →
        HealthExclusive codec t) s as := by
  have hstart : Timely codec options s.system s.now := by
    refine ⟨hclock, fun hwins => (hwins hs.wins).elim, fun i b hb => ?_, fun f fl hf => ?_⟩
    · rw [hs.managers i] at hb
      cases hb
    · rw [hs.flights f] at hf
      cases hf
  have htrue := Machine.everyStep_true (M := timedLeaseSystem codec options) as s
  have hrun := Machine.everyState_of_invariant (M := timedLeaseSystem codec options)
    (I := fun t => Inv options t.system ∧
      ((∀ i, t.now + (options i).ttlMs ≤ (MAX_SAFE_INTEGER : Int)) →
        Timely codec options t.system t.now)) ?_ ⟨hs.inv, fun _ => hstart⟩ htrue
  · exact hrun.mono fun t ht hbound => (ht.2 hbound).exclusive ht.1
  · rintro t a t' ⟨hinv, htimely⟩ - hstep
    obtain ⟨u, hu, rfl⟩ := Option.map_eq_some_iff.1 hstep
    refine ⟨step_inv codec options hinv hu, fun hbound => ?_⟩
    have hlater : t.now ≤ readings t.now a.ticks 3 := le_readings _ _ _
    have hbefore : ∀ i, t.now + (options i).ttlMs ≤ (MAX_SAFE_INTEGER : Int) := by
      intro i
      have hi : readings t.now a.ticks 3 + (options i).ttlMs ≤ (MAX_SAFE_INTEGER : Int) := hbound i
      omega
    exact step_timely hcodec hpositive hbound hinv (htimely hbefore) (le_readings _ _ 0)
      (readings_mono _ _ (by omega)) (readings_mono _ _ (by omega)) hu

end

/-! The handoff: engine `0` acquires at `0`, its lease runs out, engine `1` acquires at `20`. -/

def atOnce (a : Label) : TimedLabel := ⟨a, fun _ => 0⟩

def timedHandoff : List TimedLabel :=
  (acquireRun 0 0 0).map atOnce ++ [⟨.stop 2, fun n => if n = 0 then 20 else 0⟩] ++
    (acquireRun 2 1 0).map atOnce

theorem health_exclusive_handoff :
    jsonCodec.Lawful ∧
      ((timedLeaseSystem jsonCodec handoffOptions).final ⟨handoffStart, 0⟩ timedHandoff).now = 20 ∧
      ((((timedLeaseSystem jsonCodec handoffOptions).final ⟨handoffStart, 0⟩
        timedHandoff).system.engines 0).leaseManager.health jsonCodec 20).isHealthy = false ∧
      ((((timedLeaseSystem jsonCodec handoffOptions).final ⟨handoffStart, 0⟩
        timedHandoff).system.engines 1).leaseManager.health jsonCodec 20).isHealthy = true ∧
      (timedLeaseSystem jsonCodec handoffOptions).EveryState
        (fun t => (∀ i, t.now + (handoffOptions i).ttlMs ≤ (MAX_SAFE_INTEGER : Int)) →
          HealthExclusive jsonCodec t) ⟨handoffStart, 0⟩ timedHandoff := by
  refine ⟨jsonCodec_lawful, by decide +kernel, by decide +kernel, by decide +kernel, ?_⟩
  exact health_exclusive jsonCodec_lawful (fun i => by simp [handoffOptions]) _
    ⟨fun _ => rfl, fun _ => rfl, rfl⟩ le_rfl timedHandoff

end Weft.Lease
