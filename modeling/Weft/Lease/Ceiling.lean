import Weft.Lease.Corruption

/-! A run of nothing but acquires and releases that reaches the epoch ceiling. -/

namespace Weft.Lease
open Weft.Js Weft.Storage Weft.Lib

variable (codec : HolderCodec) (options : Nat → EngineOptions)

/-! ## One call of one engine -/

/-- `s` with call `f` of engine `i` at `t`, the engine as `e` and the store as `store`. -/
def System.with (s : System) (i f : Nat) (e : Engine) (t : Task) (r : Option Response)
    (store : Store Bytes) (wins : List (Nat × Nat)) : System where
  store := store
  engines j := if j = i then e else s.engines j
  flights g := if g = f then some ⟨i, t, r⟩ else s.flights g
  wins := wins

variable {codec options}

theorem step_deliver_with (s : System) (i f : Nat) (e : Engine) (t : Task) (store : Store Bytes)
    (wins : List (Nat × Nat)) (hready : t.ready e.leaseManager = true) :
    step codec options (s.with i f e t none store wins) (.deliver f .served) =
      some (s.with i f e t (some (serve store t.request).1) (serve store t.request).2
        (recordWin (s.with i f e t none store wins) i t .served)) := by
  have hflight : (s.with i f e t none store wins).flights f = some ⟨i, t, none⟩ := if_pos rfl
  have hengine : (s.with i f e t none store wins).engines i = e := if_pos rfl
  simp only [step, hflight, hengine, hready, if_true]
  refine congrArg some ?_
  simp only [System.setFlight, System.with, Delivery.answer, Delivery.effect, System.mk.injEq,
    true_and, and_true]
  funext g
  split_ifs <;> rfl

theorem step_resume_with (s : System) (i f : Nat) (e : Engine) (t : Task) (r : Response)
    (store : Store Bytes) (wins : List (Nat × Nat)) (hcrashed : e.crashed = false)
    {e' : Engine} {t' : Task}
    (h : resume codec (options i).toLeaseManagerOptions f e t r (fun _ => 0) = (e', t')) :
    step codec options (s.with i f e t (some r) store wins) (.resume f fun _ => 0) =
      some (s.with i f (trackAcquire e' f t t') t' none store wins) := by
  have hflight : (s.with i f e t (some r) store wins).flights f = some ⟨i, t, some r⟩ := if_pos rfl
  have hengine : (s.with i f e t (some r) store wins).engines i = e := if_pos rfl
  simp only [step, hflight, hengine, hcrashed, Bool.false_eq_true, if_false, h]
  refine congrArg some ?_
  simp only [System.setFlight, System.setEngine, System.with, System.mk.injEq, true_and, and_true]
  constructor
  · funext j
    split_ifs <;> rfl
  · funext g
    split_ifs <;> rfl

theorem call_with (s : System) (i f : Nat) (e : Engine) (t : Task) (hfree : s.flights f = none)
    (hcrashed : (s.engines i).crashed = false) :
    s.call f i e t = some (s.with i f e t none s.store s.wins) := by
  have hcond : (s.flights f).isNone ∧
    (s.engines i).crashed = false := ⟨by rw [hfree]; rfl, hcrashed⟩
  rw [System.call, if_pos hcond]
  rfl

/-! ## Acquire and release -/

/-- One step of a run. -/
def Steps (codec : HolderCodec) (options : Nat → EngineOptions) (s t : System) : Prop :=
  ∃ a, (leaseSystem codec options).step s a = some t

theorem Steps.of {s t : System} {a : Label} (h : step codec options s a = some t) :
    Steps codec options s t := ⟨a, h⟩

/-- The engines from `i` on and the calls from `f` on are unused, and nobody holds the lease. -/
structure Unused (i f : Nat) (s : System) : Prop where
  holder : s.store.get KEYS.leaseHolder = none
  engines : ∀ j, i ≤ j → s.engines j = {}
  flights : ∀ g, f ≤ g → s.flights g = none

def freshLocals (options : LeaseManagerOptions) : AcquireLocals :=
  ⟨0, 0 + options.waitTimeoutMs, none, false⟩

variable {s : System}

/-- An unused engine gets as far as its attempt. -/
theorem reaches_attempt {i f : Nat} (hs : Unused i f s) {t : Task}
    (ht : tryAcquireOnce codec (options i).toLeaseManagerOptions
      (freshLocals (options i).toLeaseManagerOptions)
    (s.store.get KEYS.leaseEpoch) none (fun _ => 0) = t) :
    Relation.ReflTransGen (Steps codec options) s
      (s.with i f
        (trackAcquire { inFlightLeaseAcquire := some f } f (.readEpoch
          (freshLocals (options i).toLeaseManagerOptions) none) t) t none s.store s.wins) := by
  have hengine : s.engines i = {} := hs.engines i le_rfl
  let l := freshLocals (options i).toLeaseManagerOptions
  let e : Engine := { inFlightLeaseAcquire := some f }
  have h0 : step codec options s (.acquire f i fun _ => 0) =
      some (s.with i f e (.readHolder l) none s.store s.wins) := by
    simp only [step, hengine, Option.isSome_none, Bool.false_eq_true, if_false]
    exact call_with s i f e (.readHolder l) (hs.flights f le_rfl) (by rw [hengine])
  have h1 : step codec options (s.with i f e (.readHolder l) none s.store s.wins)
      (.deliver f .served) =
        some (s.with i f e (.readHolder l) (some (.value none)) s.store s.wins) := by
    rw [step_deliver_with s i f e _ _ _ rfl]
    simp only [Task.request, serve, hs.holder, recordWin]
    rfl
  have h2 : step codec options (s.with i f e (.readHolder l) (some (.value none)) s.store s.wins)
      (.resume f fun _ => 0) =
        some (s.with i f e (.readEpoch l none) none s.store s.wins) :=
    step_resume_with s i f e _ _ _ _ rfl rfl
  have h3 : step codec options (s.with i f e (.readEpoch l none) none s.store s.wins)
      (.deliver f .served) =
        some (s.with i f e (.readEpoch l none)
          (some (.value (s.store.get KEYS.leaseEpoch))) s.store s.wins) := by
    rw [step_deliver_with s i f e _ _ _ rfl]
    rfl
  have h4 : step codec options (s.with i f e (.readEpoch l none)
      (some (.value (s.store.get KEYS.leaseEpoch))) s.store s.wins) (.resume f fun _ => 0) =
        some (s.with i f (trackAcquire e f (.readEpoch l none) t) t none s.store s.wins) :=
    step_resume_with s i f e _ _ _ _ rfl (by rw [← ht]; rfl)
  exact .head (.of h0) (.head (.of h1) (.head (.of h2) (.head (.of h3) (.single (.of h4)))))

/-- The stored epoch after `n` transfers. -/
def epochAfter (n : Nat) : Option Bytes := if n = 0 then none else some (encodeEpoch n)

variable (codec) in
theorem attempt_after (options : LeaseManagerOptions) (l : AcquireLocals) {n : Nat}
    (hn : n < MAX_SAFE_INTEGER) : tryAcquireOnce codec options l (epochAfter n) none (fun _ => 0) =
      if n + 1 ≥ MAX_SAFE_INTEGER then .settled (.leaseCorrupted
          s!"the next ownership epoch ({n + 1}) is at or above the safe-integer ceiling and cannot be minted without bricking future boots")
      else takeOwnership codec options l (epochAfter n) none (n + 1) 0 := by
  by_cases hzero : n = 0
  · subst hzero
    rfl
  · have hdecode : decodeEpoch (encodeEpoch n) = some n :=
      decodeEpoch_encodeEpoch (by omega) hn
    simp [tryAcquireOnce, epochAfter, hzero, hdecode]

/-- Engine `n` takes the lease over and releases it again. -/
theorem reaches_transfer {n : Nat} (hs : Unused n (2 * n) s)
    (hepoch : s.store.get KEYS.leaseEpoch = epochAfter n) (hn : n + 1 < MAX_SAFE_INTEGER) :
    ∃ t, Relation.ReflTransGen (Steps codec options) s t ∧ Unused (n + 1) (2 * (n + 1)) t ∧
      t.store.get KEYS.leaseEpoch = epochAfter (n + 1) := by
  let mo := (options n).toLeaseManagerOptions
  let l := freshLocals mo
  let hb := codec.encodeHolder ⟨mo.holderId, 0 + mo.ttlMs, n + 1⟩
  let attempt : Task := .takeOwnership l (epochAfter n) none (n + 1) 0 hb
  have hattempt : tryAcquireOnce codec mo l (s.store.get KEYS.leaseEpoch) none (fun _ => 0) =
      attempt := by
    rw [hepoch, attempt_after codec mo l (by omega), if_neg (by omega)]
    rfl
  let e : Engine := { inFlightLeaseAcquire := some (2 * n) }
  have h1 : Relation.ReflTransGen (Steps codec options) s
      (s.with n (2 * n) e attempt none s.store s.wins) := reaches_attempt hs hattempt
  -- the attempt commits
  let owned := applyBatchOperations s.store
    [.put KEYS.leaseEpoch (encodeEpoch (n + 1)), .put KEYS.leaseHolder hb]
  let wins := (n + 1, n) :: s.wins
  have hserve : serve s.store attempt.request = (.committed true, owned) := by
    have hhold : conditionsHold s.store
        [⟨KEYS.leaseEpoch, epochAfter n⟩, ⟨KEYS.leaseHolder, none⟩] = true := by
      simp [conditionsHold, hepoch, hs.holder]
    simp only [attempt, Task.request, serve, conditionalBatch, hhold, if_true, owned]
    rfl
  have h2 : step codec options (s.with n (2 * n) e attempt none s.store s.wins)
      (.deliver (2 * n) .served) =
        some (s.with n (2 * n) e attempt (some (.committed true)) owned wins) := by
    rw [step_deliver_with s n (2 * n) e attempt s.store s.wins rfl, hserve]
    have hwins : recordWin (s.with n (2 * n) e attempt none s.store s.wins) n attempt .served =
        wins := if_pos ⟨by decide, by rw [show (s.with n (2 * n) e attempt none s.store
          s.wins).store = s.store from rfl, hserve]⟩
    rw [hwins]
  let m := recordOwnership {} (n + 1) 0 hb
  let e' : Engine := { leaseManager := m }
  have h3 : step codec options (s.with n (2 * n) e attempt (some (.committed true)) owned wins)
      (.resume (2 * n) fun _ => 0) =
        some (s.with n (2 * n) e' (.settled .acquired) none owned wins) :=
    step_resume_with s n (2 * n) e _ _ _ _ rfl rfl
  -- and the lease is released
  let held := s.with n (2 * n) e' (.settled .acquired) none owned wins
  let e'' : Engine := { leaseManager := { m with stopped := true } }
  have hengine : held.engines n = e' := if_pos rfl
  have h4 : step codec options held (.release (2 * n + 1) n) =
      some (held.with n (2 * n + 1) e'' (.deleteHolder hb) none owned wins) := by
    have hfree : held.flights (2 * n + 1) = none := by
      rw [show held.flights (2 * n + 1) = s.flights (2 * n + 1) from if_neg (by omega)]
      exact hs.flights _ (by omega)
    simp only [step, hengine]
    exact call_with held n (2 * n + 1) e'' (.deleteHolder hb) hfree (by rw [hengine])
  let released := applyBatchOperations owned [.delete KEYS.leaseHolder]
  have howned : owned.get KEYS.leaseHolder = some hb := by
    simp [owned, applyBatchOperations, applyBatchOperation]
  have hdelete : serve owned (Task.deleteHolder hb).request = (.committed true, released) := by
    have hhold : conditionsHold owned [⟨KEYS.leaseHolder, some hb⟩] = true := by
      simp [conditionsHold, howned]
    simp only [Task.request, serve, conditionalBatch, hhold, if_true, released]
    rfl
  have h5 : step codec options (held.with n (2 * n + 1) e'' (.deleteHolder hb) none owned wins)
      (.deliver (2 * n + 1) .served) =
        some (held.with n (2 * n + 1) e'' (.deleteHolder hb) (some (.committed true)) released
          wins) := by
    rw [step_deliver_with held n (2 * n + 1) e'' _ owned wins rfl, hdelete]
    rfl
  refine ⟨_, h1.trans (.head (.of h2) (.head (.of h3) (.head (.of h4) (.single (.of h5))))),
    ?_, ?_⟩
  · refine ⟨?_, fun j hj => ?_, fun g hg => ?_⟩
    · simp [System.with, released, applyBatchOperations, applyBatchOperation]
    · have hne : j ≠ n := by omega
      simp only [System.with, held, hne, if_false]
      exact hs.engines j (by omega)
    · have hne : g ≠ 2 * n + 1 := by omega
      have hne' : g ≠ 2 * n := by omega
      simp only [System.with, held, hne, hne', if_false]
      exact hs.flights g (by omega)
  · have hkey := KEYS.leaseHolder_ne_leaseEpoch.symm
    simp [System.with, released, owned, applyBatchOperations, applyBatchOperation, epochAfter, hkey]

variable (codec options) in
theorem reaches_epoch (hs : Unused 0 0 s) (hepoch : s.store.get KEYS.leaseEpoch = none) (n : Nat)
    (hn : n < MAX_SAFE_INTEGER) :
    ∃ t, Relation.ReflTransGen (Steps codec options) s t ∧ Unused n (2 * n) t ∧
      t.store.get KEYS.leaseEpoch = epochAfter n := by
  induction n with
  | zero => exact ⟨s, .refl, hs, hepoch⟩
  | succ n ih =>
    obtain ⟨t, ht, hunused, hstored⟩ := ih (by omega)
    obtain ⟨t', ht', hunused', hstored'⟩ := reaches_transfer hunused hstored hn
    exact ⟨t', ht.trans ht', hunused', hstored'⟩

theorem corrupted_with (s : System) (i f : Nat) (e : Engine) (detail : String)
    (store : Store Bytes) (wins : List (Nat × Nat)) :
    Corrupted (s.with i f e (.settled (.leaseCorrupted detail)) none store wins) :=
  ⟨f, i, detail, none, if_pos rfl⟩

/-- Acquires and releases alone bring some acquire to raise the error. -/
theorem ceiling_reached :
    ColdStart handoffStart ∧
      ∃ as, Corrupted ((leaseSystem handoffCodec handoffOptions).final handoffStart as) := by
  have hcold : ColdStart handoffStart := ⟨⟨fun _ => rfl, fun _ => rfl, rfl⟩, rfl, rfl⟩
  have hunused : Unused 0 0 handoffStart := ⟨rfl, fun _ _ => rfl, fun _ _ => rfl⟩
  let n := MAX_SAFE_INTEGER - 1
  have hn : n < MAX_SAFE_INTEGER := by decide
  obtain ⟨t, ht, hfree, hepoch⟩ :=
    reaches_epoch handoffCodec handoffOptions hunused rfl n hn
  have hattempt := attempt_after handoffCodec (handoffOptions n).toLeaseManagerOptions
    (freshLocals (handoffOptions n).toLeaseManagerOptions) hn
  rw [if_pos (by decide), ← hepoch] at hattempt
  obtain ⟨as, has⟩ := Machine.exists_final_of_reflTransGen
    (ht.trans (reaches_attempt hfree hattempt))
  refine ⟨hcold, as, ?_⟩
  rw [has]
  exact corrupted_with t n (2 * n) _ _ _ _

end Weft.Lease
