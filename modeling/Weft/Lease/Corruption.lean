import Weft.Lease.Fencing

/-! Corruption errors of an acquire. Over a store that began without lease keys the only one left
is that of the epoch ceiling. -/

namespace Weft.Lease
open Weft.Js Weft.Storage Weft.Lib

/-! ## The invariant -/

/-- The stored epoch counts the transfers of ownership. -/
def CountsWins (s : System) : Prop :=
  (s.store.get KEYS.leaseEpoch = none ∧ s.wins = []) ∨
    ∃ raw, s.store.get KEYS.leaseEpoch = some raw ∧ decodeEpoch raw = some s.wins.length

def AtCeiling (wins : List (Nat × Nat)) : Prop := MAX_SAFE_INTEGER ≤ wins.length + 1

/-- What an acquire has read so far. The holder is read first, so a holder that was seen had an
epoch beside it, and the epoch is still there. -/
def ReadOk (epochStored : Prop) (wins : List (Nat × Nat)) (task : Task)
    (response : Option Response) : Prop :=
  match task with
  | .readHolder _ => ∀ h, response = some (.value (some h)) → epochStored
  | .readEpoch _ holderRaw =>
      (holderRaw ≠ none → epochStored) ∧
        ∀ epochRaw, response = some (.value epochRaw) →
          (epochRaw = none → holderRaw = none) ∧
            ∀ raw, epochRaw = some raw → ∃ n, decodeEpoch raw = some n ∧ n ≤ wins.length
  | .settled (.leaseCorrupted _) => AtCeiling wins
  | _ => True

structure Cold (s : System) : Prop where
  counts : CountsWins s
  holder : s.store.get KEYS.leaseHolder ≠ none → s.store.get KEYS.leaseEpoch ≠ none
  reads : ∀ f fl, s.flights f = some fl →
    ReadOk (s.store.get KEYS.leaseEpoch ≠ none) s.wins fl.task fl.response

variable {t : Task}

theorem ReadOk.mono {p p' : Prop} {wins wins' : List (Nat × Nat)} {r : Option Response}
    (hp : p → p') (hwins : wins.length ≤ wins'.length) (h : ReadOk p wins t r) :
    ReadOk p' wins' t r := by
  cases t with
  | readHolder l => exact fun x hx => hp (h x hx)
  | readEpoch l holderRaw =>
    obtain ⟨hholder, hepoch⟩ := h
    refine ⟨fun hne => hp (hholder hne), fun epochRaw hr => ?_⟩
    obtain ⟨hnone, hsome⟩ := hepoch epochRaw hr
    refine ⟨hnone, fun raw hraw => ?_⟩
    obtain ⟨n, hn, hle⟩ := hsome raw hraw
    exact ⟨n, hn, hle.trans hwins⟩
  | settled outcome =>
    cases outcome with
    | leaseCorrupted detail =>
      have hceiling : MAX_SAFE_INTEGER ≤ wins.length + 1 := h
      show MAX_SAFE_INTEGER ≤ wins'.length + 1
      omega
    | _ => trivial
  | _ => trivial

variable {s : System}

theorem CountsWins.decode (h : CountsWins s) {raw : Bytes}
    (hraw : s.store.get KEYS.leaseEpoch = some raw) : decodeEpoch raw = some s.wins.length := by
  rcases h with ⟨hnone, -⟩ | ⟨raw', hraw', hcount⟩
  · rw [hraw] at hnone
    cases hnone
  · rw [hraw] at hraw'
    obtain rfl := Option.some.inj hraw'
    exact hcount

/-! ## Local code -/

/-- A suspended call that has read nothing yet and raised nothing. -/
def Task.isReading : Task → Bool
  | .readEpoch .. => true
  | .settled (.leaseCorrupted _) => true
  | _ => false

variable {wins : List (Nat × Nat)}

theorem ReadOk.of_not_reading {p : Prop} (h : t.isReading = false) : ReadOk p wins t none := by
  cases t with
  | readHolder l => exact fun x hx => by cases hx
  | readEpoch l holderRaw => cases h
  | settled outcome =>
    cases outcome with
    | leaseCorrupted detail => cases h
    | _ => trivial
  | _ => trivial

theorem cold_suspend (hs : Cold s) (i f : Nat) (e : Engine) (t : Task)
    (ht : ReadOk (s.store.get KEYS.leaseEpoch ≠ none) s.wins t none) :
    Cold ((s.setEngine i e).setFlight f ⟨i, t, none⟩) where
  counts := hs.counts
  holder := hs.holder
  reads := by
    intro g fl hfl
    by_cases hg : g = f
    · simp only [System.setFlight, hg, if_true, Option.some.injEq] at hfl
      subst hfl
      exact ht
    · simp only [System.setFlight, hg, if_false] at hfl
      exact hs.reads g fl hfl

theorem cold_call {s s' : System} (hs : Cold s) {f i : Nat} {e : Engine}
    (ht : t.isReading = false) (h : s.call f i e t = some s') : Cold s' := by
  unfold System.call at h
  split_ifs at h
  cases h
  exact cold_suspend hs i f e t (.of_not_reading ht)

theorem acquireLoop_not_reading (m : LeaseManager) (l : AcquireLocals) (clock : Nat → Int) :
    (acquireLoop m l clock).isReading = false := by
  unfold acquireLoop
  split_ifs <;> rfl

theorem releaseHolder_not_reading (m : LeaseManager) : (releaseHolder m).isReading = false := by
  unfold releaseHolder
  split <;> rfl

theorem release_not_reading (m : LeaseManager) : (release m).2.isReading = false := by
  unfold release
  dsimp only
  split
  · rfl
  · exact releaseHolder_not_reading _

/-- A renewal that goes out asserts the held epoch over the bytes last written. -/
theorem renewOnce_eq_some {codec : HolderCodec} {options : LeaseManagerOptions} {m : LeaseManager}
    {clock : Nat → Int} (h : renewOnce codec options m clock = some t) :
    m.stopped = false ∧ ∃ epoch prior, m.heldEpoch = some epoch ∧
      m.lastHolderBytes = some prior ∧
      t = .renewHolder prior (clock 0)
        (codec.encodeHolder ⟨options.holderId, clock 0 + options.ttlMs, epoch⟩) := by
  unfold renewOnce at h
  split_ifs at h with hgone
  split at h
  · rename_i epoch prior hepoch hprior
    exact ⟨by simpa using fun hs => hgone (.inl hs), epoch, prior, hepoch, hprior,
      (Option.some.inj h).symm⟩
  · cases h

theorem fencedCommit_not_reading (mode : OwnershipMode) (e : Engine)
    (operations : List (BatchOperation Bytes))
    (base : List (ConditionalBatchCondition Bytes)) :
    (fencedCommit mode e operations base).2.isReading = false := by
  unfold fencedCommit
  split <;> rfl

/-- With what it has read, an attempt raises nothing but the ceiling. -/
theorem tryAcquireOnce_readOk (codec : HolderCodec) (options : LeaseManagerOptions)
    (l : AcquireLocals) (epochRaw holderRaw : Option Bytes) (clock : Nat → Int) {p : Prop}
    (hnone : epochRaw = none → holderRaw = none)
    (hsome : ∀ raw, epochRaw = some raw → ∃ n, decodeEpoch raw = some n ∧ n ≤ wins.length) :
    ReadOk p wins (tryAcquireOnce codec options l epochRaw holderRaw clock) none := by
  unfold tryAcquireOnce
  dsimp only
  split_ifs with hundecodable horphan hlive hceiling
  · obtain ⟨hne, hdecode⟩ := hundecodable
    obtain ⟨raw, hraw⟩ := Option.ne_none_iff_exists'.1 hne
    obtain ⟨n, hn, -⟩ := hsome raw hraw
    rw [hraw, Option.bind_some, hn] at hdecode
    cases hdecode
  · exact absurd (hnone horphan.1) horphan.2
  · exact .of_not_reading rfl
  · show MAX_SAFE_INTEGER ≤ wins.length + 1
    cases epochRaw with
    | none =>
      simp only [Option.bind_none, Option.getD_none] at hceiling
      omega
    | some raw =>
      obtain ⟨n, hn, hle⟩ := hsome raw rfl
      simp only [Option.bind_some, hn, Option.getD_some] at hceiling
      omega
  · exact .of_not_reading rfl

theorem resume_readOk (codec : HolderCodec) (options : LeaseManagerOptions) (f : Nat) (e : Engine)
    (t : Task) (r : Response) (clock : Nat → Int) {p : Prop} (h : ReadOk p wins t (some r)) :
    ReadOk p wins (resume codec options f e t r clock).2 none := by
  unfold resume
  split
  case h_1 l holderRaw =>
    refine ⟨fun hne => ?_, fun epochRaw hr => by cases hr⟩
    obtain ⟨x, rfl⟩ := Option.ne_none_iff_exists'.1 hne
    exact h x rfl
  case h_2 l holderRaw epochRaw =>
    obtain ⟨hnone, hsome⟩ := h.2 epochRaw rfl
    exact tryAcquireOnce_readOk codec options l epochRaw holderRaw clock hnone hsome
  case h_5 l holderRaw =>
    refine .of_not_reading ?_
    unfold waitForHandoff
    dsimp only
    split_ifs <;> rfl
  case h_6 l => exact .of_not_reading (acquireLoop_not_reading e.leaseManager l clock)
  case h_8 => exact .of_not_reading (releaseHolder_not_reading e.leaseManager)
  case h_15 => split_ifs <;> exact .of_not_reading rfl
  case h_16 outcome =>
    cases outcome with
    | leaseCorrupted detail => exact h
    | _ => trivial
  all_goals exact .of_not_reading rfl

/-! ## Deliveries -/

theorem fencedBatch_avoids_holder {epochBytes : Option Bytes}
    {operations : List (BatchOperation Bytes)} {base : List (ConditionalBatchCondition Bytes)}
    (hops : avoidsLeaseKeys operations = true) :
    ∀ op ∈ (Task.fencedBatch epochBytes operations base).request.operations,
      op.key ≠ KEYS.leaseHolder := by
  have hfree : ∀ op ∈ operations, op.key ≠ KEYS.leaseHolder := by
    intro op hop
    have h := List.all_eq_true.1 hops op hop
    simp only [decide_eq_true_eq] at h
    exact h.2
  cases epochBytes with
  | none => cases base <;> exact hfree
  | some b => exact hfree

theorem holder_or_avoids (ht : t.isTakeOwnership = false)
    (hops : ∀ b operations base, t = .fencedBatch b operations base →
      avoidsLeaseKeys operations = true) :
    (∃ prior operations, t.request =
        .conditionalBatch [⟨KEYS.leaseHolder, some prior⟩] operations) ∨
      ∀ op ∈ t.request.operations, op.key ≠ KEYS.leaseHolder := by
  cases t with
  | takeOwnership => cases ht
  | renewHolder prior renewedAt holderBytes => exact .inl ⟨prior, _, rfl⟩
  | deleteHolder prior => exact .inl ⟨prior, _, rfl⟩
  | fencedBatch epochBytes operations base =>
    exact .inr (fencedBatch_avoids_holder (hops _ _ _ rfl))
  | _ => exact .inr fun op hop => by cases hop

/-- Only an acquire puts a holder where there was none. -/
theorem holder_stored_before {s : Store Bytes} {d : Delivery} (ht : t.isTakeOwnership = false)
    (hops : ∀ b operations base, t = .fencedBatch b operations base →
      avoidsLeaseKeys operations = true)
    (h : (d.effect s t.request).get KEYS.leaseHolder ≠ none) : s.get KEYS.leaseHolder ≠ none := by
  rcases holder_or_avoids ht hops with ⟨prior, operations, hrequest⟩ | hfree
  · by_cases hd : d = .lost
    · rw [hd] at h
      exact h
    · rw [effect_of_ne_lost s _ hd, hrequest] at h
      by_cases hc : (serve s (.conditionalBatch [⟨KEYS.leaseHolder, some prior⟩] operations)).1 =
          .committed true
      · have hread := (serve_conditionalBatch_committed hc).1 _ List.mem_cons_self
        rw [hread]
        exact Option.some_ne_none prior
      · rwa [serve_conditionalBatch_refused hc] at h
  · rwa [effect_get_of_untouched s t.request d _ hfree] at h

private theorem cold_deliver_of (hs : Cold s) {f i : Nat} {r : Response} {store : Store Bytes}
    (hcounts : (store.get KEYS.leaseEpoch = none ∧ wins = []) ∨ ∃ raw,
      store.get KEYS.leaseEpoch = some raw ∧ decodeEpoch raw = some wins.length)
    (hholder : store.get KEYS.leaseHolder ≠ none → store.get KEYS.leaseEpoch ≠ none)
    (hkept : s.store.get KEYS.leaseEpoch ≠ none → store.get KEYS.leaseEpoch ≠ none)
    (hwins : s.wins.length ≤ wins.length)
    (hnew : ReadOk (store.get KEYS.leaseEpoch ≠ none) wins t (some r)) :
    Cold { (s.setFlight f ⟨i, t, some r⟩) with store := store, wins := wins } where
  counts := hcounts
  holder := hholder
  reads := by
    intro g fl hfl
    by_cases hg : g = f
    · simp only [System.setFlight, hg, if_true, Option.some.injEq] at hfl
      subst hfl
      exact hnew
    · simp only [System.setFlight, hg, if_false] at hfl
      exact (hs.reads g fl hfl).mono hkept hwins

/-- What the store answers to a read. -/
theorem answer_readOk (hs : Cold s) {f i : Nat} (d : Delivery)
    (hf : s.flights f = some ⟨i, t, none⟩) :
    ReadOk (s.store.get KEYS.leaseEpoch ≠ none) s.wins t (some (d.answer s.store t.request)) := by
  have hok := hs.reads f _ hf
  cases t with
  | readHolder l =>
    intro x hx
    cases d with
    | served =>
      have hread : s.store.get KEYS.leaseHolder = some x :=
        Response.value.inj (Option.some.inj hx)
      exact hs.holder (by rw [hread]; exact Option.some_ne_none x)
    | lost => cases hx
    | answerLost => cases hx
  | readEpoch l holderRaw =>
    refine ⟨hok.1, fun epochRaw hr => ?_⟩
    cases d with
    | served =>
      have hread : s.store.get KEYS.leaseEpoch = epochRaw :=
        Response.value.inj (Option.some.inj hr)
      refine ⟨fun hnone => ?_, fun raw hraw => ?_⟩
      · by_contra hne
        exact hok.1 hne (hread.trans hnone)
      · exact ⟨_, hs.counts.decode (hread.trans hraw), le_rfl⟩
    | lost => cases hr
    | answerLost => cases hr
  | settled outcome =>
    cases outcome with
    | leaseCorrupted detail => exact hok
    | _ => trivial
  | _ => trivial

theorem cold_deliver {options : Nat → EngineOptions} (hinv : Inv options s) (hs : Cold s)
    {f i : Nat} (d : Delivery) (hf : s.flights f = some ⟨i, t, none⟩) :
    Cold { (s.setFlight f ⟨i, t, some (d.answer s.store t.request)⟩) with
      store := d.effect s.store t.request
      wins := recordWin s i t d } := by
  have hok := hinv.flights f _ hf
  by_cases ht : t.isTakeOwnership = true
  · cases t with
    | takeOwnership l expectedEpoch expectedHolder nextEpoch acquiredAt holderBytes =>
      by_cases hc : Commits s.store
          (.takeOwnership l expectedEpoch expectedHolder nextEpoch acquiredAt holderBytes) d
      · obtain ⟨hread, hwritten⟩ := takeOwnership_commits hc
        obtain ⟨-, hdecode⟩ := win_is_new hinv hok.1 hread
        have hnext : nextEpoch = s.wins.length + 1 := by
          cases expectedEpoch with
          | none =>
            rcases hs.counts with ⟨-, hwins⟩ | ⟨raw, hraw, -⟩
            · rw [hwins]
              exact hok.1.2
            · rw [hread] at hraw
              cases hraw
          | some raw =>
            obtain ⟨e, he, hsucc⟩ := hok.1.2
            rw [hs.counts.decode hread] at he
            rw [hsucc, Option.some.inj he]
        have hstored : (d.effect s.store (Task.takeOwnership l expectedEpoch expectedHolder
            nextEpoch acquiredAt holderBytes).request).get KEYS.leaseEpoch ≠ none := by
          rw [hwritten]
          exact Option.some_ne_none _
        simp only [recordWin, hc, if_true]
        refine cold_deliver_of hs (.inr ⟨_, hwritten, ?_⟩) (fun _ => hstored) (fun _ => hstored)
          (by simp) trivial
        rw [hdecode, hnext]
        rfl
      · have hsame := takeOwnership_refused hc
        simp only [recordWin, hc, if_false, hsame]
        exact cold_deliver_of hs hs.counts hs.holder id le_rfl trivial
    | _ => cases ht
  · rw [Bool.not_eq_true] at ht
    have hwins : recordWin s i t d = s.wins := by
      cases t with
      | takeOwnership => cases ht
      | _ => rfl
    have hops : ∀ b operations base, t = .fencedBatch b operations base →
        avoidsLeaseKeys operations = true := by
      rintro b operations base rfl
      exact hok.1
    have hepoch := hinv.effect_epoch d hf ht
    rw [hwins]
    refine cold_deliver_of hs ?_ ?_ (by rw [hepoch]; exact id) le_rfl ?_
    · rw [hepoch]
      exact hs.counts
    · rw [hepoch]
      exact fun h => hs.holder (holder_stored_before ht hops h)
    · rw [hepoch]
      exact answer_readOk hs d hf

/-! ## Runs -/

theorem step_cold (codec : HolderCodec) (options : Nat → EngineOptions) {s s' : System} {a : Label}
    (hinv : Inv options s) (hs : Cold s) (h : step codec options s a = some s') : Cold s' := by
  cases a with
  | acquire f i clock =>
    simp only [step] at h
    split_ifs at h
    exact cold_call hs (acquireLoop_not_reading _ _ _) h
  | renewOnce f i clock =>
    obtain ⟨t, ht, hcall⟩ := Option.bind_eq_some_iff.1 h
    obtain ⟨-, epoch, prior, -, -, rfl⟩ := renewOnce_eq_some ht
    exact cold_call hs rfl hcall
  | renewUnderGuard f i clock =>
    simp only [step] at h
    split_ifs at h
    obtain ⟨t, ht, hcall⟩ := Option.bind_eq_some_iff.1 h
    obtain ⟨-, epoch, prior, -, -, rfl⟩ := renewOnce_eq_some ht
    exact cold_call hs rfl hcall
  | release f i =>
    exact cold_call hs (release_not_reading (s.engines i).leaseManager) h
  | stop i =>
    cases h
    exact ⟨hs.counts, hs.holder, hs.reads⟩
  | fencedCommit f i operations base =>
    simp only [step] at h
    split_ifs at h
    exact cold_call hs (fencedCommit_not_reading _ _ _ _) h
  | deliver f d =>
    simp only [step] at h
    split at h
    · rename_i i t hf
      split_ifs at h
      cases h
      exact cold_deliver hinv hs d hf
    · cases h
  | resume f clock =>
    simp only [step] at h
    split at h
    · rename_i i t r hf
      split_ifs at h
      cases h
      exact cold_suspend hs i f _ _ (resume_readOk _ _ _ _ _ _ _ (hs.reads f _ hf))
    · cases h
  | crash i =>
    cases h
    exact ⟨hs.counts, hs.holder, hs.reads⟩

/-- Fresh managers over a store without lease keys. -/
structure ColdStart (s : System) : Prop extends Initial s where
  epoch : s.store.get KEYS.leaseEpoch = none
  holder : s.store.get KEYS.leaseHolder = none

theorem ColdStart.cold (hs : ColdStart s) : Cold s where
  counts := .inl ⟨hs.epoch, hs.wins⟩
  holder := fun h => (h hs.holder).elim
  reads := by
    intro f fl h
    rw [hs.flights f] at h
    cases h

/-- Some call of `tryAcquireOnce` has raised `EngineLeaseCorruptedError`. -/
def Corrupted (s : System) : Prop :=
  ∃ f i detail r, s.flights f = some ⟨i, .settled (.leaseCorrupted detail), r⟩

/-- An acquire raises a corruption error only after `MAX_SAFE_INTEGER - 1` transfers. -/
theorem corrupted_only_at_ceiling (codec : HolderCodec) (options : Nat → EngineOptions)
    (s : System) (hs : ColdStart s) (as : List Label) :
    (leaseSystem codec options).EveryState
      (fun t => Corrupted t → MAX_SAFE_INTEGER ≤ t.wins.length + 1) s as := by
  have htrue := Machine.everyStep_true (M := leaseSystem codec options) as s
  have hrun := Machine.everyState_of_invariant (M := leaseSystem codec options)
    (I := fun t => Inv options t ∧ Cold t)
    (fun t a t' ht _ hstep => ⟨step_inv codec options ht.1 hstep,
      step_cold codec options ht.1 ht.2 hstep⟩) ⟨hs.toInitial.inv, hs.cold⟩ htrue
  refine hrun.mono ?_
  rintro t ⟨-, hcold⟩ ⟨f, i, detail, r, hf⟩
  exact hcold.reads f _ hf

theorem corrupted_only_at_ceiling_handoff :
    ColdStart handoffStart ∧
      (leaseSystem handoffCodec handoffOptions).EveryState
        (fun t => Corrupted t → MAX_SAFE_INTEGER ≤ t.wins.length + 1) handoffStart handoffRun := by
  have hcold : ColdStart handoffStart := ⟨⟨fun _ => rfl, fun _ => rfl, rfl⟩, rfl, rfl⟩
  exact ⟨hcold, corrupted_only_at_ceiling handoffCodec handoffOptions handoffStart hcold handoffRun⟩

end Weft.Lease
