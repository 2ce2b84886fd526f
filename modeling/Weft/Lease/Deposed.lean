import Weft.Lease.Health

/-! When a renewal reports that its engine is deposed. A refused renewal finds a holder record that
is not the one its manager remembers: that of a successor, or its own, where an earlier renewal
wrote it and threw. -/

namespace Weft.Lease
open Weft.Js Weft.Storage Weft.Lib

variable (codec : HolderCodec) (options : Nat → EngineOptions)

/-- The holder ids of the engines differ, and so do the bytes of their records. -/
def DistinctHolders : Prop :=
  ∀ i j r r', r.holderId = (options i).holderId → r'.holderId = (options j).holderId →
    codec.encodeHolder r = codec.encodeHolder r' → i = j

/-- The bytes of a record of engine `i`. -/
def Own (i : Nat) (raw : Bytes) : Prop :=
  ∃ r : LeaseHolderRecord, r.holderId = (options i).holderId ∧ raw = codec.encodeHolder r

/-- Another engine has won a newer epoch than this one. -/
def OvertakenAt (s : System) (i epoch : Nat) : Prop := ∃ w ∈ s.wins, w.2 ≠ i ∧ epoch < w.1

def Overtaken (s : System) (i : Nat) : Prop :=
  ∃ epoch, (s.engines i).leaseManager.heldEpoch = some epoch ∧ OvertakenAt s i epoch

/-- A successor has taken over, or the stored record is still of engine `i`. -/
def Stands (s : System) (i epoch : Nat) : Prop :=
  OvertakenAt s i epoch ∨ ∃ raw, s.store.get KEYS.leaseHolder = some raw ∧ Own codec options i raw

def Task.isRenewal : Task → Bool
  | .renewHolder .. => true
  | _ => false

def Task.isRelease : Task → Bool
  | .awaitRenewal _ | .deleteHolder _ => true
  | _ => false

/-- Engine `i` acquires where it holds no epoch, and is released when the renewal in flight is the
one under the guard, if there is one. -/
def InTurn (i : Nat) (s : System) : Label → Prop
  | .acquire _ j _ => j = i → (s.engines i).leaseManager.heldEpoch = none
  | .release _ j => j = i → ∀ f t r, s.flights f = some ⟨i, t, r⟩ → t.isRenewal = true →
      (s.engines i).leaseManager.inFlightRenewal = some f
  | _ => True

/-- No renewal of engine `i` is served when the stored record is its own and not the one it
remembers. -/
def Remembers (i : Nat) (s : System) : Label → Prop
  | .deliver f .served =>
      match s.flights f with
      | some ⟨j, .renewHolder prior _ _, _⟩ => j = i → ∀ raw,
          s.store.get KEYS.leaseHolder = some raw → Own codec options i raw → raw = prior
      | _ => True
  | _ => True

/-! ## The invariant -/

/-- The records that a call conditions on or writes are of its engine. -/
def CallOwn (fl : Flight) : Prop :=
  match fl.task with
  | .takeOwnership _ _ _ _ _ holderBytes => Own codec options fl.engine holderBytes
  | .renewHolder prior _ holderBytes =>
      Own codec options fl.engine prior ∧ Own codec options fl.engine holderBytes
  | .deleteHolder prior => Own codec options fl.engine prior
  | _ => True

/-- What the manager of engine `i` and the store agree on. -/
structure Tracks (i : Nat) (s : System) : Prop where
  inv : Inv options s
  last : ∀ j raw, (s.engines j).leaseManager.lastHolderBytes = some raw → Own codec options j raw
  calls : ∀ f fl, s.flights f = some fl → CallOwn codec options fl
  held : ∀ epoch, (s.engines i).leaseManager.heldEpoch = some epoch →
    (s.engines i).leaseManager.stopped = true ∨ Stands codec options s i epoch
  acquiring : ∀ f t r, s.flights f = some ⟨i, t, r⟩ → t.isAcquire = true →
    (s.engines i).leaseManager.heldEpoch = none
  acquired : ∀ f l a b epoch at' raw, s.flights f =
      some ⟨i, .takeOwnership l a b epoch at' raw, some (.committed true)⟩ →
    (s.engines i).leaseManager.stopped = true ∨ Stands codec options s i epoch
  renewing : ∀ f prior at' raw r, s.flights f = some ⟨i, .renewHolder prior at' raw, r⟩ →
    ∃ epoch, (s.engines i).leaseManager.heldEpoch = some epoch ∧
      (r = none → Stands codec options s i epoch) ∧
      (r = some (.committed false) → OvertakenAt s i epoch)
  releasing : ∀ f t r, s.flights f = some ⟨i, t, r⟩ → t.isRelease = true →
    (s.engines i).leaseManager.stopped = true ∧
      ∀ g t' r', s.flights g = some ⟨i, t', r'⟩ → t'.isRenewal = true →
        t = .awaitRenewal g ∧ r = none ∧ (s.engines i).leaseManager.inFlightRenewal = some g
  reported : (s.engines i).leaseManager.leaseLostReason = some .deposed → Overtaken s i

variable {codec options} {i : Nat}

variable {s : System}

theorem Initial.tracks (hs : Initial s) (i : Nat) : Tracks codec options i s where
  inv := hs.inv
  last := by
    intro j raw hraw
    rw [hs.managers j] at hraw
    cases hraw
  calls := by
    intro f fl hfl
    rw [hs.flights f] at hfl
    cases hfl
  held := by
    intro epoch hepoch
    rw [hs.managers i] at hepoch
    cases hepoch
  acquiring := by
    intro f t r hfl
    rw [hs.flights f] at hfl
    cases hfl
  acquired := by
    intro f l a b epoch at' raw hfl
    rw [hs.flights f] at hfl
    cases hfl
  renewing := by
    intro f prior at' raw r hfl
    rw [hs.flights f] at hfl
    cases hfl
  releasing := by
    intro f t r hfl
    rw [hs.flights f] at hfl
    cases hfl
  reported := by
    intro hreason
    rw [hs.managers i] at hreason
    cases hreason

theorem own_unique (hdistinct : DistinctHolders codec options) {i j : Nat} {raw : Bytes}
    (hi : Own codec options i raw) (hj : Own codec options j raw) : i = j := by
  obtain ⟨r, hr, rfl⟩ := hi
  obtain ⟨r', hr', heq⟩ := hj
  exact hdistinct i j r r' hr hr' heq

/-! ## Deliveries -/

def Task.writesHolder : Task → Bool
  | .takeOwnership .. | .renewHolder .. | .deleteHolder _ => true
  | _ => false

variable {t : Task}

theorem request_avoids_holder (hreads : t.writesHolder = false)
    (hops : ∀ b operations base, t = .fencedBatch b operations base →
      avoidsLeaseKeys operations = true) :
    ∀ op ∈ t.request.operations, op.key ≠ KEYS.leaseHolder := by
  cases t with
  | takeOwnership => cases hreads
  | renewHolder => cases hreads
  | deleteHolder => cases hreads
  | fencedBatch b operations base => exact fencedBatch_avoids_holder (hops b operations base rfl)
  | _ => simp [Task.request, Request.operations]

variable {f j : Nat}

theorem Tracks.holder_kept (hs : Tracks codec options i s) (d : Delivery)
    (hf : s.flights f = some ⟨j, t, none⟩) (hreads : t.writesHolder = false) :
    (d.effect s.store t.request).get KEYS.leaseHolder = s.store.get KEYS.leaseHolder := by
  refine effect_get_of_untouched _ _ _ _ (request_avoids_holder hreads ?_)
  rintro b operations base rfl
  exact (hs.inv.flights f _ hf).1

/-- What a delivered request leaves of a standing record, when it is no release of its engine. -/
theorem Stands.deliver (hdistinct : DistinctHolders codec options) (hs : Tracks codec options i s)
    (d : Delivery) (hf : s.flights f = some ⟨j, t, none⟩) {epoch : Nat}
    (hwon : (epoch, i) ∈ s.wins) (hrelease : j = i → t.isRelease = false)
    (h : Stands codec options s i epoch) {s' : System}
    (hstore : s'.store = d.effect s.store t.request) (hwins : s'.wins = recordWin s j t d) :
    Stands codec options s' i epoch := by
  have hown := hs.calls f _ hf
  have hkeep : s'.wins = s.wins → s'.store.get KEYS.leaseHolder = s.store.get KEYS.leaseHolder →
      Stands codec options s' i epoch := by
    intro hwins hholder
    obtain ⟨w, hw, hother, hnewer⟩ | ⟨raw, hraw, hmine⟩ := h
    · exact .inl ⟨w, hwins ▸ hw, hother, hnewer⟩
    · exact .inr ⟨raw, hholder.trans hraw, hmine⟩
  have hsame : s'.wins = s.wins → d.effect s.store t.request = s.store →
      Stands codec options s' i epoch := fun hwins heffect =>
    hkeep hwins (by rw [hstore, heffect])
  cases t with
  | takeOwnership l expectedEpoch expectedHolder nextEpoch acquiredAt holderBytes =>
    by_cases hc : Commits s.store
        (.takeOwnership l expectedEpoch expectedHolder nextEpoch acquiredAt holderBytes) d
    · have hwins' : s'.wins = (nextEpoch, j) :: s.wins := by
        rw [hwins, recordWin, if_pos hc]
      by_cases hji : j = i
      · subst hji
        exact .inr ⟨holderBytes, hstore ▸ (takeOwnership_commits_holder hc).2, hown⟩
      · refine .inl ⟨(nextEpoch, j), hwins' ▸ List.mem_cons_self, hji, ?_⟩
        have hmint := (hs.inv.flights f _ hf).1
        exact (win_is_new hs.inv hmint (takeOwnership_commits hc).1).1 _ hwon
    · refine hsame ?_ (takeOwnership_refused hc)
      rw [hwins, recordWin, if_neg hc]
  | renewHolder prior renewedAt holderBytes =>
    by_cases hc : Commits s.store (.renewHolder prior renewedAt holderBytes) d
    · obtain ⟨hread, hwrote⟩ := holderBatch_commits rfl hc
      obtain ⟨w, hw, hother, hnewer⟩ | ⟨raw, hraw, hmine⟩ := h
      · exact .inl ⟨w, hwins ▸ hw, hother, hnewer⟩
      · rw [hread] at hraw
        cases hraw
        obtain rfl := own_unique hdistinct hmine hown.1
        refine .inr ⟨holderBytes, ?_, hown.2⟩
        rw [hstore, hwrote]
        simp [applyBatchOperations, applyBatchOperation]
    · exact hsame hwins (refused_effect rfl hc)
  | deleteHolder prior =>
    by_cases hc : Commits s.store (.deleteHolder prior) d
    · obtain ⟨hread, -⟩ := holderBatch_commits rfl hc
      obtain ⟨w, hw, hother, hnewer⟩ | ⟨raw, hraw, hmine⟩ := h
      · exact .inl ⟨w, hwins ▸ hw, hother, hnewer⟩
      · rw [hread] at hraw
        cases hraw
        cases hrelease (own_unique hdistinct hown hmine)
    · exact hsame hwins (refused_effect rfl hc)
  | _ =>
    refine hkeep hwins ?_
    rw [hstore]
    exact hs.holder_kept d hf rfl

/-- A renewal is refused where another record is stored. -/
theorem renewHolder_refused {s : Store Bytes} {d : Delivery} {prior holderBytes : Bytes}
    {renewedAt : Int}
    (h : d.answer s (Task.renewHolder prior renewedAt holderBytes).request = .committed false) :
    d = .served ∧ s.get KEYS.leaseHolder ≠ some prior := by
  cases d with
  | lost => cases h
  | answerLost => cases h
  | served =>
    refine ⟨rfl, fun hread => ?_⟩
    simp [Delivery.answer, serve, Task.request, conditionalBatch, conditionsHold, hread,
      MAX_BATCH_OPERATIONS] at h

variable {s s' : System}

theorem OvertakenAt.mono {epoch : Nat} (hwins : ∀ w ∈ s.wins, w ∈ s'.wins)
    (h : OvertakenAt s i epoch) : OvertakenAt s' i epoch := by
  obtain ⟨w, hw, hother, hnewer⟩ := h
  exact ⟨w, hwins w hw, hother, hnewer⟩

theorem mem_recordWin (s : System) (j : Nat) (t : Task) (d : Delivery) :
    ∀ w ∈ s.wins, w ∈ recordWin s j t d := by
  intro w hw
  cases t with
  | takeOwnership l expectedEpoch expectedHolder nextEpoch acquiredAt holderBytes =>
    rw [recordWin]
    split_ifs
    · exact List.mem_cons_of_mem _ hw
    · exact hw
  | _ => exact hw

/-- A release asks for something only when no renewal of its engine is in flight. -/
theorem Tracks.release_ready (hs : Tracks codec options i s) {f : Nat}
    (hf : s.flights f = some ⟨i, t, none⟩) (hrelease : t.isRelease = true)
    (hready : t.ready (s.engines i).leaseManager = true) :
    (s.engines i).leaseManager.stopped = true ∧
      ∀ g t' r', s.flights g = some ⟨i, t', r'⟩ → t'.isRenewal = false := by
  obtain ⟨hstopped, hrenewals⟩ := hs.releasing f t none hf hrelease
  refine ⟨hstopped, fun g t' r' hg => ?_⟩
  by_contra hrenewal
  obtain ⟨rfl, -, hguard⟩ := hrenewals g t' r' hg (by simpa using hrenewal)
  have hfree : (s.engines i).leaseManager.inFlightRenewal ≠ some g := of_decide_eq_true hready
  exact hfree hguard

theorem Tracks.deliver (hdistinct : DistinctHolders codec options) (hs : Tracks codec options i s)
    (d : Delivery) (hf : s.flights f = some ⟨j, t, none⟩)
    (hready : t.ready (s.engines j).leaseManager = true)
    (hremembers : Remembers codec options i s (.deliver f d)) :
    Tracks codec options i { (s.setFlight f ⟨j, t, some (d.answer s.store t.request)⟩) with
      store := d.effect s.store t.request
      wins := recordWin s j t d } := by
  have hinv := deliver_inv hs.inv d hf
  generalize hs' : ({ (s.setFlight f ⟨j, t, some (d.answer s.store t.request)⟩) with
    store := d.effect s.store t.request
    wins := recordWin s j t d } : System) = s' at hinv ⊢
  have hengines : s'.engines = s.engines := by rw [← hs', System.setFlight]
  have hstore : s'.store = d.effect s.store t.request := by rw [← hs']
  have hwins : s'.wins = recordWin s j t d := by rw [← hs']
  have hflights : ∀ g fl, s'.flights g = some fl →
      (g = f ∧ fl = ⟨j, t, some (d.answer s.store t.request)⟩) ∨
        (g ≠ f ∧ s.flights g = some fl) := by
    intro g fl hfl
    rw [← hs'] at hfl
    by_cases hg : g = f
    · rw [System.setFlight] at hfl
      dsimp only at hfl
      rw [if_pos hg] at hfl
      exact .inl ⟨hg, (Option.some.inj hfl).symm⟩
    · rw [System.setFlight] at hfl
      dsimp only at hfl
      rw [if_neg hg] at hfl
      exact .inr ⟨hg, hfl⟩
  have hmore : ∀ w ∈ s.wins, w ∈ s'.wins := hwins ▸ mem_recordWin s j t d
  have hstands : ∀ {epoch}, (epoch, i) ∈ s.wins → Stands codec options s i epoch →
      (j = i ∧ t.isRelease = true) ∨ Stands codec options s' i epoch := by
    intro epoch hwon h
    by_cases hrelease : j = i ∧ t.isRelease = true
    · exact .inl hrelease
    · refine .inr (h.deliver hdistinct hs d hf hwon (fun hji => ?_) hstore hwins)
      simpa using fun hr => hrelease ⟨hji, hr⟩
  have hquiet : j = i ∧ t.isRelease = true → (s.engines i).leaseManager.stopped = true ∧
      ∀ g t' r', s.flights g = some ⟨i, t', r'⟩ → t'.isRenewal = false := by
    rintro ⟨rfl, hrelease⟩
    exact hs.release_ready hf hrelease hready
  constructor
  · exact hinv
  · rw [hengines]
    exact hs.last
  · intro g fl hfl
    obtain ⟨-, rfl⟩ | ⟨-, hfl⟩ := hflights g fl hfl
    · exact hs.calls f ⟨j, t, none⟩ hf
    · exact hs.calls g fl hfl
  · rw [hengines]
    intro epoch hepoch
    obtain hstopped | hold := hs.held epoch hepoch
    · exact .inl hstopped
    · obtain hrelease | hnew := hstands ((hs.inv.held i).2 epoch hepoch) hold
      · exact .inl (hquiet hrelease).1
      · exact .inr hnew
  · rw [hengines]
    intro g t' r hfl hacquire
    obtain ⟨-, heq⟩ | ⟨-, hfl⟩ := hflights g _ hfl
    · cases heq
      exact hs.acquiring f t none hf hacquire
    · exact hs.acquiring g t' r hfl hacquire
  · rw [hengines]
    intro g l a b epoch at' raw hfl
    obtain ⟨-, heq⟩ | ⟨-, hfl⟩ := hflights g _ hfl
    · injection heq with hj ht hr
      subst hj ht
      have hc := answer_committed (Option.some.inj hr).symm
      exact .inr (.inr ⟨raw, hstore ▸ (takeOwnership_commits_holder hc).2, hs.calls f _ hf⟩)
    · obtain hstopped | hold := hs.acquired g l a b epoch at' raw hfl
      · exact .inl hstopped
      · obtain hrelease | hnew := hstands ((hs.inv.flights g _ hfl).2 rfl).1 hold
        · exact .inl (hquiet hrelease).1
        · exact .inr hnew
  · rw [hengines]
    intro g prior at' raw r hfl
    obtain ⟨-, heq⟩ | ⟨-, hfl⟩ := hflights g _ hfl
    · injection heq with hj ht hr
      subst hj ht
      obtain ⟨epoch, hepoch, hstand, -⟩ := hs.renewing f prior at' raw none hf
      refine ⟨epoch, hepoch, fun hnone => ?_, fun hrefused => ?_⟩
      · rw [hr] at hnone
        cases hnone
      rw [hr] at hrefused
      obtain ⟨rfl, hother⟩ := renewHolder_refused (Option.some.inj hrefused)
      obtain hovertaken | ⟨stored, hstored, hmine⟩ := hstand rfl
      · exact hovertaken.mono hmore
      · simp only [Remembers, hf] at hremembers
        have hsame := hremembers trivial stored hstored hmine
        exact (hother (hsame ▸ hstored)).elim
    · obtain ⟨epoch, hepoch, hstand, hrefused⟩ := hs.renewing g prior at' raw r hfl
      refine ⟨epoch, hepoch, fun hnone => ?_, fun hr => (hrefused hr).mono hmore⟩
      obtain hrelease | hnew := hstands ((hs.inv.held i).2 epoch hepoch) (hstand hnone)
      · cases (hquiet hrelease).2 g _ r hfl
      · exact hnew
  · rw [hengines]
    intro g t' r hfl hrelease
    obtain ⟨-, heq⟩ | ⟨-, hfl⟩ := hflights g _ hfl
    · cases heq
      obtain ⟨hstopped, hnone⟩ := hquiet ⟨rfl, hrelease⟩
      refine ⟨hstopped, fun g' t'' r' hfl' hrenewal => ?_⟩
      obtain ⟨-, heq⟩ | ⟨-, hfl'⟩ := hflights g' _ hfl'
      · cases heq
        rw [hnone f t none hf] at hrenewal
        cases hrenewal
      · rw [hnone g' t'' r' hfl'] at hrenewal
        cases hrenewal
    · obtain ⟨hstopped, hrenewals⟩ := hs.releasing g t' r hfl hrelease
      refine ⟨hstopped, fun g' t'' r' hfl' hrenewal => ?_⟩
      obtain ⟨rfl, heq⟩ | ⟨-, hfl'⟩ := hflights g' _ hfl'
      · cases heq
        exact hrenewals g' t none hf hrenewal
      · exact hrenewals g' t'' r' hfl' hrenewal
  · rw [Overtaken, hengines]
    intro hreason
    obtain ⟨epoch, hepoch, hovertaken⟩ := hs.reported hreason
    exact ⟨epoch, hepoch, hovertaken.mono hmore⟩

/-! ## Local code -/

variable {e : Engine}

variable {j f : Nat}

theorem flights_suspend {g : Nat} {fl : Flight}
    (h : ((s.setEngine j e).setFlight f ⟨j, t, none⟩).flights g = some fl) :
    (g = f ∧ fl = ⟨j, t, none⟩) ∨ (g ≠ f ∧ s.flights g = some fl) := by
  rw [System.setFlight] at h
  dsimp only at h
  by_cases hg : g = f
  · rw [if_pos hg] at h
    exact .inl ⟨hg, (Option.some.inj h).symm⟩
  · rw [if_neg hg] at h
    exact .inr ⟨hg, h⟩

/-- Code of another engine ran and left its call `f` at `t`. -/
theorem Tracks.suspend_other (hs : Tracks codec options i s) (hji : j ≠ i)
    (hinv : Inv options ((s.setEngine j e).setFlight f ⟨j, t, none⟩))
    (hlast : ∀ raw, e.leaseManager.lastHolderBytes = some raw → Own codec options j raw)
    (hcall : CallOwn codec options ⟨j, t, none⟩) :
    Tracks codec options i ((s.setEngine j e).setFlight f ⟨j, t, none⟩) := by
  have hengine : ((s.setEngine j e).setFlight f ⟨j, t, none⟩).engines i = s.engines i :=
    if_neg (Ne.symm hji)
  have hflight : ∀ {g t' r}, ((s.setEngine j e).setFlight f ⟨j, t, none⟩).flights g =
      some ⟨i, t', r⟩ → s.flights g = some ⟨i, t', r⟩ := by
    intro g t' r hfl
    obtain ⟨-, heq⟩ | ⟨-, hfl⟩ := flights_suspend hfl
    · exact (hji (congrArg Flight.engine heq).symm).elim
    · exact hfl
  constructor
  · exact hinv
  · intro k raw hraw
    by_cases hk : k = j
    · subst hk
      have hengine : ((s.setEngine k e).setFlight f ⟨k, t, none⟩).engines k = e := if_pos rfl
      exact hlast raw (hengine ▸ hraw)
    · have hengine : ((s.setEngine j e).setFlight f ⟨j, t, none⟩).engines k = s.engines k :=
        if_neg hk
      exact hs.last k raw (hengine ▸ hraw)
  · intro g fl hfl
    obtain ⟨-, rfl⟩ | ⟨-, hfl⟩ := flights_suspend hfl
    · exact hcall
    · exact hs.calls g fl hfl
  · rw [hengine]
    exact hs.held
  · rw [hengine]
    exact fun g t' r hfl => hs.acquiring g t' r (hflight hfl)
  · rw [hengine]
    exact fun g l a b epoch at' raw hfl => hs.acquired g l a b epoch at' raw (hflight hfl)
  · rw [hengine]
    exact fun g prior at' raw r hfl => hs.renewing g prior at' raw r (hflight hfl)
  · rw [hengine]
    intro g t' r hfl hrelease
    obtain ⟨hstopped, hrenewals⟩ := hs.releasing g t' r (hflight hfl) hrelease
    exact ⟨hstopped, fun g' t'' r' hfl' => hrenewals g' t'' r' (hflight hfl')⟩
  · rw [Overtaken, hengine]
    exact hs.reported

/-- Code of engine `i` ran and left its call `f` at `t`. -/
structure Suspends (codec : HolderCodec) (options : Nat → EngineOptions) (i : Nat) (s : System)
    (f : Nat) (m : LeaseManager) (t : Task) : Prop where
  last : ∀ raw, m.lastHolderBytes = some raw → Own codec options i raw
  call : CallOwn codec options ⟨i, t, none⟩
  stopped : (s.engines i).leaseManager.stopped = true → m.stopped = true
  held : ∀ epoch, (s.engines i).leaseManager.heldEpoch = some epoch → m.heldEpoch = some epoch
  stands : ∀ epoch, m.heldEpoch = some epoch → m.stopped = true ∨ Stands codec options s i epoch
  acquiring : t.isAcquire = true → m.heldEpoch = none
  others : ∀ g t' r, g ≠ f → s.flights g = some ⟨i, t', r⟩ → t'.isAcquire = true →
    m.heldEpoch = none
  renewing : t.isRenewal = true → m.stopped = false ∧ m.heldEpoch ≠ none
  releasing : t.isRelease = true → m.stopped = true ∧ ∀ g t' r, g ≠ f →
    s.flights g = some ⟨i, t', r⟩ → t'.isRenewal = true →
      t = .awaitRenewal g ∧ m.inFlightRenewal = some g
  guard : ∀ g t' r, g ≠ f → s.flights g = some ⟨i, t', r⟩ → t'.isRelease = true →
    ∀ g' t'' r', g' ≠ f → s.flights g' = some ⟨i, t'', r'⟩ → t''.isRenewal = true →
      m.inFlightRenewal = (s.engines i).leaseManager.inFlightRenewal
  reported : m.leaseLostReason = some .deposed →
    ∃ epoch, m.heldEpoch = some epoch ∧ OvertakenAt s i epoch

theorem Tracks.suspend (hs : Tracks codec options i s) {f : Nat}
    (hinv : Inv options ((s.setEngine i e).setFlight f ⟨i, t, none⟩))
    (h : Suspends codec options i s f e.leaseManager t) :
    Tracks codec options i ((s.setEngine i e).setFlight f ⟨i, t, none⟩) := by
  have hengine : ((s.setEngine i e).setFlight f ⟨i, t, none⟩).engines i = e := if_pos rfl
  constructor
  · exact hinv
  · intro k raw hraw
    by_cases hk : k = i
    · subst hk
      exact h.last raw (hengine ▸ hraw)
    · have hengine : ((s.setEngine i e).setFlight f ⟨i, t, none⟩).engines k = s.engines k :=
        if_neg hk
      exact hs.last k raw (hengine ▸ hraw)
  · intro g fl hfl
    obtain ⟨-, rfl⟩ | ⟨-, hfl⟩ := flights_suspend hfl
    · exact h.call
    · exact hs.calls g fl hfl
  · rw [hengine]
    exact h.stands
  · rw [hengine]
    intro g t' r hfl hacquire
    obtain ⟨-, heq⟩ | ⟨hg, hfl⟩ := flights_suspend hfl
    · injection heq with hi ht hr
      exact h.acquiring (ht ▸ hacquire)
    · exact h.others g t' r hg hfl hacquire
  · rw [hengine]
    intro g l a b epoch at' raw hfl
    obtain ⟨-, heq⟩ | ⟨-, hfl⟩ := flights_suspend hfl
    · injection heq with hi ht hr
      cases hr
    · exact (hs.acquired g l a b epoch at' raw hfl).imp_left h.stopped
  · rw [hengine]
    intro g prior at' raw r hfl
    obtain ⟨-, heq⟩ | ⟨-, hfl⟩ := flights_suspend hfl
    · injection heq with hi ht hr
      obtain ⟨hrunning, hsome⟩ := h.renewing (by rw [← ht, Task.isRenewal])
      obtain ⟨epoch, hepoch⟩ := Option.ne_none_iff_exists'.1 hsome
      refine ⟨epoch, hepoch, fun _ => ?_, fun hrefused => ?_⟩
      · obtain hstopped | hstands := h.stands epoch hepoch
        · rw [hrunning] at hstopped
          cases hstopped
        · exact hstands
      · rw [hr] at hrefused
        cases hrefused
    · obtain ⟨epoch, hepoch, hstand, hrefused⟩ := hs.renewing g prior at' raw r hfl
      exact ⟨epoch, h.held epoch hepoch, hstand, hrefused⟩
  · rw [hengine]
    intro g t' r hfl hrelease
    obtain ⟨-, heq⟩ | ⟨hg, hfl⟩ := flights_suspend hfl
    · injection heq with hi ht hr
      subst ht hr
      obtain ⟨hstopped, hrenewals⟩ := h.releasing hrelease
      refine ⟨hstopped, fun g' t'' r' hfl' hrenewal => ?_⟩
      obtain ⟨-, heq⟩ | ⟨hg', hfl'⟩ := flights_suspend hfl'
      · injection heq with hi ht hr
        subst ht
        cases t'' <;> cases hrelease <;> cases hrenewal
      · obtain ⟨hawaits, hguard⟩ := hrenewals g' t'' r' hg' hfl' hrenewal
        exact ⟨hawaits, rfl, hguard⟩
    · obtain ⟨hstopped, hrenewals⟩ := hs.releasing g t' r hfl hrelease
      refine ⟨h.stopped hstopped, fun g' t'' r' hfl' hrenewal => ?_⟩
      obtain ⟨-, heq⟩ | ⟨hg', hfl'⟩ := flights_suspend hfl'
      · injection heq with hi ht hr
        subst ht
        have hrunning := (h.renewing hrenewal).1
        rw [h.stopped hstopped] at hrunning
        cases hrunning
      · rw [h.guard g t' r hg hfl hrelease g' t'' r' hg' hfl' hrenewal]
        exact hrenewals g' t'' r' hfl' hrenewal
  · rw [Overtaken, hengine]
    exact h.reported

/-- The manager is as it was, but that it may have been stopped. -/
structure Idle (m m' : LeaseManager) : Prop where
  stopped : m.stopped = true → m'.stopped = true
  held : m'.heldEpoch = m.heldEpoch
  last : m'.lastHolderBytes = m.lastHolderBytes
  guard : m'.inFlightRenewal = m.inFlightRenewal
  reason : m'.leaseLostReason = m.leaseLostReason

theorem Idle.refl (m : LeaseManager) : Idle m m := ⟨id, rfl, rfl, rfl, rfl⟩

theorem Idle.stop (m : LeaseManager) : Idle m m.stop := ⟨fun _ => rfl, rfl, rfl, rfl, rfl⟩

variable {m : LeaseManager}

theorem Tracks.stands_idle (hs : Tracks codec options i s)
    (hidle : Idle (s.engines i).leaseManager m) (epoch : Nat) (hepoch : m.heldEpoch = some epoch) :
    m.stopped = true ∨ Stands codec options s i epoch :=
  (hs.held epoch (hidle.held ▸ hepoch)).imp_left hidle.stopped

/-- Code that leaves the manager alone and asks neither to renew nor to release. -/
theorem Suspends.of_idle (hs : Tracks codec options i s) {f : Nat}
    (hidle : Idle (s.engines i).leaseManager m) (hcall : CallOwn codec options ⟨i, t, none⟩)
    (hacquire : t.isAcquire = true → (s.engines i).leaseManager.heldEpoch = none)
    (hrenewal : t.isRenewal = false) (hrelease : t.isRelease = false) :
    Suspends codec options i s f m t where
  last := hidle.last ▸ hs.last i
  call := hcall
  stopped := hidle.stopped
  held := fun epoch hepoch => hidle.held.trans hepoch
  stands := hs.stands_idle hidle
  acquiring := fun h => hidle.held.trans (hacquire h)
  others := fun g t' r _ hfl h => hidle.held.trans (hs.acquiring g t' r hfl h)
  renewing := by
    rw [hrenewal]
    exact fun h => by cases h
  releasing := by
    rw [hrelease]
    exact fun h => by cases h
  guard := fun _ _ _ _ _ _ _ _ _ _ _ _ => hidle.guard
  reported := by
    rw [hidle.reason, hidle.held]
    exact hs.reported

theorem Tracks.setEngine (hs : Tracks codec options i s) (j : Nat)
    (hidle : Idle (s.engines j).leaseManager e.leaseManager)
    (hinv : Inv options (s.setEngine j e)) : Tracks codec options i (s.setEngine j e) := by
  have hengine : ∀ k, Idle (s.engines k).leaseManager
      ((s.setEngine j e).engines k).leaseManager := by
    intro k
    rw [System.setEngine]
    dsimp only
    split_ifs with hk
    · exact hk ▸ hidle
    · exact .refl _
  constructor
  · exact hinv
  · exact fun k raw hraw => hs.last k raw ((hengine k).last ▸ hraw)
  · exact hs.calls
  · exact hs.stands_idle (hengine i)
  · exact fun f t r hfl h => (hengine i).held.trans (hs.acquiring f t r hfl h)
  · exact fun f l a b epoch at' raw hfl =>
      (hs.acquired f l a b epoch at' raw hfl).imp_left (hengine i).stopped
  · rw [(hengine i).held]
    exact hs.renewing
  · intro f t r hfl hrelease
    obtain ⟨hstopped, hrenewals⟩ := hs.releasing f t r hfl hrelease
    rw [(hengine i).guard]
    exact ⟨(hengine i).stopped hstopped, hrenewals⟩
  · rw [Overtaken, (hengine i).reason, (hengine i).held]
    exact hs.reported

/-! ## Continuations -/

theorem renewFailed_reason (codec : HolderCodec) (m : LeaseManager) (clock : Nat → Int)
    (h : (renewFailed codec m clock).leaseLostReason = some .deposed) :
    m.leaseLostReason = some .deposed := by
  unfold renewFailed at h
  dsimp only at h
  split_ifs at h
  · rw [LeaseManager.reportLeaseLost] at h
    split_ifs at h
    · exact h
    · cases h
  · exact h

/-- A renewal reports deposition only where its batch was refused. -/
theorem renewSettled_reason (codec : HolderCodec) (f : Nat) (e : Engine) (renewedAt : Int)
    (holderBytes : Bytes) (clock : Nat → Int) (r : Response)
    (h : (renewSettled codec f e renewedAt holderBytes clock r).leaseManager.leaseLostReason =
      some .deposed) :
    e.leaseManager.leaseLostReason = some .deposed ∨ r = .committed false := by
  unfold renewSettled at h
  rcases r with _ | (_ | _) | _ | _
  case committed.false => exact .inr rfl
  case committed.true =>
    dsimp only at h
    split at h
    · exact .inl h
    · exact .inl h
  all_goals
    dsimp only at h
    split at h
    · exact .inl (renewFailed_reason codec _ clock h)
    · exact .inl (renewFailed_reason codec _ clock h)

/-- What code does to the lease when it runs on from an answer. -/
inductive Resumed (codec : HolderCodec) (f : Nat) (e : Engine) (clock : Nat → Int) (r : Response) :
    Task → LeaseManager → Task → Prop
  | idle (t t' : Task) (hrenewal : t'.isRenewal = false) (hrelease : t'.isRelease = false)
      (hacquire : t'.isAcquire = true → t.isAcquire = true) :
      Resumed codec f e clock r t e.leaseManager t'
  | acquired (l : AcquireLocals) (expectedEpoch expectedHolder : Option Bytes) (nextEpoch : Nat)
      (acquiredAt : Int) (holderBytes : Bytes) (hr : r = .committed true) :
      Resumed codec f e clock r
        (.takeOwnership l expectedEpoch expectedHolder nextEpoch acquiredAt holderBytes)
        (recordOwnership e.leaseManager nextEpoch acquiredAt holderBytes) (.settled .acquired)
  | renewed (prior : Bytes) (renewedAt : Int) (holderBytes : Bytes) :
      Resumed codec f e clock r (.renewHolder prior renewedAt holderBytes)
        (renewSettled codec f e renewedAt holderBytes clock r).leaseManager
        (.settled .renewalSettled)
  | awaited (renewal : Nat) (t' : Task) (ht' : t' = releaseHolder e.leaseManager) :
      Resumed codec f e clock r (.awaitRenewal renewal) e.leaseManager t'
  | deleted (prior : Bytes) :
      Resumed codec f e clock r (.deleteHolder prior)
        { e.leaseManager with lastHolderBytes := none } (.settled (.released true))

theorem resume_resumed (codec : HolderCodec) (mo : LeaseManagerOptions) (f : Nat) (e : Engine)
    (t : Task) (r : Response) (clock : Nat → Int) :
    Resumed codec f e clock r t (resume codec mo f e t r clock).1.leaseManager
      (resume codec mo f e t r clock).2 := by
  unfold resume
  split
  case h_2 l holderRaw epochRaw =>
    refine .idle _ _ ?_ ?_ fun _ => rfl
    · unfold tryAcquireOnce
      dsimp only
      split_ifs <;> rfl
    · unfold tryAcquireOnce
      dsimp only
      split_ifs <;> rfl
  case h_3 => exact .acquired _ _ _ _ _ _ rfl
  case h_5 l holderRaw =>
    refine .idle _ _ ?_ ?_ fun _ => rfl
    · unfold waitForHandoff
      dsimp only
      split_ifs <;> rfl
    · unfold waitForHandoff
      dsimp only
      split_ifs <;> rfl
  case h_6 l =>
    refine .idle _ _ ?_ ?_ fun _ => rfl
    · unfold acquireLoop
      split_ifs <;> rfl
    · unfold acquireLoop
      split_ifs <;> rfl
  case h_7 => exact .renewed _ _ _
  case h_8 renewal => exact .awaited renewal _ rfl
  case h_9 prior => exact .deleted prior
  case h_15 =>
    split
    · exact .idle _ _ rfl rfl fun h => by cases h
    · exact .idle _ _ rfl rfl fun h => by cases h
  all_goals exact .idle _ _ rfl rfl fun h => by cases h <;> rfl

theorem acquireLoop_own (j : Nat) (m : LeaseManager) (l : AcquireLocals) (clock : Nat → Int) :
    CallOwn codec options ⟨j, acquireLoop m l clock, none⟩ := by
  unfold acquireLoop
  split_ifs <;> trivial

theorem releaseHolder_own {j : Nat}
    (hlast : ∀ raw, m.lastHolderBytes = some raw → Own codec options j raw) :
    CallOwn codec options ⟨j, releaseHolder m, none⟩ := by
  unfold releaseHolder
  split
  · trivial
  · rename_i prior hprior
    exact hlast prior hprior

theorem resume_own {r : Response} (clock : Nat → Int)
    (hlast : ∀ raw, e.leaseManager.lastHolderBytes = some raw → Own codec options j raw)
    (hcall : CallOwn codec options ⟨j, t, some r⟩) {e' : Engine} {t' : Task}
    (hresume : resume codec (options j).toLeaseManagerOptions f e t r clock = (e', t')) :
    (∀ raw, e'.leaseManager.lastHolderBytes = some raw → Own codec options j raw) ∧
      CallOwn codec options ⟨j, t', none⟩ := by
  have hresumed := resume_resumed codec (options j).toLeaseManagerOptions f e t r clock
  rw [hresume] at hresumed
  constructor
  · generalize e'.leaseManager = m at hresumed ⊢
    cases hresumed with
    | idle => exact hlast
    | acquired l expectedEpoch expectedHolder nextEpoch acquiredAt holderBytes hr =>
      intro raw hraw
      exact Option.some.inj hraw ▸ hcall
    | renewed prior renewedAt holderBytes =>
      obtain ⟨-, hsame | ⟨-, hnew⟩⟩ := renewSettled_standing codec f e renewedAt holderBytes clock r
      · exact hsame ▸ hlast
      · intro raw hraw
        rw [hnew] at hraw
        exact Option.some.inj hraw ▸ hcall.2
    | awaited => exact hlast
    | deleted => exact fun raw hraw => by cases hraw
  · have htask := congrArg Prod.snd hresume
    dsimp only at htask
    rw [← htask]
    unfold resume
    split
    case h_2 l holderRaw epochRaw =>
      unfold tryAcquireOnce
      dsimp only
      split_ifs
      case neg => exact ⟨_, rfl, rfl⟩
      all_goals trivial
    case h_5 l holderRaw =>
      unfold waitForHandoff
      dsimp only
      split_ifs <;> trivial
    case h_6 l => exact acquireLoop_own j _ l clock
    case h_8 => exact releaseHolder_own hlast
    case h_15 => split <;> trivial
    all_goals trivial

theorem Tracks.resume (hs : Tracks codec options i s) {r : Response} (clock : Nat → Int)
    (hf : s.flights f = some ⟨j, t, some r⟩) {e' : Engine} {t' : Task}
    (hresume : Weft.Lease.resume codec (options j).toLeaseManagerOptions f
      (s.engines j) t r clock = (e', t')) :
    Tracks codec options i ((s.setEngine j (trackAcquire e' f t t')).setFlight f ⟨j, t',
      none⟩) := by
  have hinv := resume_inv hs.inv codec (options j).toLeaseManagerOptions clock hf
  rw [hresume] at hinv
  obtain ⟨hlast, hcall⟩ := resume_own clock (hs.last j) (hs.calls f _ hf) hresume
  by_cases hji : j ≠ i
  · refine hs.suspend_other hji hinv ?_ hcall
    rw [trackAcquire_leaseManager]
    exact hlast
  obtain rfl := not_not.1 hji
  refine hs.suspend hinv ?_
  rw [trackAcquire_leaseManager]
  have hresumed := resume_resumed codec (options j).toLeaseManagerOptions f (s.engines j) t r clock
  rw [hresume] at hresumed
  generalize e'.leaseManager = m at hresumed hlast ⊢
  cases hresumed with
  | idle t t' hrenewal hrelease hacquire =>
    exact .of_idle hs (.refl _) hcall (fun h => hs.acquiring f t _ hf (hacquire h)) hrenewal
      hrelease
  | acquired l expectedEpoch expectedHolder nextEpoch acquiredAt holderBytes hr =>
    subst hr
    have hnone := hs.acquiring f _ _ hf rfl
    have honly : ∀ g t' r, g ≠ f → s.flights g = some ⟨j, t', r⟩ → t'.isAcquire = false := by
      intro g t' r hg hfl
      by_contra hacquire
      have hother := hs.inv.tracked g _ hfl (by simpa using hacquire)
      have hmine := hs.inv.tracked f _ hf rfl
      dsimp only at hother hmine
      rw [hmine] at hother
      exact hg (Option.some.inj hother).symm
    constructor
    · exact hlast
    · exact hcall
    · exact id
    · intro epoch hepoch
      rw [hnone] at hepoch
      cases hepoch
    · intro epoch hepoch
      cases hepoch
      exact hs.acquired f _ _ _ _ _ _ hf
    · exact fun h => by cases h
    · intro g t' r hg hfl hacquire
      rw [honly g t' r hg hfl] at hacquire
      cases hacquire
    · exact fun h => by cases h
    · exact fun h => by cases h
    · exact fun _ _ _ _ _ _ _ _ _ _ _ _ => rfl
    · intro hreason
      obtain ⟨epoch, hepoch, -⟩ := hs.reported hreason
      rw [hnone] at hepoch
      cases hepoch
  | renewed prior renewedAt holderBytes =>
    obtain ⟨⟨hstopped, hheld⟩, -⟩ :=
      renewSettled_standing codec f (s.engines j) renewedAt holderBytes clock r
    constructor
    · exact hlast
    · exact hcall
    · rw [hstopped]
      exact id
    · rw [hheld]
      exact fun _ h => h
    · rw [hheld, hstopped]
      exact hs.held
    · exact fun h => by cases h
    · rw [hheld]
      exact fun g t' r _ hfl => hs.acquiring g t' r hfl
    · exact fun h => by cases h
    · exact fun h => by cases h
    · intro g t' r' hg hfl hrelease g' t'' r'' hg' hfl' hrenewal
      -- a release waits for one renewal, and there are two
      obtain ⟨-, hrenewals⟩ := hs.releasing g t' r' hfl hrelease
      obtain ⟨hthis, -⟩ := hrenewals f _ _ hf rfl
      obtain ⟨hother, -⟩ := hrenewals g' t'' r'' hfl' hrenewal
      rw [hthis] at hother
      exact (hg' (Task.awaitRenewal.inj hother).symm).elim
    · intro hreason
      rw [hheld]
      obtain hold | rfl := renewSettled_reason codec f _ renewedAt holderBytes clock r hreason
      · exact hs.reported hold
      · obtain ⟨epoch, hepoch, -, hrefused⟩ := hs.renewing f prior renewedAt holderBytes _ hf
        exact ⟨epoch, hepoch, hrefused rfl⟩
  | awaited renewal t' ht' =>
    obtain ⟨hstopped, hrenewals⟩ := hs.releasing f _ _ hf rfl
    have hfew : t'.isAcquire = false ∧ t'.isRenewal = false := by
      rw [show t' = releaseHolder (s.engines j).leaseManager from ht', releaseHolder]
      split
      · exact ⟨rfl, rfl⟩
      · exact ⟨rfl, rfl⟩
    constructor
    · exact hlast
    · exact hcall
    · exact id
    · exact fun _ h => h
    · exact hs.held
    · rw [hfew.1]
      exact fun h => by cases h
    · exact fun g t' r _ hfl => hs.acquiring g t' r hfl
    · rw [hfew.2]
      exact fun h => by cases h
    · refine fun _ => ⟨hstopped, fun g t' r' _ hfl hrenewal => ?_⟩
      obtain ⟨-, hnone, -⟩ := hrenewals g t' r' hfl hrenewal
      cases hnone
    · exact fun _ _ _ _ _ _ _ _ _ _ _ _ => rfl
    · exact hs.reported
  | deleted prior =>
    constructor
    · exact hlast
    · exact hcall
    · exact id
    · exact fun _ h => h
    · exact hs.held
    · exact fun h => by cases h
    · exact fun g t' r _ hfl => hs.acquiring g t' r hfl
    · exact fun h => by cases h
    · exact fun h => by cases h
    · exact fun _ _ _ _ _ _ _ _ _ _ _ _ => rfl
    · exact hs.reported

/-! ## Runs -/

theorem Tracks.call (hs : Tracks codec options i s) (hinv : Inv options s')
    (h : s.call f j e t = some s')
    (hlast : ∀ raw, e.leaseManager.lastHolderBytes = some raw → Own codec options j raw)
    (hcall : CallOwn codec options ⟨j, t, none⟩)
    (hmine : j = i → Suspends codec options i s f e.leaseManager t) :
    Tracks codec options i s' := by
  unfold System.call at h
  split_ifs at h
  cases h
  by_cases hji : j = i
  · subst hji
    exact hs.suspend hinv (hmine rfl)
  · exact hs.suspend_other hji hinv hlast hcall

theorem Tracks.renew (hs : Tracks codec options i s) (hinv : Inv options s') {clock : Nat → Int}
    (ht : renewOnce codec (options j).toLeaseManagerOptions (s.engines j).leaseManager clock =
      some t)
    (hmanager : ∃ inFlightRenewal, e.leaseManager =
      { (s.engines j).leaseManager with inFlightRenewal := inFlightRenewal })
    (h : s.call f j e t = some s') : Tracks codec options i s' := by
  obtain ⟨hrunning, epoch, prior, hepoch, hprior, rfl⟩ := renewOnce_eq_some ht
  obtain ⟨guard, hmanager⟩ := hmanager
  have hlast : ∀ raw, e.leaseManager.lastHolderBytes = some raw → Own codec options j raw := by
    rw [hmanager]
    exact hs.last j
  have hcall : CallOwn codec options ⟨j, .renewHolder prior (clock 0) (codec.encodeHolder
      ⟨(options j).holderId, clock 0 + (options j).ttlMs, epoch⟩), none⟩ :=
    ⟨hs.last j prior hprior, _, rfl, rfl⟩
  refine hs.call hinv h hlast hcall fun hji => ?_
  subst hji
  rw [hmanager] at hlast ⊢
  constructor
  · exact hlast
  · exact hcall
  · exact id
  · exact fun _ h => h
  · exact hs.held
  · exact fun h => by cases h
  · exact fun g t' r _ hfl => hs.acquiring g t' r hfl
  · refine fun _ => ⟨hrunning, ?_⟩
    rw [hepoch]
    exact Option.some_ne_none epoch
  · exact fun h => by cases h
  · intro g t' r _ hfl hrelease
    obtain ⟨hstopped, -⟩ := hs.releasing g t' r hfl hrelease
    rw [hrunning] at hstopped
    cases hstopped
  · exact hs.reported

theorem Tracks.release (hs : Tracks codec options i s) (hinv : Inv options s')
    (hturn : InTurn i s (.release f j))
    (h : s.call f j { s.engines j with leaseManager := (Weft.Lease.release
      (s.engines j).leaseManager).1 } (Weft.Lease.release (s.engines j).leaseManager).2 = some s') :
    Tracks codec options i s' := by
  have hstop : (Weft.Lease.release (s.engines j).leaseManager).1 =
      (s.engines j).leaseManager.stop := by
    unfold Weft.Lease.release
    dsimp only
    split
    · rfl
    · rfl
  have htask : (∃ renewal, (s.engines j).leaseManager.inFlightRenewal = some renewal ∧
        (Weft.Lease.release (s.engines j).leaseManager).2 = .awaitRenewal renewal) ∨
      (s.engines j).leaseManager.inFlightRenewal = none ∧
        (Weft.Lease.release (s.engines j).leaseManager).2 =
          releaseHolder (s.engines j).leaseManager.stop := by
    unfold Weft.Lease.release
    dsimp only
    split
    · rename_i renewal hrenewal
      exact .inl ⟨renewal, hrenewal, rfl⟩
    · rename_i hnone
      exact .inr ⟨hnone, rfl⟩
  rw [hstop] at h
  generalize (Weft.Lease.release (s.engines j).leaseManager).2 = t at h htask
  have hcall : CallOwn codec options ⟨j, t, none⟩ := by
    obtain ⟨renewal, -, rfl⟩ | ⟨-, rfl⟩ := htask
    · trivial
    · exact releaseHolder_own (hs.last j)
  refine hs.call hinv h (hs.last j) hcall fun hji => ?_
  subst hji
  have hidle := Idle.stop (s.engines j).leaseManager
  have hneither : t.isAcquire = false ∧ t.isRenewal = false := by
    obtain ⟨renewal, -, rfl⟩ | ⟨-, rfl⟩ := htask
    · exact ⟨rfl, rfl⟩
    · unfold releaseHolder
      split
      · exact ⟨rfl, rfl⟩
      · exact ⟨rfl, rfl⟩
  constructor
  · exact hs.last j
  · exact hcall
  · exact hidle.stopped
  · exact fun _ h => h
  · exact hs.stands_idle hidle
  · rw [hneither.1]
    exact fun h => by cases h
  · exact fun g t' r _ hfl => hs.acquiring g t' r hfl
  · rw [hneither.2]
    exact fun h => by cases h
  · refine fun _ => ⟨rfl, fun g t' r _ hfl hrenewal => ?_⟩
    have hguard := hturn rfl g t' r hfl hrenewal
    obtain ⟨renewal, hsome, rfl⟩ | ⟨hnone, -⟩ := htask
    · rw [hsome] at hguard
      cases hguard
      exact ⟨rfl, hsome⟩
    · rw [hnone] at hguard
      cases hguard
  · exact fun _ _ _ _ _ _ _ _ _ _ _ _ => rfl
  · exact hs.reported

theorem step_tracks (hdistinct : DistinctHolders codec options) (hs : Tracks codec options i s)
    {a : Label} (hturn : InTurn i s a) (hremembers : Remembers codec options i s a)
    (h : step codec options s a = some s') : Tracks codec options i s' := by
  have hinv := step_inv codec options hs.inv h
  cases a with
  | acquire f j clock =>
    simp only [step] at h
    split_ifs at h
    have hmanager := trackAcquire_leaseManager (s.engines j) f
      (acquire (options j).toLeaseManagerOptions (s.engines j).leaseManager clock)
      (acquire (options j).toLeaseManagerOptions (s.engines j).leaseManager clock)
    have hcall : ∀ m l clock, CallOwn codec options ⟨j, acquireLoop m l clock, none⟩ :=
      acquireLoop_own j
    refine hs.call hinv h ?_ (hcall _ _ _) fun hji => ?_
    · rw [hmanager]
      exact hs.last j
    · subst hji
      rw [hmanager]
      refine .of_idle hs (.refl _) (hcall _ _ _) (fun _ => hturn rfl) ?_ ?_
      · unfold acquire acquireLoop
        split_ifs <;> rfl
      · unfold acquire acquireLoop
        split_ifs <;> rfl
  | renewOnce f j clock =>
    obtain ⟨t, ht, hcall⟩ := Option.bind_eq_some_iff.1 h
    exact hs.renew hinv ht ⟨_, rfl⟩ hcall
  | renewUnderGuard f j clock =>
    simp only [step] at h
    split_ifs at h
    obtain ⟨t, ht, hcall⟩ := Option.bind_eq_some_iff.1 h
    exact hs.renew hinv ht ⟨some f, rfl⟩ hcall
  | release f j => exact hs.release hinv hturn h
  | stop j =>
    cases h
    exact hs.setEngine j (.stop _) hinv
  | fencedCommit f j operations base =>
    simp only [step] at h
    split_ifs at h
    obtain ⟨-, hmanager⟩ := fencedCommit_plain (options j).ownershipMode
      (s.engines j) operations base
    have htask : CallOwn codec options
        ⟨j, (fencedCommit (options j).ownershipMode (s.engines j) operations base).2, none⟩ ∧
      (fencedCommit (options j).ownershipMode (s.engines j) operations base).2.isAcquire = false ∧
      (fencedCommit (options j).ownershipMode (s.engines j) operations base).2.isRenewal = false ∧
      (fencedCommit (options j).ownershipMode (s.engines j) operations base).2.isRelease =
        false := by
      unfold fencedCommit
      split
      · exact ⟨trivial, rfl, rfl, rfl⟩
      · exact ⟨trivial, rfl, rfl, rfl⟩
    obtain ⟨hcall, hacquire, hrenewal, hrelease⟩ := htask
    refine hs.call hinv h ?_ hcall fun hji => ?_
    · rw [hmanager]
      exact hs.last j
    · subst hji
      rw [hmanager]
      refine .of_idle hs (.refl _) hcall (fun h => ?_) hrenewal hrelease
      rw [hacquire] at h
      cases h
  | deliver f d =>
    simp only [step] at h
    split at h
    · rename_i j t hf
      split_ifs at h with hready
      cases h
      exact hs.deliver hdistinct d hf hready hremembers
    · cases h
  | resume f clock =>
    simp only [step] at h
    split at h
    · rename_i j t r hf
      split_ifs at h
      cases h
      exact hs.resume clock hf rfl
    · cases h
  | crash j =>
    cases h
    exact hs.setEngine j (.refl _) hinv

/-- While no renewal of engine `i` is served over a record of its own that it does not remember, it
reports deposition only when another engine has won a newer epoch. -/
theorem deposed_overtaken (codec : HolderCodec) (options : Nat → EngineOptions)
    (hdistinct : DistinctHolders codec options) (i : Nat) (s : System) (hs : Initial s)
    (labels : List Label) (hok : (leaseSystem codec options).EveryStep
      (fun t a => InTurn i t a ∧ Remembers codec options i t a) s labels) :
    (leaseSystem codec options).EveryState (fun t =>
      (t.engines i).leaseManager.leaseLostReason = some .deposed → Overtaken t i) s labels := by
  have hevery : (leaseSystem codec options).EveryState (Tracks codec options i) s labels := by
    refine Machine.everyState_of_invariant (fun t a t' ht hok hstep => ?_) (hs.tracks i) hok
    exact step_tracks hdistinct ht hok.1 hok.2 hstep
  exact hevery.mono fun t ht => ht.reported

/-! ## Engines that renew -/

/-- Engine `i` has the id of `i` letters. -/
def letteredOptions (i : Nat) : EngineOptions :=
  ⟨⟨List.replicate i ⟨97, by decide +kernel⟩, 10, 5⟩, .lease⟩

theorem distinct_lettered : DistinctHolders jsonCodec letteredOptions := by
  intro i j r r' hr hr' hbytes
  obtain ⟨hexpiry, hepoch⟩ := jsonHolder_inj hbytes
  have hlength := congrArg List.length hbytes
  simp only [jsonCodec, jsonHolder, hr, hr', hexpiry, hepoch, List.length_reverse,
    List.length_append,
    List.length_map, letteredOptions, List.length_replicate] at hlength
  omega

def renewRun (f i : Nat) (now : Int) (d : Delivery) : List Label :=
  [.renewOnce f i (fun _ => now), .deliver f d, .resume f (fun _ => now)]

/-- An engine renews its lease in time, then loses it to another one, and is refused when it renews
again. -/
def successionRun : List Label :=
  acquireRun 0 0 0 ++ renewRun 1 0 1 .served ++ acquireRun 2 1 20 ++ renewRun 3 0 21 .served

theorem not_own_of_successor {r : LeaseHolderRecord}
    (hr : r.holderId = (letteredOptions 1).holderId) :
    ¬ Own jsonCodec letteredOptions 0 (jsonCodec.encodeHolder r) := by
  rintro ⟨r', hr', hbytes⟩
  exact absurd (distinct_lettered 1 0 r r' hr hr' hbytes) (by decide)

theorem deposed_overtaken_renewed :
    (leaseSystem jsonCodec letteredOptions).EveryState (fun t =>
        (t.engines 0).leaseManager.leaseLostReason = some .deposed → Overtaken t 0) handoffStart
        successionRun ∧
      (((leaseSystem jsonCodec letteredOptions).final handoffStart successionRun).engines
        0).leaseManager.leaseLostReason = some .deposed := by
  refine ⟨deposed_overtaken jsonCodec letteredOptions distinct_lettered 0 handoffStart
    ⟨fun _ => rfl, fun _ => rfl, rfl⟩ _ ?_, by decide +kernel⟩
  refine ⟨⟨fun _ => rfl, trivial⟩, ⟨trivial, trivial⟩, ⟨trivial, trivial⟩, ⟨trivial, trivial⟩,
    ⟨trivial, trivial⟩, ⟨trivial, trivial⟩, ⟨trivial, trivial⟩, ⟨trivial, trivial⟩,
    ⟨trivial, fun _ raw hraw _ => ?_⟩, ⟨trivial, trivial⟩, ⟨nofun, trivial⟩, ⟨trivial, trivial⟩,
    ⟨trivial, trivial⟩, ⟨trivial, trivial⟩, ⟨trivial, trivial⟩, ⟨trivial, trivial⟩,
    ⟨trivial, trivial⟩, ⟨trivial, trivial⟩, ⟨trivial, fun _ raw hraw hown => ?_⟩,
    ⟨trivial, trivial⟩, trivial⟩
  · exact (Option.some.inj hraw).symm
  · obtain rfl := Option.some.inj hraw
    exact (not_own_of_successor rfl hown).elim

/-- The first renewal is written and throws. The second is refused, and nobody else has acquired. -/
theorem deposed_by_own_renewal :
    Initial handoffStart ∧
      (leaseSystem jsonCodec letteredOptions).EveryStep (InTurn 0) handoffStart
        (acquireRun 0 0 0 ++ renewRun 1 0 1 .answerLost ++ renewRun 2 0 2 .served) ∧
      (((leaseSystem jsonCodec letteredOptions).final handoffStart
        (acquireRun 0 0 0 ++ renewRun 1 0 1 .answerLost ++
          renewRun 2 0 2 .served)).engines 0).leaseManager.leaseLostReason = some .deposed ∧
      ¬ Overtaken ((leaseSystem jsonCodec letteredOptions).final handoffStart
        (acquireRun 0 0 0 ++ renewRun 1 0 1 .answerLost ++ renewRun 2 0 2 .served)) 0 := by
  have hwins : ((leaseSystem jsonCodec letteredOptions).final handoffStart
      (acquireRun 0 0 0 ++ renewRun 1 0 1 .answerLost ++ renewRun 2 0 2 .served)).wins =
        [(1, 0)] := by
    decide +kernel
  refine ⟨⟨fun _ => rfl, fun _ => rfl, rfl⟩, ?_, by decide +kernel, ?_⟩
  · exact ⟨fun _ => rfl, trivial, trivial, trivial, trivial, trivial, trivial, trivial, trivial,
      trivial, trivial, trivial, trivial, trivial⟩
  · rintro ⟨epoch, -, w, hw, hother, -⟩
    rw [hwins] at hw
    exact hother (List.mem_singleton.1 hw ▸ rfl)

end Weft.Lease
