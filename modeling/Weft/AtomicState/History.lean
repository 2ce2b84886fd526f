import Weft.AtomicState.Model

/-! The committed history of an `AtomicState` key. A snapshot whose value was read before
another client's commit and whose version was read after it passes the version check with
a stale value; while no snapshot is torn that way, every update applies its updater to the
value of the version right before it. -/

namespace Weft.AtomicState
open Weft.Js Weft.Storage Weft.Lib

universe u v

variable {T : Type u} {V : Type v} (codec : Codec T V) (dataKey : JsString)

/-! ## Histories -/

/-- What a client would read of the store before the first commit. -/
def baseSnapshot (s : Store V) (initial : Option T) : Option (AtomicStateSnapshot T) :=
  readAtomicStateSnapshot codec initial (s.get dataKey) (s.get (atomicStateVersionKey dataKey))

def precedingValue (s : Store V) (initial : Option T) : List (Commit T) → Option T
  | [] => (baseSnapshot codec dataKey s initial).bind (·.value)
  | c :: _ => c.value

def precedingVersion (s : Store V) (initial : Option T) : List (Commit T) → Nat
  | [] => ((baseSnapshot codec dataKey s initial).map (·.version)).getD 0
  | c :: _ => c.version

def Operation.Yields (preceding value : Option T) : Operation T → Prop
  | .get => False
  | .update updater => value = some (updater preceding)
  | .delete => value = none

/-- Versions follow one another, and each update is applied to the preceding value. -/
def NoLostUpdate (s : Store V) : List (Commit T) → Prop
  | [] => True
  | c :: older =>
    c.version = precedingVersion codec dataKey s c.initial older + 1 ∧
      c.operation.Yields (precedingValue codec dataKey s c.initial older) c.value ∧
      NoLostUpdate s older

/-- The value already read by a call whose version is still to be read. -/
def Call.pendingValue (c : Call T V) : Option (Option V) :=
  match c.phase with
  | .reading (some rawValue) none => some rawValue
  | _ => none

/-- A version read that completes a snapshot finds the value it was paired with in place. -/
def SnapshotIntact (s : State T V) : Label T → Prop
  | .readVersion i =>
      ∀ rawValue ∈ (s.calls i).bind Call.pendingValue, s.store.get dataKey = rawValue
  | _ => True

/-! ## The invariant -/

def versionNumber (raw : Option V) : Nat := (raw.bind codec.decodeVersion).getD 0

/-- `rawVersion` was read from the version key at some earlier moment. -/
def ReadBefore (s : Store V) (rawVersion : Option V) : Prop :=
  versionNumber codec rawVersion ≤ versionNumber codec (s.get (atomicStateVersionKey dataKey)) ∧
    (rawVersion.isSome → (s.get (atomicStateVersionKey dataKey)).isSome)

/-- Unless the version has moved on, the value read is still the stored one. -/
def CallOk (s : Store V) (c : Call T V) : Prop :=
  match c.phase with
  | .reading none (some rawVersion) => ReadBefore codec dataKey s rawVersion
  | .committing snapshot => ∃ rawValue rawVersion,
      readAtomicStateSnapshot codec c.initial rawValue rawVersion = some snapshot ∧
      ReadBefore codec dataKey s rawVersion ∧
      (versionNumber codec rawVersion =
        versionNumber codec (s.get (atomicStateVersionKey dataKey)) →
        s.get dataKey = rawValue)
  | _ => True

/-- The two keys hold what the newest commit wrote. -/
def HoldsNewest (s₀ s : Store V) : List (Commit T) → Prop
  | [] => s.get dataKey = s₀.get dataKey ∧
      s.get (atomicStateVersionKey dataKey) = s₀.get (atomicStateVersionKey dataKey)
  | c :: _ => s.get dataKey = c.value.map codec.encode ∧
      s.get (atomicStateVersionKey dataKey) = some (codec.encodeVersion c.version)

structure Inv (s₀ : Store V) (s : State T V) : Prop where
  newest : HoldsNewest codec dataKey s₀ s.store s.history
  order : NoLostUpdate codec dataKey s₀ s.history
  calls : ∀ i c, s.calls i = some c → CallOk codec dataKey s.store c

variable {codec dataKey}

variable {initial : Option T} {rawValue rawVersion : Option V} {snapshot : AtomicStateSnapshot T}

theorem readSnapshot_version
    (h : readAtomicStateSnapshot codec initial rawValue rawVersion = some snapshot) :
    snapshot.version = versionNumber codec rawVersion := by
  unfold readAtomicStateSnapshot at h
  cases rawVersion with
  | none =>
    cases rawValue with
    | none =>
      cases h
      rfl
    | some raw =>
      obtain ⟨x, -, rfl⟩ := Option.map_eq_some_iff.1 h
      rfl
  | some rawV =>
    simp only [versionNumber, Option.bind_some]
    cases hv : codec.decodeVersion rawV with
    | none => simp [hv] at h
    | some version =>
      cases rawValue with
      | none =>
        simp only [hv, Option.some.injEq] at h
        subst h
        rfl
      | some raw =>
        simp only [hv, Option.map_eq_some_iff] at h
        obtain ⟨x, -, rfl⟩ := h
        rfl

/-- The value of a snapshot is the decoded one, or the initial one of a key never written. -/
theorem readSnapshot_value {x : T} {version : Nat}
    (h : readAtomicStateSnapshot codec initial rawValue rawVersion = some ⟨some x, version⟩) :
    rawValue = none ∧ initial = some x ∨ ∃ raw, rawValue = some raw ∧
      codec.decode raw = some x := by
  unfold readAtomicStateSnapshot at h
  cases rawVersion with
  | none =>
    cases rawValue with
    | none => exact .inl ⟨rfl, congrArg AtomicStateSnapshot.value (Option.some.inj h)⟩
    | some raw =>
      simp only [Option.map_eq_some_iff, AtomicStateSnapshot.mk.injEq, Option.some.injEq] at h
      obtain ⟨y, hy, rfl, -⟩ := h
      exact .inr ⟨raw, rfl, hy⟩
  | some rawV =>
    cases hv : codec.decodeVersion rawV with
    | none => simp [hv] at h
    | some number =>
      cases rawValue with
      | none => simp [hv] at h
      | some raw =>
        simp only [hv, Option.map_eq_some_iff, AtomicStateSnapshot.mk.injEq,
          Option.some.injEq] at h
        obtain ⟨y, hy, rfl, -⟩ := h
        exact .inr ⟨raw, rfl, hy⟩

variable {n : Nat}

/-- A snapshot sees of the version only whether it is there and which number it is. -/
theorem readSnapshot_congr
    (h : readAtomicStateSnapshot codec initial rawValue rawVersion = some snapshot)
    (hn : snapshot.version = n) (hpos : n ≠ 0) :
    readAtomicStateSnapshot codec initial rawValue (some (codec.encodeVersion n)) =
      some snapshot := by
  have hv := readSnapshot_version h
  cases rawVersion with
  | none => exact (hpos (hn.symm.trans hv)).elim
  | some rawV =>
    cases hd : codec.decodeVersion rawV with
    | none => simp [readAtomicStateSnapshot, hd] at h
    | some version =>
      have hver : version = n := by
        rw [← hn, hv]
        simp [versionNumber, hd]
      subst hver
      simpa [readAtomicStateSnapshot, hd, codec.decodeVersion_encode] using h

theorem ReadBefore.refl (s : Store V) :
    ReadBefore codec dataKey s (s.get (atomicStateVersionKey dataKey)) :=
  ⟨le_refl _, id⟩

/-! ## Reads -/

variable {c : Call T V}

theorem afterReads_ok {s : Store V} (hread : ReadBefore codec dataKey s rawVersion)
    (hvalue : versionNumber codec rawVersion =
      versionNumber codec (s.get (atomicStateVersionKey dataKey)) → s.get dataKey = rawValue) :
    CallOk codec dataKey s (c.afterReads codec rawValue rawVersion) := by
  unfold Call.afterReads
  split
  · trivial
  · rename_i snapshot hsnap
    split
    · trivial
    · exact ⟨rawValue, rawVersion, hsnap, hread, hvalue⟩

theorem inv_setCall {s₀ : Store V} {s : State T V} (hs : Inv codec dataKey s₀ s) (i : Nat)
    (hc : CallOk codec dataKey s.store c) : Inv codec dataKey s₀ (s.setCall i c) where
  newest := hs.newest
  order := hs.order
  calls := by
    intro j d hd
    by_cases hj : j = i
    · simp only [State.setCall, hj, if_true, Option.some.injEq] at hd
      subst hd
      exact hc
    · simp only [State.setCall, hj, if_false] at hd
      exact hs.calls j d hd

/-! ## Commits -/

variable {s₀ : Store V} {s : State T V}

variable (codec dataKey) in
theorem get_commitOperations (store : Store V) (n : Nat) (value : Option T) :
    (applyBatchOperations store (commitOperations codec dataKey n value)).get dataKey =
        value.map codec.encode ∧
      (applyBatchOperations store (commitOperations codec dataKey n value)).get
        (atomicStateVersionKey dataKey) = some (codec.encodeVersion (n + 1)) := by
  have hne := (atomicStateVersionKey_ne dataKey).symm
  cases value with
  | none => simp [commitOperations, applyBatchOperations, applyBatchOperation, hne]
  | some x => simp [commitOperations, applyBatchOperations, applyBatchOperation, hne]

theorem versionNumber_of_condition {raw : Option V}
    (h : raw = if n = 0 then none else some (codec.encodeVersion n)) :
    versionNumber codec raw = n := by
  rw [h]
  split_ifs with h0
  · exact h0.symm
  · simp [versionNumber, codec.decodeVersion_encode]

/-- A snapshot that is not torn and whose version passes the check is what a client would read
now. -/
theorem snapshot_current {store : Store V}
    (hsnap : readAtomicStateSnapshot codec initial rawValue rawVersion = some snapshot)
    (hread : ReadBefore codec dataKey store rawVersion) (hvalue : versionNumber codec rawVersion =
      versionNumber codec (store.get (atomicStateVersionKey dataKey)) →
      store.get dataKey = rawValue) (hcond : store.get (atomicStateVersionKey dataKey) =
      if snapshot.version = 0 then none else some (codec.encodeVersion snapshot.version)) :
    readAtomicStateSnapshot codec initial (store.get dataKey)
      (store.get (atomicStateVersionKey dataKey)) = some snapshot := by
  have hversion := readSnapshot_version hsnap
  have hnow := versionNumber_of_condition hcond
  have hdata : store.get dataKey = rawValue := hvalue (hversion.symm.trans hnow.symm)
  rw [hdata, hcond]
  split_ifs with h0
  · rw [if_pos h0] at hcond
    have hnone : rawVersion = none := by
      have hpresent := hread.2
      rw [hcond] at hpresent
      simpa using hpresent
    rwa [hnone] at hsnap
  · exact readSnapshot_congr hsnap rfl h0

/-- A snapshot whose version passes the check holds the value and version of the newest
commit, or of the store before the first one. -/
theorem snapshot_is_newest (hs : Inv codec dataKey s₀ s) (hok : CallOk codec dataKey s.store c)
    (hphase : c.phase = .committing snapshot) (hcond : s.store.get (atomicStateVersionKey dataKey) =
      if snapshot.version = 0 then none else some (codec.encodeVersion snapshot.version)) :
    snapshot.version = precedingVersion codec dataKey s₀ c.initial s.history ∧
      snapshot.value = precedingValue codec dataKey s₀ c.initial s.history := by
  simp only [CallOk, hphase] at hok
  obtain ⟨rawValue, rawVersion, hsnap, hread, hvalue⟩ := hok
  have hagain := snapshot_current hsnap hread hvalue hcond
  have hnewest := hs.newest
  cases hh : s.history with
  | nil =>
    rw [hh] at hnewest
    rw [hnewest.1, hnewest.2] at hagain
    simp [precedingVersion, precedingValue, baseSnapshot, hagain]
  | cons d older =>
    rw [hh] at hnewest
    rw [hnewest.1, hnewest.2] at hagain
    cases hv : d.value with
    | none =>
      simp only [hv, Option.map_none, readAtomicStateSnapshot, codec.decodeVersion_encode,
        Option.some.injEq] at hagain
      subst hagain
      exact ⟨rfl, hv.symm⟩
    | some x =>
      simp only [hv, Option.map_some, readAtomicStateSnapshot, codec.decodeVersion_encode,
        codec.decode_encode, Option.some.injEq] at hagain
      subst hagain
      exact ⟨rfl, hv.symm⟩

variable {store store' : Store V}

/-- Once the version has moved, no earlier read can still match it. -/
theorem readBefore_after_commit {rawVersion : Option V}
    (hread : ReadBefore codec dataKey store rawVersion)
    (hold : versionNumber codec (store.get (atomicStateVersionKey dataKey)) = n)
    (hnew : store'.get (atomicStateVersionKey dataKey) = some (codec.encodeVersion (n + 1))) :
    ReadBefore codec dataKey store' rawVersion ∧ versionNumber codec rawVersion ≠
        versionNumber codec (store'.get (atomicStateVersionKey dataKey)) := by
  have hnum : versionNumber codec (store'.get (atomicStateVersionKey dataKey)) = n + 1 := by
    rw [hnew]
    simp [versionNumber, codec.decodeVersion_encode]
  obtain ⟨hle, -⟩ := hread
  rw [hold] at hle
  refine ⟨⟨?_, fun _ => ?_⟩, ?_⟩
  · rw [hnum]
    omega
  · rw [hnew]
    rfl
  · rw [hnum]
    omega

theorem callOk_after_commit (hok : CallOk codec dataKey store c)
    (hold : versionNumber codec (store.get (atomicStateVersionKey dataKey)) = n)
    (hnew : store'.get (atomicStateVersionKey dataKey) = some (codec.encodeVersion (n + 1))) :
    CallOk codec dataKey store' c := by
  unfold CallOk at hok ⊢
  split at hok
  · exact (readBefore_after_commit hok hold hnew).1
  · obtain ⟨rawValue, rawVersion, hsnap, hread, -⟩ := hok
    obtain ⟨hread', hne⟩ := readBefore_after_commit hread hold hnew
    exact ⟨rawValue, rawVersion, hsnap, hread', fun heq => (hne heq).elim⟩
  · trivial

theorem next_yields {operation : Operation T} {value : Option T}
    (h : operation.next snapshot = some value) : operation.Yields snapshot.value value := by
  cases operation with
  | get => cases h
  | update updater => exact (Option.some.inj h).symm
  | delete => exact (Option.some.inj h).symm

variable [DecidableEq V]

theorem commit_inv {s' : State T V} (hs : Inv codec dataKey s₀ s) {i : Nat} {value : Option T}
    {answerLost : Bool} (hi : s.calls i = some c) (hphase : c.phase = .committing snapshot)
    (hnext : c.operation.next snapshot = some value)
    (h : commitStep codec dataKey s i c snapshot value answerLost = some s') :
    Inv codec dataKey s₀ s' := by
  have hok := hs.calls i c hi
  unfold commitStep at h
  split at h
  · cases h
  · rename_i store hbatch
    obtain ⟨hcond, rfl⟩ := conditionalBatch_committed hbatch
    have hcond' : s.store.get (atomicStateVersionKey dataKey) = _ :=
      hcond _ List.mem_cons_self
    obtain ⟨hversion, hvalue⟩ := snapshot_is_newest hs hok hphase hcond'
    obtain ⟨hdata, hver⟩ := get_commitOperations codec dataKey s.store snapshot.version
      value
    have hold : versionNumber codec (s.store.get (atomicStateVersionKey dataKey)) =
        snapshot.version := versionNumber_of_condition hcond'
    cases h
    refine ⟨⟨hdata, hver⟩, ⟨?_, ?_, hs.order⟩, ?_⟩
    · rw [hversion]
    · rw [← hvalue]
      exact next_yields hnext
    · intro j d hd
      by_cases hj : j = i
      · simp only [State.setCall, hj, if_true, Option.some.injEq] at hd
        subst hd
        cases answerLost with
        | true => trivial
        | false => trivial
      · simp only [State.setCall, hj, if_false] at hd
        exact callOk_after_commit (hs.calls j d hd) hold hver
  · cases h
    refine inv_setCall hs i ?_
    cases answerLost with
    | true => trivial
    | false =>
      simp only [Bool.false_eq_true, if_false, Call.afterConflict]
      split
      · trivial
      · trivial

theorem step_inv {s' : State T V} {a : Label T} (hs : Inv codec dataKey s₀ s)
    (hok : SnapshotIntact dataKey s a) (h : step codec dataKey s a = some s') :
    Inv codec dataKey s₀ s' := by
  cases a with
  | start i operation initial maxRetries =>
    simp only [step] at h
    split at h
    · cases h
      refine inv_setCall hs i ?_
      unfold startCall
      split
      · trivial
      · trivial
      · trivial
    · cases h
  | readValue i =>
    simp only [step] at h
    split at h
    · rename_i c hi
      split at h
      · rename_i rawVersion hphase
        split at h
        · cases h
          exact inv_setCall hs i trivial
        · rename_i rawVersion
          cases h
          have hread := hs.calls i c hi
          simp only [CallOk, hphase] at hread
          exact inv_setCall hs i (afterReads_ok hread fun _ => rfl)
      · cases h
    · cases h
  | readVersion i =>
    simp only [step] at h
    split at h
    · rename_i c hi
      split at h
      · rename_i rawValue hphase
        split at h
        · cases h
          exact inv_setCall hs i (ReadBefore.refl s.store)
        · rename_i rawValue
          cases h
          have hintact := hok rawValue (by simp [hi, Call.pendingValue, hphase])
          exact inv_setCall hs i (afterReads_ok (ReadBefore.refl s.store) fun _ => hintact)
      · cases h
    · cases h
  | commit i answerLost =>
    simp only [step] at h
    split at h
    · rename_i c hi
      split at h
      · rename_i snapshot hphase
        split at h
        · cases h
        · rename_i value hnext
          exact commit_inv hs hi hphase hnext h
      · cases h
    · cases h
  | wake i =>
    simp only [step] at h
    split at h
    · split at h
      · cases h
        exact inv_setCall hs i trivial
      · cases h
    · cases h
  | fail i =>
    simp only [step] at h
    split at h
    · cases h
      exact inv_setCall hs i trivial
    · cases h

/-! ## Runs -/

theorem no_lost_update_of_intact_snapshots (codec : Codec T V) (dataKey : JsString)
    (s : State T V) (hcalls : ∀ i, s.calls i = none) (hhistory : s.history = [])
    (as : List (Label T))
    (hintact : (atomicState codec dataKey).EveryStep (SnapshotIntact dataKey) s as) :
    (atomicState codec dataKey).EveryState
      (fun t => NoLostUpdate codec dataKey s.store t.history) s as := by
  have h0 : Inv codec dataKey s.store s := by
    refine ⟨?_, ?_, ?_⟩
    · rw [hhistory]
      exact ⟨rfl, rfl⟩
    · rw [hhistory]
      trivial
    · intro i c hi
      rw [hcalls i] at hi
      cases hi
  refine (Machine.everyState_of_invariant (I := Inv codec dataKey s.store) ?_ h0 hintact).mono ?_
  · intro s a t hs hok ht
    exact step_inv hs hok ht
  · intro t ht
    exact ht.order

/-! ## Two increments -/

instance (s : State T V) : (a : Label T) → Decidable (SnapshotIntact dataKey s a)
  | .readVersion i => inferInstanceAs (Decidable
      (∀ rawValue ∈ (s.calls i).bind Call.pendingValue, s.store.get dataKey = rawValue))
  | .start .. | .readValue _ | .commit .. | .wake _ | .fail _ => isTrue trivial

instance [DecidableEq T] (preceding value : Option T) :
    (operation : Operation T) → Decidable (operation.Yields preceding value)
  | .get => isFalse id
  | .update updater => inferInstanceAs (Decidable (value = some (updater preceding)))
  | .delete => inferInstanceAs (Decidable (value = none))

instance decidableNoLostUpdate [DecidableEq T] (s : Store V) :
    (history : List (Commit T)) → Decidable (NoLostUpdate codec dataKey s history)
  | [] => isTrue trivial
  | _ :: older =>
    have := decidableNoLostUpdate s older
    inferInstanceAs (Decidable (_ ∧ _ ∧ _))

def counterCodec : Codec Nat Nat where
  encode x := x
  decode raw := some raw
  encodeVersion n := n
  decodeVersion raw := some raw
  decode_encode _ := rfl
  decodeVersion_encode _ := rfl

def counterKey : JsString := js "state:workflow-scope:default:w:count"

def counterStart : State Nat Nat := ⟨OrderedStore.empty, fun _ => none, []⟩

def increment : Operation Nat := .update fun current => current.getD 0 + 1

/-- The second client commits between the two reads of the first. -/
def tornRun : List (Label Nat) :=
  [.start 0 increment (some 0) 10, .readValue 0,
    .start 1 increment (some 0) 10, .readValue 1, .readVersion 1, .commit 1 false,
    .readVersion 0, .commit 0 false]

theorem torn_snapshot_loses_update :
    ¬ (atomicState counterCodec counterKey).EveryState
      (fun t => NoLostUpdate counterCodec counterKey counterStart.store t.history)
      counterStart tornRun := by
  decide +kernel

/-- The second client commits before the first has read its value. -/
def intactRun : List (Label Nat) :=
  [.start 0 increment (some 0) 10, .readVersion 0,
    .start 1 increment (some 0) 10, .readValue 1, .readVersion 1, .commit 1 false,
    .readValue 0, .commit 0 false, .wake 0, .readValue 0, .readVersion 0, .commit 0 false]

theorem no_lost_update_of_intact_snapshots_increments :
    (atomicState counterCodec counterKey).EveryStep (SnapshotIntact counterKey) counterStart
        intactRun ∧
      ((atomicState counterCodec counterKey).final counterStart intactRun).store.get counterKey =
        some 2 ∧
      (atomicState counterCodec counterKey).EveryState
        (fun t => NoLostUpdate counterCodec counterKey counterStart.store t.history)
        counterStart intactRun := by
  have hintact : (atomicState counterCodec counterKey).EveryStep (SnapshotIntact counterKey)
      counterStart intactRun := by decide +kernel
  refine ⟨hintact, by decide +kernel, ?_⟩
  exact no_lost_update_of_intact_snapshots counterCodec counterKey counterStart (fun _ => rfl)
    rfl intactRun hintact

end Weft.AtomicState
