import Weft.Signals.Buffer

/-! What the commit of a send leaves in the store. -/

namespace Weft.Signals
open Weft.Js Weft.Storage Weft.Lib

universe v

variable {V : Type v}

/-! ## Families of keys -/

theorem sequenceKey_not_sig (workflowId : Component) :
    ¬ js "sig:" <+: KEYS.signalSequence workflowId :=
  not_prefix_of_apart (by decide) _

theorem acceptedKey_not_sig (workflowId name signalId : Component) :
    ¬ js "sig:" <+: KEYS.signalAcceptedResponse workflowId name signalId := by
  simp only [KEYS.signalAcceptedResponse, List.append_assoc]
  exact not_prefix_of_apart (by decide) _

theorem cleanupKey_not_sig (workflowId : Component) :
    ¬ js "sig:" <+: KEYS.terminalCleanupNeeded workflowId :=
  not_prefix_of_apart (by decide) _

theorem sequenceKey_ne_acceptedKey (workflowId other name signalId : Component) :
    KEYS.signalSequence workflowId ≠ KEYS.signalAcceptedResponse other name signalId := by
  simp only [KEYS.signalSequence, KEYS.signalAcceptedResponse, List.append_assoc]
  exact ne_of_apart (by decide) _ _

theorem sequenceKey_ne_cleanupKey (workflowId other : Component) :
    KEYS.signalSequence workflowId ≠ KEYS.terminalCleanupNeeded other :=
  ne_of_apart (by decide) _ _

theorem acceptedKey_ne_cleanupKey (workflowId name signalId other : Component) :
    KEYS.signalAcceptedResponse workflowId name signalId ≠ KEYS.terminalCleanupNeeded other := by
  simp only [KEYS.signalAcceptedResponse, KEYS.terminalCleanupNeeded, List.append_assoc]
  exact ne_of_apart (by decide) _ _

theorem sequenceKey_injective {w w' : Component}
    (h : KEYS.signalSequence w = KEYS.signalSequence w') : w = w' :=
  Component.enc_injective (List.append_cancel_left h)

theorem acceptedKey_injective {w w' n n' i i' : Component}
    (h : KEYS.signalAcceptedResponse w n i = KEYS.signalAcceptedResponse w' n' i') :
    w = w' ∧ n = n' ∧ i = i' := by
  simp only [KEYS.signalAcceptedResponse, List.append_assoc, List.singleton_append] at h
  obtain ⟨hw, h⟩ := append_colon_inj w.colon_notMem w'.colon_notMem (List.append_cancel_left h)
  obtain ⟨hn, hi⟩ := append_colon_inj n.colon_notMem n'.colon_notMem h
  exact ⟨Component.enc_injective hw, Component.enc_injective hn, Component.enc_injective hi⟩

theorem key_ne_of_not_sig {x : Sent V} {k : JsString} (h : ¬ js "sig:" <+: k) : x.key ≠ k :=
  fun heq => h (heq ▸ sig_prefixed_key x)

/-! ## Puts of signals -/

theorem applyBatchOperations_put (store : Store V) (k : JsString) (v : V) :
    applyBatchOperations store [.put k v] = store.put k v := rfl

theorem get_signal_puts (store : Store V) {xs : List (Sent V)}
    (hdistinct : xs.Pairwise fun x y => x.key ≠ y.key) (k : JsString) (v : V) :
    (applyBatchOperations store (xs.map Sent.put)).get k = some v ↔
      (∃ x ∈ xs, x.key = k ∧ x.payload = v) ∨ store.get k = some v ∧ ∀ x ∈ xs, x.key ≠ k := by
  induction xs generalizing store with
  | nil => simp [applyBatchOperations]
  | cons x xs ih =>
    obtain ⟨hx, hxs⟩ := List.pairwise_cons.1 hdistinct
    rw [List.map_cons, applyBatchOperations_cons, ih _ hxs]
    simp only [applyBatchOperation, Sent.put, OrderedStore.get_put, List.exists_mem_cons_iff,
      List.forall_mem_cons]
    by_cases hk : k = x.key
    · subst hk
      have hothers : ∀ y ∈ xs, y.key ≠ x.key := fun y hy => (hx y hy).symm
      have hnone : ¬ ∃ y ∈ xs, y.key = x.key ∧ y.payload = v := by
        rintro ⟨y, hy, heq, -⟩
        exact hothers y hy heq
      simp only [hnone, if_true, ne_eq, not_true_eq_false, false_and, and_false, or_false,
        false_or, true_and, Option.some.injEq]
      exact and_iff_left hothers
    · simp [hk, Ne.symm hk]

theorem get_signal_puts_other (store : Store V) (xs : List (Sent V)) {k : JsString}
    (hk : ¬ js "sig:" <+: k) :
    (applyBatchOperations store (xs.map Sent.put)).get k = store.get k := by
  apply get_applyBatchOperations_of_untouched
  intro op hop
  obtain ⟨x, -, rfl⟩ := List.mem_map.1 hop
  exact key_ne_of_not_sig hk

/-! ## The batch of a send -/

section

variable (codec : SignalCodec V) (store : Store V)

theorem get_cleanupOperations (c : Send V) {k : JsString}
    (hk : k ≠ KEYS.terminalCleanupNeeded c.workflowId) :
    (applyBatchOperations store (cleanupOperations codec c)).get k = store.get k := by
  apply get_applyBatchOperations_of_untouched
  intro op hop
  unfold cleanupOperations at hop
  split_ifs at hop
  · cases hop
  · rw [List.mem_singleton.1 hop]
    exact hk.symm

/-- The sequence moves to the number after the last one used. -/
theorem get_anonymous_operations {c : Send V} {deliveries : List (BufferedSignalDelivery V)}
    {raw : Option V} {next : Nat} (hrequest : c.request = .anonymous deliveries)
    (hphase : c.phase = .committing raw next)
    (hdistinct : c.signals.Pairwise fun x y => x.key ≠ y.key) {after : Store V}
    (hafter : applyBatchOperations store (c.operations codec) = after) :
    (∀ k v, js "sig:" <+: k → (after.get k = some v ↔ (∃ x ∈ c.signals, x.key = k ∧ x.payload = v) ∨
        store.get k = some v ∧ ∀ x ∈ c.signals, x.key ≠ k)) ∧
    (∀ w, after.get (KEYS.signalSequence w) = if w = c.workflowId then
      some (codec.encodeSequence (next + deliveries.length))
        else store.get (KEYS.signalSequence w)) ∧
    ∀ w n i, after.get (KEYS.signalAcceptedResponse w n i) =
      store.get (KEYS.signalAcceptedResponse w n i) := by
  subst hafter
  simp only [Send.operations, hrequest, hphase, applyBatchOperations_append]
  refine ⟨fun k v hk => ?_, fun w => ?_, fun w n i => ?_⟩
  · rw [get_cleanupOperations codec _ c fun heq => cleanupKey_not_sig _ (heq ▸ hk)]
    have hother : k ≠ KEYS.signalSequence c.workflowId := fun heq =>
      sequenceKey_not_sig _ (heq ▸ hk)
    rw [applyBatchOperations_put, OrderedStore.get_put, if_neg hother]
    exact get_signal_puts store hdistinct k v
  · rw [get_cleanupOperations codec _ c (sequenceKey_ne_cleanupKey _ _)]
    rw [applyBatchOperations_put, OrderedStore.get_put]
    by_cases hw : w = c.workflowId
    · simp [hw]
    · rw [if_neg fun heq => hw (sequenceKey_injective heq), if_neg hw]
      exact get_signal_puts_other store _ (sequenceKey_not_sig w)
  · rw [get_cleanupOperations codec _ c (acceptedKey_ne_cleanupKey _ _ _ _)]
    rw [applyBatchOperations_put, OrderedStore.get_put,
      if_neg (sequenceKey_ne_acceptedKey _ _ _ _).symm]
    exact get_signal_puts_other store _ (acceptedKey_not_sig w n i)

/-- A send with an id of its own writes one signal and the marker of its id. -/
theorem get_marked_operations {c : Send V} {x : Sent V} (hsignals : c.signals = [x])
    (hmarked : c.operations codec = c.signals.map Sent.put ++ cleanupOperations codec c ++
        [BatchOperation.put (KEYS.signalAcceptedResponse x.workflowId x.name x.id)
          codec.acceptedResponse] ∨ c.operations codec = c.signals.map Sent.put ++
        [BatchOperation.put (KEYS.signalAcceptedResponse x.workflowId x.name x.id)
          codec.acceptedResponse])
    {after : Store V} (hafter : applyBatchOperations store (c.operations codec) = after) :
    (∀ k v, js "sig:" <+: k → (after.get k = some v ↔
      (x.key = k ∧ x.payload = v) ∨ store.get k = some v ∧ x.key ≠ k)) ∧
    (∀ w, after.get (KEYS.signalSequence w) = store.get (KEYS.signalSequence w)) ∧
    ∀ w n i, after.get (KEYS.signalAcceptedResponse w n i) =
      if w = x.workflowId ∧ n = x.name ∧ i = x.id then some codec.acceptedResponse
      else store.get (KEYS.signalAcceptedResponse w n i) := by
  obtain ⟨middle, hmiddle, hoperations⟩ : ∃ middle,
      (∀ (store : Store V) k, k ≠ KEYS.terminalCleanupNeeded c.workflowId →
        (applyBatchOperations store middle).get k = store.get k) ∧
      c.operations codec = [x].map Sent.put ++ middle ++
        [.put (KEYS.signalAcceptedResponse x.workflowId x.name x.id) codec.acceptedResponse] := by
    rw [hsignals] at hmarked
    obtain h | h := hmarked
    · exact ⟨_, fun store k hk => get_cleanupOperations codec store c hk, h⟩
    · exact ⟨[], fun _ _ _ => rfl, by rw [h]; rfl⟩
  subst hafter
  rw [hoperations, applyBatchOperations_append, applyBatchOperations_append,
    applyBatchOperations_put]
  simp only [OrderedStore.get_put]
  have hsingle (k : JsString) (v : V) := get_signal_puts store (List.pairwise_singleton _ x) k v
  simp only [List.mem_singleton, exists_eq_left, forall_eq] at hsingle
  refine ⟨fun k v hk => ?_, fun w => ?_, fun w n i => ?_⟩
  · rw [if_neg fun heq => acceptedKey_not_sig _ _ _ (heq ▸ hk)]
    rw [hmiddle _ k fun heq => cleanupKey_not_sig _ (heq ▸ hk)]
    exact hsingle k v
  · rw [if_neg (sequenceKey_ne_acceptedKey _ _ _ _), hmiddle _ _ (sequenceKey_ne_cleanupKey _ _)]
    exact get_signal_puts_other store [x] (sequenceKey_not_sig w)
  · by_cases hsame : w = x.workflowId ∧ n = x.name ∧ i = x.id
    · rw [if_pos hsame, if_pos]
      rw [hsame.1, hsame.2.1, hsame.2.2]
    · rw [if_neg hsame, if_neg fun heq => hsame (acceptedKey_injective heq),
        hmiddle _ _ (acceptedKey_ne_cleanupKey _ _ _ _)]
      exact get_signal_puts_other store [x] (acceptedKey_not_sig w n i)

end

/-! ## Numbers of a send -/

theorem length_anonymousSignals (workflowId : Component)
    (deliveries : List (BufferedSignalDelivery V)) (next : Nat) :
    (anonymousSignals workflowId next deliveries).length = deliveries.length := by
  induction deliveries generalizing next with
  | nil => rfl
  | cons delivery rest ih => rw [anonymousSignals, List.length_cons, ih, List.length_cons]

variable {deliveries : List (BufferedSignalDelivery V)}

theorem length_operations_anonymous (codec : SignalCodec V) {c : Send V} {raw : Option V}
    {next : Nat} (hrequest : c.request = .anonymous deliveries)
    (hphase : c.phase = .committing raw next) :
    deliveries.length < (c.operations codec).length := by
  simp only [Send.operations, Send.signals, hrequest, hphase, List.length_append, List.length_map,
    length_anonymousSignals, List.length_singleton]
  omega

theorem mem_anonymousSignals {workflowId : Component} {next : Nat} {x : Sent V}
    (h : x ∈ anonymousSignals workflowId next deliveries) :
    x.workflowId = workflowId ∧ x.startsRun = false ∧
      ∃ n delivery, delivery ∈ deliveries ∧ next ≤ n ∧ n < next + deliveries.length ∧
        x.sequence = some n ∧ x.id = generatedComponent n delivery.uuid := by
  induction deliveries generalizing next with
  | nil => cases h
  | cons delivery rest ih =>
    rw [anonymousSignals, List.mem_cons] at h
    rw [List.length_cons]
    rcases h with rfl | h
    · exact ⟨rfl, rfl, next, delivery, List.mem_cons_self, le_rfl, by omega, rfl, rfl⟩
    · obtain ⟨hworkflow, hstart, n, other, hmem, hle, hlt, hsequence, hid⟩ := ih h
      exact ⟨hworkflow, hstart, n, other, List.mem_cons_of_mem _ hmem, by omega, by omega,
        hsequence, hid⟩

theorem anonymousSignals_increasing (workflowId : Component)
    (deliveries : List (BufferedSignalDelivery V)) (next : Nat) :
    (anonymousSignals workflowId next deliveries).Pairwise fun x y =>
      ∀ m ∈ x.sequence, ∀ n ∈ y.sequence, m < n := by
  induction deliveries generalizing next with
  | nil => exact List.Pairwise.nil
  | cons delivery rest ih =>
    rw [anonymousSignals, List.pairwise_cons]
    refine ⟨fun y hy m hm n hn => ?_, ih (next + 1)⟩
    obtain ⟨-, -, n', -, -, hle, -, hsequence, -⟩ := mem_anonymousSignals hy
    cases hm
    cases hsequence.symm.trans hn
    omega

end Weft.Signals

/-! The steps of a send, one after the other. -/

namespace Weft.Signals
open Weft.Js Weft.Storage Weft.Lib

universe v

variable {V : Type v}

/-- The steps of a send are those of its kind. -/
def Send.Shaped (storage : Storage V) (c : Send V) : Prop :=
  match c.request with
  | .anonymous _ => c.phase ≠ .checking ∧ c.phase ≠ .marking ∧
      ∀ raw next, c.phase = .committing raw next → next ≤ maxSafeInteger
  | .explicit _ signalId _ | .start _ signalId _ =>
    c.phase = .ended ∨ (c.phase = .checking ∨ c.phase = .marking) ∧
      storage.conditional = true ∧ validSignalId signalId = true

variable {storage : Storage V} {s : State V}

variable {c : Send V}

theorem Shaped.ended : Send.Shaped storage { c with phase := .ended } := by
  unfold Send.Shaped
  split
  · simp
  · exact .inl rfl
  · exact .inl rfl

variable {deliveries : List (BufferedSignalDelivery V)}

theorem Shaped.anonymous (hrequest : c.request = .anonymous deliveries) {phase : Phase V}
    {attempt : Nat} (hchecking : phase ≠ .checking) (hmarking : phase ≠ .marking)
    (hnext : ∀ raw next, phase = .committing raw next → next ≤ maxSafeInteger) :
    Send.Shaped storage { c with attempt := attempt, phase := phase } := by
  simp only [Send.Shaped, hrequest]
  exact ⟨hchecking, hmarking, hnext⟩

/-- A send that is not over and not at its marker is an anonymous one. -/
theorem Shaped.request (h : c.Shaped storage) (hended : c.phase ≠ .ended)
    (hchecking : c.phase ≠ .checking) (hmarking : c.phase ≠ .marking) :
    ∃ deliveries, c.request = .anonymous deliveries := by
  unfold Send.Shaped at h
  split at h
  · exact ⟨_, by assumption⟩
  · exact (h.elim hended fun h => h.1.elim hchecking hmarking).elim
  · exact (h.elim hended fun h => h.1.elim hchecking hmarking).elim

theorem writeBatch_committed [DecidableEq V] {store after : Store V}
    {conditions : List (ConditionalBatchCondition V)} {operations : List (BatchOperation V)}
    (h : writeBatch storage store conditions operations = some (true, after)) :
    (storage.conditional = true → ∀ c ∈ conditions, store.get c.key = c.expectedValue) ∧
      after = applyBatchOperations store operations ∧ operations.length ≤ MAX_BATCH_OPERATIONS := by
  unfold writeBatch at h
  split_ifs at h with hconditional
  · obtain ⟨hconditions, hafter⟩ := conditionalBatch_committed h
    refine ⟨fun _ => hconditions, hafter, ?_⟩
    unfold conditionalBatch at h
    split_ifs at h with hsize
    · exact hsize.2
    · exact hsize.2
  · refine ⟨fun htrue => (hconditional htrue).elim, ?_⟩
    unfold batch at h
    split_ifs at h with hsize
    · simp only [Option.map_some, Option.some.injEq, Prod.mk.injEq, true_and] at h
      exact ⟨h.symm, hsize⟩
    · cases h

theorem get_stagedOperations (store : Store V) (entries : List (Staged V)) (k : JsString) :
    (applyBatchOperations store (stagedOperations entries)).get k =
      if k ∈ entries.map Staged.key then none else store.get k := by
  have h := get_applyBatchOperations_deletes store (entries.map Staged.key) k
  rwa [List.map_map] at h

theorem anonymousSignals_distinct {workflowId : Component} {next : Nat}
    (hbound : next + deliveries.length ≤ 10 ^ 16) :
    (anonymousSignals workflowId next deliveries).Pairwise fun x y => x.key ≠ y.key := by
  refine (List.Pairwise.and_mem.1 (anonymousSignals_increasing workflowId deliveries next)).imp ?_
  rintro x y ⟨hx, hy, hlt⟩ hkey
  obtain ⟨-, -, m, delivery, -, -, hm, hxsequence, hxid⟩ := mem_anonymousSignals hx
  obtain ⟨-, -, n, delivery', -, -, hn, hysequence, hyid⟩ := mem_anonymousSignals hy
  have hid := (Sent.key_inj hkey).2.2.1
  rw [hxid, hyid] at hid
  have := generatedComponent_sequence hid (by omega) (by omega)
  have := hlt m hxsequence n hysequence
  omega

theorem next_add_le (hc : c.Shaped storage) {raw : Option V} {next : Nat}
    (hrequest : c.request = .anonymous deliveries) (hphase : c.phase = .committing raw next)
    (hsize : (c.operations storage.codec).length ≤ MAX_BATCH_OPERATIONS) :
    next + deliveries.length ≤ 10 ^ 16 := by
  have hnext : next ≤ maxSafeInteger := by
    simp only [Send.Shaped, hrequest] at hc
    exact hc.2.2 raw next hphase
  have hlength := length_operations_anonymous storage.codec hrequest hphase
  simp only [maxSafeInteger, MAX_BATCH_OPERATIONS] at hnext hsize
  omega

theorem firstPhase_cases {request : Request V} {phase : Phase V}
    (h : request.firstPhase storage = some phase) : (∀ raw next, phase ≠ .committing raw next) ∧
      (storage.conditional = false → phase = .locking) := by
  unfold Request.firstPhase at h
  split at h
  · split_ifs at h with hempty hconditional
    · cases h
      exact ⟨by simp, fun hfalse => by simp [hfalse] at hconditional⟩
    · cases h
      exact ⟨by simp, fun _ => rfl⟩
  · split_ifs at h with hvalid
    cases h
    exact ⟨by simp, fun hfalse => by simp [hfalse] at hvalid⟩
  · split_ifs at h with hvalid
    cases h
    exact ⟨by simp, fun hfalse => by simp [hfalse] at hvalid⟩

/-! ## What a step can do -/

/-- Signals are written to the buffer. -/
def State.write (s : State V) (after : Store V) (xs : List (Sent V)) : State V := { s with
  store := after
  sent := s.sent ++ xs
  buffer := s.buffer.filter (fun x => x.key ∉ xs.map Sent.key) ++ xs }

variable [DecidableEq V]

inductive Advances (storage : Storage V) (s : State V) (i : Nat) (c : Send V) : State V → Prop where
  | ends : Advances storage s i c (s.setSend i { c with phase := .ended })
  | locks {deliveries : List (BufferedSignalDelivery V)}
      (hrequest : c.request = .anonymous deliveries) (hphase : c.phase = .locking)
      (hfree : ∀ d ∈ s.sends, d.process = c.process → d.workflowId = c.workflowId →
        d.inLock = false) :
      Advances storage s i c (s.setSend i { c with phase := .reading })
  | finds {deliveries : List (BufferedSignalDelivery V)}
      (hrequest : c.request = .anonymous deliveries) (hphase : c.phase = .reading)
      (hget : s.store.get (KEYS.signalSequence c.workflowId) = none) :
      Advances storage s i c (s.setSend i { c with phase := .scanning })
  | reads {deliveries : List (BufferedSignalDelivery V)} {raw : V} {next : Nat}
      (hrequest : c.request = .anonymous deliveries) (hphase : c.phase = .reading)
      (hget : s.store.get (KEYS.signalSequence c.workflowId) = some raw)
      (hdecode : storage.codec.decodeSequence raw = some next) (hsafe : next ≤ maxSafeInteger) :
      Advances storage s i c (s.setSend i { c with phase := .committing (some raw) next })
  | scans {deliveries : List (BufferedSignalDelivery V)} {next : Nat}
      (hrequest : c.request = .anonymous deliveries) (hphase : c.phase = .scanning)
      (hscan : scanNextAnonymousSignalSequence storage.codec s.store c.workflowId = some next) :
      Advances storage s i c (s.setSend i { c with phase := .committing none next })
  | checks (hshape : Send.Shaped storage { c with phase := .marking }) :
      Advances storage s i c (s.setSend i { c with phase := .marking })
  | retries {deliveries : List (BufferedSignalDelivery V)} {raw : Option V} {next : Nat}
      (hrequest : c.request = .anonymous deliveries) (hphase : c.phase = .committing raw next) :
      Advances storage s i c (s.setSend i { c with attempt := c.attempt + 1, phase := .reading })
  | commits {deliveries : List (BufferedSignalDelivery V)} {raw : Option V} {next : Nat}
      {after : Store V} (hrequest : c.request = .anonymous deliveries)
      (hphase : c.phase = .committing raw next)
      (hbatch : writeBatch storage s.store c.conditions (c.operations storage.codec) =
        some (true, after)) :
      Advances storage s i c ((s.write after c.signals).setSend i { c with phase := .ended })
  | marks {x : Sent V} {after : Store V} (hconditional : storage.conditional = true)
      (hsignals : c.signals = [x]) (hnone : x.sequence = none) (hvalid : validSignalId x.id = true)
      (hchosen : (∃ name payload, c.request = .explicit name x.id payload) ∨
        ∃ name payload, c.request = .start name x.id payload)
      (hoperations : c.operations storage.codec =
          c.signals.map Sent.put ++ cleanupOperations storage.codec c ++
          [BatchOperation.put (KEYS.signalAcceptedResponse x.workflowId x.name x.id)
            storage.codec.acceptedResponse] ∨
        c.operations storage.codec = c.signals.map Sent.put ++
          [BatchOperation.put (KEYS.signalAcceptedResponse x.workflowId x.name x.id)
            storage.codec.acceptedResponse])
      (hconditions : c.conditions =
        [⟨KEYS.signalAcceptedResponse x.workflowId x.name x.id, none⟩])
      (hbatch : writeBatch storage s.store c.conditions (c.operations storage.codec) =
        some (true, after)) :
      Advances storage s i c ((s.write after c.signals).setSend i { c with phase := .ended })

theorem advances_of_commitSend {i : Nat} (hc : c.Shaped storage)
    (hphase : (∃ raw next, c.phase = .committing raw next) ∨ c.phase = .marking) :
    Advances storage s i c (s.commitSend storage i c) := by
  unfold State.commitSend
  split
  · exact .ends
  · rename_i after hbatch
    have hshape := hc
    unfold Send.Shaped at hshape
    split at hshape
    · rename_i deliveries hrequest
      obtain ⟨raw, next, hphase⟩ := hphase.resolve_right hshape.2.1
      exact .commits hrequest hphase hbatch
    · rename_i name signalId payload hrequest
      have hmarking : c.phase = .marking := by
        obtain ⟨raw, next, hphase⟩ | hphase := hphase
        · simp [hphase] at hshape
        · exact hphase
      obtain ⟨-, hconditional, hvalid⟩ := hshape.resolve_left (by simp [hmarking])
      have hsignals : c.signals = [⟨c.workflowId, name, signalId, false, none, payload⟩] := by
        simp [Send.signals, hrequest]
      refine .marks hconditional hsignals rfl hvalid (.inl ⟨name, payload, hrequest⟩) (.inl ?_) ?_
        hbatch
      · simp [Send.operations, hrequest]
      · simp [Send.conditions, hrequest]
    · rename_i name signalId payload hrequest
      have hmarking : c.phase = .marking := by
        obtain ⟨raw, next, hphase⟩ | hphase := hphase
        · simp [hphase] at hshape
        · exact hphase
      obtain ⟨-, hconditional, hvalid⟩ := hshape.resolve_left (by simp [hmarking])
      have hsignals : c.signals = [⟨c.workflowId, name, signalId, true, none, payload⟩] := by
        simp [Send.signals, hrequest]
      refine .marks hconditional hsignals rfl hvalid (.inr ⟨name, payload, hrequest⟩) (.inr ?_) ?_
        hbatch
      · simp [Send.operations, hrequest]
      · simp [Send.conditions, hrequest]
  · split
    · rename_i raw next hcommitting
      obtain ⟨deliveries, hrequest⟩ := Shaped.request hc (by simp [hcommitting])
        (by simp [hcommitting]) (by simp [hcommitting])
      split_ifs
      · exact .retries hrequest hcommitting
      · exact .ends
    · exact .ends

/-- Each step of a send is one of these. -/
theorem advances_of_advance {t : State V} {i : Nat} (hc : c.Shaped storage)
    (hstep : s.advance storage i c = some t) : Advances storage s i c t := by
  unfold State.advance at hstep
  split at hstep
  · rename_i hphase
    obtain ⟨deliveries, hrequest⟩ := Shaped.request hc (by simp [hphase]) (by simp [hphase])
      (by simp [hphase])
    split_ifs at hstep with hfree
    cases hstep
    exact .locks hrequest hphase (by simpa using hfree)
  · rename_i hphase
    obtain ⟨deliveries, hrequest⟩ := Shaped.request hc (by simp [hphase]) (by simp [hphase])
      (by simp [hphase])
    split at hstep
    · rename_i hget
      cases hstep
      exact .finds hrequest hphase hget
    · rename_i raw hget
      split at hstep
      · cases hstep
        exact .ends
      · rename_i next hdecode
        split_ifs at hstep with hsafe
        · cases hstep
          exact .reads hrequest hphase hget hdecode hsafe
        · cases hstep
          exact .ends
  · rename_i hphase
    obtain ⟨deliveries, hrequest⟩ := Shaped.request hc (by simp [hphase]) (by simp [hphase])
      (by simp [hphase])
    split at hstep
    · cases hstep
      exact .ends
    · rename_i next hscan
      cases hstep
      exact .scans hrequest hphase hscan
  · rename_i hphase
    split at hstep
    · rename_i name signalId payload hrequest
      split_ifs at hstep
      · cases hstep
        exact .ends
      · cases hstep
        refine .checks ?_
        simp only [Send.Shaped, hrequest] at hc ⊢
        exact .inr ⟨.inr trivial, (hc.resolve_left (by simp [hphase])).2⟩
    · cases hstep
  · rename_i raw next hphase
    cases hstep
    exact advances_of_commitSend hc (.inl ⟨raw, next, hphase⟩)
  · rename_i hphase
    cases hstep
    exact advances_of_commitSend hc (.inr hphase)
  · cases hstep

end Weft.Signals
