import Weft.Signals.Writes
import Weft.Lib.Lists

/-! Signals with an id of their own. The live path and the start batch write different keys but
gate on one marker of the id, which no consumer deletes: whatever the order of sends, starts and
waits, such a signal is written once and answers one wait. -/

namespace Weft.Signals
open Weft.Js Weft.Storage Weft.Lib

universe v

variable {V : Type v}

/-! ## What is to hold -/

/-- The signal was sent to this workflow and name with this id, live or by a start. -/
def Sent.hasId (x : Sent V) (workflowId name signalId : Component) : Prop :=
  x.sequence = none ∧ x.workflowId = workflowId ∧ x.name = name ∧ x.id = signalId

instance (x : Sent V) (workflowId name signalId : Component) :
    Decidable (x.hasId workflowId name signalId) := inferInstanceAs (Decidable (_ ∧ _ ∧ _ ∧ _))

/-- The answer of a wait is a signal that was sent to its workflow and name. -/
def Staged.Owns (sent : List (Sent V)) (entry : Staged V) : Prop :=
  ∃ x ∈ sent, entry.origin = some x ∧ x.key = entry.key ∧ x.payload = entry.value ∧
    x.workflowId = entry.workflowId ∧ x.name = entry.name

structure Deduplicated (s : State V) : Prop where
  buffered : ∀ workflowId name signalId,
    s.sent.countP (fun x => x.hasId workflowId name signalId) ≤ 1
  consumed : ∀ workflowId name signalId,
    s.consumed.countP (fun entry => entry.origin.any fun x => x.hasId workflowId name signalId) ≤ 1
  owned : ∀ entry ∈ s.consumed, entry.Owns s.sent

/-! ## The invariant -/

/-- Two signals with one id. -/
def Sent.SameId (x y : Sent V) : Prop := y.hasId x.workflowId x.name x.id ∧ x.sequence = none

structure Kept (storage : Storage V) (s : State V) : Prop where
  stored : ∀ k v, js "sig:" <+: k →
    (s.store.get k = some v ↔ ∃ x ∈ s.buffer, x.key = k ∧ x.payload = v)
  distinct : s.buffer.Pairwise fun x y => x.key ≠ y.key
  known : ∀ x ∈ s.buffer, x ∈ s.sent
  marked : ∀ x ∈ s.sent, x.sequence = none →
    (s.store.get (KEYS.signalAcceptedResponse x.workflowId x.name x.id)).isSome
  once : s.sent.Pairwise fun x y => ¬ x.SameId y
  staged : ∀ entry ∈ s.staged, entry.Owns s.sent
  apart : s.staged.Pairwise fun t u => ¬ (t.workflowId = u.workflowId ∧ t.name = u.name)
  owned : ∀ entry ∈ s.consumed, entry.Owns s.sent
  spent : ∀ t ∈ s.consumed, ∀ x ∈ t.origin,
    (∀ y ∈ s.buffer, ¬ x.SameId y) ∧ ∀ u ∈ s.staged, ∀ y ∈ u.origin, ¬ x.SameId y
  answered : s.consumed.Pairwise fun t u => ∀ x ∈ t.origin, ∀ y ∈ u.origin, ¬ x.SameId y
  shaped : ∀ c ∈ s.sends, c.Shaped storage

variable {storage : Storage V} {s : State V}

theorem Sent.SameId.symm {x y : Sent V} (h : x.SameId y) : y.SameId x :=
  ⟨⟨h.2, h.1.2.1.symm, h.1.2.2.1.symm, h.1.2.2.2.symm⟩, h.1.1⟩

/-- Of the signals sent with one id there is only one. -/
theorem Kept.eq_of_sameId (h : Kept storage s) {x y : Sent V} (hx : x ∈ s.sent) (hy : y ∈ s.sent)
    (hsame : x.SameId y) : x = y := by
  by_contra hne
  have : Std.Symm fun x y : Sent V => ¬ x.SameId y :=
    ⟨fun _ _ hnot hsym => hnot hsym.symm⟩
  exact h.once.forall hx hy hne hsame

theorem Kept.deduplicated (h : Kept storage s) : Deduplicated s where
  buffered := by
    intro workflowId name signalId
    refine countP_le_one_of_pairwise (h.once.imp fun {x y} hnot hx hy => hnot ?_)
    simp only [decide_eq_true_eq] at hx hy
    obtain ⟨hx, rfl, rfl, rfl⟩ := hx
    exact ⟨hy, hx⟩
  consumed := by
    intro workflowId name signalId
    refine countP_le_one_of_pairwise (h.answered.imp fun {t u} hnot ht hu => ?_)
    simp only [Option.any_eq_true, decide_eq_true_eq] at ht hu
    obtain ⟨x, hx, hxid⟩ := ht
    obtain ⟨y, hy, hyid⟩ := hu
    obtain ⟨hsequence, rfl, rfl, rfl⟩ := hxid
    exact hnot x hx y hy ⟨hyid, hsequence⟩
  owned := h.owned

/-! ## Steps -/

theorem Kept.start {store : Store V} (hempty : ∀ k, js "sig:" <+: k → store.get k = none) :
    Kept storage { store := store } where
  stored := by
    intro k v hk
    simp [hempty k hk]
  distinct := List.Pairwise.nil
  known := by simp
  marked := by simp
  once := List.Pairwise.nil
  staged := by simp
  apart := List.Pairwise.nil
  owned := by simp
  spent := by simp
  answered := List.Pairwise.nil
  shaped := by simp

variable {c : Send V}

theorem Kept.setSend (h : Kept storage s) (i : Nat) (hc : c.Shaped storage) :
    Kept storage (s.setSend i c) := { h with
  shaped := fun d hd => (List.mem_or_eq_of_mem_set hd).elim (h.shaped d) fun heq => heq ▸ hc }

theorem Kept.addSend (h : Kept storage s) (hc : c.Shaped storage) :
    Kept storage { s with sends := s.sends ++ [c] } := { h with
  shaped := by
    simp only [List.mem_append, List.mem_singleton]
    rintro d (hd | rfl)
    · exact h.shaped d hd
    · exact hc }

theorem Staged.Owns.mono {sent sent' : List (Sent V)} {entry : Staged V} (h : entry.Owns sent)
    (hle : ∀ x ∈ sent, x ∈ sent') : entry.Owns sent' := by
  obtain ⟨x, hx, hrest⟩ := h
  exact ⟨x, hle x hx, hrest⟩

theorem Staged.Owns.origin_mem {sent : List (Sent V)} {entry : Staged V} (h : entry.Owns sent)
    {x : Sent V} (hx : x ∈ entry.origin) :
    x ∈ sent ∧ x.key = entry.key ∧ x.workflowId = entry.workflowId ∧ x.name = entry.name := by
  obtain ⟨y, hy, horigin, hkey, -, hworkflow, hname⟩ := h
  cases horigin.symm.trans hx
  exact ⟨hy, hkey, hworkflow, hname⟩

/-- Signals are written whose keys differ and whose ids, if they chose one, were not in use. -/
theorem Kept.write (h : Kept storage s) {xs : List (Sent V)} {after : Store V}
    (hsig : ∀ k v, js "sig:" <+: k → (after.get k = some v ↔
      (∃ x ∈ xs, x.key = k ∧ x.payload = v) ∨ s.store.get k = some v ∧ ∀ x ∈ xs, x.key ≠ k))
    (hmarked : ∀ w n i, (s.store.get (KEYS.signalAcceptedResponse w n i)).isSome →
      (after.get (KEYS.signalAcceptedResponse w n i)).isSome)
    (hmarks : ∀ x ∈ xs, x.sequence = none →
      (after.get (KEYS.signalAcceptedResponse x.workflowId x.name x.id)).isSome)
    (hdistinct : xs.Pairwise fun x y => x.key ≠ y.key)
    (honce : xs.Pairwise fun x y => ¬ x.SameId y)
    (hnew : ∀ x ∈ xs, ∀ y ∈ s.sent, ¬ y.SameId x) :
    Kept storage (s.write after xs) := { h with
  stored := by
    intro k v hk
    show after.get k = some v ↔ _
    rw [hsig k v hk, h.stored k v hk]
    simp only [State.write, List.mem_append, List.mem_filter, decide_eq_true_eq, List.mem_map,
      not_exists, not_and]
    constructor
    · rintro (⟨x, hx, hkey⟩ | ⟨⟨x, hx, rfl, rfl⟩, hothers⟩)
      · exact ⟨x, .inr hx, hkey⟩
      · exact ⟨x, .inl ⟨hx, hothers⟩, rfl, rfl⟩
    · rintro ⟨x, ⟨hx, hothers⟩ | hx, rfl, rfl⟩
      · exact .inr ⟨⟨x, hx, rfl, rfl⟩, hothers⟩
      · exact .inl ⟨x, hx, rfl, rfl⟩
  distinct := by
    refine List.pairwise_append.2 ⟨h.distinct.filter _, hdistinct, fun x hx y hy heq => ?_⟩
    have hother := (List.mem_filter.1 hx).2
    simp only [decide_eq_true_eq] at hother
    exact hother (heq ▸ List.mem_map_of_mem hy)
  known := by
    intro x hx
    rcases List.mem_append.1 hx with hx | hx
    · exact List.mem_append_left _ (h.known x (List.mem_filter.1 hx).1)
    · exact List.mem_append_right _ hx
  marked := by
    intro x hx hsequence
    rcases List.mem_append.1 hx with hx | hx
    · exact hmarked _ _ _ (h.marked x hx hsequence)
    · exact hmarks x hx hsequence
  once := List.pairwise_append.2 ⟨h.once, honce, fun y hy x hx => hnew x hx y hy⟩
  staged := fun entry hentry => (h.staged entry hentry).mono fun x hx => List.mem_append_left _ hx
  owned := fun entry hentry => (h.owned entry hentry).mono fun x hx => List.mem_append_left _ hx
  spent := by
    intro t ht x hx
    obtain ⟨hbuffer, hstaged⟩ := h.spent t ht x hx
    refine ⟨fun y hy => ?_, hstaged⟩
    rcases List.mem_append.1 hy with hy | hy
    · exact hbuffer y (List.mem_filter.1 hy).1
    · exact hnew y hy x ((h.owned t ht).origin_mem hx).1 }

theorem Kept.unstage (h : Kept storage s) (p : Staged V → Bool) :
    Kept storage { s with staged := s.staged.filter p } := { h with
  staged := fun entry hentry => h.staged entry (List.mem_of_mem_filter hentry)
  apart := h.apart.filter p
  spent := fun t ht x hx => ⟨(h.spent t ht x hx).1,
    fun u hu => (h.spent t ht x hx).2 u (List.mem_of_mem_filter hu)⟩ }

/-- A wait stages the first record of its buffer. -/
theorem Kept.stage (h : Kept storage s) {workflowId name : Component} {k : JsString} {v : V}
    (hfree : ∀ u ∈ s.staged, ¬ (u.workflowId = workflowId ∧ u.name = name))
    (hfound : findBufferedSignalRecord s.store workflowId name = some (k, v)) :
    ∃ x ∈ s.buffer, x.key = k ∧ x.payload = v ∧ x.workflowId = workflowId ∧ x.name = name ∧
      s.buffer.find? (fun x => x.key = k) = some x ∧
      Kept storage { s with staged := s.staged ++
        [⟨workflowId, name, k, v, s.buffer.find? fun x => x.key = k⟩] } := by
  obtain ⟨hget, hprefixed, -⟩ := findBufferedSignalRecord_first hfound
  obtain ⟨x, hx, hkey, hpayload⟩ := (h.stored k v (sig_of_bufferPrefixed hprefixed)).1 hget
  have hfind : s.buffer.find? (fun x => x.key = k) = some x := by
    cases hfirst : s.buffer.find? (fun x => x.key = k) with
    | none => exact absurd hkey (by simpa using List.find?_eq_none.1 hfirst x hx)
    | some y =>
      have hykey : y.key = k := by simpa using List.find?_some hfirst
      by_contra hne
      have : Std.Symm fun x y : Sent V => x.key ≠ y.key := ⟨fun _ _ hab => hab.symm⟩
      exact h.distinct.forall (List.mem_of_find?_eq_some hfirst) hx
        (fun heq => hne (congrArg some heq)) (hykey.trans hkey.symm)
  obtain ⟨hworkflow, hname⟩ := of_bufferPrefixed_key (hkey ▸ hprefixed)
  refine ⟨x, hx, hkey, hpayload, hworkflow, hname, hfind, ?_⟩
  rw [hfind]
  refine { h with staged := ?_, apart := ?_, spent := ?_ }
  · intro entry hentry
    rcases List.mem_append.1 hentry with hentry | hentry
    · exact h.staged entry hentry
    · rw [List.mem_singleton.1 hentry]
      exact ⟨x, h.known x hx, rfl, hkey, hpayload, hworkflow, hname⟩
  · refine List.pairwise_append.2 ⟨h.apart, List.pairwise_singleton _ _, fun u hu t ht => ?_⟩
    rw [List.mem_singleton.1 ht]
    exact hfree u hu
  · intro t ht y hy
    obtain ⟨hbuffer, hstaged⟩ := h.spent t ht y hy
    refine ⟨hbuffer, fun u hu z hz => ?_⟩
    rcases List.mem_append.1 hu with hu | hu
    · exact hstaged u hu z hz
    · rw [List.mem_singleton.1 hu] at hz
      cases hz
      exact hbuffer x hx

/-- What a workflow has staged is deleted from the buffer and recorded as consumed. -/
theorem Kept.consume (h : Kept storage s) (workflowId : Component) {entries : List (Staged V)}
    (hentries : s.staged.filter (fun entry => entry.workflowId = workflowId) = entries) :
    Kept storage { s with
      store := applyBatchOperations s.store (stagedOperations entries)
      staged := s.staged.filter fun entry => entry.workflowId ≠ workflowId
      buffer := s.buffer.filter fun x => x.key ∉ entries.map Staged.key
      consumed := s.consumed ++ entries } := by
  have hmem : ∀ t ∈ entries, t ∈ s.staged ∧ t.workflowId = workflowId := by
    intro t ht
    rw [← hentries] at ht
    simpa using List.mem_filter.1 ht
  have hkeys : ∀ k ∈ entries.map Staged.key, js "sig:" <+: k := by
    intro k hk
    obtain ⟨t, ht, rfl⟩ := List.mem_map.1 hk
    obtain ⟨x, -, -, hkey, -⟩ := h.staged t (hmem t ht).1
    exact hkey ▸ sig_prefixed_key x
  have hother : ∀ u ∈ s.staged.filter (fun entry => entry.workflowId ≠ workflowId),
      u ∈ s.staged ∧ u.workflowId ≠ workflowId := by
    intro u hu
    simpa using List.mem_filter.1 hu
  refine { h with
    stored := ?_
    distinct := h.distinct.filter _
    known := fun x hx => h.known x (List.mem_of_mem_filter hx)
    marked := ?_
    staged := fun entry hentry => h.staged entry (hother entry hentry).1
    apart := h.apart.filter _
    owned := ?_
    spent := ?_
    answered := ?_ }
  · intro k v hk
    rw [get_stagedOperations]
    simp only [List.mem_filter, decide_eq_true_eq]
    split_ifs with hdeleted
    · constructor
      · intro hnone
        cases hnone
      · rintro ⟨x, ⟨-, hkept⟩, rfl, -⟩
        exact (hkept hdeleted).elim
    · rw [h.stored k v hk]
      refine exists_congr fun x => ⟨?_, fun ⟨⟨hx, _⟩, hkey⟩ => ⟨hx, hkey⟩⟩
      rintro ⟨hx, rfl, hpayload⟩
      exact ⟨⟨hx, hdeleted⟩, rfl, hpayload⟩
  · intro x hx hsequence
    rw [get_stagedOperations, if_neg fun hdeleted => acceptedKey_not_sig _ _ _ (hkeys _ hdeleted)]
    exact h.marked x hx hsequence
  · intro t ht
    rcases List.mem_append.1 ht with ht | ht
    · exact h.owned t ht
    · exact h.staged t (hmem t ht).1
  · intro t ht x hx
    rcases List.mem_append.1 ht with ht | ht
    · obtain ⟨hbuffer, hstaged⟩ := h.spent t ht x hx
      exact ⟨fun y hy => hbuffer y (List.mem_of_mem_filter hy),
        fun u hu => hstaged u (hother u hu).1⟩
    · obtain ⟨hsent, hkey, hworkflow, -⟩ := (h.staged t (hmem t ht).1).origin_mem hx
      refine ⟨fun y hy hsame => ?_, fun u hu y hy hsame => ?_⟩
      · obtain ⟨hy, hkept⟩ := List.mem_filter.1 hy
        obtain rfl := h.eq_of_sameId hsent (h.known y hy) hsame
        simp only [decide_eq_true_eq] at hkept
        exact hkept (hkey ▸ List.mem_map_of_mem ht)
      · obtain ⟨-, -, hworkflow', -⟩ := (h.staged u (hother u hu).1).origin_mem hy
        apply (hother u hu).2
        rw [← hworkflow', hsame.1.2.1, hworkflow, (hmem t ht).2]
  · refine List.pairwise_append.2 ⟨h.answered, ?_, fun t ht u hu x hx y hy => ?_⟩
    · rw [← hentries]
      refine ((List.Pairwise.and_mem.1 h.apart).filter _).imp fun {t u} hapart x hx y hy hsame => ?_
      obtain ⟨ht, hu, hapart⟩ := hapart
      obtain ⟨-, -, hworkflow, hname⟩ := (h.staged t ht).origin_mem hx
      obtain ⟨-, -, hworkflow', hname'⟩ := (h.staged u hu).origin_mem hy
      apply hapart
      rw [← hworkflow, ← hworkflow', ← hname, ← hname']
      exact ⟨hsame.1.2.1.symm, hsame.1.2.2.1.symm⟩
    · exact (h.spent t ht x hx).2 u (hmem u hu).1 y hy

/-! ## Runs -/

variable [DecidableEq V]

theorem Kept.commit_anonymous (h : Kept storage s) (hc : c.Shaped storage)
    {deliveries : List (BufferedSignalDelivery V)} {raw : Option V} {next : Nat}
    (hrequest : c.request = .anonymous deliveries) (hphase : c.phase = .committing raw next)
    {after : Store V}
    (hbatch : writeBatch storage s.store c.conditions (c.operations storage.codec) = some (true,
      after)) :
    Kept storage (s.write after c.signals) := by
  obtain ⟨-, hafter, hsize⟩ := writeBatch_committed hbatch
  have hsignals : c.signals = anonymousSignals c.workflowId next deliveries := by
    simp [Send.signals, hrequest, hphase]
  have hdistinct : c.signals.Pairwise fun x y => x.key ≠ y.key := by
    rw [hsignals]
    exact anonymousSignals_distinct (next_add_le hc hrequest hphase hsize)
  obtain ⟨hsig, -, haccepted⟩ :=
    get_anonymous_operations storage.codec s.store hrequest hphase hdistinct hafter.symm
  have hnumbered : ∀ x ∈ c.signals, x.sequence ≠ none := by
    intro x hx
    rw [hsignals] at hx
    obtain ⟨-, -, n, -, -, -, -, hsequence, -⟩ := mem_anonymousSignals hx
    simp [hsequence]
  refine h.write hsig ?_ (fun x hx hnone => (hnumbered x hx hnone).elim) hdistinct ?_ ?_
  · intro w n i hsome
    rwa [haccepted]
  · exact hdistinct.imp_of_mem fun {x y} hx _ _ hsame => hnumbered x hx hsame.2
  · exact fun x hx y _ hsame => hnumbered x hx hsame.1.1

theorem Kept.commit_marked (h : Kept storage s) {x : Sent V}
    (hconditional : storage.conditional = true) (hsignals : c.signals = [x])
    (hoperations : c.operations storage.codec =
      c.signals.map Sent.put ++ cleanupOperations storage.codec c ++ [BatchOperation.put
      (KEYS.signalAcceptedResponse x.workflowId x.name x.id) storage.codec.acceptedResponse] ∨
      c.operations storage.codec = c.signals.map Sent.put ++ [BatchOperation.put
      (KEYS.signalAcceptedResponse x.workflowId x.name x.id) storage.codec.acceptedResponse])
    (hconditions : c.conditions = [⟨KEYS.signalAcceptedResponse x.workflowId x.name x.id, none⟩])
    {after : Store V}
    (hbatch : writeBatch storage s.store c.conditions (c.operations storage.codec) = some (true,
      after)) :
    Kept storage (s.write after c.signals) := by
  obtain ⟨hheld, hafter, -⟩ := writeBatch_committed hbatch
  have hunmarked : s.store.get (KEYS.signalAcceptedResponse x.workflowId x.name x.id) = none :=
    hheld hconditional ⟨_, none⟩ (by rw [hconditions]; exact List.mem_singleton_self _)
  obtain ⟨hsig, -, haccepted⟩ :=
    get_marked_operations storage.codec s.store hsignals hoperations hafter.symm
  have honly : ∀ y ∈ c.signals, y = x := by
    intro y hy
    rw [hsignals] at hy
    exact List.mem_singleton.1 hy
  refine h.write ?_ ?_ ?_ ?_ ?_ ?_
  · intro k v hk
    rw [hsig k v hk, hsignals]
    simp
  · intro w n i hsome
    rw [haccepted]
    split_ifs
    · rfl
    · exact hsome
  · intro y hy _
    rw [honly y hy, haccepted, if_pos ⟨rfl, rfl, rfl⟩]
    rfl
  · rw [hsignals]
    exact List.pairwise_singleton _ _
  · rw [hsignals]
    exact List.pairwise_singleton _ _
  · intro y hy z hz hsame
    rw [honly y hy] at hsame
    have hmarked := h.marked z hz hsame.2
    rw [← hsame.1.2.1, ← hsame.1.2.2.1, ← hsame.1.2.2.2, hunmarked] at hmarked
    cases hmarked

theorem Kept.advance (h : Kept storage s) {t : State V} {i : Nat} (hc : c.Shaped storage)
    (hstep : s.advance storage i c = some t) : Kept storage t := by
  have hshaped : ∀ deliveries, c.request = .anonymous deliveries → ∀ phase : Phase V,
      phase ≠ .checking → phase ≠ .marking → (∀ raw next, phase ≠ .committing raw next) →
      ∀ attempt, Send.Shaped storage { c with attempt := attempt, phase := phase } :=
    fun deliveries hrequest phase hchecking hmarking hcommitting attempt =>
      Shaped.anonymous hrequest hchecking hmarking fun raw next heq =>
        (hcommitting raw next heq).elim
  cases advances_of_advance hc hstep with
  | ends => exact h.setSend i Shaped.ended
  | locks hrequest => exact h.setSend i (hshaped _ hrequest _ (by simp) (by simp) (by simp) _)
  | finds hrequest => exact h.setSend i (hshaped _ hrequest _ (by simp) (by simp) (by simp) _)
  | reads hrequest hphase hget hdecode hsafe =>
    refine h.setSend i (Shaped.anonymous hrequest (by simp) (by simp) fun raw next heq => ?_)
    rw [← (Phase.committing.inj heq).2]
    exact hsafe
  | scans hrequest hphase hscan =>
    refine h.setSend i (Shaped.anonymous hrequest (by simp) (by simp) fun raw next heq => ?_)
    rw [← (Phase.committing.inj heq).2]
    exact scanNext_le hscan
  | checks hshape => exact h.setSend i hshape
  | retries hrequest => exact h.setSend i (hshaped _ hrequest _ (by simp) (by simp) (by simp) _)
  | commits hrequest hphase hbatch =>
    exact (h.commit_anonymous hc hrequest hphase hbatch).setSend i Shaped.ended
  | marks hconditional hsignals hnone hvalid hchosen hoperations hconditions hbatch =>
    exact (h.commit_marked hconditional hsignals hoperations hconditions hbatch).setSend i
      Shaped.ended

theorem Kept.step (h : Kept storage s) {t : State V} {a : Label V} (hturn : InTurn s a)
    (hstep : Weft.Signals.step storage s a = some t) : Kept storage t := by
  cases a with
  | send process workflowId request cleanupTracked =>
    obtain ⟨phase, hphase, rfl⟩ := Option.map_eq_some_iff.1 hstep
    refine h.addSend ?_
    unfold Request.firstPhase at hphase
    split at hphase
    · split_ifs at hphase
      · cases hphase
        exact ⟨by simp, by simp, by simp⟩
      · cases hphase
        exact ⟨by simp, by simp, by simp⟩
    · split_ifs at hphase with hvalid
      cases hphase
      exact .inr ⟨.inl rfl, by simpa using hvalid⟩
    · split_ifs at hphase with hvalid
      cases hphase
      exact .inr ⟨.inr rfl, by simpa using hvalid⟩
  | advance i =>
    obtain ⟨c, hi, hstep⟩ := Option.bind_eq_some_iff.1 hstep
    exact h.advance (h.shaped c (List.mem_of_getElem? hi)) hstep
  | fail i =>
    obtain ⟨c, -, rfl⟩ := Option.map_eq_some_iff.1 hstep
    exact h.setSend i Shaped.ended
  | wait workflowId signalName =>
    simp only [Weft.Signals.step] at hstep
    split at hstep
    · cases hstep
      exact h
    · rename_i k v hfound
      cases hstep
      obtain ⟨x, -, -, -, -, -, -, hkept⟩ := h.stage hturn hfound
      exact hkept
  | persist workflowId =>
    cases hstep
    simp only [State.persist]
    split
    · rename_i after hbatch
      obtain ⟨-, rfl, -⟩ := writeBatch_committed hbatch
      exact h.consume workflowId rfl
    · exact h.unstage _
  | drop workflowId =>
    cases hstep
    exact h.unstage _

/-- Sends of any kind, starts with signals, waits and checkpoints in any order, from a store
without buffered signals and with the waits of each name in turn: a signal with an id of its own is
buffered once and consumed once. -/
theorem signals_deduplicated (storage : Storage V) {store : Store V}
    (hempty : ∀ k, js "sig:" <+: k → store.get k = none) {as : List (Label V)}
    (hturn : (signalMachine storage).EveryStep InTurn { store := store } as) :
    (signalMachine storage).EveryState Deduplicated { store := store } as := by
  have hkept : (signalMachine storage).EveryState (Kept storage) { store := store } as :=
    Machine.everyState_of_invariant (fun _ _ _ hs ha hstep => hs.step ha hstep)
      (Kept.start hempty) hturn
  exact hkept.mono fun _ hs => hs.deduplicated

/-! ## A signal sent three times -/

/-- Stored values, as far as signals are concerned. -/
inductive SignalBytes where
  | sequence (n : Nat)
  | payload (text : JsString)
  | accepted
  | empty
deriving DecidableEq

def signalCodec : SignalCodec SignalBytes where
  encodeSequence := .sequence
  decodeSequence
    | .sequence n => some n
    | _ => none
  acceptedResponse := .accepted
  emptyBytes := .empty
  decodeSequence_encode := fun _ => rfl
  numberLiteral := fun _ => none

def orderWorkflow : Component := ⟨js "order:1", by decide +kernel⟩

def approvedSignal : Component := ⟨js "approved", by decide +kernel⟩

def deliveryId : Component := ⟨js "delivery-1", by decide +kernel⟩

/-- The start and a live send race with one id; the live send is repeated after the signal was
consumed. -/
def resentSignal : List (Label SignalBytes) :=
  [.send 0 orderWorkflow (.explicit approvedSignal deliveryId (.payload (js "yes"))) false,
    .advance 0,
    .send 0 orderWorkflow (.start approvedSignal deliveryId (.payload (js "yes"))) false,
    .advance 1, .advance 0,
    .wait orderWorkflow approvedSignal, .persist orderWorkflow,
    .send 0 orderWorkflow (.explicit approvedSignal deliveryId (.payload (js "yes"))) false,
    .advance 2]

theorem signals_deduplicated_resent :
    (signalMachine ⟨signalCodec, true⟩).EveryState Deduplicated
      { store := OrderedStore.empty } resentSignal ∧
    ((signalMachine ⟨signalCodec, true⟩).final { store := OrderedStore.empty }
      resentSignal).consumed.length = 1 :=
  ⟨signals_deduplicated ⟨signalCodec, true⟩ (fun _ _ => rfl) (by decide +kernel),
    by decide +kernel⟩

/-- A body of `ctx.speculate` waits twice on the name before the checkpoint. -/
def waitsTwice : List (Label SignalBytes) :=
  [.send 0 orderWorkflow (.explicit approvedSignal deliveryId (.payload (js "yes"))) false,
    .advance 0, .advance 0,
    .wait orderWorkflow approvedSignal, .wait orderWorkflow approvedSignal,
    .persist orderWorkflow]

theorem signal_consumed_twice :
    ¬ (signalMachine ⟨signalCodec, true⟩).EveryState Deduplicated
      { store := OrderedStore.empty } waitsTwice := by
  intro h
  have hconsumed := h.mono fun s hs => hs.consumed orderWorkflow approvedSignal deliveryId
  exact absurd hconsumed (by decide +kernel)

end Weft.Signals
