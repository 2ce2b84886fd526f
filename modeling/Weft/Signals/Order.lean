import Weft.Signals.Dedup

/-! Anonymous signals. Their numbers come from one stored sequence for each workflow, and the
buffered ones stand in the store in the order of their numbers: a wait is always answered with the
oldest one that is left. -/

namespace Weft.Signals
open Weft.Js Weft.Storage Weft.Lib

universe v

variable {V : Type v}

/-! ## What is to hold -/

/-- The anonymous signals of a list that were sent to a workflow and name. -/
def anonymousTo (xs : List (Sent V)) (workflowId name : Component) : List (Sent V) :=
  xs.filter fun x => x.sequence.isSome && x.workflowId = workflowId && x.name = name

/-- The signals that answered the waits of a list, in the same order. -/
def answers (consumed : List (Staged V)) : List (Sent V) := consumed.filterMap Staged.origin

/-- The anonymous signals sent to a workflow and name are those its waits were answered with,
followed by some that are still in the store, of which a wait finds one. Whatever a wait was
answered with was sent to its workflow and name. -/
structure InOrder (s : State V) : Prop where
  fifo : ∀ workflowId name, ∃ rest,
    anonymousTo s.sent workflowId name = anonymousTo (answers s.consumed) workflowId name ++ rest ∧
      (∀ x ∈ rest, s.store.get x.key = some x.payload) ∧
      (rest = [] ∨ (findBufferedSignalRecord s.store workflowId name).isSome)
  owned : ∀ entry ∈ s.consumed, entry.Owns s.sent

/-! ## Ids -/

/-- The id of an anonymous signal with one of these uuids. -/
def Generated (uuids : Set Component) (signalId : Component) : Prop :=
  ∃ n, ∃ uuid ∈ uuids, signalId = generatedComponent n uuid

/-- The uuids of anonymous signals are among `uuids`, and no chosen id is made from one of these:
`crypto.randomUUID` answers what no caller can foresee. -/
def Request.Respects (uuids : Set Component) : Request V → Prop
  | .anonymous deliveries => ∀ delivery ∈ deliveries, delivery.uuid ∈ uuids
  | .explicit _ signalId _ | .start _ signalId _ => ¬ Generated uuids signalId

/-- Where there are no conditional batches, the senders share one storage object. -/
def Label.Respects (storage : Storage V) (uuids : Set Component) (process : Nat) :
    Label V → Prop
  | .send sender _ request _ =>
    request.Respects uuids ∧ (storage.conditional = true ∨ sender = process)
  | _ => True

/-! ## The invariant -/

structure Ordered (storage : Storage V) (uuids : Set Component) (s : State V) : Prop where
  order : ∀ workflowId name, anonymousTo s.sent workflowId name =
    anonymousTo (answers s.consumed) workflowId name ++ anonymousTo s.buffer workflowId name
  increasing : s.buffer.Pairwise fun x y => x.workflowId = y.workflowId →
    ∀ m ∈ x.sequence, ∀ n ∈ y.sequence, m < n
  counted : ∀ x ∈ s.buffer, ∀ n ∈ x.sequence, ∃ raw next,
    s.store.get (KEYS.signalSequence x.workflowId) = some raw ∧
      storage.codec.decodeSequence raw = some next ∧ n < next
  numbered : ∀ x ∈ s.sent, ∀ n ∈ x.sequence, n < 10 ^ 16 ∧ x.startsRun = false ∧
    ∃ uuid ∈ uuids, x.id = generatedComponent n uuid
  chosen : ∀ x ∈ s.sent, x.sequence = none → ¬ Generated uuids x.id
  nonempty : ∀ x ∈ s.sent, x.id.enc ≠ []
  first : ∀ t ∈ s.staged, ∀ x ∈ t.origin, x.sequence.isSome →
    (anonymousTo s.buffer x.workflowId x.name).head? = some x
  decoded : ∀ c ∈ s.sends, ∀ raw next, c.phase = .committing (some raw) next →
    storage.codec.decodeSequence raw = some next
  respects : ∀ c ∈ s.sends, c.request.Respects uuids

/-- Without conditional batches: a send that has the lock of its workflow has it alone, and the
sequence is still as it read it. -/
structure Locked (process : Nat) (s : State V) : Prop where
  process : ∀ c ∈ s.sends, c.process = process
  alone : ∀ (i j : Nat) (c d : Send V), s.sends[i]? = some c → s.sends[j]? = some d → i ≠ j →
    c.workflowId = d.workflowId → c.inLock = true → d.inLock = false
  scanned : ∀ c ∈ s.sends, c.phase = .scanning →
    s.store.get (KEYS.signalSequence c.workflowId) = none
  read : ∀ c ∈ s.sends, ∀ raw next, c.phase = .committing raw next →
    s.store.get (KEYS.signalSequence c.workflowId) = raw

variable {storage : Storage V} {uuids : Set Component} {s : State V}

variable {x : Sent V}

variable {workflowId name : Component}

theorem mem_anonymousTo {xs : List (Sent V)} : x ∈ anonymousTo xs workflowId name ↔
      x ∈ xs ∧ x.sequence.isSome ∧ x.workflowId = workflowId ∧ x.name = name := by
  simp [anonymousTo, and_assoc]

theorem anonymousTo_append (xs ys : List (Sent V)) (workflowId name : Component) :
    anonymousTo (xs ++ ys) workflowId name =
      anonymousTo xs workflowId name ++ anonymousTo ys workflowId name :=
  List.filter_append _ _

theorem anonymousTo_filter (xs : List (Sent V)) (workflowId name : Component)
    (p : Sent V → Bool) :
    anonymousTo (xs.filter p) workflowId name = (anonymousTo xs workflowId name).filter p :=
  List.filter_comm _ _ _

theorem answers_append (t u : List (Staged V)) : answers (t ++ u) = answers t ++ answers u :=
  List.filterMap_append

theorem mem_answers {consumed : List (Staged V)} :
    x ∈ answers consumed ↔ ∃ t ∈ consumed, x ∈ t.origin := by
  simp [answers]

theorem Ordered.inOrder (h : Ordered storage uuids s) (hkept : Kept storage s) : InOrder s where
  fifo := by
    intro workflowId name
    refine ⟨anonymousTo s.buffer workflowId name, h.order workflowId name, fun x hx => ?_, ?_⟩
    · have hbuffer := (mem_anonymousTo.1 hx).1
      exact (hkept.stored _ _ (sig_prefixed_key x)).2 ⟨x, hbuffer, rfl, rfl⟩
    · cases hrest : anonymousTo s.buffer workflowId name with
      | nil => exact .inl rfl
      | cons x rest =>
        right
        obtain ⟨hx, -, rfl, rfl⟩ := mem_anonymousTo.1 (hrest ▸ List.mem_cons_self)
        refine findBufferedSignalRecord_isSome (fun k v hget hprefixed => ?_)
          ((hkept.stored _ _ (sig_prefixed_key x)).2 ⟨x, hx, rfl, rfl⟩) (bufferPrefixed_key x)
        obtain ⟨y, hy, hkey, -⟩ := (hkept.stored k v (sig_of_bufferPrefixed hprefixed)).1 hget
        exact ⟨y, hkey, h.nonempty y (hkept.known y hy)⟩
  owned := hkept.owned

/-! ## Steps -/

theorem Ordered.sends (h : Ordered storage uuids s) {sends : List (Send V)}
    (hdecoded : ∀ c ∈ sends, ∀ raw next, c.phase = .committing (some raw) next →
      storage.codec.decodeSequence raw = some next)
    (hrespects : ∀ c ∈ sends, c.request.Respects uuids) :
    Ordered storage uuids { s with sends := sends } :=
  { h with decoded := hdecoded, respects := hrespects }

variable {c : Send V}

theorem Ordered.setSend (h : Ordered storage uuids s) (i : Nat)
    (hdecoded : ∀ raw next, c.phase = .committing (some raw) next →
      storage.codec.decodeSequence raw = some next)
    (hrespects : c.request.Respects uuids) : Ordered storage uuids (s.setSend i c) := by
  refine h.sends (fun d hd => ?_) fun d hd => ?_
  · exact (List.mem_or_eq_of_mem_set hd).elim (h.decoded d) fun heq => heq ▸ hdecoded
  · exact (List.mem_or_eq_of_mem_set hd).elim (h.respects d) fun heq => heq ▸ hrespects

theorem Ordered.addSend (h : Ordered storage uuids s)
    (hdecoded : ∀ raw next, c.phase = .committing (some raw) next →
      storage.codec.decodeSequence raw = some next)
    (hrespects : c.request.Respects uuids) :
    Ordered storage uuids { s with sends := s.sends ++ [c] } := by
  refine h.sends (fun d hd => ?_) fun d hd => ?_
  · rcases List.mem_append.1 hd with hd | hd
    · exact h.decoded d hd
    · exact List.mem_singleton.1 hd ▸ hdecoded
  · rcases List.mem_append.1 hd with hd | hd
    · exact h.respects d hd
    · exact List.mem_singleton.1 hd ▸ hrespects

theorem Ordered.unstage (h : Ordered storage uuids s) (p : Staged V → Bool) :
    Ordered storage uuids { s with staged := s.staged.filter p } :=
  { h with first := fun t ht => h.first t (List.mem_of_mem_filter ht) }

/-- An id that was chosen is not that of an anonymous signal. -/
theorem Ordered.id_ne (h : Ordered storage uuids s) {x y : Sent V} (hx : x ∈ s.sent)
    (hsome : x.sequence.isSome) (hy : ¬ Generated uuids y.id) : x.id ≠ y.id := by
  intro heq
  obtain ⟨n, hn⟩ := Option.isSome_iff_exists.1 hsome
  obtain ⟨-, -, uuid, huuid, hid⟩ := h.numbered x hx n hn
  exact hy ⟨n, uuid, huuid, heq ▸ hid⟩

variable {after : Store V}

/-- Signals are added behind the ones that are in the buffer. -/
theorem Ordered.write (h : Ordered storage uuids s) {xs : List (Sent V)}
    (hkeys : ∀ x ∈ s.buffer, x.sequence.isSome → ∀ y ∈ xs, x.key ≠ y.key)
    (hbehind : ∀ x ∈ s.buffer, ∀ y ∈ xs, x.workflowId = y.workflowId →
      ∀ m ∈ x.sequence, ∀ n ∈ y.sequence, m < n)
    (hincreasing : xs.Pairwise fun x y => x.workflowId = y.workflowId →
      ∀ m ∈ x.sequence, ∀ n ∈ y.sequence, m < n)
    (hforward : ∀ w raw next, s.store.get (KEYS.signalSequence w) = some raw →
      storage.codec.decodeSequence raw = some next →
      ∃ raw' next', after.get (KEYS.signalSequence w) = some raw' ∧
      storage.codec.decodeSequence raw' = some next' ∧ next ≤ next')
    (hcounted : ∀ x ∈ xs, ∀ n ∈ x.sequence, ∃ raw next,
      after.get (KEYS.signalSequence x.workflowId) = some raw ∧
      storage.codec.decodeSequence raw = some next ∧ n < next)
    (hnumbered : ∀ x ∈ xs, ∀ n ∈ x.sequence, n < 10 ^ 16 ∧ x.startsRun = false ∧ ∃ uuid ∈ uuids,
      x.id = generatedComponent n uuid)
    (hchosen : ∀ x ∈ xs, x.sequence = none → ¬ Generated uuids x.id)
    (hnonempty : ∀ x ∈ xs, x.id.enc ≠ []) : Ordered storage uuids (s.write after xs) := by
  have hbuffer (workflowId name : Component) :
      anonymousTo (s.write after xs).buffer workflowId name =
        anonymousTo s.buffer workflowId name ++ anonymousTo xs workflowId name := by
    rw [State.write, anonymousTo_append, anonymousTo_filter, List.filter_eq_self.2]
    intro x hx
    obtain ⟨hx, hsome, -⟩ := mem_anonymousTo.1 hx
    simp only [decide_eq_true_eq, List.mem_map, not_exists, not_and]
    exact fun y hy heq => hkeys x hx hsome y hy heq.symm
  refine { h with
    order := ?_
    increasing := ?_
    counted := ?_
    numbered := ?_
    chosen := ?_
    nonempty := ?_
    first := ?_ }
  · intro workflowId name
    rw [hbuffer]
    show anonymousTo (s.sent ++ xs) workflowId name = _
    rw [anonymousTo_append, h.order, List.append_assoc]
    rfl
  · refine List.pairwise_append.2 ⟨h.increasing.filter _, hincreasing, fun x hx => ?_⟩
    exact hbehind x (List.mem_of_mem_filter hx)
  · intro x hx n hn
    rcases List.mem_append.1 hx with hx | hx
    · obtain ⟨raw, next, hget, hdecode, hlt⟩ := h.counted x (List.mem_of_mem_filter hx) n hn
      obtain ⟨raw', next', hget', hdecode', hle⟩ := hforward _ raw next hget hdecode
      exact ⟨raw', next', hget', hdecode', hlt.trans_le hle⟩
    · exact hcounted x hx n hn
  · intro x hx
    exact (List.mem_append.1 hx).elim (h.numbered x) (hnumbered x)
  · intro x hx
    exact (List.mem_append.1 hx).elim (h.chosen x) (hchosen x)
  · intro x hx
    exact (List.mem_append.1 hx).elim (h.nonempty x) (hnonempty x)
  · intro t ht x hx hsome
    rw [hbuffer, List.head?_append, h.first t ht x hx hsome]
    rfl

/-- What a wait finds, if anonymous, is the oldest anonymous signal of its buffer. -/
theorem Ordered.first_of_found (h : Ordered storage uuids s) (hkept : Kept storage s)
    (hx : x ∈ s.buffer) (hsome : x.sequence.isSome) {v : V}
    (hfound : findBufferedSignalRecord s.store x.workflowId x.name = some (x.key, v)) :
    (anonymousTo s.buffer x.workflowId x.name).head? = some x := by
  have hmem : x ∈ anonymousTo s.buffer x.workflowId x.name :=
    mem_anonymousTo.2 ⟨hx, hsome, rfl, rfl⟩
  have hsorted := h.increasing.filter
    (fun y => y.sequence.isSome && y.workflowId = x.workflowId && y.name = x.name)
  change (anonymousTo s.buffer x.workflowId x.name).Pairwise _ at hsorted
  cases hlist : anonymousTo s.buffer x.workflowId x.name with
  | nil =>
    rw [hlist] at hmem
    cases hmem
  | cons y rest =>
    rw [hlist] at hmem hsorted
    rcases List.mem_cons.1 hmem with rfl | hrest
    · rfl
    · obtain ⟨hy, hysome, hworkflow, hname⟩ := mem_anonymousTo.1 (hlist ▸ List.mem_cons_self)
      obtain ⟨m, hm⟩ := Option.isSome_iff_exists.1 hysome
      obtain ⟨n, hn⟩ := Option.isSome_iff_exists.1 hsome
      have hlt : m < n := (List.pairwise_cons.1 hsorted).1 x hrest hworkflow m hm n hn
      obtain ⟨hmbound, hystart, uuid, -, hyid⟩ := h.numbered y (hkept.known y hy) m hm
      obtain ⟨hnbound, hxstart, uuid', -, hxid⟩ := h.numbered x (hkept.known x hx) n hn
      have hkey : y.key < x.key :=
        key_lt_of_sequence_lt hworkflow hname hystart hxstart hyid hxid hmbound hnbound hlt
      have hle := (findBufferedSignalRecord_first hfound).2.2 y.key y.payload
        ((hkept.stored _ _ (sig_prefixed_key y)).2 ⟨y, hy, rfl, rfl⟩)
        (hworkflow ▸ hname ▸ bufferPrefixed_key y)
      exact (hkey.not_ge hle).elim

theorem Ordered.stage (h : Ordered storage uuids s) (hkept : Kept storage s) {k : JsString}
    {v : V} (hx : x ∈ s.buffer) (hkey : x.key = k) (hworkflow : x.workflowId = workflowId)
    (hname : x.name = name)
    (hfound : findBufferedSignalRecord s.store workflowId name = some (k, v)) :
    Ordered storage uuids { s with staged := s.staged ++ [⟨workflowId, name, k, v, some x⟩] } := by
  subst hkey hworkflow hname
  refine { h with first := fun t ht y hy hsome => ?_ }
  rcases List.mem_append.1 ht with ht | ht
  · exact h.first t ht y hy hsome
  · rw [List.mem_singleton.1 ht] at hy
    cases hy
    exact h.first_of_found hkept hx hsome hfound

variable {entries : List (Staged V)}

theorem answers_apart {sent : List (Sent V)}
    (hapart : entries.Pairwise fun t u => ¬ (t.workflowId = u.workflowId ∧ t.name = u.name))
    (howns : ∀ t ∈ entries, t.Owns sent) :
    (answers entries).Pairwise fun x y => ¬ (x.workflowId = y.workflowId ∧ x.name = y.name) := by
  rw [answers, List.pairwise_filterMap]
  refine (List.Pairwise.and_mem.1 hapart).imp ?_
  rintro t u ⟨ht, hu, hnot⟩ x hx y hy
  obtain ⟨-, -, hworkflow, hname⟩ := (howns t ht).origin_mem hx
  obtain ⟨-, -, hworkflow', hname'⟩ := (howns u hu).origin_mem hy
  rwa [hworkflow, hname, hworkflow', hname']

/-- The waits that a checkpoint records were answered with the oldest signals of their buffers. -/
theorem Ordered.split_buffer (h : Ordered storage uuids s) (hkept : Kept storage s)
    (hstaged : ∀ t ∈ entries, t ∈ s.staged)
    (hapart : entries.Pairwise fun t u => ¬ (t.workflowId = u.workflowId ∧ t.name = u.name))
    (workflowId name : Component) :
    anonymousTo s.buffer workflowId name = anonymousTo (answers entries) workflowId name ++
      anonymousTo (s.buffer.filter fun x => x.key ∉ entries.map Staged.key) workflowId name := by
  have howns : ∀ t ∈ entries, t.Owns s.sent := fun t ht => hkept.staged t (hstaged t ht)
  -- A buffered signal is deleted exactly where it answered one of the waits.
  have hdeleted : ∀ x ∈ anonymousTo s.buffer workflowId name, x.key ∈ entries.map Staged.key →
      ∃ y ∈ anonymousTo (answers entries) workflowId name, x.key = y.key := by
    intro x hx hkey
    obtain ⟨hbuffer, hsome, rfl, rfl⟩ := mem_anonymousTo.1 hx
    obtain ⟨t, ht, hkey⟩ := List.mem_map.1 hkey
    obtain ⟨y, hy, horigin, hykey, -⟩ := howns t ht
    rw [← hykey] at hkey
    obtain ⟨hworkflow, hname, hid, -⟩ := Sent.key_inj hkey
    refine ⟨y, mem_anonymousTo.2 ⟨mem_answers.2 ⟨t, ht, horigin⟩, ?_, hworkflow, hname⟩, hkey.symm⟩
    rw [Option.isSome_iff_ne_none]
    intro hnone
    exact h.id_ne (hkept.known x hbuffer) hsome (h.chosen y hy hnone) hid.symm
  have hle := (answers_apart hapart howns).filter
    (fun x => x.sequence.isSome && x.workflowId = workflowId && x.name = name)
  change (anonymousTo (answers entries) workflowId name).Pairwise _ at hle
  rw [anonymousTo_filter]
  cases hanswers : anonymousTo (answers entries) workflowId name with
  | nil =>
    rw [List.nil_append, List.filter_eq_self.2]
    intro x hx
    rw [decide_eq_true_eq]
    intro hkey
    obtain ⟨y, hy, -⟩ := hdeleted x hx hkey
    rw [hanswers] at hy
    cases hy
  | cons x others =>
    have hmem : x ∈ anonymousTo (answers entries) workflowId name :=
      hanswers ▸ List.mem_cons_self
    obtain ⟨hx, hsome, hworkflow, hname⟩ := mem_anonymousTo.1 hmem
    have hothers : others = [] := by
      rw [List.eq_nil_iff_forall_not_mem]
      intro y hy
      obtain ⟨-, -, hworkflow', hname'⟩ := mem_anonymousTo.1 (hanswers ▸ List.mem_cons_of_mem x hy)
      rw [hanswers] at hle
      apply (List.pairwise_cons.1 hle).1 y hy
      rw [hworkflow, hname, hworkflow', hname']
      exact ⟨rfl, rfl⟩
    subst hothers
    obtain ⟨t, ht, horigin⟩ := mem_answers.1 hx
    have hfirst := h.first t (hstaged t ht) x horigin hsome
    rw [hworkflow, hname] at hfirst
    obtain ⟨rest, hrest⟩ := List.head?_eq_some_iff.1 hfirst
    have hkey : x.key ∈ entries.map Staged.key := by
      rw [((howns t ht).origin_mem horigin).2.1]
      exact List.mem_map_of_mem ht
    have hdistinct := hkept.distinct.filter
      (fun x => x.sequence.isSome && x.workflowId = workflowId && x.name = name)
    change (anonymousTo s.buffer workflowId name).Pairwise _ at hdistinct
    rw [hrest] at hdistinct ⊢
    rw [List.filter_cons_of_neg (by simpa using hkey), List.filter_eq_self.2]
    · rfl
    · intro y hy
      rw [decide_eq_true_eq]
      intro hykey
      obtain ⟨z, hz, heq⟩ := hdeleted y (hrest ▸ List.mem_cons_of_mem x hy) hykey
      rw [hanswers, List.mem_singleton] at hz
      subst hz
      exact (List.pairwise_cons.1 hdistinct).1 y hy heq.symm

theorem Ordered.consume (h : Ordered storage uuids s) (hkept : Kept storage s)
    (workflowId : Component)
    (hentries : s.staged.filter (fun entry => entry.workflowId = workflowId) = entries) :
    Ordered storage uuids { s with
      store := applyBatchOperations s.store (stagedOperations entries)
      staged := s.staged.filter fun entry => entry.workflowId ≠ workflowId
      buffer := s.buffer.filter fun x => x.key ∉ entries.map Staged.key
      consumed := s.consumed ++ entries } := by
  have hmem : ∀ t ∈ entries, t ∈ s.staged ∧ t.workflowId = workflowId := by
    intro t ht
    rw [← hentries] at ht
    simpa using List.mem_filter.1 ht
  have hsplit := h.split_buffer hkept (fun t ht => (hmem t ht).1) (hentries ▸ hkept.apart.filter _)
  refine { h with
    order := fun w n => ?_
    increasing := h.increasing.filter _
    counted := fun x hx n hn => ?_
    first := fun t ht x hx hsome => ?_ }
  · rw [answers_append, anonymousTo_append, List.append_assoc, ← hsplit, h.order]
  · rw [get_stagedOperations, if_neg]
    · exact h.counted x (List.mem_of_mem_filter hx) n hn
    · intro hdeleted
      obtain ⟨t, ht, hkey⟩ := List.mem_map.1 hdeleted
      obtain ⟨y, -, -, hykey, -⟩ := hkept.staged t (hmem t ht).1
      exact sequenceKey_not_sig x.workflowId (hkey ▸ hykey ▸ sig_prefixed_key y)
  · obtain ⟨ht, hother⟩ : t ∈ s.staged ∧ t.workflowId ≠ workflowId := by
      simpa using List.mem_filter.1 ht
    obtain ⟨-, -, hworkflow, -⟩ := (hkept.staged t ht).origin_mem hx
    have hnone : anonymousTo (answers entries) x.workflowId x.name = [] := by
      rw [List.eq_nil_iff_forall_not_mem]
      intro y hy
      obtain ⟨hy, -, hyworkflow, -⟩ := mem_anonymousTo.1 hy
      obtain ⟨u, hu, hyorigin⟩ := mem_answers.1 hy
      obtain ⟨-, -, huworkflow, -⟩ := (hkept.staged u (hmem u hu).1).origin_mem hyorigin
      exact hother (by rw [← hworkflow, ← hyworkflow, huworkflow, (hmem u hu).2])
    have hkeep := hsplit x.workflowId x.name
    rw [hnone, List.nil_append] at hkeep
    rw [← hkeep]
    exact h.first t ht x hx hsome

/-! ## Sends -/

theorem enc_ne_nil_of_valid {signalId : Component} (h : validSignalId signalId = true) :
    signalId.enc ≠ [] := by
  intro hnil
  have htext : signalId.text = [] := by
    have hencode := signalId.encode_text
    rw [hnil] at hencode
    exact encodeURIComponent_injective hencode rfl
  simp [validSignalId, htext] at h

section

variable [DecidableEq V]

/-- An anonymous send commits while the sequence is as it read it. -/
theorem Ordered.commit_anonymous (h : Ordered storage uuids s) (hc : c.Shaped storage)
    (hsend : c ∈ s.sends) {deliveries : List (BufferedSignalDelivery V)} {raw : Option V}
    {next : Nat} (hrequest : c.request = .anonymous deliveries)
    (hphase : c.phase = .committing raw next)
    (hread : s.store.get (KEYS.signalSequence c.workflowId) = raw) (hkept : Kept storage s)
    (hbatch : writeBatch storage s.store c.conditions (c.operations storage.codec) = some (true,
      after)) :
    Ordered storage uuids (s.write after c.signals) := by
  obtain ⟨-, hafter, hsize⟩ := writeBatch_committed hbatch
  have hbound := next_add_le hc hrequest hphase hsize
  have hsignals : c.signals = anonymousSignals c.workflowId next deliveries := by
    simp [Send.signals, hrequest, hphase]
  have hdistinct : c.signals.Pairwise fun x y => x.key ≠ y.key := by
    rw [hsignals]
    exact anonymousSignals_distinct hbound
  obtain ⟨-, hsequence, -⟩ :=
    get_anonymous_operations storage.codec s.store hrequest hphase hdistinct hafter.symm
  have huuids := h.respects c hsend
  simp only [hrequest, Request.Respects] at huuids
  have hcurrent : ∀ stored value, s.store.get (KEYS.signalSequence c.workflowId) = some stored →
      storage.codec.decodeSequence stored = some value → value = next := by
    intro stored value hget hdecode
    rw [hread] at hget
    subst hget
    exact Option.some.inj (hdecode.symm.trans (h.decoded c hsend stored next hphase))
  have hmem : ∀ x ∈ c.signals, x.workflowId = c.workflowId ∧ x.startsRun = false ∧
      ∃ n, next ≤ n ∧ n < next + deliveries.length ∧ x.sequence = some n ∧
        ∃ uuid ∈ uuids, x.id = generatedComponent n uuid := by
    intro x hx
    rw [hsignals] at hx
    obtain ⟨hworkflow, hstart, n, delivery, hdelivery, hle, hlt, hn, hid⟩ := mem_anonymousSignals hx
    exact ⟨hworkflow, hstart, n, hle, hlt, hn, delivery.uuid, huuids delivery hdelivery, hid⟩
  have hbehind : ∀ x ∈ s.buffer, x.workflowId = c.workflowId → ∀ m ∈ x.sequence, m < next := by
    intro x hx hworkflow m hm
    obtain ⟨stored, value, hget, hdecode, hlt⟩ := h.counted x hx m hm
    rw [hworkflow] at hget
    rwa [hcurrent stored value hget hdecode] at hlt
  have hnew : ∀ x ∈ s.buffer, ∀ y ∈ c.signals, x.workflowId = y.workflowId →
      ∀ m ∈ x.sequence, ∀ n ∈ y.sequence, m < n := by
    intro x hx y hy hworkflow m hm n hn
    obtain ⟨hyworkflow, -, n', hle, -, hn', -⟩ := hmem y hy
    cases hn'.symm.trans hn
    exact (hbehind x hx (hworkflow.trans hyworkflow) m hm).trans_le hle
  refine h.write ?_ hnew ?_ ?_ ?_ ?_ ?_ ?_
  · intro x hx hsome y hy hkey
    obtain ⟨hworkflow, -, hid, -⟩ := Sent.key_inj hkey
    obtain ⟨m, hm⟩ := Option.isSome_iff_exists.1 hsome
    obtain ⟨-, -, n, -, hlt, hn, uuid', -, hyid⟩ := hmem y hy
    obtain ⟨hmbound, -, uuid, -, hxid⟩ := h.numbered x (hkept.known x hx) m hm
    rw [hxid, hyid] at hid
    have heq := generatedComponent_sequence hid hmbound (by omega)
    exact (hnew x hx y hy hworkflow m hm n hn).ne heq
  · rw [hsignals]
    refine (anonymousSignals_increasing _ _ _).imp ?_
    intro x y hlt _
    exact hlt
  · intro w stored value hget hdecode
    rw [hsequence w]
    split_ifs with hw
    · subst hw
      refine ⟨_, _, rfl, storage.codec.decodeSequence_encode _, ?_⟩
      rw [hcurrent stored value hget hdecode]
      omega
    · exact ⟨stored, value, hget, hdecode, le_rfl⟩
  · intro x hx n hn
    obtain ⟨hworkflow, -, n', -, hlt, hn', -⟩ := hmem x hx
    cases hn'.symm.trans hn
    rw [hsequence, if_pos hworkflow]
    exact ⟨_, _, rfl, storage.codec.decodeSequence_encode _, hlt⟩
  · intro x hx n hn
    obtain ⟨-, hstart, n', -, hlt, hn', huuid⟩ := hmem x hx
    cases hn'.symm.trans hn
    exact ⟨by omega, hstart, huuid⟩
  · intro x hx hnone
    obtain ⟨-, -, n, -, -, hn, -⟩ := hmem x hx
    rw [hnone] at hn
    cases hn
  · intro x hx hnil
    obtain ⟨-, -, n, -, -, -, uuid, -, hid⟩ := hmem x hx
    rw [hid, enc_generatedComponent] at hnil
    simp only [List.append_eq_nil_iff] at hnil
    exact absurd hnil.1.1.1 (by decide +kernel)

theorem Ordered.commit_marked (h : Ordered storage uuids s) (hkept : Kept storage s)
    (hsignals : c.signals = [x]) (hnone : x.sequence = none) (hvalid : validSignalId x.id = true)
    (hchosen : ¬ Generated uuids x.id)
    (hoperations : c.operations storage.codec =
      c.signals.map Sent.put ++ cleanupOperations storage.codec c ++ [BatchOperation.put
      (KEYS.signalAcceptedResponse x.workflowId x.name x.id) storage.codec.acceptedResponse] ∨
      c.operations storage.codec = c.signals.map Sent.put ++ [BatchOperation.put
      (KEYS.signalAcceptedResponse x.workflowId x.name x.id) storage.codec.acceptedResponse])
    (hbatch : writeBatch storage s.store c.conditions (c.operations storage.codec) = some (true,
      after)) :
    Ordered storage uuids (s.write after c.signals) := by
  obtain ⟨-, hafter, -⟩ := writeBatch_committed hbatch
  obtain ⟨-, hsequence, -⟩ :=
    get_marked_operations storage.codec s.store hsignals hoperations hafter.symm
  have hnumber (n : Nat) (hn : n ∈ x.sequence) : False := by
    rw [hnone] at hn
    cases hn
  rw [hsignals]
  refine h.write ?_ ?_ (List.pairwise_singleton _ _) ?_ ?_ ?_ ?_ ?_
  · intro y hy hsome z hz hkey
    rw [List.mem_singleton.1 hz] at hkey
    exact h.id_ne (hkept.known y hy) hsome hchosen (Sent.key_inj hkey).2.2.1
  · intro y _ z hz _ m _ n hn
    rw [List.mem_singleton.1 hz] at hn
    exact (hnumber n hn).elim
  · intro w raw next hget hdecode
    exact ⟨raw, next, (hsequence w).trans hget, hdecode, le_rfl⟩
  · intro y hy n hn
    rw [List.mem_singleton.1 hy] at hn
    exact (hnumber n hn).elim
  · intro y hy n hn
    rw [List.mem_singleton.1 hy] at hn
    exact (hnumber n hn).elim
  · intro y hy _
    rwa [List.mem_singleton.1 hy]
  · intro y hy
    rw [List.mem_singleton.1 hy]
    exact enc_ne_nil_of_valid hvalid

variable {t : State V}

theorem Ordered.advance (h : Ordered storage uuids s) (hkept : Kept storage s) {i : Nat}
    (hsend : s.sends[i]? = some c)
    (hread : storage.conditional = false → ∀ raw next, c.phase = .committing raw next →
      s.store.get (KEYS.signalSequence c.workflowId) = raw)
    (hstep : s.advance storage i c = some t) : Ordered storage uuids t := by
  have hmem := List.mem_of_getElem? hsend
  have hc := hkept.shaped c hmem
  have hrespects := h.respects c hmem
  cases advances_of_advance hc hstep with
  | ends => exact h.setSend i (by simp) hrespects
  | locks => exact h.setSend i (by simp) hrespects
  | finds => exact h.setSend i (by simp) hrespects
  | reads hrequest hphase hget hdecode hsafe =>
    refine h.setSend i (fun raw next heq => ?_) hrespects
    obtain ⟨hraw, hnext⟩ := Phase.committing.inj heq
    rw [← Option.some.inj hraw, ← hnext]
    exact hdecode
  | scans => exact h.setSend i (by simp) hrespects
  | checks => exact h.setSend i (by simp) hrespects
  | retries => exact h.setSend i (by simp) hrespects
  | commits hrequest hphase hbatch =>
    rename_i raw next after
    refine (h.commit_anonymous hc hmem hrequest hphase ?_ hkept hbatch).setSend i (by simp)
      hrespects
    cases hconditional : storage.conditional with
    | true =>
      exact (writeBatch_committed hbatch).1 hconditional ⟨KEYS.signalSequence c.workflowId, raw⟩
        (by simp [Send.conditions, hrequest, hphase])
    | false => exact hread hconditional raw next hphase
  | marks hconditional hsignals hnone hvalid hchosen hoperations hconditions hbatch =>
    rename_i x after
    have hchosen' : ¬ Generated uuids x.id := by
      obtain ⟨name, payload, hrequest⟩ | ⟨name, payload, hrequest⟩ := hchosen
      · rwa [hrequest] at hrespects
      · rwa [hrequest] at hrespects
    exact (h.commit_marked hkept hsignals hnone hvalid hchosen' hoperations hbatch).setSend i
      (by simp) hrespects

end

/-! ## The lock -/

variable {t : State V} {process : Nat}

theorem inLock_of_scanning (h : c.phase = .scanning) : c.inLock = true := by
  rw [Send.inLock, h]

theorem inLock_of_committing {raw : Option V} {next : Nat} (h : c.phase = .committing raw next) :
    c.inLock = true := by
  rw [Send.inLock, h]

/-- One send moves, and the sequence of its workflow changes at most if it has the lock. -/
theorem Locked.update (h : Locked process s) {i : Nat} {c c' : Send V} (hi : s.sends[i]? = some c)
    (hsends : t.sends = s.sends.set i c') (hprocess : c'.process = c.process)
    (hworkflow : c'.workflowId = c.workflowId)
    (hlock : c'.inLock = true → c.inLock = true ∨ ∀ d ∈ s.sends, d.workflowId = c.workflowId →
      d.inLock = false)
    (hstore : ∀ w, t.store.get (KEYS.signalSequence w) = s.store.get (KEYS.signalSequence w) ∨
      w = c.workflowId ∧ c.inLock = true)
    (hscanned : c'.phase = .scanning → t.store.get (KEYS.signalSequence c.workflowId) = none)
    (hread : ∀ raw next, c'.phase = .committing raw next →
      t.store.get (KEYS.signalSequence c.workflowId) = raw) :
    Locked process t := by
  have hlt : i < s.sends.length := (List.getElem?_eq_some_iff.1 hi).1
  have hget : ∀ j d, t.sends[j]? = some d → (j = i ∧ d = c') ∨ j ≠ i ∧ s.sends[j]? = some d := by
    intro j d hd
    rw [hsends] at hd
    exact getElem?_set_cases hd
  have hmem : ∀ d ∈ t.sends, d = c' ∨ ∃ j, j ≠ i ∧ s.sends[j]? = some d := by
    intro d hd
    rw [hsends] at hd
    exact mem_set_cases hd
  have hkept : ∀ d j, j ≠ i → s.sends[j]? = some d → d.inLock = true →
      t.store.get (KEYS.signalSequence d.workflowId) =
        s.store.get (KEYS.signalSequence d.workflowId) := by
    intro d j hne hj hd
    obtain heq | ⟨hw, hc⟩ := hstore d.workflowId
    · exact heq
    · rw [h.alone i j c d hi hj hne.symm hw.symm hc] at hd
      cases hd
  have hfree : ∀ d j, j ≠ i → s.sends[j]? = some d → d.workflowId = c.workflowId →
      c'.inLock = true → d.inLock = false := by
    intro d j hne hj hw hc'
    obtain hc | hnone := hlock hc'
    · exact h.alone i j c d hi hj hne.symm hw.symm hc
    · exact hnone d (List.mem_of_getElem? hj) hw
  refine ⟨fun d hd => ?_, fun j k d e hj hk hne hw hd => ?_, fun d hd hphase => ?_,
    fun d hd raw next hphase => ?_⟩
  · obtain rfl | ⟨j, -, hj⟩ := hmem d hd
    · exact hprocess.trans (h.process c (List.mem_of_getElem? hi))
    · exact h.process d (List.mem_of_getElem? hj)
  · obtain ⟨rfl, rfl⟩ | ⟨hji, hj⟩ := hget j d hj
    · obtain ⟨rfl, -⟩ | ⟨hki, hk⟩ := hget k e hk
      · exact (hne rfl).elim
      · exact hfree e k hki hk (hw.symm.trans hworkflow) hd
    · obtain ⟨rfl, rfl⟩ | ⟨hki, hk⟩ := hget k e hk
      · by_contra he
        rw [hfree d j hji hj (hw.trans hworkflow) (by simpa using he)] at hd
        cases hd
      · exact h.alone j k d e hj hk hne hw hd
  · obtain rfl | ⟨j, hne, hj⟩ := hmem d hd
    · rw [hworkflow]
      exact hscanned hphase
    · rw [hkept d j hne hj (inLock_of_scanning hphase)]
      exact h.scanned d (List.mem_of_getElem? hj) hphase
  · obtain rfl | ⟨j, hne, hj⟩ := hmem d hd
    · rw [hworkflow]
      exact hread raw next hphase
    · rw [hkept d j hne hj (inLock_of_committing hphase)]
      exact h.read d (List.mem_of_getElem? hj) raw next hphase

theorem Locked.addSend (h : Locked process s) (hprocess : c.process = process)
    (hphase : c.phase = .locking) : Locked process { s with sends := s.sends ++ [c] } := by
  have hlock : c.inLock = false := by
    rw [Send.inLock, hphase]
  have hget : ∀ (i : Nat) d, (s.sends ++ [c])[i]? = some d → d.inLock = true →
      s.sends[i]? = some d := by
    intro i d hi hd
    rw [List.getElem?_append] at hi
    split_ifs at hi
    · exact hi
    · obtain rfl := List.mem_singleton.1 (List.mem_of_getElem? hi)
      rw [hlock] at hd
      cases hd
  have hmem : ∀ d ∈ s.sends ++ [c], d.inLock = true → d ∈ s.sends := by
    intro d hd hdlock
    obtain ⟨i, hi⟩ := List.getElem?_of_mem hd
    exact List.mem_of_getElem? (hget i d hi hdlock)
  refine ⟨fun d hd => ?_, fun i j d e hi hj hne hw hd => ?_, fun d hd hphase => ?_,
    fun d hd raw next hphase => ?_⟩
  · rcases List.mem_append.1 hd with hd | hd
    · exact h.process d hd
    · exact List.mem_singleton.1 hd ▸ hprocess
  · by_contra he
    have he' : e.inLock = true := by simpa using he
    exact he (h.alone i j d e (hget i d hi hd) (hget j e hj he') hne hw hd)
  · exact h.scanned d (hmem d hd (inLock_of_scanning hphase)) hphase
  · exact h.read d (hmem d hd (inLock_of_committing hphase)) raw next hphase

theorem Locked.restore (h : Locked process s) (hsends : t.sends = s.sends)
    (hstore : ∀ w, t.store.get (KEYS.signalSequence w) = s.store.get (KEYS.signalSequence w)) :
    Locked process t := by
  refine ⟨hsends ▸ h.process, hsends ▸ h.alone, fun c hc hphase => ?_,
    fun c hc raw next hphase => ?_⟩
  · rw [hstore]
    exact h.scanned c (hsends ▸ hc) hphase
  · rw [hstore]
    exact h.read c (hsends ▸ hc) raw next hphase

variable [DecidableEq V]

theorem Locked.advance (h : Locked process s) (hconditional : storage.conditional = false)
    (hkept : Kept storage s) {i : Nat} (hi : s.sends[i]? = some c)
    (hstep : s.advance storage i c = some t) : Locked process t := by
  have hc := hkept.shaped c (List.mem_of_getElem? hi)
  cases advances_of_advance hc hstep with
  | ends =>
    exact h.update hi rfl rfl rfl (fun hlock => by cases hlock) (fun _ => .inl rfl)
      (fun hphase => by cases hphase) fun _ _ hphase => by cases hphase
  | locks hrequest hphase hfree =>
    refine h.update hi rfl rfl rfl (fun _ => .inr fun d hd hw => ?_) (fun _ => .inl rfl)
      (fun hphase => by cases hphase) fun _ _ hphase => by cases hphase
    refine hfree d hd ?_ hw
    rw [h.process d hd, h.process c (List.mem_of_getElem? hi)]
  | finds hrequest hphase hget =>
    refine h.update hi rfl rfl rfl (fun _ => .inl ?_) (fun _ => .inl rfl) (fun _ => hget)
      fun _ _ hphase => by cases hphase
    rw [Send.inLock, hphase]
  | reads hrequest hphase hget hdecode hsafe =>
    refine h.update hi rfl rfl rfl (fun _ => .inl ?_) (fun _ => .inl rfl)
      (fun hphase => by cases hphase) fun raw next heq => ?_
    · rw [Send.inLock, hphase]
    · rw [← (Phase.committing.inj heq).1]
      exact hget
  | scans hrequest hphase hscan =>
    refine h.update hi rfl rfl rfl (fun _ => .inl (inLock_of_scanning hphase)) (fun _ => .inl rfl)
      (fun hphase => by cases hphase) fun raw next heq => ?_
    rw [← (Phase.committing.inj heq).1]
    exact h.scanned c (List.mem_of_getElem? hi) hphase
  | checks =>
    exact h.update hi rfl rfl rfl (fun hlock => by cases hlock) (fun _ => .inl rfl)
      (fun hphase => by cases hphase) fun _ _ hphase => by cases hphase
  | retries hrequest hphase =>
    exact h.update hi rfl rfl rfl (fun _ => .inl (inLock_of_committing hphase))
      (fun _ => .inl rfl) (fun hphase => by cases hphase) fun _ _ hphase => by cases hphase
  | commits hrequest hphase hbatch =>
    obtain ⟨-, hafter, hsize⟩ := writeBatch_committed hbatch
    have hdistinct : c.signals.Pairwise fun x y => x.key ≠ y.key := by
      simp only [Send.signals, hrequest, hphase]
      exact anonymousSignals_distinct (next_add_le hc hrequest hphase hsize)
    obtain ⟨-, hsequence, -⟩ :=
      get_anonymous_operations storage.codec s.store hrequest hphase hdistinct hafter.symm
    refine h.update hi rfl rfl rfl (fun hlock => by cases hlock) (fun w => ?_)
      (fun hphase => by cases hphase) fun _ _ hphase => by cases hphase
    by_cases hw : w = c.workflowId
    · exact .inr ⟨hw, inLock_of_committing hphase⟩
    · left
      show OrderedStore.get _ _ = _
      exact (hsequence w).trans (if_neg hw)
  | marks hconditional' =>
    rw [hconditional] at hconditional'
    cases hconditional'

/-! ## Runs -/

/-- What every state of a run keeps. -/
structure Settled (storage : Storage V) (uuids : Set Component) (process : Nat) (s : State V) :
    Prop where
  kept : Kept storage s
  ordered : Ordered storage uuids s
  locked : storage.conditional = false → Locked process s

theorem Settled.step (h : Settled storage uuids process s) {a : Label V}
    (ha : a.Respects storage uuids process) (hturn : InTurn s a)
    (hstep : Weft.Signals.step storage s a = some t) : Settled storage uuids process t := by
  have hkept : Kept storage t := h.kept.step hturn hstep
  cases a with
  | send sender workflowId request cleanupTracked =>
    obtain ⟨phase, hphase, rfl⟩ := Option.map_eq_some_iff.1 hstep
    have hfirst := firstPhase_cases hphase
    refine ⟨hkept, h.ordered.addSend (fun raw next heq => ?_) ha.1, fun hconditional => ?_⟩
    · exact (hfirst.1 (some raw) next heq).elim
    · refine (h.locked hconditional).addSend ?_ (hfirst.2 hconditional)
      exact ha.2.resolve_left (by simp [hconditional])
  | advance i =>
    obtain ⟨c, hi, hstep⟩ := Option.bind_eq_some_iff.1 hstep
    refine ⟨hkept, h.ordered.advance h.kept hi (fun hconditional => ?_) hstep,
      fun hconditional => ?_⟩
    · exact (h.locked hconditional).read c (List.mem_of_getElem? hi)
    · exact (h.locked hconditional).advance hconditional h.kept hi hstep
  | fail i =>
    obtain ⟨c, hi, rfl⟩ := Option.map_eq_some_iff.1 hstep
    refine ⟨hkept, h.ordered.setSend i (by simp) (h.ordered.respects c (List.mem_of_getElem? hi)),
      fun hconditional => ?_⟩
    exact (h.locked hconditional).update hi rfl rfl rfl (fun hlock => by cases hlock)
      (fun _ => .inl rfl) (fun hphase => by cases hphase) fun _ _ hphase => by cases hphase
  | wait workflowId signalName =>
    simp only [Weft.Signals.step] at hstep
    split at hstep
    · cases hstep
      exact h
    · rename_i k v hfound
      cases hstep
      obtain ⟨x, hx, hkey, -, hworkflow, hname, hfind, -⟩ := h.kept.stage hturn hfound
      refine ⟨hkept, ?_, fun hconditional => ?_⟩
      · rw [hfind]
        exact h.ordered.stage h.kept hx hkey hworkflow hname hfound
      · exact { h.locked hconditional with }
  | persist workflowId =>
    cases hstep
    simp only [State.persist] at hkept ⊢
    split
    · rename_i after hbatch
      rw [hbatch] at hkept
      obtain ⟨-, rfl, -⟩ := writeBatch_committed hbatch
      refine ⟨hkept, h.ordered.consume h.kept workflowId rfl, fun hconditional => ?_⟩
      refine (h.locked hconditional).restore rfl fun w => ?_
      show OrderedStore.get (applyBatchOperations _ _) _ = _
      rw [get_stagedOperations, if_neg]
      intro hdeleted
      obtain ⟨t, ht, hkey⟩ := List.mem_map.1 hdeleted
      obtain ⟨y, -, -, hykey, -⟩ := h.kept.staged t (List.mem_of_mem_filter ht)
      exact sequenceKey_not_sig w (hkey ▸ hykey ▸ sig_prefixed_key y)
    · refine ⟨h.kept.unstage _, h.ordered.unstage _, fun hconditional => ?_⟩
      exact { h.locked hconditional with }
  | drop workflowId =>
    cases hstep
    refine ⟨hkept, h.ordered.unstage _, fun hconditional => ?_⟩
    exact { h.locked hconditional with }

omit [DecidableEq V] in
theorem Settled.start {store : Store V} (hempty : ∀ k, js "sig:" <+: k → store.get k = none) :
    Settled storage uuids process { store := store } where
  kept := Kept.start hempty
  ordered :=
    { order := fun _ _ => rfl
      increasing := List.Pairwise.nil
      counted := by simp
      numbered := by simp
      chosen := by simp
      nonempty := by simp
      first := by simp
      decoded := by simp
      respects := by simp }
  locked := fun _ =>
    { process := by simp
      alone := by simp
      scanned := by simp
      read := by simp }

/-- Any number of senders, in any order of their steps with those of the waits and checkpoints,
from a store without buffered signals: on a storage with conditional batches, or with senders that
share one storage object, and with the waits of each name in turn, the anonymous signals of a
workflow and name are consumed in the order in which they were committed, none is lost, and every
wait is answered with a signal of its own. -/
theorem anonymous_signals_in_order (storage : Storage V) {store : Store V}
    (hempty : ∀ k, js "sig:" <+: k → store.get k = none) (uuids : Set Component) (process : Nat)
    {as : List (Label V)} (hrun : (signalMachine storage).EveryStep
      (fun s a => a.Respects storage uuids process ∧ InTurn s a) { store := store } as) :
    (signalMachine storage).EveryState InOrder { store := store } as := by
  have hsettled : (signalMachine storage).EveryState (Settled storage uuids process)
      { store := store } as :=
    Machine.everyState_of_invariant (fun _ _ _ hs ha hstep => hs.step ha.1 ha.2 hstep)
      (Settled.start hempty) hrun
  exact hsettled.mono fun s hs => hs.ordered.inOrder hs.kept

/-! ## Two senders -/

def firstUuid : Component := ⟨js "0f8fad5b-d9cb-469f-a165-70867728950e", by decide +kernel⟩

def secondUuid : Component := ⟨js "7c9e6679-7425-40de-944b-e07fc1f90ae7", by decide +kernel⟩

def sendYes (process : Nat) : Label SignalBytes :=
  .send process orderWorkflow
    (.anonymous [⟨approvedSignal, .payload (js "yes"), secondUuid⟩]) false

def sendNo (process : Nat) : Label SignalBytes :=
  .send process orderWorkflow
    (.anonymous [⟨approvedSignal, .payload (js "no"), firstUuid⟩]) false

/-- Two processes read the sequence before either of them writes it, and both take the same
number. -/
def sameNumberTwice : List (Label SignalBytes) :=
  [sendYes 0, sendNo 1, .advance 0, .advance 0, .advance 0, .advance 1, .advance 1, .advance 1,
    .advance 0, .advance 1, .wait orderWorkflow approvedSignal, .persist orderWorkflow]

theorem anonymous_signals_out_of_order :
    ¬ (signalMachine ⟨signalCodec, false⟩).EveryState InOrder { store := OrderedStore.empty }
      sameNumberTwice := by
  intro h
  have hprefixed := h.mono (R := fun s => anonymousTo (answers s.consumed) orderWorkflow
      approvedSignal <+: anonymousTo s.sent orderWorkflow approvedSignal) fun s hs => by
    obtain ⟨rest, heq, -⟩ := hs.fifo orderWorkflow approvedSignal
    exact ⟨rest, heq.symm⟩
  exact absurd hprefixed (by decide +kernel)

theorem deliveryId_not_generated (uuids : Set Component) : ¬ Generated uuids deliveryId := by
  rintro ⟨n, uuid, -, h⟩
  have htext : js "delivery-1" = generatedSignalId n uuid.text := congrArg Component.text h
  have hhead : (js "delivery-1").head? = (js "anonymous:").head? := by
    rw [htext]
    rfl
  exact absurd hhead (by decide +kernel)

/-- The second sender loses the sequence to the first one and takes the next number; the signal of
the start is consumed before both. -/
def numberTakenOver : List (Label SignalBytes) :=
  [sendYes 0, sendNo 1, .advance 0, .advance 0, .advance 1, .advance 1, .advance 0, .advance 1,
    .advance 1,
    .send 0 orderWorkflow (.start approvedSignal deliveryId (.payload (js "soon"))) false,
    .advance 2,
    .wait orderWorkflow approvedSignal, .persist orderWorkflow, .advance 1,
    .wait orderWorkflow approvedSignal, .persist orderWorkflow,
    .wait orderWorkflow approvedSignal, .persist orderWorkflow]

theorem anonymous_signals_in_order_taken_over :
    (signalMachine ⟨signalCodec, true⟩).EveryState InOrder { store := OrderedStore.empty }
      numberTakenOver ∧
    ((signalMachine ⟨signalCodec, true⟩).final { store := OrderedStore.empty }
      numberTakenOver).consumed.map Staged.value =
        [.payload (js "soon"), .payload (js "yes"), .payload (js "no")] := by
  have hrespects : (signalMachine ⟨signalCodec, true⟩).EveryStep
      (fun _ a => a.Respects ⟨signalCodec, true⟩ Set.univ 0)
      { store := OrderedStore.empty } numberTakenOver := by
    refine Machine.everyStep_of_forall_mem (fun a ha => ?_) _
    simp only [numberTakenOver, List.mem_cons, List.not_mem_nil, or_false] at ha
    rcases ha with rfl | rfl | rfl | rfl | rfl | rfl | rfl | rfl | rfl | rfl | rfl | rfl | rfl |
      rfl | rfl | rfl | rfl | rfl
    all_goals first
      | trivial
      | exact ⟨fun _ _ => trivial, .inl rfl⟩
      | exact ⟨deliveryId_not_generated _, .inl rfl⟩
  have hturn : (signalMachine ⟨signalCodec, true⟩).EveryStep InTurn
      { store := OrderedStore.empty } numberTakenOver := by decide +kernel
  exact ⟨anonymous_signals_in_order ⟨signalCodec, true⟩ (fun _ _ => rfl) Set.univ 0
    (hrespects.and hturn), by decide +kernel⟩

end Weft.Signals
