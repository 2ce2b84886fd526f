import Weft.Signals.Model

/-! The keys of buffered signals: they determine workflow, name, class and id, anonymous ones are
ordered by their numbers, and a wait finds the first key of its workflow and name. -/

namespace Weft.Signals
open Weft.Js Weft.Storage Weft.Lib

universe v

variable {V : Type v}

/-! ## Parts of a key -/

theorem append_colon_inj {a b x y : JsString} (ha : colon ∉ a) (hb : colon ∉ b)
    (h : a ++ colon :: x = b ++ colon :: y) : a = b ∧ x = y := by
  have hab : a = b := by
    have hpre : a ++ [colon] <+: b ++ colon :: y := by
      rw [← h]
      exact ⟨x, by simp⟩
    exact Lex.eq_of_marked_prefixed ha hb hpre
  subst hab
  exact ⟨rfl, List.cons.inj (List.append_cancel_left h) |>.2⟩

theorem signalStorageKey_eq (workflowId name id : Component) (sortClass : JsString) :
    KEYS.signalStorageKey workflowId name id sortClass =
      js "sig" ++ colon :: (workflowId.enc ++ colon :: (name.enc ++ colon ::
        (sortClass ++ colon :: id.enc))) := by
  have hfamily : js "sig:" = js "sig" ++ [colon] := by decide
  simp [KEYS.signalStorageKey, hfamily]

def Sent.sortClass (x : Sent V) : JsString := if x.startsRun then js "0" else js "1"

theorem Sent.key_eq (x : Sent V) :
    x.key = js "sig" ++ colon :: (x.workflowId.enc ++ colon :: (x.name.enc ++ colon ::
      (x.sortClass ++ colon :: x.id.enc))) := by
  unfold Sent.key Sent.sortClass
  split_ifs
  · exact signalStorageKey_eq _ _ _ _
  · exact signalStorageKey_eq _ _ _ _

theorem colon_notMem_sortClass (x : Sent V) : colon ∉ x.sortClass := by
  unfold Sent.sortClass
  split_ifs
  · decide
  · decide

variable {x y : Sent V}

theorem sortClass_inj (h : x.sortClass = y.sortClass) : x.startsRun = y.startsRun := by
  have hne : js "0" ≠ js "1" := by decide
  unfold Sent.sortClass at h
  split_ifs at h with hx hy hy
  · rw [hx, hy]
  · exact (hne h).elim
  · exact (hne h.symm).elim
  · rw [Bool.eq_false_iff.2 hx, Bool.eq_false_iff.2 hy]

theorem colon_notMem_family : colon ∉ js "sig" := by decide

/-- A key belongs to one workflow, name, id and class. -/
theorem Sent.key_inj (h : x.key = y.key) :
    x.workflowId = y.workflowId ∧ x.name = y.name ∧ x.id = y.id ∧ x.startsRun = y.startsRun := by
  rw [x.key_eq, y.key_eq] at h
  obtain ⟨-, h⟩ := append_colon_inj colon_notMem_family colon_notMem_family h
  obtain ⟨hworkflow, h⟩ := append_colon_inj x.workflowId.colon_notMem y.workflowId.colon_notMem h
  obtain ⟨hname, h⟩ := append_colon_inj x.name.colon_notMem y.name.colon_notMem h
  obtain ⟨hclass, hid⟩ := append_colon_inj (colon_notMem_sortClass x) (colon_notMem_sortClass y) h
  refine ⟨Component.enc_injective hworkflow, Component.enc_injective hname,
    Component.enc_injective hid, ?_⟩
  exact sortClass_inj hclass

/-- What the keys of a workflow and name begin with. -/
def bufferPrefixed (workflowId name : Component) : JsString :=
  js "sig:" ++ workflowId.enc ++ [colon] ++ name.enc ++ [colon]

theorem bufferPrefixed_key (x : Sent V) : bufferPrefixed x.workflowId x.name <+: x.key := by
  have hfamily : js "sig:" = js "sig" ++ [colon] := by decide
  rw [x.key_eq]
  exact ⟨x.sortClass ++ colon :: x.id.enc, by simp [bufferPrefixed, hfamily]⟩

variable {workflowId name : Component}

theorem of_bufferPrefixed_key {x : Sent V} (h : bufferPrefixed workflowId name <+: x.key) :
    x.workflowId = workflowId ∧ x.name = name := by
  obtain ⟨rest, hrest⟩ := h
  have hfamily : js "sig:" = js "sig" ++ [colon] := by decide
  simp only [bufferPrefixed, hfamily, List.append_assoc, List.singleton_append] at hrest
  rw [x.key_eq] at hrest
  obtain ⟨-, h⟩ := append_colon_inj colon_notMem_family colon_notMem_family hrest
  obtain ⟨hworkflow, h⟩ := append_colon_inj workflowId.colon_notMem x.workflowId.colon_notMem h
  obtain ⟨hname, -⟩ := append_colon_inj name.colon_notMem x.name.colon_notMem h
  exact ⟨(Component.enc_injective hworkflow).symm, (Component.enc_injective hname).symm⟩

theorem sig_prefixed_key (x : Sent V) : js "sig:" <+: x.key := by
  have hfamily : js "sig:" = js "sig" ++ [colon] := by decide
  rw [x.key_eq, hfamily]
  exact ⟨x.workflowId.enc ++ colon :: (x.name.enc ++ colon :: (x.sortClass ++ colon :: x.id.enc)),
    by simp⟩

variable {k : JsString}

theorem sig_of_bufferPrefixed (h : bufferPrefixed workflowId name <+: k) : js "sig:" <+: k := by
  refine List.IsPrefix.trans ?_ h
  simp only [bufferPrefixed, List.append_assoc]
  exact List.prefix_append _ _

theorem isExactSignalKey_key {x : Sent V} (hid : x.id.enc ≠ []) :
    isExactSignalKey x.key x.workflowId.enc x.name.enc = true := by
  have hparts : x.key = [colon].intercalate
      [js "sig", x.workflowId.enc, x.name.enc, x.sortClass, x.id.enc] := by
    rw [x.key_eq]
    simp [List.intercalate]
  have hsplit : x.key.splitOn colon =
      [js "sig", x.workflowId.enc, x.name.enc, x.sortClass, x.id.enc] := by
    rw [hparts]
    apply List.splitOn_intercalate
    · simp only [List.mem_cons, List.not_mem_nil, or_false]
      rintro part (rfl | rfl | rfl | rfl | rfl)
      · exact colon_notMem_family
      · exact x.workflowId.colon_notMem
      · exact x.name.colon_notMem
      · exact colon_notMem_sortClass x
      · exact x.id.colon_notMem
    · simp
  have hclass : x.sortClass = js "0" ∨ x.sortClass = js "1" := by
    unfold Sent.sortClass
    split_ifs
    · exact .inl rfl
    · exact .inr rfl
  simp [isExactSignalKey, hsplit, hclass, hid]

/-! ## Numbers in keys -/

theorem enc_generatedComponent (n : Nat) (uuid : Component) : (generatedComponent n uuid).enc =
      js "anonymous%3A" ++ paddedNat 16 n ++ js "%3A" ++ uuid.enc := by
  have h := (generatedComponent n uuid).encode_text
  have hgenerated : encodeURIComponent (generatedComponent n uuid).text = _ :=
    encode_generatedSignalId n uuid
  exact Option.some.inj (h.symm.trans hgenerated)

variable {uuid uuid' : Component}

/-- Two anonymous signals of one buffer have their keys in the order of their numbers. -/
theorem key_lt_of_sequence_lt (hworkflow : x.workflowId = y.workflowId) (hname : x.name = y.name)
    (hx : x.startsRun = false) (hy : y.startsRun = false) {m n : Nat}
    (hxid : x.id = generatedComponent m uuid) (hyid : y.id = generatedComponent n uuid')
    (hm : m < 10 ^ 16) (hn : n < 10 ^ 16) (hlt : m < n) : x.key < y.key := by
  rw [x.key_eq, y.key_eq, hworkflow, hname, hxid, hyid, enc_generatedComponent,
    enc_generatedComponent]
  simp only [Sent.sortClass, hx, hy, List.append_assoc]
  simp only [Lex.append_lt_append_iff, List.cons_lt_cons_iff, lt_irrefl, true_and, false_or]
  apply Lex.append_lt_append_of_length_eq
  · rw [length_paddedNat (by decide) hm, length_paddedNat (by decide) hn]
  · exact (paddedNat_lt_iff (by decide) hm hn).2 hlt

theorem generatedComponent_sequence {m n : Nat}
    (h : generatedComponent m uuid = generatedComponent n uuid') (hm : m < 10 ^ 16)
    (hn : n < 10 ^ 16) : m = n := by
  have henc := congrArg Component.enc h
  rw [enc_generatedComponent, enc_generatedComponent] at henc
  simp only [List.append_assoc] at henc
  have hlength : (paddedNat 16 m).length = (paddedNat 16 n).length := by
    rw [length_paddedNat (by decide) hm, length_paddedNat (by decide) hn]
  exact paddedNat_inj (List.append_inj_left (List.append_cancel_left henc) hlength)

variable {store : Store V}

theorem scanNext_le {codec : SignalCodec V} {workflowId : Component} {next : Nat}
    (h : scanNextAnonymousSignalSequence codec store workflowId = some next) :
    next ≤ maxSafeInteger := by
  simp only [scanNextAnonymousSignalSequence, Option.ite_none_right_eq_some,
    Option.some.injEq] at h
  exact h.2 ▸ h.1

/-! ## What a wait finds -/

theorem bufferPrefixed_last (workflowId name : Component) :
    (bufferPrefixed workflowId name).getLast? = some colon :=
  List.getLast?_concat

/-- The rows of a workflow and name, in key order. -/
def bufferRows (store : Store V) (workflowId name : Component) : List (JsString × V) :=
  scan store (bufferPrefixed workflowId name) {}

theorem mem_bufferRows {v : V} : (k, v) ∈ bufferRows store workflowId name ↔
      store.get k = some v ∧ bufferPrefixed workflowId name <+: k := by
  have h := mem_scan (s := store) (bufferPrefixed_last workflowId name) (by decide)
    (o := {}) rfl rfl (k := k) (v := v)
  rw [bufferRows, h]
  simp [matchesScanOptions]

theorem bufferRows_sorted (store : Store V) (workflowId name : Component) :
    (bufferRows store workflowId name).Pairwise fun a b => a.1 < b.1 := by
  rw [bufferRows, scan_unlimited store _ {} rfl rfl]
  exact store.range_sorted _

theorem findBufferedSignalRecord_eq (store : Store V) (workflowId name : Component) :
    findBufferedSignalRecord store workflowId name =
      ((bufferRows store workflowId name).take 1).find? fun row =>
        isExactSignalKey row.1 workflowId.enc name.enc := rfl

/-- A wait finds a record of its own workflow and name, and none stands before it. -/
theorem findBufferedSignalRecord_first {v : V}
    (h : findBufferedSignalRecord store workflowId name = some (k, v)) :
    store.get k = some v ∧ bufferPrefixed workflowId name <+: k ∧
      ∀ k' v', store.get k' = some v' → bufferPrefixed workflowId name <+: k' → k ≤ k' := by
  rw [findBufferedSignalRecord_eq] at h
  have hsorted := bufferRows_sorted store workflowId name
  have hmem (k' : JsString) (v' : V) : (k', v') ∈ bufferRows store workflowId name ↔
      store.get k' = some v' ∧ bufferPrefixed workflowId name <+: k' := mem_bufferRows
  cases hrows : bufferRows store workflowId name with
  | nil => simp [hrows] at h
  | cons row rows =>
    rw [hrows] at h hsorted hmem
    have hrow : row = (k, v) := by
      have hmem := List.mem_of_find?_eq_some h
      exact (List.mem_singleton.1 hmem).symm
    subst hrow
    obtain ⟨hget, hprefixed⟩ := (hmem k v).1 List.mem_cons_self
    refine ⟨hget, hprefixed, fun k' v' hget' hprefixed' => ?_⟩
    rcases List.mem_cons.1 ((hmem k' v').2 ⟨hget', hprefixed'⟩) with heq | htail
    · rw [(Prod.mk.inj heq).1]
    · exact ((List.pairwise_cons.1 hsorted).1 _ htail).le

/-- A wait finds something where every key of its buffer is one of a signal. -/
theorem findBufferedSignalRecord_isSome
    (hkeys : ∀ k v, store.get k = some v → bufferPrefixed workflowId name <+: k →
      ∃ x : Sent V, x.key = k ∧ x.id.enc ≠ [])
    {v : V} (hget : store.get k = some v) (hprefixed : bufferPrefixed workflowId name <+: k) :
    (findBufferedSignalRecord store workflowId name).isSome := by
  rw [findBufferedSignalRecord_eq]
  cases hrows : bufferRows store workflowId name with
  | nil =>
    have hmem := mem_bufferRows.2 ⟨hget, hprefixed⟩
    rw [hrows] at hmem
    cases hmem
  | cons row rows =>
    obtain ⟨hrow, hfirst⟩ := mem_bufferRows.1 (hrows ▸ List.mem_cons_self)
    obtain ⟨x, hkey, hid⟩ := hkeys row.1 row.2 hrow hfirst
    rw [← hkey] at hfirst
    obtain ⟨hworkflow, hname⟩ := of_bufferPrefixed_key hfirst
    have hexact := isExactSignalKey_key hid
    rw [hkey, hworkflow, hname] at hexact
    simp [hexact]

end Weft.Signals
