import Weft.Signature.Alike

/-! Equal signatures are those of operations that look alike. -/

namespace Weft.Signature
open Weft.Js Weft.Lib

variable {ν β : Type}

/-! ## The written form of what is seen -/

mutual

/-- An error is written as the object that marks it, its name before its message. -/
def mark : Value ν → Value ν
  | .number n => .number n
  | .plain a => .plain a
  | .text s => .text s
  | .callable => .callable
  | .array entries => .array (markAll entries)
  | .object hidden own => .object hidden (markFields own)
  | .date time own => .date time own
  | .error name message _ => .object none [(ERROR_MARKER,
      .object none [(js "name", .text name), (js "message", .text message)])]
  | .map entries own => .map entries own
  | .set entries own => .set entries own
  | .binary view bytes own => .binary view bytes own

def markAll : List (Value ν) → List (Value ν)
  | [] => []
  | entry :: rest => mark entry :: markAll rest

def markFields : List (JsString × Value ν) → List (JsString × Value ν)
  | [] => []
  | (key, value) :: rest => (key, mark value) :: markFields rest

end

theorem markAll_eq_map (entries : List (Value ν)) : markAll entries = entries.map mark := by
  induction entries with
  | nil => rfl
  | cons e entries ih => rw [markAll, ih]; rfl

theorem markFields_eq_map (fields : List (JsString × Value ν)) :
    markFields fields = fields.map (Prod.map id mark) := by
  induction fields with
  | nil => rfl
  | cons f fields ih => rw [markFields, ih]; rfl

theorem markFields_sortByKey (fields : List (JsString × Value ν)) :
    markFields (sortByKey fields) = sortByKey (markFields fields) := by
  rw [markFields_eq_map, markFields_eq_map, sortByKey_map]

/-- A value as it is seen, with its fields in order, and then with its errors marked. -/
def written (writer : Writer) (v : Value ν) : Value ν := mark (sorted (seen writer v))

private theorem writeAll_eq {entries stables : List (Value ν)}
    (ih : ∀ e ∈ entries, ∀ writer stable, write writer e = some stable → stable = written writer e)
    (h : writeAll entries = some stables) : stables = markAll (sortedAll (seenAll entries)) := by
  induction entries generalizing stables with
  | nil => exact (Option.some.inj h).symm
  | cons e entries ihentries =>
    rw [writeAll] at h
    obtain ⟨stable, hstable, h⟩ := Option.bind_eq_some_iff.1 h
    obtain ⟨rest, hrest, rfl⟩ := Option.map_eq_some_iff.1 h
    rw [ih e List.mem_cons_self .value stable hstable,
      ihentries (fun e' he' => ih e' (List.mem_cons_of_mem e he')) hrest]
    rfl

private theorem writeEntries_eq {entries : List (Value ν × Value ν)} {stables : List (Value ν)}
    (ih : ∀ e ∈ entries,
      (∀ writer stable, write writer e.1 = some stable → stable = written writer e.1) ∧
        ∀ writer stable, write writer e.2 = some stable → stable = written writer e.2)
    (h : writeEntries entries = some stables) :
    stables = markAll (sortedAll (seenEntries entries)) := by
  induction entries generalizing stables with
  | nil => exact (Option.some.inj h).symm
  | cons e entries ihentries =>
    obtain ⟨hkeys, hvalues⟩ := ih e List.mem_cons_self
    rw [writeEntries] at h
    obtain ⟨key, hkey, h⟩ := Option.bind_eq_some_iff.1 h
    obtain ⟨value, hvalue, h⟩ := Option.bind_eq_some_iff.1 h
    obtain ⟨rest, hrest, rfl⟩ := Option.map_eq_some_iff.1 h
    rw [hkeys .value key hkey, hvalues .value value hvalue,
      ihentries (fun e' he' => ih e' (List.mem_cons_of_mem e he')) hrest]
    rfl

private theorem writeFields_eq {own fields : List (JsString × Value ν)} {scope : Scope}
    (ih : ∀ f ∈ own, ∀ writer stable, write writer f.2 = some stable → stable = written writer f.2)
    (h : writeFields scope own = some fields) :
    fields = markFields (sortedFields (seenFields scope own)) := by
  induction own generalizing fields with
  | nil => exact (Option.some.inj h).symm
  | cons f own ihown =>
    have ihrest : ∀ fields, writeFields scope own = some fields →
        fields = markFields (sortedFields (seenFields scope own)) :=
      fun fields => ihown fun f' hf' => ih f' (List.mem_cons_of_mem f hf')
    rw [writeFields] at h
    rw [seenFields, seenWriter]
    cases hw : writerOf scope f.1 with
    | none =>
      rw [hw] at h
      rw [ite_self]
      exact ihrest fields h
    | some writer =>
      rw [hw] at h
      obtain ⟨stable, hstable, h⟩ := Option.bind_eq_some_iff.1 h
      obtain ⟨rest, hrest, rfl⟩ := Option.map_eq_some_iff.1 h
      rw [assign, ih f List.mem_cons_self writer stable hstable, ihrest rest hrest]
      split_ifs with hproto <;> rfl

variable {own : List (JsString × Value ν)}

/-- The object that the written fields make. -/
private theorem writeObject_eq {scope : Scope} {stable : Value ν}
    (ih : ∀ f ∈ own, ∀ writer stable, write writer f.2 = some stable → stable = written writer f.2)
    (h : ((writeFields scope own).map fun fields => Value.object none (sortByKey fields)) =
      some stable) :
    stable = mark (sorted (.object none (seenFields scope own))) := by
  obtain ⟨fields, hfields, rfl⟩ := Option.map_eq_some_iff.1 h
  rw [writeFields_eq ih hfields, sorted, mark, markFields_sortByKey]

theorem write_eq_written (v : Value ν) :
    ∀ writer stable, write writer v = some stable → stable = written writer v := by
  induction v using Value.ind with
  | number n => intro writer stable h; cases writer <;> exact (Option.some.inj h).symm
  | plain a => intro writer stable h; cases writer <;> exact (Option.some.inj h).symm
  | text s => intro writer stable h; cases writer <;> exact (Option.some.inj h).symm
  | callable => intro writer stable h; cases writer <;> exact absurd h (by simp [write])
  | array entries ih =>
    intro writer stable h
    have hall : ∀ s, (writeAll entries).map Value.array = some s →
        s = mark (sorted (.array (seenAll entries))) := by
      intro s hs
      obtain ⟨stables, hstables, rfl⟩ := Option.map_eq_some_iff.1 hs
      rw [writeAll_eq ih hstables, sorted, mark]
    cases writer with
    | value =>
      simp only [written, seen]
      exact hall stable (by simpa only [write] using h)
    | branches =>
      simp only [written, seen]
      exact hall stable (by simpa only [write] using h)
    | branch =>
      rcases entries with _ | ⟨head, _ | ⟨input, rest⟩⟩
      · exact (Option.some.inj h).symm
      · exact (Option.some.inj h).symm
      · rw [write] at h
        obtain ⟨stableInput, hinput, rfl⟩ := Option.map_eq_some_iff.1 h
        rw [ih input (by simp) .value stableInput hinput]
        have hordered : (js "arity" : JsString) ≤ js "input" := by decide
        simp only [written, seen, sorted, sortedFields]
        rw [sortByKey_of_pairwise (by simpa using hordered)]
        rfl
  | object hidden own ih =>
    intro writer stable h
    cases writer <;> exact writeObject_eq ih (by simpa only [write] using h)
  | date time own ih =>
    intro writer stable h
    have hdate : ∀ s, (time.map fun d => Value.object none [(DATE_MARKER, .text d.toISOString)]) =
        some s → s = written .value (.date time own) := by
      intro s hs
      obtain ⟨d, rfl, rfl⟩ := Option.map_eq_some_iff.1 hs
      rfl
    cases writer with
    | branches => exact writeObject_eq ih (by simpa only [write] using h)
    | value => exact hdate stable (by simpa only [write] using h)
    | branch =>
      rw [hdate stable (by simpa only [write] using h)]
      cases time <;> rfl
  | error name message own ih =>
    intro writer stable h
    cases writer with
    | branches => exact writeObject_eq ih (by simpa only [write] using h)
    | value => exact (Option.some.inj h).symm
    | branch => exact (Option.some.inj h).symm
  | map entries own ihentries ih =>
    intro writer stable h
    have hmap : ∀ s, ((writeEntries entries).map fun stables =>
        Value.object none [(MAP_MARKER, .array stables)]) = some s →
        s = written .value (.map entries own) := by
      intro s hs
      obtain ⟨stables, hstables, rfl⟩ := Option.map_eq_some_iff.1 hs
      rw [writeEntries_eq ihentries hstables]
      rfl
    cases writer with
    | branches => exact writeObject_eq ih (by simpa only [write] using h)
    | value => exact hmap stable (by simpa only [write] using h)
    | branch => exact hmap stable (by simpa only [write] using h)
  | set entries own ihentries ih =>
    intro writer stable h
    have hset : ∀ s, ((writeAll entries).map fun stables =>
        Value.object none [(SET_MARKER, .array stables)]) = some s →
        s = written .value (.set entries own) := by
      intro s hs
      obtain ⟨stables, hstables, rfl⟩ := Option.map_eq_some_iff.1 hs
      rw [writeAll_eq ihentries hstables]
      rfl
    cases writer with
    | branches => exact writeObject_eq ih (by simpa only [write] using h)
    | value => exact hset stable (by simpa only [write] using h)
    | branch => exact hset stable (by simpa only [write] using h)
  | binary view bytes own ih =>
    intro writer stable h
    cases writer with
    | branches => exact writeObject_eq ih (by simpa only [write] using h)
    | value => exact (Option.some.inj h).symm
    | branch => exact (Option.some.inj h).symm

/-! ## Telling written forms apart -/

/-- A value as it is seen, with its fields in order: data, objects without anything hidden, and
errors. -/
inductive Covered : Value ν → Prop
  | number (n : Int) : Covered (.number n)
  | plain (a : ν) : Covered (.plain a)
  | text (s : JsString) : Covered (.text s)
  | callable : Covered .callable
  | array {entries : List (Value ν)} (h : ∀ e ∈ entries, Covered e) : Covered (.array entries)
  | object {own : List (JsString × Value ν)} (hkeys : own.Pairwise fun a b => a.1 ≤ b.1)
      (h : ∀ f ∈ own, Covered f.2) : Covered (.object none own)
  | error (name message : JsString) : Covered (.error name message [])

private theorem covered_array {entries : List (Value ν)}
    (h : ∀ e ∈ entries, Covered (sorted e)) : Covered (sorted (.array entries)) := by
  rw [sorted]
  refine .array fun e he => ?_
  rw [sortedAll_eq_map] at he
  obtain ⟨e', he', rfl⟩ := List.mem_map.1 he
  exact h e' he'

private theorem covered_object (h : ∀ f ∈ own, Covered (sorted f.2)) :
    Covered (sorted (.object none own)) := by
  rw [sorted]
  refine .object (sortByKey_pairwise _) fun f hf => ?_
  rw [mem_sortByKey, sortedFields_eq_map] at hf
  obtain ⟨f', hf', rfl⟩ := List.mem_map.1 hf
  exact h f' hf'

private theorem covered_fields (ih : ∀ f ∈ own, ∀ writer, Covered (sorted (seen writer f.2)))
    (scope : Scope) : Covered (sorted (.object none (seenFields scope own))) := by
  refine covered_object fun f hf => ?_
  rw [seenFields_eq_filterMap] at hf
  obtain ⟨f', hf', hseen⟩ := List.mem_filterMap.1 hf
  obtain ⟨writer, -, rfl⟩ := Option.map_eq_some_iff.1 hseen
  exact ih f' hf' writer

variable {v : Value ν}

private theorem covered_mark (key : JsString) (h : Covered (sorted v)) :
    Covered (sorted (.object none [(key, v)])) :=
  covered_object fun _ hf => List.mem_singleton.1 hf ▸ h

theorem covered_seen (v : Value ν) : ∀ writer, Covered (sorted (seen writer v)) := by
  induction v using Value.ind with
  | number n => intro writer; cases writer <;> exact .number n
  | plain a => intro writer; cases writer <;> exact .plain a
  | text s => intro writer; cases writer <;> exact .text s
  | callable => intro writer; cases writer <;> exact .callable
  | array entries ih =>
    intro writer
    have hall : Covered (sorted (.array (seenAll entries))) := by
      refine covered_array fun e he => ?_
      rw [seenAll_eq_map] at he
      obtain ⟨e', he', rfl⟩ := List.mem_map.1 he
      exact ih e' he' .value
    cases writer with
    | value => simpa only [seen] using hall
    | branches => simpa only [seen] using hall
    | branch =>
      rcases entries with _ | ⟨head, _ | ⟨input, rest⟩⟩
      · exact covered_mark _ (.number _)
      · exact covered_mark _ (.number _)
      · rw [seen]
        refine covered_object fun f hf => ?_
        rcases List.mem_pair.1 hf with rfl | rfl
        · exact .number _
        · exact ih input (by simp) .value
  | object hidden own ih => intro writer; cases writer <;> exact covered_fields ih _
  | date time own ih =>
    intro writer
    cases writer with
    | branches => exact covered_fields ih .branches
    | value => cases time with
      | none => exact .callable
      | some d => exact covered_mark _ (.text _)
    | branch => cases time with
      | none => exact .callable
      | some d => exact covered_mark _ (.text _)
  | error name message own ih =>
    intro writer
    cases writer with
    | branches => exact covered_fields ih .branches
    | value => exact .error name message
    | branch => exact .error name message
  | map entries own ihentries ih =>
    intro writer
    have hmap : Covered (sorted (.array (seenEntries entries))) := by
      refine covered_array fun e he => ?_
      rw [seenEntries_eq_map] at he
      obtain ⟨e', he', rfl⟩ := List.mem_map.1 he
      refine covered_array fun part hpart => ?_
      rcases List.mem_pair.1 hpart with rfl | rfl
      · exact (ihentries e' he').1 .value
      · exact (ihentries e' he').2 .value
    cases writer with
    | branches => exact covered_fields ih .branches
    | value => exact covered_mark _ hmap
    | branch => exact covered_mark _ hmap
  | set entries own ihentries ih =>
    intro writer
    have hset : Covered (sorted (.array (seenAll entries))) := by
      refine covered_array fun e he => ?_
      rw [seenAll_eq_map] at he
      obtain ⟨e', he', rfl⟩ := List.mem_map.1 he
      exact ihentries e' he' .value
    cases writer with
    | branches => exact covered_fields ih .branches
    | value => exact covered_mark _ hset
    | branch => exact covered_mark _ hset
  | binary view bytes own ih =>
    intro writer
    cases writer with
    | branches => exact covered_fields ih .branches
    | value => exact covered_mark _ (.text _)
    | branch => exact covered_mark _ (.text _)

/-- The name of an error is written before its message, and no object has its fields in that
order. -/
private theorem mark_object_ne_error (h : ∀ f ∈ own, Covered f.2) (name message : JsString) :
    mark (.object none own) ≠ mark (.error name message []) := by
  intro heq
  rw [mark, mark, markFields_eq_map] at heq
  injection heq with _ hfields
  obtain ⟨⟨key, u⟩, rfl, hf⟩ := List.map_eq_singleton_iff.1 hfields
  obtain ⟨-, hmark⟩ := Prod.mk.inj hf
  have hcovered : Covered u := h _ List.mem_cons_self
  cases hcovered with
  | number n => simp [mark] at hmark
  | plain a => simp [mark] at hmark
  | text s => simp [mark] at hmark
  | callable => simp [mark] at hmark
  | array h => simp [mark] at hmark
  | error name message => simp [mark] at hmark
  | @object own hkeys h =>
    rw [mark, markFields_eq_map] at hmark
    injection hmark with _ hpair
    have hnames : own.map Prod.fst = [js "name", js "message"] := by
      have hfst := congrArg (List.map Prod.fst) hpair
      rwa [List.map_map] at hfst
    have hordered : (own.map Prod.fst).Pairwise (· ≤ ·) := List.pairwise_map.2 hkeys
    rw [hnames] at hordered
    exact absurd hordered (by decide)

/-- What is written tells apart whatever is seen apart. -/
theorem mark_injective (hv : Covered v) : ∀ w, Covered w → mark v = mark w → v = w := by
  induction hv with
  | number n => intro w hw h; cases hw <;> simp_all [mark]
  | plain a => intro w hw h; cases hw <;> simp_all [mark]
  | text s => intro w hw h; cases hw <;> simp_all [mark]
  | callable => intro w hw h; cases hw <;> simp_all [mark]
  | array hentries ih =>
    intro w hw h
    cases hw with
    | array hentries' =>
      rw [mark, mark, markAll_eq_map, markAll_eq_map] at h
      injection h with h
      rw [eq_of_map_eq (fun e he e' he' => ih e he e' (hentries' e' he')) h]
    | number n => simp [mark] at h
    | plain a => simp [mark] at h
    | text s => simp [mark] at h
    | callable => simp [mark] at h
    | object hkeys h => simp [mark] at h
    | error name message => simp [mark] at h
  | @object own hkeys hown ih =>
    intro w hw h
    cases hw with
    | @object own' hkeys' hown' =>
      rw [mark, mark, markFields_eq_map, markFields_eq_map] at h
      injection h with _ h
      have hfield : ∀ f ∈ own, ∀ f' ∈ own', Prod.map id mark f = Prod.map id mark f' → f = f' := by
        intro f hf f' hf' heq
        obtain ⟨hkey, hvalue⟩ := Prod.mk.inj heq
        exact Prod.ext hkey (ih f hf f'.2 (hown' f' hf') hvalue)
      rw [eq_of_map_eq hfield h]
    | error name message => exact absurd h (mark_object_ne_error hown name message)
    | number n => simp [mark] at h
    | plain a => simp [mark] at h
    | text s => simp [mark] at h
    | callable => simp [mark] at h
    | array h => simp [mark] at h
  | error name message =>
    intro w hw h
    cases hw with
    | error name' message' => simpa [mark] using h
    | object hkeys hown => exact absurd h.symm (mark_object_ne_error hown name message)
    | number n => simp [mark] at h
    | plain a => simp [mark] at h
    | text s => simp [mark] at h
    | callable => simp [mark] at h
    | array h => simp [mark] at h

/-! ## Signatures -/

/-- Two hexadecimal digits, read back. -/
def hexByte (s : JsString) : Nat :=
  let value (u : CodeUnit) : Nat := if u.val < 58 then u.val - 48 else u.val - 87
  (s.map value).foldl (fun n d => 16 * n + d) 0

theorem byteHex_read (byte : Byte) : (byteHex byte).length = 2 ∧ hexByte (byteHex byte) = byte := by
  revert byte
  decide +kernel

theorem bytesToHex_injective : Function.Injective bytesToHex := by
  intro bytes
  induction bytes with
  | nil =>
    intro bytes' h
    cases bytes' with
    | nil => rfl
    | cons b bytes' =>
      have hlength := congrArg List.length h
      simp only [bytesToHex, List.flatMap_nil, List.flatMap_cons, List.length_nil,
        List.length_append, (byteHex_read b).1] at hlength
      omega
  | cons b bytes ih =>
    intro bytes' h
    cases bytes' with
    | nil =>
      have hlength := congrArg List.length h
      simp only [bytesToHex, List.flatMap_nil, List.flatMap_cons, List.length_nil,
        List.length_append, (byteHex_read b).1] at hlength
      omega
    | cons b' bytes' =>
      have hparts : byteHex b ++ bytesToHex bytes = byteHex b' ++ bytesToHex bytes' := h
      have hlength : (byteHex b).length = (byteHex b').length := by
        rw [(byteHex_read b).1, (byteHex_read b').1]
      obtain ⟨hhead, hrest⟩ := List.append_inj hparts hlength
      have hbyte : b = b' := by
        apply Fin.ext
        rw [← (byteHex_read b).2, hhead, (byteHex_read b').2]
      rw [hbyte, ih hrest]

private theorem lookup_filter {p : JsString → Bool} {key : JsString} (hkey : p key = true) :
    (own.filter fun f => p f.1).lookup key = own.lookup key := by
  induction own with
  | nil => rfl
  | cons f own ih =>
    by_cases hf : p f.1 = true
    · rw [List.filter_cons, if_pos hf, List.lookup_cons, List.lookup_cons, ih]
    · have hne : (key == f.1) = false := beq_false_of_ne fun heq => hf (heq ▸ hkey)
      rw [List.filter_cons, if_neg hf, ih, List.lookup_cons, hne]

/-- The bookkeeping of an operation is not seen. -/
theorem seen_semanticFields (operation : Operation ν) :
    seen .value (semanticFields operation) = seen .value (.object none operation) := by
  let kept := operation.filter fun field => field.1 ∉ WORKER_SIGNATURE_EXCLUDED_FIELDS
  have hlookup : kept.lookup (js "type") = operation.lookup (js "type") :=
    lookup_filter (p := fun key => decide (key ∉ WORKER_SIGNATURE_EXCLUDED_FIELDS)) (by decide)
  have hscope : scopeOf kept = scopeOf operation := by
    rw [scopeOf, scopeOf, textField, textField, hlookup]
  have hfields : ∀ scope, scope ≠ .branches →
      seenFields scope kept = seenFields scope operation := by
    intro scope hbranches
    rw [seenFields_eq_filterMap, seenFields_eq_filterMap, List.filterMap_filter]
    refine List.filterMap_congr fun f _ => ?_
    by_cases hf : f.1 ∈ WORKER_SIGNATURE_EXCLUDED_FIELDS
    · have hnone : seenField scope f = none := by
        rw [seenField, seenWriter, writerOf, if_neg hbranches, if_pos hf, ite_self]
        rfl
      simp [hf, hnone]
    · simp [hf]
  have hrecord : scopeOf operation ≠ .branches := by
    rw [scopeOf]
    split_ifs <;> decide
  show seen .value (.object none kept) = _
  rw [seen, seen, hscope, hfields _ hrecord]
  all_goals simp

variable {operation : Operation ν}

theorem stableRecord_eq {fields : List (JsString × Value ν)}
    (h : toSortedStableRecord operation = some fields) :
    .object none fields = written .value (semanticFields operation) := by
  obtain ⟨own, hown, rfl⟩ := Option.map_eq_some_iff.1 h
  have hwrite : write .value (.object none operation) = some (.object none (sortByKey own)) := by
    rw [write, hown]
    · rfl
    all_goals simp
  rw [written, seen_semanticFields]
  exact write_eq_written (.object none operation) .value _ hwrite

theorem create_cases {codec : Codec ν β} {maxStableFieldsBytes : Nat}
    {s : WorkerReplayOperationSignature}
    (h : createWorkerReplayOperationSignature codec operation maxStableFieldsBytes = some s) :
    ∃ fields bytes, toSortedStableRecord operation = some fields ∧
      codec.encode (.object none fields) = some bytes ∧
      workerOperationType operation = some s.operationType ∧
      s.format = WORKER_REPLAY_SIGNATURE_FORMAT ∧
      s.stableFieldsDigest = bytesToHex (codec.digest bytes) ∧
      s.stableFieldsByteLength = codec.byteLength bytes := by
  obtain ⟨operationType, htype, h⟩ := Option.bind_eq_some_iff.1 h
  obtain ⟨fields, hfields, h⟩ := Option.bind_eq_some_iff.1 h
  obtain ⟨bytes, hbytes, h⟩ := Option.bind_eq_some_iff.1 h
  rw [stableWorkerOperationFields] at hfields
  split_ifs at hfields
  split_ifs at h
  cases h
  exact ⟨fields, bytes, hfields, hbytes, htype, rfl, rfl, rfl⟩

/-- Signatures of operations of one type are equal exactly when the operations look alike. -/
theorem signaturesEqual_iff_lookAlike {codec : Codec ν β} (hcodec : codec.Injective)
    {a b : Operation ν} {maxA maxB : Nat} {s t : WorkerReplayOperationSignature}
    (ha : createWorkerReplayOperationSignature codec a maxA = some s)
    (hb : createWorkerReplayOperationSignature codec b maxB = some t)
    (htype : workerOperationType a = workerOperationType b) :
    workerReplayOperationSignaturesEqual s t = true ↔ LookAlike a b := by
  obtain ⟨fieldsA, bytesA, hfieldsA, hencodeA, htypeA, hformatA, hdigestA, hlengthA⟩ :=
    create_cases ha
  obtain ⟨fieldsB, bytesB, hfieldsB, hencodeB, htypeB, hformatB, hdigestB, hlengthB⟩ :=
    create_cases hb
  have hwrittenA := stableRecord_eq hfieldsA
  have hwrittenB := stableRecord_eq hfieldsB
  have hbytes : workerReplayOperationSignaturesEqual s t = true ↔ bytesA = bytesB := by
    have hsame : s.operationType = t.operationType :=
      Option.some.inj (htypeA.symm.trans (htype.trans htypeB))
    simp only [workerReplayOperationSignaturesEqual, hformatA, hformatB, hsame, hdigestA, hdigestB,
      hlengthA, hlengthB, decide_true, Bool.true_and, Bool.and_eq_true, decide_eq_true_eq]
    constructor
    · exact fun h => hcodec.digest_inj (bytesToHex_injective h.1)
    · rintro rfl
      exact ⟨rfl, rfl⟩
  rw [hbytes]
  constructor
  · rintro rfl
    have hequal := hcodec.encode_inj _ _ _ hencodeA hencodeB
    rw [hwrittenA, hwrittenB] at hequal
    exact mark_injective (covered_seen _ _) _ (covered_seen _ _) hequal
  · intro h
    have hequal : written .value (semanticFields a) = written .value (semanticFields b) :=
      congrArg mark h
    rw [← hwrittenA, ← hwrittenB] at hequal
    rw [hequal] at hencodeA
    exact Option.some.inj (hencodeA.symm.trans hencodeB)

/-! ## Data without reserved names -/

/-- Data whose objects have no field that a signature leaves out and are no run-all operation. -/
inductive Clear : Value ν → Prop
  | number (n : Int) : Clear (.number n)
  | plain (a : ν) : Clear (.plain a)
  | text (s : JsString) : Clear (.text s)
  | array {entries : List (Value ν)} (h : ∀ e ∈ entries, Clear e) : Clear (.array entries)
  | object {own : List (JsString × Value ν)} (hscope : scopeOf own = .record)
      (hkeys : ∀ f ∈ own, seenWriter .record f.1 = some .value) (h : ∀ f ∈ own, Clear f.2) :
      Clear (.object none own)

theorem seen_of_clear (h : Clear v) : seen .value v = v := by
  induction h with
  | number n => rfl
  | plain a => rfl
  | text s => rfl
  | array h ih =>
    simp only [seen, seenAll_eq_map]
    rw [List.map_congr_left ih, List.map_id'']
    exact fun _ => rfl
  | @object own hscope hkeys h ih =>
    have hfields : seenFields .record own = own := by
      rw [seenFields_eq_filterMap]
      have hsame : ∀ f ∈ own, seenField .record f = some f := by
        intro f hf
        rw [seenField, hkeys f hf, Option.map_some, ih f hf]
      rw [List.filterMap_congr hsame, List.filterMap_some]
    simp only [seen, hscope, hfields]

/-- Operations of clear fields look alike only when they agree. -/
theorem sameFields_of_lookAlike {a b : Operation ν} (ha : Clear (semanticFields a))
    (hb : Clear (semanticFields b)) (h : LookAlike a b) : SameFields a b := by
  rwa [LookAlike, seen_of_clear ha, seen_of_clear hb] at h

/-- Equal signatures are those of operations that agree exactly when the two do not differ only in
what no signature sees; operations of clear fields never do. -/
theorem signatures_tell_apart_iff {codec : Codec ν β} (hcodec : codec.Injective)
    {a b : Operation ν} {maxA maxB : Nat} {s t : WorkerReplayOperationSignature}
    (ha : createWorkerReplayOperationSignature codec a maxA = some s)
    (hb : createWorkerReplayOperationSignature codec b maxB = some t)
    (htype : workerOperationType a = workerOperationType b) :
    ((workerReplayOperationSignaturesEqual s t = true ↔ SameFields a b) ↔
      ¬ (LookAlike a b ∧ ¬ SameFields a b)) ∧
    (Clear (semanticFields a) → Clear (semanticFields b) →
      ¬ (LookAlike a b ∧ ¬ SameFields a b)) := by
  have hequal := signaturesEqual_iff_lookAlike hcodec ha hb htype
  constructor
  · constructor
    · rintro h ⟨halike, hdiffer⟩
      exact hdiffer (h.1 (hequal.2 halike))
    · intro h
      rw [hequal]
      constructor
      · intro halike
        by_contra hdiffer
        exact h ⟨halike, hdiffer⟩
      · exact lookAlike_of_sameFields
  · rintro hclearA hclearB ⟨halike, hdiffer⟩
    exact hdiffer (sameFields_of_lookAlike hclearA hclearB halike)

/-- A call of an activity with the input `{ id: n }`. -/
def activityCall (activityName : JsString) (n : Int) : Operation Nat :=
  [(js "type", .text (js "activity")), (js "operationId", .text (js "activity:0")),
    (js "activityName", .text activityName), (js "input", .object none [(js "id", .number n)])]

/-- What is hashed for such a call. -/
def activityStableFields (activityName : JsString) : List (JsString × Value Nat) :=
  [(js "activityName", .text activityName), (js "input", .object none []),
    (js "type", .text (js "activity"))]

def activitySignature (activityName : JsString) : WorkerReplayOperationSignature where
  format := WORKER_REPLAY_SIGNATURE_FORMAT
  operationType := js "activity"
  stableFieldsDigest := bytesToHex
    (List.replicate (number (.object none (activityStableFields activityName))) ⟨0, by decide⟩)
  stableFieldsByteLength := 0

def chargeCustomer : Int → Operation Nat := activityCall (js "charge")

def chargeSignature : WorkerReplayOperationSignature := activitySignature (js "charge")

private theorem create_activityCall (activityName : JsString) (n : Int) :
    createWorkerReplayOperationSignature numberCodec (activityCall activityName n) 4096 =
      some (activitySignature activityName) := by
  have hstable : stableWorkerOperationFields (activityCall activityName n) (js "activity") =
      some (activityStableFields activityName) := rfl
  have htype : workerOperationType (activityCall activityName n) = some (js "activity") := rfl
  simp only [createWorkerReplayOperationSignature, htype, hstable, Option.bind_eq_bind,
    Option.bind_some, numberCodec]
  rfl

/-- Two activities, called with different inputs. -/
theorem signatures_tell_apart_iff_charge :
    ((workerReplayOperationSignaturesEqual chargeSignature (activitySignature (js "refund")) =
      true ↔
        SameFields (chargeCustomer 1) (activityCall (js "refund") 2)) ↔
      ¬ (LookAlike (chargeCustomer 1) (activityCall (js "refund") 2) ∧
        ¬ SameFields (chargeCustomer 1) (activityCall (js "refund") 2))) ∧
    (Clear (semanticFields (chargeCustomer 1)) →
      Clear (semanticFields (activityCall (js "refund") 2)) →
        ¬ (LookAlike (chargeCustomer 1) (activityCall (js "refund") 2) ∧
          ¬ SameFields (chargeCustomer 1) (activityCall (js "refund") 2))) :=
  signatures_tell_apart_iff numberCodec_injective (create_activityCall (js "charge") 1)
    (create_activityCall (js "refund") 2) rfl

theorem changed_input_id_unseen :
    numberCodec.Injective ∧
    workerOperationType (chargeCustomer 1) = workerOperationType (chargeCustomer 2) ∧
    createWorkerReplayOperationSignature numberCodec (chargeCustomer 1) 4096 =
      some chargeSignature ∧
    createWorkerReplayOperationSignature numberCodec (chargeCustomer 2) 4096 =
      some chargeSignature ∧
    workerReplayOperationSignaturesEqual chargeSignature chargeSignature = true ∧
    ¬ SameFields (chargeCustomer 1) (chargeCustomer 2) := by
  refine ⟨numberCodec_injective, rfl, create_activityCall (js "charge") 1,
    create_activityCall (js "charge") 2, ?_, ?_⟩
  · simp [workerReplayOperationSignaturesEqual]
  · intro h
    have hsorted : ∀ n, sorted (semanticFields (chargeCustomer n)) = .object none
        [(js "activityName", .text (js "charge")),
          (js "input", .object none [(js "id", .number n)]),
          (js "type", .text (js "activity"))] := fun _ => rfl
    rw [SameFields, Agree, hsorted, hsorted] at h
    simp at h

end Weft.Signature
