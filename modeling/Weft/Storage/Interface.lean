import Weft.Lib.Lex
import Weft.Lib.OrderedStore
import Weft.Js.Uri

/-! The storage interface: an ordered key/value store with point reads, prefix scans,
batches and conditional batches. Values are opaque: the store only compares them. -/

namespace Weft.Storage
open Weft.Lib Weft.Js

universe u

abbrev Store (V : Type u) := OrderedStore JsString V

inductive BatchOperation (V : Type u) where
  | put (key : JsString) (value : V)
  | delete (key : JsString)
deriving DecidableEq, Repr

structure ConditionalBatchCondition (V : Type u) where
  key : JsString
  expectedValue : Option V
deriving DecidableEq, Repr

structure ScanOptions where
  gt : Option JsString := none
  gte : Option JsString := none
  lt : Option JsString := none
  lte : Option JsString := none
  reverse : Bool := false
  limit : Option Nat := none
deriving DecidableEq, Repr

def MAX_BATCH_OPERATIONS : Nat := 10000

/-! ## Scans -/

def resolvePrefixRangeEnd (pre : JsString) : JsString :=
  match pre.getLast? with
  | none => [0xff]
  | some u => pre.dropLast ++ [codeUnit (u.val + 1)]

def matchesScanOptions (key : JsString) (o : ScanOptions) : Bool :=
  o.gt.all (fun b => ¬ key ≤ b) && o.gte.all (fun b => ¬ key < b) &&
    o.lt.all (fun b => ¬ key ≥ b) && o.lte.all (fun b => ¬ key > b)

variable {V : Type u}

def scan (s : Store V) (pre : JsString) (o : ScanOptions) : List (JsString × V) :=
  let rows := s.range fun k =>
    decide (pre ≤ k ∧ k < resolvePrefixRangeEnd pre) && matchesScanOptions k o
  let rows := if o.reverse then rows.reverse else rows
  match o.limit with
  | none => rows
  | some n => rows.take n

def deletePrefix (s : Store V) (pre : JsString) : Store V :=
  s.filter fun k => ¬ (pre ≤ k ∧ k < resolvePrefixRangeEnd pre)

/-! ## Batches -/

def BatchOperation.key : BatchOperation V → JsString
  | .put k _ => k
  | .delete k => k

def applyBatchOperation (s : Store V) : BatchOperation V → Store V
  | .put k v => s.put k v
  | .delete k => s.delete k

def applyBatchOperations (s : Store V) (ops : List (BatchOperation V)) : Store V :=
  ops.foldl applyBatchOperation s

/-- `none` is the error of a batch over `MAX_BATCH_OPERATIONS`. -/
def batch (s : Store V) (ops : List (BatchOperation V)) : Option (Store V) :=
  if ops.length ≤ MAX_BATCH_OPERATIONS then some (applyBatchOperations s ops) else none

def conditionsHold [DecidableEq V] (s : Store V)
    (conditions : List (ConditionalBatchCondition V)) : Bool :=
  conditions.all fun c => s.get c.key = c.expectedValue

/-- The answer of the call and the store after it. -/
def conditionalBatch [DecidableEq V] (s : Store V)
    (conditions : List (ConditionalBatchCondition V)) (ops : List (BatchOperation V)) :
    Option (Bool × Store V) :=
  if conditions.length ≤ MAX_BATCH_OPERATIONS ∧ ops.length ≤ MAX_BATCH_OPERATIONS then
    if conditionsHold s conditions then some (true, applyBatchOperations s ops)
    else some (false, s)
  else none

/-! ## What scans read -/

theorem between_prefix_iff {pre : JsString} {u : CodeUnit} (hlast : pre.getLast? = some u)
    (hu : u.val < 65535) (k : JsString) :
    (pre ≤ k ∧ k < resolvePrefixRangeEnd pre) ↔ pre <+: k := by
  have hpre : pre = pre.dropLast ++ [u] := by
    rw [List.dropLast_append_getLast? u hlast]
  have hcov : u ⋖ codeUnit (u.val + 1) := by
    have hval := codeUnit_val (n := u.val + 1) (by omega)
    constructor
    · rw [Fin.lt_def, hval]
      omega
    · intro c hc hc'
      rw [Fin.lt_def] at hc hc'
      omega
  have h := Lex.extends_iff_between pre.dropLast hcov k
  rw [← hpre] at h
  simp only [resolvePrefixRangeEnd, hlast]
  exact h

theorem scan_unlimited (s : Store V) (pre : JsString) (o : ScanOptions)
    (hr : o.reverse = false) (hl : o.limit = none) :
    scan s pre o = s.range fun k =>
      decide (pre ≤ k ∧ k < resolvePrefixRangeEnd pre) && matchesScanOptions k o := by
  simp [scan, hr, hl]

/-- A scan without a limit yields the rows under the prefix that its options let through. -/
theorem mem_scan {s : Store V} {pre : JsString} {u : CodeUnit} (hlast : pre.getLast? = some u)
    (hu : u.val < 65535) {o : ScanOptions} (hr : o.reverse = false) (hl : o.limit = none)
    {k : JsString} {v : V} : (k, v) ∈ scan s pre o ↔
      s.get k = some v ∧ pre <+: k ∧ matchesScanOptions k o = true := by
  rw [scan_unlimited s pre o hr hl, OrderedStore.mem_range, Bool.and_eq_true,
    decide_eq_true_eq, between_prefix_iff hlast hu]

/-! ## What batches write -/

theorem applyBatchOperations_cons (s : Store V) (op : BatchOperation V)
    (ops : List (BatchOperation V)) :
    applyBatchOperations s (op :: ops) = applyBatchOperations (applyBatchOperation s op) ops :=
  rfl

theorem applyBatchOperations_append (s : Store V) (ops ops' : List (BatchOperation V)) :
    applyBatchOperations s (ops ++ ops') =
      applyBatchOperations (applyBatchOperations s ops) ops' :=
  List.foldl_append

/-- A key that no operation names keeps its value. -/
theorem get_applyBatchOperations_of_untouched (s : Store V) (ops : List (BatchOperation V))
    (k : JsString) (h : ∀ op ∈ ops, op.key ≠ k) :
    (applyBatchOperations s ops).get k = s.get k := by
  induction ops generalizing s with
  | nil => rfl
  | cons op ops ih =>
    rw [applyBatchOperations_cons, ih _ fun op' hop' => h op' (by simp [hop'])]
    have hk : k ≠ op.key := (h op (by simp)).symm
    cases op with
    | put k' v => simpa [applyBatchOperation, BatchOperation.key] using fun h' => (hk h').elim
    | delete k' => simpa [applyBatchOperation, BatchOperation.key] using fun h' => (hk h').elim

/-- What a batch leaves at a key depends only on what was there. -/
theorem get_applyBatchOperations_congr {s t : Store V} (ops : List (BatchOperation V))
    {k : JsString} (h : s.get k = t.get k) :
    (applyBatchOperations s ops).get k = (applyBatchOperations t ops).get k := by
  induction ops generalizing s t with
  | nil => exact h
  | cons op ops ih =>
    rw [applyBatchOperations_cons, applyBatchOperations_cons]
    apply ih
    cases op with
    | put k' v => simp [applyBatchOperation, h]
    | delete k' => simp [applyBatchOperation, h]

theorem get_applyBatchOperations_deletes (s : Store V) (keys : List JsString) (k : JsString) :
    (applyBatchOperations s (keys.map .delete)).get k = if k ∈ keys then none else s.get k := by
  induction keys generalizing s with
  | nil => simp [applyBatchOperations]
  | cons key keys ih =>
    rw [List.map_cons, applyBatchOperations_cons, ih]
    by_cases hk : k ∈ keys
    · simp [hk]
    · by_cases heq : k = key
      · simp [heq, applyBatchOperation]
      · simp [hk, heq, applyBatchOperation]

theorem get_applyBatchOperations_puts (s : Store V) (keys : List JsString) (v : V)
    (k : JsString) :
    (applyBatchOperations s (keys.map fun key => .put key v)).get k =
      if k ∈ keys then some v else s.get k := by
  induction keys generalizing s with
  | nil => simp [applyBatchOperations]
  | cons key keys ih =>
    rw [List.map_cons, applyBatchOperations_cons, ih]
    by_cases hk : k ∈ keys
    · simp [hk]
    · by_cases heq : k = key
      · simp [heq, applyBatchOperation]
      · simp [hk, heq, applyBatchOperation]

/-- Where each part of a batch deletes and then puts, a key is there at the end if it was put
and not deleted since, or was there and is not deleted at all. -/
theorem isSome_applyBatchOperations_parts {ι : Type*} (s : Store V) (v : V)
    (deletes puts : ι → List JsString) (parts : List ι) (k : JsString) :
    ((applyBatchOperations s (parts.flatMap fun part =>
        (deletes part).map .delete ++ (puts part).map fun key => .put key v)).get k).isSome ↔
      (∃ part after, part :: after <:+ parts ∧ k ∈ puts part ∧ ∀ part ∈ after, k ∉ deletes part) ∨
        (s.get k).isSome ∧ ∀ part ∈ parts, k ∉ deletes part := by
  induction parts generalizing s with
  | nil => simp [applyBatchOperations]
  | cons part parts ih =>
    rw [List.flatMap_cons, applyBatchOperations_append, ih, applyBatchOperations_append,
      get_applyBatchOperations_puts, get_applyBatchOperations_deletes]
    simp only [List.suffix_cons_iff, List.forall_mem_cons]
    constructor
    · rintro (⟨part', after, hsuffix, hput, hafter⟩ | ⟨hsome, hnone⟩)
      · exact .inl ⟨part', after, .inr hsuffix, hput, hafter⟩
      · by_cases hput : k ∈ puts part
        · exact .inl ⟨part, parts, .inl rfl, hput, hnone⟩
        · rw [if_neg hput] at hsome
          by_cases hdel : k ∈ deletes part
          · rw [if_pos hdel] at hsome
            cases hsome
          · rw [if_neg hdel] at hsome
            exact .inr ⟨hsome, hdel, hnone⟩
    · rintro (⟨part', after, heq | hsuffix, hput, hafter⟩ | ⟨hsome, hdel, hnone⟩)
      · obtain ⟨rfl, rfl⟩ := List.cons.inj heq
        exact .inr ⟨by rw [if_pos hput]; rfl, hafter⟩
      · exact .inl ⟨part', after, hsuffix, hput, hafter⟩
      · refine .inr ⟨?_, hnone⟩
        by_cases hput : k ∈ puts part
        · rw [if_pos hput]
          rfl
        · rw [if_neg hput, if_neg hdel]
          exact hsome

variable {conditions : List (ConditionalBatchCondition V)} {ops : List (BatchOperation V)}

theorem conditionalBatch_committed [DecidableEq V] {s s' : Store V}
    (h : conditionalBatch s conditions ops = some (true, s')) :
    (∀ c ∈ conditions, s.get c.key = c.expectedValue) ∧ s' = applyBatchOperations s ops := by
  unfold conditionalBatch at h
  split_ifs at h with hlen hcond
  · refine ⟨?_, ?_⟩
    · simpa [conditionsHold] using hcond
    · simpa using h.symm
  · simp at h

theorem conditionalBatch_refused [DecidableEq V] {s s' : Store V}
    (h : conditionalBatch s conditions ops = some (false, s')) : s' = s := by
  unfold conditionalBatch at h
  split_ifs at h
  · simp at h
  · simpa using h.symm

end Weft.Storage
