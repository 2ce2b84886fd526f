import Weft.Lib.InsertionMap
import Weft.Storage.Interface

/-! Batches of the Postgres adapter. A batch is written in two statements: the operations are
first reduced to the keys they leave written and the keys they leave deleted. The conditions
are checked on the rows of one read. -/

namespace Weft.Storage.Postgres
open Weft.Lib Weft.Js

universe u

variable {V : Type u}

/-! ## The statements of the database -/

/-- The rows with one of the keys. -/
def selectValuesByKeys (s : Store V) (keys : List JsString) : List (JsString × V) :=
  s.range fun k => k ∈ keys

/-- Inserts the rows or updates the ones that are there; the statement fails if it meets a
key a second time. -/
def upsertValuesByKeys (s : Store V) (rows : List (JsString × V)) : Option (Store V) :=
  if (rows.map Prod.fst).Nodup then some (rows.foldl (fun t row => t.put row.1 row.2) s)
  else none

def deleteValuesByKeys (s : Store V) (keys : List JsString) : Store V :=
  s.filter fun k => k ∉ keys

/-! ## The adapter -/

structure BatchNetEffect (V : Type u) where
  puts : InsertionMap JsString V
  deletes : InsertionMap JsString Unit

def BatchNetEffect.add (net : BatchNetEffect V) : BatchOperation V → BatchNetEffect V
  | .put key value => { puts := net.puts.set key value, deletes := net.deletes.delete key }
  | .delete key => { puts := net.puts.delete key, deletes := net.deletes.set key () }

def resolveBatchNetEffect (operations : List (BatchOperation V)) : BatchNetEffect V :=
  operations.foldl BatchNetEffect.add { puts := .empty, deletes := .empty }

def BatchNetEffect.writePuts (net : BatchNetEffect V) (s : Store V) : Option (Store V) :=
  if net.puts.size > 0 then upsertValuesByKeys s net.puts.entries else some s

def BatchNetEffect.writeDeletes (net : BatchNetEffect V) (s : Store V) : Option (Store V) :=
  if net.deletes.size > 0 then
    some (deleteValuesByKeys s (net.deletes.entries.map Prod.fst))
  else some s

def writeBatchNetEffect (s : Store V) (net : BatchNetEffect V) : Option (Store V) := do
  let s ← net.writePuts s
  net.writeDeletes s

/-- The two statements the other way round. -/
def writeDeletesFirst (s : Store V) (net : BatchNetEffect V) : Option (Store V) := do
  let s ← net.writeDeletes s
  net.writePuts s

def currentByKey (rows : List (JsString × V)) : InsertionMap JsString V :=
  rows.foldl (fun m row => m.set row.1 row.2) .empty

/-- `select` is the read of the database, which may give its rows in any order. -/
def conditionsHold [DecidableEq V] (select : List JsString → List (JsString × V))
    (conditions : List (ConditionalBatchCondition V)) : Bool :=
  if conditions.length = 0 then true
  else
    let current := currentByKey (select (conditions.map (·.key)))
    conditions.all fun c => current.get c.key = c.expectedValue

/-- `none` is the error of a batch over `MAX_BATCH_OPERATIONS`, or of a statement. -/
def batch (s : Store V) (operations : List (BatchOperation V)) : Option (Store V) :=
  if operations.length ≤ MAX_BATCH_OPERATIONS then
    if operations.length = 0 then some s
    else writeBatchNetEffect s (resolveBatchNetEffect operations)
  else none

/-- One attempt of the transaction: attempts before it that the database aborted have
written nothing. -/
def conditionalBatch [DecidableEq V] (select : List JsString → List (JsString × V))
    (s : Store V) (conditions : List (ConditionalBatchCondition V))
    (operations : List (BatchOperation V)) : Option (Bool × Store V) :=
  if conditions.length ≤ MAX_BATCH_OPERATIONS ∧ operations.length ≤ MAX_BATCH_OPERATIONS then
    if conditionsHold select conditions then do
      let s' ← writeBatchNetEffect s (resolveBatchNetEffect operations)
      some (true, s')
    else some (false, s)
  else none

/-! ## What a net effect leaves at a key -/

/-- What the net effect leaves where `old` was. -/
def BatchNetEffect.leaves (net : BatchNetEffect V) (old : Option V) (k : JsString) : Option V :=
  if net.deletes.has k then none else (net.puts.get k).or old

def BatchNetEffect.Disjoint (net : BatchNetEffect V) : Prop :=
  ∀ k, ¬ (net.puts.has k = true ∧ net.deletes.has k = true)

theorem leaves_empty (old : Option V) (k : JsString) :
    BatchNetEffect.leaves { puts := .empty, deletes := .empty } old k = old := by
  simp [BatchNetEffect.leaves, InsertionMap.has]

theorem disjoint_empty :
    BatchNetEffect.Disjoint (V := V) { puts := .empty, deletes := .empty } := by
  simp [BatchNetEffect.Disjoint, InsertionMap.has]

theorem BatchNetEffect.Disjoint.add {net : BatchNetEffect V} (h : net.Disjoint)
    (op : BatchOperation V) : (net.add op).Disjoint := by
  intro k
  have hk := h k
  simp only [InsertionMap.has] at hk
  cases op with
  | put key value =>
    simp only [BatchNetEffect.add, InsertionMap.has, InsertionMap.get_set,
      InsertionMap.get_delete]
    split_ifs with heq
    · simp
    · exact hk
  | delete key =>
    simp only [BatchNetEffect.add, InsertionMap.has, InsertionMap.get_set,
      InsertionMap.get_delete]
    split_ifs with heq
    · simp
    · exact hk

/-- One more operation changes what is left at its own key as the store's own step does. -/
theorem leaves_add (net : BatchNetEffect V) (s t : Store V) (op : BatchOperation V)
    (h : ∀ k, t.get k = net.leaves (s.get k) k) (k : JsString) :
    (applyBatchOperation t op).get k = (net.add op).leaves (s.get k) k := by
  have hk := h k
  unfold BatchNetEffect.leaves InsertionMap.has at hk ⊢
  cases op with
  | put key value =>
    simp only [applyBatchOperation, BatchNetEffect.add, OrderedStore.get_put,
      InsertionMap.get_set, InsertionMap.get_delete]
    by_cases heq : k = key
    · simp [heq]
    · simpa [heq] using hk
  | delete key =>
    simp only [applyBatchOperation, BatchNetEffect.add, OrderedStore.get_delete,
      InsertionMap.get_set, InsertionMap.get_delete]
    by_cases heq : k = key
    · simp [heq]
    · simpa [heq] using hk

theorem leaves_foldl (operations : List (BatchOperation V)) (net : BatchNetEffect V)
    (s t : Store V) (h : ∀ k, t.get k = net.leaves (s.get k) k) (k : JsString) :
    (applyBatchOperations t operations).get k =
      (operations.foldl BatchNetEffect.add net).leaves (s.get k) k := by
  induction operations generalizing net t with
  | nil => exact h k
  | cons op operations ih =>
    rw [applyBatchOperations_cons, List.foldl_cons]
    exact ih _ _ (leaves_add net s t op h)

theorem get_applyBatchOperations (s : Store V) (operations : List (BatchOperation V))
    (k : JsString) : (applyBatchOperations s operations).get k =
      (resolveBatchNetEffect operations).leaves (s.get k) k :=
  leaves_foldl operations _ s s (fun k => (leaves_empty _ k).symm) k

theorem disjoint_resolveBatchNetEffect (operations : List (BatchOperation V)) :
    (resolveBatchNetEffect operations).Disjoint := by
  unfold resolveBatchNetEffect
  generalize hnet : BatchNetEffect.mk (V := V) .empty .empty = net
  have h : net.Disjoint := hnet ▸ disjoint_empty
  clear hnet
  induction operations generalizing net with
  | nil => exact h
  | cons op operations ih => exact ih _ (h.add op)

/-! ## What the statements write -/

theorem get_foldl_put (m : InsertionMap JsString V) (s : Store V) (k : JsString) :
    (m.entries.foldl (fun t row => t.put row.1 row.2) s).get k = (m.get k).or (s.get k) := by
  obtain ⟨rows, hnodup⟩ := m
  simp only [InsertionMap.get]
  induction rows generalizing s with
  | nil => rfl
  | cons row rows ih =>
    obtain ⟨hfresh, hrest⟩ := List.nodup_cons.1 hnodup
    rw [List.foldl_cons, ih _ hrest, OrderedStore.get_put]
    by_cases hk : row.1 = k
    · have hnone : rows.find? (fun e => e.1 = k) = none := by
        rw [List.find?_eq_none]
        intro e he heq
        exact hfresh (hk ▸ of_decide_eq_true heq ▸ List.mem_map_of_mem he)
      simp [hnone, hk]
    · rw [if_neg (Ne.symm hk), List.find?_cons_of_neg (by simpa using hk)]

theorem writePuts_eq (net : BatchNetEffect V) (s : Store V) : ∃ s',
    net.writePuts s = some s' ∧ ∀ k, s'.get k = (net.puts.get k).or (s.get k) := by
  refine ⟨_, ?_, get_foldl_put net.puts s⟩
  unfold BatchNetEffect.writePuts upsertValuesByKeys
  split_ifs with hsize hnodup
  · rfl
  · exact (hnodup net.puts.nodup).elim
  · have hempty : net.puts.entries = [] := List.length_eq_zero_iff.1 (by
      unfold InsertionMap.size at hsize
      omega)
    rw [hempty]
    rfl

theorem writeDeletes_eq (net : BatchNetEffect V) (s : Store V) : ∃ s',
    net.writeDeletes s = some s' ∧ ∀ k, s'.get k = if net.deletes.has k then none else s.get k := by
  have hmem (k : JsString) : k ∈ net.deletes.entries.map Prod.fst ↔ net.deletes.has k = true := by
    rw [← not_iff_not, ← InsertionMap.get_eq_none_iff_keys, InsertionMap.has]
    simp
  refine ⟨deleteValuesByKeys s (net.deletes.entries.map Prod.fst), ?_, fun k => ?_⟩
  · unfold BatchNetEffect.writeDeletes
    split_ifs with hsize
    · rfl
    · have hempty : net.deletes.entries = [] := List.length_eq_zero_iff.1 (by
        unfold InsertionMap.size at hsize
        omega)
      rw [hempty]
      congr 1
      ext k
      simp [deleteValuesByKeys]
  · rw [deleteValuesByKeys, OrderedStore.get_filter]
    by_cases hk : net.deletes.has k = true
    · simp only [hmem k, hk]
      rfl
    · simp only [hmem k, hk]
      rfl

theorem writeBatchNetEffect_resolve (s : Store V) (operations : List (BatchOperation V)) :
    writeBatchNetEffect s (resolveBatchNetEffect operations) =
      some (applyBatchOperations s operations) := by
  obtain ⟨s₁, hs₁, hget₁⟩ := writePuts_eq (resolveBatchNetEffect operations) s
  obtain ⟨s₂, hs₂, hget₂⟩ := writeDeletes_eq (resolveBatchNetEffect operations) s₁
  rw [writeBatchNetEffect, hs₁, Option.bind_eq_bind, Option.bind_some, hs₂]
  congr 1
  ext1 k
  rw [hget₂, hget₁, get_applyBatchOperations, BatchNetEffect.leaves]

/-- No key is in both sets, so the statements commute. -/
theorem writeDeletesFirst_resolve (s : Store V) (operations : List (BatchOperation V)) :
    writeDeletesFirst s (resolveBatchNetEffect operations) =
      some (applyBatchOperations s operations) := by
  obtain ⟨s₁, hs₁, hget₁⟩ := writeDeletes_eq (resolveBatchNetEffect operations) s
  obtain ⟨s₂, hs₂, hget₂⟩ := writePuts_eq (resolveBatchNetEffect operations) s₁
  rw [writeDeletesFirst, hs₁, Option.bind_eq_bind, Option.bind_some, hs₂]
  congr 1
  ext1 k
  rw [hget₂, hget₁, get_applyBatchOperations, BatchNetEffect.leaves]
  split_ifs with hdel
  · have hput : (resolveBatchNetEffect operations).puts.get k = none := by
      by_contra hsome
      exact disjoint_resolveBatchNetEffect operations k
        ⟨Option.isSome_iff_ne_none.2 hsome, hdel⟩
    rw [hput]
    rfl
  · rfl

/-! ## The check of the conditions -/

variable {rows : List (JsString × V)}

theorem get_foldl_set (hnodup : (rows.map Prod.fst).Nodup) (m : InsertionMap JsString V)
    (k : JsString) (v : V) : (rows.foldl (fun m row => m.set row.1 row.2) m).get k = some v ↔
      (k, v) ∈ rows ∨ k ∉ rows.map Prod.fst ∧ m.get k = some v := by
  induction rows generalizing m with
  | nil => simp
  | cons row rows ih =>
    obtain ⟨hfresh, hrest⟩ := List.nodup_cons.1 hnodup
    rw [List.foldl_cons, ih hrest, InsertionMap.get_set]
    by_cases hk : k = row.1
    · subst hk
      have hnot : (row.1, v) ∉ rows := by
        intro hmem
        exact hfresh (List.mem_map.2 ⟨_, hmem, rfl⟩)
      simp [hnot, hfresh, Prod.ext_iff, eq_comm]
    · have hne : (k, v) ≠ row := fun heq => hk (congrArg Prod.fst heq)
      simp [hk, hne]

theorem get_currentByKey {s : Store V} {keys : List JsString}
    (hrows : rows.Perm (selectValuesByKeys s keys)) {k : JsString} (hk : k ∈ keys) :
    (currentByKey rows).get k = s.get k := by
  have hnodup : (rows.map Prod.fst).Nodup := by
    rw [(hrows.map Prod.fst).nodup_iff]
    exact List.Pairwise.map Prod.fst (fun _ _ h => ne_of_lt h) (s.range_sorted _)
  ext v
  rw [currentByKey, get_foldl_set hnodup, hrows.mem_iff, selectValuesByKeys,
    OrderedStore.mem_range]
  simp [hk]

theorem conditionsHold_eq [DecidableEq V] {s : Store V}
    {select : List JsString → List (JsString × V)}
    (hselect : ∀ keys, (select keys).Perm (selectValuesByKeys s keys))
    (conditions : List (ConditionalBatchCondition V)) :
    conditionsHold select conditions = Storage.conditionsHold s conditions := by
  unfold conditionsHold Storage.conditionsHold
  split_ifs with hlen
  · rw [List.length_eq_zero_iff.1 hlen]
    rfl
  · rw [Bool.eq_iff_iff, List.all_eq_true, List.all_eq_true]
    refine forall₂_congr fun c hc => ?_
    rw [get_currentByKey (hselect _) (List.mem_map_of_mem hc)]

/-! ## The collapsed batch -/

/-- The conditions are accepted as one by one, and both orders of the two statements leave what
the operations leave one after another. -/
theorem collapsed_batch_sequential [DecidableEq V] (s : Store V)
    (select : List JsString → List (JsString × V))
    (hselect : ∀ keys, (select keys).Perm (selectValuesByKeys s keys))
    (conditions : List (ConditionalBatchCondition V)) (operations : List (BatchOperation V)) :
    (conditionsHold select conditions = Storage.conditionsHold s conditions ∧
      writeBatchNetEffect s (resolveBatchNetEffect operations) =
        some (applyBatchOperations s operations) ∧
      writeDeletesFirst s (resolveBatchNetEffect operations) =
        some (applyBatchOperations s operations) ∧
      (resolveBatchNetEffect operations).Disjoint) ∧
    batch s operations = Storage.batch s operations ∧
      conditionalBatch select s conditions operations =
        Storage.conditionalBatch s conditions operations := by
  have hwrite := writeBatchNetEffect_resolve s operations
  have hhold := conditionsHold_eq hselect conditions
  refine ⟨⟨hhold, hwrite, writeDeletesFirst_resolve s operations,
    disjoint_resolveBatchNetEffect operations⟩, ?_, ?_⟩
  · unfold batch Storage.batch
    split_ifs with hlen hempty
    · rw [List.length_eq_zero_iff.1 hempty]
      rfl
    · exact hwrite
    · rfl
  · unfold conditionalBatch Storage.conditionalBatch
    rw [hhold, hwrite]
    rfl

def twoRows : Store Nat := (OrderedStore.empty.put (js "a") 1).put (js "b") 2

/-- The rows as the database may answer them. -/
def selectReversed (keys : List JsString) : List (JsString × Nat) :=
  (selectValuesByKeys twoRows keys).reverse

/-- Conditions and operations that name keys twice. -/
theorem collapsed_batch_of_rows :
    conditionsHold selectReversed [⟨js "b", some 2⟩, ⟨js "a", some 1⟩, ⟨js "c", none⟩,
        ⟨js "a", some 1⟩] = true ∧
      conditionalBatch selectReversed twoRows [⟨js "b", some 2⟩, ⟨js "a", some 1⟩, ⟨js "c", none⟩,
        ⟨js "a", some 1⟩] [.put (js "c") 5, .delete (js "a"), .delete (js "c"), .put (js "a") 7,
        .put (js "c") 6, .delete (js "b")] =
          some (true, (OrderedStore.empty.put (js "a") 7).put (js "c") 6) := by
  obtain ⟨⟨hhold, -⟩, -, hbatch⟩ := collapsed_batch_sequential twoRows selectReversed
    (fun _ => List.reverse_perm _)
    [⟨js "b", some 2⟩, ⟨js "a", some 1⟩, ⟨js "c", none⟩, ⟨js "a", some 1⟩]
    [.put (js "c") 5, .delete (js "a"), .delete (js "c"), .put (js "a") 7, .put (js "c") 6,
      .delete (js "b")]
  rw [hhold, hbatch]
  exact ⟨by decide, by rfl⟩

end Weft.Storage.Postgres
