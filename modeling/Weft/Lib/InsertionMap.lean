import Mathlib

/-! Finite maps that remember the order in which their keys came: writing a key that is there
keeps its place, writing a new one puts it last. -/

namespace Weft.Lib

universe u v

structure InsertionMap (K : Type u) (V : Type v) where
  entries : List (K × V)
  nodup : (entries.map Prod.fst).Nodup

namespace InsertionMap

variable {K : Type u} {V : Type v}

def empty : InsertionMap K V := ⟨[], List.nodup_nil⟩

def values (m : InsertionMap K V) : List V := m.entries.map Prod.snd

def size (m : InsertionMap K V) : Nat := m.entries.length

def count (p : V → Bool) (m : InsertionMap K V) : Nat := m.values.countP p

theorem count_eq_countP (p : V → Bool) (m : InsertionMap K V) :
    m.count p = m.entries.countP (fun e => p e.2) := by
  rw [count, values, List.countP_map]
  rfl

@[simp] theorem count_empty (p : V → Bool) : (empty : InsertionMap K V).count p = 0 := rfl

variable {m : InsertionMap K V} {k : K}

theorem nodup_concat (h : k ∉ m.entries.map Prod.fst) (v : V) :
    ((m.entries ++ [(k, v)]).map Prod.fst).Nodup := by
  rw [List.map_append]
  refine List.nodup_append.2 ⟨m.nodup, List.nodup_singleton k, ?_⟩
  intro a ha b hb heq
  obtain rfl : b = k := List.mem_singleton.1 hb
  exact h (heq ▸ ha)

variable [DecidableEq K]

def get (m : InsertionMap K V) (k : K) : Option V :=
  (m.entries.find? (fun e => e.1 = k)).map Prod.snd

def has (m : InsertionMap K V) (k : K) : Bool := (m.get k).isSome

def delete (m : InsertionMap K V) (k : K) : InsertionMap K V where
  entries := m.entries.filter (fun e => e.1 ≠ k)
  nodup := m.nodup.sublist (List.filter_sublist.map Prod.fst)

/-- The entries with the value of one key exchanged. -/
def rewritten (k : K) (v : V) (es : List (K × V)) : List (K × V) :=
  es.map fun e => if e.1 = k then (k, v) else e

theorem rewritten_keys (k : K) (v : V) (es : List (K × V)) :
    (rewritten k v es).map Prod.fst = es.map Prod.fst := by
  rw [rewritten, List.map_map]
  refine List.map_congr_left fun e _ => ?_
  simp only [Function.comp_apply]
  split_ifs with h
  · exact h.symm
  · rfl

def set (m : InsertionMap K V) (k : K) (v : V) : InsertionMap K V :=
  if h : k ∈ m.entries.map Prod.fst then
    ⟨rewritten k v m.entries, (rewritten_keys k v m.entries).symm ▸ m.nodup⟩
  else
    ⟨m.entries ++ [(k, v)], nodup_concat h v⟩

theorem get_eq_some_iff {v : V} : m.get k = some v ↔ (k, v) ∈ m.entries := by
  obtain ⟨es, hnodup⟩ := m
  simp only [get]
  induction es with
  | nil => simp
  | cons e es ih =>
    obtain ⟨hfresh, hrest⟩ := List.nodup_cons.1 hnodup
    by_cases he : e.1 = k
    · rw [List.find?_cons_of_pos (by simpa using he), Option.map_some, Option.some.injEq,
        List.mem_cons]
      constructor
      · intro hv
        exact .inl (by rw [← he, ← hv])
      · rintro (heq | hmem)
        · rw [← heq]
        · exact (hfresh (he ▸ List.mem_map_of_mem hmem)).elim
    · rw [List.find?_cons_of_neg (by simpa using he), ih hrest, List.mem_cons]
      refine ⟨.inr, ?_⟩
      rintro (heq | hmem)
      · exact (he (by rw [← heq])).elim
      · exact hmem

theorem get_eq_none_iff_keys : m.get k = none ↔ k ∉ m.entries.map Prod.fst := by
  constructor
  · intro h hk
    obtain ⟨e, he, rfl⟩ := List.mem_map.1 hk
    have := get_eq_some_iff.2 he
    rw [h] at this
    cases this
  · intro h
    cases hv : m.get k with
    | none => rfl
    | some v => exact (h (List.mem_map_of_mem (f := Prod.fst) (get_eq_some_iff.1 hv))).elim

@[simp] theorem get_empty (k : K) : (empty : InsertionMap K V).get k = none := rfl

theorem get_delete (m : InsertionMap K V) (k j : K) :
    (m.delete k).get j = if j = k then none else m.get j := by
  split_ifs with h
  · subst h
    rw [get_eq_none_iff_keys]
    intro hmem
    obtain ⟨e, he, heq⟩ := List.mem_map.1 hmem
    simp [delete, heq] at he
  · refine Option.ext fun v => ?_
    rw [get_eq_some_iff, get_eq_some_iff]
    simp [delete, h]

theorem of_get_delete {m : InsertionMap K V} {k j : K} {v : V} (h : (m.delete k).get j = some v) :
    j ≠ k ∧ m.get j = some v := by
  rw [get_delete] at h
  split_ifs at h with hj
  exact ⟨hj, h⟩

/-- A present entry and the entries of the other keys are all the entries. -/
theorem perm_delete {v : V} (h : m.get k = some v) :
    m.entries.Perm ((k, v) :: (m.delete k).entries) := by
  have hnodup : m.entries.Nodup := m.nodup.of_map Prod.fst
  refine (List.perm_ext_iff_of_nodup hnodup ?_).2 fun e => ?_
  · refine List.nodup_cons.2 ⟨?_, hnodup.filter _⟩
    simp [delete]
  · rw [List.mem_cons]
    obtain ⟨j, w⟩ := e
    by_cases hj : j = k
    · subst hj
      rw [← get_eq_some_iff, h]
      simp [delete, eq_comm]
    · simp [delete, hj]

theorem delete_eq_self (h : m.get k = none) : (m.delete k).entries = m.entries := by
  refine List.filter_eq_self.2 fun e he => ?_
  have hfresh := get_eq_none_iff_keys.1 h
  simp only [ne_eq, decide_not, Bool.not_eq_eq_eq_not, Bool.not_true, decide_eq_false_iff_not]
  rintro rfl
  exact hfresh (List.mem_map_of_mem he)

theorem perm_set (m : InsertionMap K V) (k : K) (v : V) :
    (m.set k v).entries.Perm ((k, v) :: (m.delete k).entries) := by
  rw [set]
  split_ifs with h
  · obtain ⟨w, hw⟩ := Option.ne_none_iff_exists'.1 (fun hnone => get_eq_none_iff_keys.1 hnone h)
    have hperm := (perm_delete hw).map fun e => if e.1 = k then (k, v) else e
    refine hperm.trans ?_
    rw [List.map_cons, if_pos rfl]
    refine (List.Perm.of_eq ?_).cons _
    refine List.map_congr_left (fun e he => ?_) |>.trans (List.map_id _)
    rw [if_neg (by simpa [delete] using (List.mem_filter.1 he).2), id]
  · rw [delete_eq_self (get_eq_none_iff_keys.2 h)]
    exact List.perm_append_singleton _ _

theorem get_set (m : InsertionMap K V) (k j : K) (v : V) :
    (m.set k v).get j = if j = k then some v else m.get j := by
  refine Option.ext fun w => ?_
  rw [get_eq_some_iff, (perm_set m k v).mem_iff, List.mem_cons]
  split_ifs with h
  · subst h
    simp [delete, eq_comm]
  · rw [get_eq_some_iff]
    simp [delete, h]

/-! How many values meet a condition. -/

theorem count_delete {v : V} (h : m.get k = some v) (p : V → Bool) :
    m.count p = (m.delete k).count p + if p v then 1 else 0 := by
  rw [count_eq_countP, count_eq_countP, (perm_delete h).countP_eq, List.countP_cons]

theorem count_set_of_get_none (h : m.get k = none) (v : V) (p : V → Bool) :
    (m.set k v).count p = m.count p + if p v then 1 else 0 := by
  rw [count_eq_countP, count_eq_countP, (perm_set m k v).countP_eq, List.countP_cons,
    delete_eq_self h]

/-- Writing a present key exchanges what its value counts for. -/
theorem count_set_of_get_some {w : V} (h : m.get k = some w) (v : V) (p : V → Bool) :
    ((m.set k v).count p + if p w then 1 else 0) = m.count p + if p v then 1 else 0 := by
  rw [count_delete h p, count_eq_countP, count_eq_countP, (perm_set m k v).countP_eq,
    List.countP_cons]
  exact Nat.add_right_comm _ _ _

/-! Deleting entries while the map is walked. -/

/-- The walk visits the entries the map has at its beginning. -/
def deleteWhere (q : V → Bool) (m : InsertionMap K V) : InsertionMap K V :=
  m.entries.foldl (fun walked e => if q e.2 then walked.delete e.1 else walked) m

theorem entries_foldl_delete (q : V → Bool) (es : List (K × V)) (m : InsertionMap K V) :
    (es.foldl (fun walked e => if q e.2 then walked.delete e.1 else walked) m).entries =
      m.entries.filter fun x => es.all fun e => !(q e.2 && e.1 = x.1) := by
  induction es generalizing m with
  | nil => simp
  | cons e es ih =>
    rw [List.foldl_cons, ih]
    split_ifs with hq
    · rw [delete, List.filter_filter]
      refine List.filter_congr fun x _ => ?_
      simp [hq, Bool.and_comm, eq_comm]
    · refine List.filter_congr fun x _ => ?_
      simp [hq]

theorem entries_deleteWhere (q : V → Bool) (m : InsertionMap K V) :
    (m.deleteWhere q).entries = m.entries.filter fun e => !q e.2 := by
  rw [deleteWhere, entries_foldl_delete]
  refine List.filter_congr fun x hx => ?_
  rw [Bool.eq_iff_iff, List.all_eq_true]
  constructor
  · intro h
    simpa using h x hx
  · intro hq e he
    by_cases heq : e.1 = x.1
    · have hvalue : m.get x.1 = some x.2 := get_eq_some_iff.2 hx
      have hsame := get_eq_some_iff.2 he
      rw [heq, hvalue, Option.some.injEq] at hsame
      simpa [← hsame, heq] using hq
    · simp [heq]

theorem count_deleteWhere (p q : V → Bool) (m : InsertionMap K V) :
    (m.deleteWhere q).count p = m.count fun v => p v && !q v := by
  rw [count_eq_countP, count_eq_countP, entries_deleteWhere, List.countP_filter]

theorem get_deleteWhere_eq_some_iff {q : V → Bool} {v : V} :
    (m.deleteWhere q).get k = some v ↔ m.get k = some v ∧ q v = false := by
  rw [get_eq_some_iff, get_eq_some_iff, entries_deleteWhere]
  simp

theorem mem_values_iff {v : V} : v ∈ m.values ↔ ∃ k, m.get k = some v := by
  simp [values, get_eq_some_iff]

theorem count_pos_iff {p : V → Bool} : 0 < m.count p ↔ ∃ k v, m.get k = some v ∧ p v = true := by
  rw [count, List.countP_pos_iff]
  constructor
  · rintro ⟨v, hv, hp⟩
    obtain ⟨k, hk⟩ := mem_values_iff.1 hv
    exact ⟨k, v, hk, hp⟩
  · rintro ⟨k, v, hk, hp⟩
    exact ⟨v, mem_values_iff.2 ⟨k, hk⟩, hp⟩

section Lists

/-! Maps to lists, in which no key is kept for an empty list. -/

variable {W : Type v}

def listAt (m : InsertionMap K (List W)) (k : K) : List W := (m.get k).getD []

def putList (m : InsertionMap K (List W)) (k : K) (l : List W) : InsertionMap K (List W) :=
  if l.isEmpty then m.delete k else m.set k l

theorem listAt_set (m : InsertionMap K (List W)) (k j : K) (l : List W) :
    (m.set k l).listAt j = if j = k then l else m.listAt j := by
  unfold listAt
  rw [get_set]
  split <;> rfl

theorem listAt_putList (m : InsertionMap K (List W)) (k j : K) (l : List W) :
    (m.putList k l).listAt j = if j = k then l else m.listAt j := by
  unfold putList
  split
  · rename_i hempty
    obtain rfl := List.isEmpty_iff.1 hempty
    unfold listAt
    rw [get_delete]
    split <;> rfl
  · exact listAt_set m k j l

end Lists

end InsertionMap

end Weft.Lib
