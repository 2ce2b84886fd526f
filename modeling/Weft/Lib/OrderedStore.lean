import Mathlib

/-! A finite map kept as a list of entries in strictly ascending key order. A store is
determined by what `get` answers, and a range of keys is read in key order. -/

namespace Weft.Lib

universe u v

structure OrderedStore (K : Type u) (V : Type v) [LinearOrder K] where
  entries : List (K × V)
  sorted : entries.Pairwise fun a b => a.1 < b.1

namespace OrderedStore

variable {K : Type u} {V : Type v} [LinearOrder K]

def empty : OrderedStore K V := ⟨[], List.Pairwise.nil⟩

def get (s : OrderedStore K V) (k : K) : Option V :=
  (s.entries.find? fun e => e.1 = k).map Prod.snd

def filter (s : OrderedStore K V) (p : K → Bool) : OrderedStore K V :=
  ⟨s.entries.filter fun e => p e.1, s.sorted.filter _⟩

def delete (s : OrderedStore K V) (k : K) : OrderedStore K V :=
  s.filter fun k' => k' ≠ k

theorem put_sorted (s : OrderedStore K V) (k : K) (v : V) :
    (((s.filter fun k' => k' < k).entries) ++ (k, v) ::
      (s.filter fun k' => k < k').entries).Pairwise fun a b => a.1 < b.1 := by
  have hlow : ∀ a ∈ (s.filter fun k' => k' < k).entries, a.1 < k := by
    intro a ha
    simpa using (List.mem_filter.1 ha).2
  have hhigh : ∀ a ∈ (s.filter fun k' => k < k').entries, k < a.1 := by
    intro a ha
    simpa using (List.mem_filter.1 ha).2
  refine List.pairwise_append.2 ⟨(s.filter _).sorted, ?_, ?_⟩
  · exact List.pairwise_cons.2 ⟨hhigh, (s.filter _).sorted⟩
  · intro a ha b hb
    rcases List.mem_cons.1 hb with rfl | hb
    · exact hlow a ha
    · exact lt_trans (hlow a ha) (hhigh b hb)

def put (s : OrderedStore K V) (k : K) (v : V) : OrderedStore K V :=
  ⟨_, s.put_sorted k v⟩

/-- The entries whose key meets `p`, in key order. -/
def range (s : OrderedStore K V) (p : K → Bool) : List (K × V) :=
  s.entries.filter fun e => p e.1

theorem eq_of_key_eq (s : OrderedStore K V) {a b : K × V}
    (ha : a ∈ s.entries) (hb : b ∈ s.entries) (h : a.1 = b.1) : a = b := by
  by_contra hne
  have hp : s.entries.Pairwise fun a b => a.1 ≠ b.1 := s.sorted.imp ne_of_lt
  have : Std.Symm fun a b : K × V => a.1 ≠ b.1 := ⟨fun _ _ hab => hab.symm⟩
  exact hp.forall ha hb hne h

theorem get_eq_some_iff (s : OrderedStore K V) (k : K) (v : V) :
    s.get k = some v ↔ (k, v) ∈ s.entries := by
  constructor
  · intro h
    obtain ⟨e, he, hv⟩ := Option.map_eq_some_iff.1 h
    have hk : e.1 = k := by simpa using List.find?_some he
    have hmem := List.mem_of_find?_eq_some he
    rwa [show (k, v) = e from Prod.ext hk.symm hv.symm]
  · intro h
    cases hf : s.entries.find? (fun e => e.1 = k) with
    | none =>
      have := List.find?_eq_none.1 hf (k, v) h
      simp at this
    | some e =>
      have hk : e.1 = k := by simpa using List.find?_some hf
      have he := s.eq_of_key_eq (List.mem_of_find?_eq_some hf) h hk
      simp [get, hf, he]

@[simp] theorem get_empty (k : K) : (empty : OrderedStore K V).get k = none := rfl

@[simp] theorem get_filter (s : OrderedStore K V) (p : K → Bool) (k : K) :
    (s.filter p).get k = if p k then s.get k else none := by
  ext v
  rw [get_eq_some_iff]
  by_cases hp : p k
  · simp [filter, hp, get_eq_some_iff]
  · simp [filter, hp]

@[simp] theorem get_put (s : OrderedStore K V) (k k' : K) (v : V) :
    (s.put k v).get k' = if k' = k then some v else s.get k' := by
  ext w
  rw [get_eq_some_iff]
  rcases lt_trichotomy k' k with h | rfl | h
  · simp [put, filter, h, h.ne, h.le.not_gt, get_eq_some_iff]
  · simp [put, filter, eq_comm]
  · simp [put, filter, h, h.ne', h.le.not_gt, get_eq_some_iff]

@[simp] theorem get_delete (s : OrderedStore K V) (k k' : K) :
    (s.delete k).get k' = if k' = k then none else s.get k' := by
  by_cases h : k' = k <;> simp [delete, h]

private theorem key_ext_sorted {l₁ l₂ : List (K × V)}
    (h₁ : l₁.Pairwise fun a b => a.1 < b.1) (h₂ : l₂.Pairwise fun a b => a.1 < b.1)
    (h : ∀ e, e ∈ l₁ ↔ e ∈ l₂) : l₁ = l₂ := by
  have : Std.Irrefl fun a b : K × V => a.1 < b.1 := ⟨fun a => lt_irrefl a.1⟩
  have : Std.Antisymm fun a b : K × V => a.1 < b.1 := ⟨fun a b hab hba => (lt_asymm hab hba).elim⟩
  exact List.Pairwise.eq_of_mem_iff h₁ h₂ h

@[ext] theorem ext_get {s t : OrderedStore K V} (h : ∀ k, s.get k = t.get k) : s = t := by
  have hmem : ∀ e, e ∈ s.entries ↔ e ∈ t.entries := by
    rintro ⟨k, v⟩
    rw [← get_eq_some_iff, ← get_eq_some_iff, h k]
  have he := key_ext_sorted s.sorted t.sorted hmem
  cases s
  cases t
  simp only at he
  subst he
  rfl

theorem mem_range (s : OrderedStore K V) (p : K → Bool) (k : K) (v : V) :
    (k, v) ∈ s.range p ↔ s.get k = some v ∧ p k = true := by
  rw [range, List.mem_filter, get_eq_some_iff]

theorem range_sorted (s : OrderedStore K V) (p : K → Bool) :
    (s.range p).Pairwise fun a b => a.1 < b.1 :=
  s.sorted.filter _

/-- A list of entries in key order with the members of a range is that range. -/
theorem range_eq_of_sorted (s : OrderedStore K V) (p : K → Bool) {l : List (K × V)}
    (hl : l.Pairwise fun a b => a.1 < b.1)
    (h : ∀ k v, (k, v) ∈ l ↔ s.get k = some v ∧ p k = true) : s.range p = l := by
  refine key_ext_sorted (s.range_sorted p) hl ?_
  rintro ⟨k, v⟩
  rw [mem_range, h]

theorem range_congr {s t : OrderedStore K V} {p : K → Bool}
    (h : ∀ k, p k = true → s.get k = t.get k) : s.range p = t.range p := by
  refine s.range_eq_of_sorted p (t.range_sorted p) ?_
  intro k v
  rw [mem_range]
  constructor
  · rintro ⟨hg, hp⟩
    exact ⟨(h k hp).trans hg, hp⟩
  · rintro ⟨hg, hp⟩
    exact ⟨(h k hp).symm.trans hg, hp⟩

/-- The entries that `row` gives the first numbers, where their keys ascend. -/
def ofRange (row : Nat → K × V) (count : Nat) (h : ∀ i j, i < j → j < count →
    (row i).1 < (row j).1) :
    OrderedStore K V where
  entries := (List.range count).map row
  sorted := by
    rw [List.pairwise_map]
    refine List.pairwise_lt_range.imp_of_mem fun {i j} _ hj hij => ?_
    exact h i j hij (List.mem_range.1 hj)

theorem get_ofRange {row : Nat → K × V} {count : Nat}
    (h : ∀ i j, i < j → j < count → (row i).1 < (row j).1) {i : Nat} (hi : i < count) :
    (ofRange row count h).get (row i).1 = some (row i).2 := by
  rw [get_eq_some_iff]
  exact List.mem_map.2 ⟨i, List.mem_range.2 hi, rfl⟩

theorem exists_of_get_ofRange {row : Nat → K × V} {count : Nat}
    {h : ∀ i j, i < j → j < count → (row i).1 < (row j).1} {k : K} {v : V}
    (hget : (ofRange row count h).get k = some v) : ∃ i < count, row i = (k, v) := by
  obtain ⟨i, hi, heq⟩ := List.mem_map.1 ((get_eq_some_iff _ _ _).1 hget)
  exact ⟨i, List.mem_range.1 hi, heq⟩

end OrderedStore

end Weft.Lib
