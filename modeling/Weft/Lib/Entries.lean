import Mathlib
import Weft.Lib.OrderedStore

/-! Lists of keyed entries read as maps: the last entry of a key counts. -/

namespace Weft.Lib

universe u v

namespace OrderedStore

variable {K : Type u} {V : Type v} [LinearOrder K]

def putAll (s : OrderedStore K V) (entries : List (K × V)) : OrderedStore K V :=
  entries.foldl (fun s e => s.put e.1 e.2) s

end OrderedStore

variable {K : Type u} {V : Type v} [LinearOrder K]

/-- The value of the last entry of `k`. -/
def lastOf (entries : List (K × V)) (k : K) : Option V :=
  (OrderedStore.empty.putAll entries).get k

theorem OrderedStore.get_putAll (s : OrderedStore K V) (entries : List (K × V)) (k : K) :
    (s.putAll entries).get k = (lastOf entries k).or (s.get k) := by
  induction entries using List.reverseRecOn with
  | nil => rfl
  | append_singleton entries e ih =>
    simp only [lastOf, putAll, List.foldl_append, List.foldl_cons, List.foldl_nil, get_put] at ih ⊢
    by_cases hk : k = e.1
    · simp [hk]
    · simpa [hk] using ih

@[simp] theorem lastOf_nil (k : K) : lastOf ([] : List (K × V)) k = none := rfl

theorem lastOf_append (a b : List (K × V)) (k : K) :
    lastOf (a ++ b) k = (lastOf b k).or (lastOf a k) := by
  rw [lastOf, OrderedStore.putAll, List.foldl_append]
  exact OrderedStore.get_putAll _ b k

theorem lastOf_singleton (e : K × V) (k : K) :
    lastOf [e] k = if k = e.1 then some e.2 else none := by
  simp [lastOf, OrderedStore.putAll]

theorem lastOf_filter (p : K → Bool) (entries : List (K × V)) (k : K) :
    lastOf (entries.filter fun e => p e.1) k = if p k then lastOf entries k else none := by
  induction entries using List.reverseRecOn with
  | nil => simp
  | append_singleton entries e ih =>
    rw [List.filter_append, lastOf_append, lastOf_append, ih, lastOf_singleton]
    by_cases hk : k = e.1
    · subst hk
      by_cases hp : p e.1 <;> simp [hp, lastOf_singleton]
    · by_cases hp : p e.1 <;> simp [hp, hk, lastOf_singleton]

/-- Entries with distinct keys are found where they are. -/
theorem lastOf_eq_some_iff {entries : List (K × V)} {k : K} {v : V}
    (h : (entries.map Prod.fst).Nodup) : lastOf entries k = some v ↔ (k, v) ∈ entries := by
  induction entries using List.reverseRecOn with
  | nil => simp
  | append_singleton entries e ih =>
    rw [List.map_append, List.map_singleton, List.nodup_append] at h
    obtain ⟨hentries, -, hnew⟩ := h
    rw [lastOf_append, lastOf_singleton, List.mem_append, List.mem_singleton]
    by_cases hk : k = e.1
    · subst hk
      have hout : (e.1, v) ∉ entries := fun hmem =>
        hnew _ (List.mem_map_of_mem hmem) _ (List.mem_singleton_self _) rfl
      rw [if_pos rfl, Option.some_or, Option.some.injEq]
      constructor
      · rintro rfl
        exact .inr rfl
      · rintro (hmem | heq)
        · exact (hout hmem).elim
        · rw [← heq]
    · rw [if_neg hk, Option.none_or, ih hentries]
      refine ⟨.inl, fun hmem => hmem.resolve_right ?_⟩
      rintro rfl
      exact hk rfl

/-- A map is read back from its own entries. -/
theorem lastOf_entries (s : OrderedStore K V) (k : K) : lastOf s.entries k = s.get k := by
  have hnodup : (s.entries.map Prod.fst).Nodup := by
    rw [List.Nodup, List.pairwise_map]
    exact s.sorted.imp fun h => ne_of_lt h
  ext v
  rw [lastOf_eq_some_iff hnodup, s.get_eq_some_iff]

theorem lastOf_eq_none {entries : List (K × V)} {k : K} (h : k ∉ entries.map Prod.fst) :
    lastOf entries k = none := by
  induction entries using List.reverseRecOn with
  | nil => rfl
  | append_singleton entries e ih =>
    rw [List.map_append, List.mem_append, not_or] at h
    rw [lastOf_append, lastOf_singleton, if_neg, Option.none_or, ih h.1]
    rintro rfl
    exact h.2 (List.mem_singleton_self _)

/-- What holds of a key without values needs to be checked for the keys of the entries only. -/
theorem forall_lastOf_iff {P : K → Option V → Option V → Prop} (hnone : ∀ k, P k none none)
    (a b : List (K × V)) :
    (∀ k, P k (lastOf a k) (lastOf b k)) ↔
      ∀ k ∈ a.map Prod.fst ++ b.map Prod.fst, P k (lastOf a k) (lastOf b k) := by
  refine ⟨fun h k _ => h k, fun h k => ?_⟩
  by_cases hk : k ∈ a.map Prod.fst ++ b.map Prod.fst
  · exact h k hk
  · rw [List.mem_append, not_or] at hk
    rw [lastOf_eq_none hk.1, lastOf_eq_none hk.2]
    exact hnone k

end Weft.Lib
