import Mathlib

/-! Keyed fields in the order of their keys. -/

namespace Weft.Lib

universe u v w

variable {K : Type u} [LinearOrder K] {A : Type v} {B : Type w}

/-- Fields of one key keep the order they stood in. -/
def sortByKey (fields : List (K × A)) : List (K × A) :=
  fields.insertionSort fun a b => a.1 ≤ b.1

theorem sortByKey_pairwise (fields : List (K × A)) :
    (sortByKey fields).Pairwise fun a b => a.1 ≤ b.1 :=
  haveI : Std.Total fun a b : K × A => a.1 ≤ b.1 := ⟨fun a b => le_total a.1 b.1⟩
  haveI : IsTrans (K × A) fun a b => a.1 ≤ b.1 := ⟨fun _ _ _ => le_trans⟩
  List.pairwise_insertionSort _ fields

variable {fields : List (K × A)}

theorem sortByKey_of_pairwise (h : fields.Pairwise fun a b => a.1 ≤ b.1) :
    sortByKey fields = fields :=
  h.insertionSort_eq

@[simp] theorem sortByKey_sortByKey (fields : List (K × A)) :
    sortByKey (sortByKey fields) = sortByKey fields :=
  sortByKey_of_pairwise (sortByKey_pairwise fields)

theorem sortByKey_perm (fields : List (K × A)) : (sortByKey fields).Perm fields :=
  List.perm_insertionSort _ fields

variable {x : K × A}

@[simp] theorem mem_sortByKey : x ∈ sortByKey fields ↔ x ∈ fields :=
  (sortByKey_perm fields).mem_iff

theorem sortByKey_map (f : A → B) (fields : List (K × A)) :
    sortByKey (fields.map (Prod.map id f)) = (sortByKey fields).map (Prod.map id f) :=
  (List.map_insertionSort (fun a b : K × A => a.1 ≤ b.1) (fun a b : K × B => a.1 ≤ b.1)
    (Prod.map id f) fields fun _ _ _ _ => Iff.rfl).symm

private theorem filterMap_orderedInsert_of_none (g : K × A → Option (K × B)) (hx : g x = none)
    (fields : List (K × A)) :
    (fields.orderedInsert (fun a b => a.1 ≤ b.1) x).filterMap g = fields.filterMap g := by
  induction fields with
  | nil => simp [hx]
  | cons b fields ih =>
    rw [List.orderedInsert_cons]
    split_ifs with hle
    · rw [List.filterMap_cons_none hx]
    · rw [List.filterMap_cons, List.filterMap_cons, ih]

private theorem filterMap_orderedInsert_of_some (g : K × A → Option (K × B))
    (hg : ∀ x y, g x = some y → y.1 = x.1) {y : K × B} (hx : g x = some y) (fields : List (K × A))
    (hfields : fields.Pairwise fun a b => a.1 ≤ b.1) :
    (fields.orderedInsert (fun a b => a.1 ≤ b.1) x).filterMap g =
      (fields.filterMap g).orderedInsert (fun a b => a.1 ≤ b.1) y := by
  have hkey : y.1 = x.1 := hg x y hx
  induction fields with
  | nil => simp [hx]
  | cons b fields ih =>
    obtain ⟨hb, hrest⟩ := List.pairwise_cons.1 hfields
    rw [List.orderedInsert_cons]
    split_ifs with hle
    · rw [List.filterMap_cons_some hx]
      -- what is kept of the rest stands after `b`, so `y` goes before all of it
      have hall : ∀ z ∈ (b :: fields).filterMap g, y.1 ≤ z.1 := by
        intro z hz
        obtain ⟨c, hc, hcz⟩ := List.mem_filterMap.1 hz
        rw [hkey, hg c z hcz]
        rcases List.mem_cons.1 hc with rfl | hc
        · exact hle
        · exact hle.trans (hb c hc)
      cases hkept : (b :: fields).filterMap g with
      | nil => rfl
      | cons z rest =>
        rw [List.orderedInsert_cons_of_le]
        exact hall z (hkept ▸ List.mem_cons_self)
    · cases hgb : g b with
      | none => rw [List.filterMap_cons_none hgb, List.filterMap_cons_none hgb, ih hrest]
      | some z =>
        have hz : ¬ y.1 ≤ z.1 := by rwa [hkey, hg b z hgb]
        rw [List.filterMap_cons_some hgb, List.filterMap_cons_some hgb, ih hrest,
          List.orderedInsert_cons, if_neg hz]

private theorem lookup_orderedInsert [BEq K] [LawfulBEq K] (x : K × A) (fields : List (K × A))
    (k : K) :
    (fields.orderedInsert (fun a b => a.1 ≤ b.1) x).lookup k = (x :: fields).lookup k := by
  induction fields with
  | nil => rfl
  | cons b fields ih =>
    rw [List.orderedInsert_cons]
    split_ifs with hle
    · rfl
    · rw [List.lookup_cons, ih, List.lookup_cons, List.lookup_cons, List.lookup_cons]
      have hne : x.1 ≠ b.1 := fun heq => hle heq.le
      by_cases hkb : k = b.1
      · have hkx : (k == x.1) = false := beq_false_of_ne (hkb ▸ hne.symm)
        simp only [hkx, beq_iff_eq.2 hkb]
      · have hkb' : (k == b.1) = false := beq_false_of_ne hkb
        simp only [hkb']

/-- A step that keeps or drops a field by itself can be taken before the sort. -/
theorem sortByKey_filterMap (g : K × A → Option (K × B))
    (hg : ∀ x y, g x = some y → y.1 = x.1) (fields : List (K × A)) :
    sortByKey (fields.filterMap g) = (sortByKey fields).filterMap g := by
  induction fields with
  | nil => rfl
  | cons x fields ih =>
    have hsorted := sortByKey_pairwise fields
    have hcons : sortByKey (x :: fields) =
        (sortByKey fields).orderedInsert (fun a b => a.1 ≤ b.1) x := rfl
    rw [hcons]
    cases hx : g x with
    | none =>
      rw [List.filterMap_cons_none hx, ih]
      exact (filterMap_orderedInsert_of_none g hx _).symm
    | some y =>
      rw [List.filterMap_cons_some hx, filterMap_orderedInsert_of_some g hg hx _ hsorted, ← ih]
      rfl

theorem lookup_sortByKey [BEq K] [LawfulBEq K] (fields : List (K × A)) (k : K) :
    (sortByKey fields).lookup k = fields.lookup k := by
  induction fields with
  | nil => rfl
  | cons x fields ih =>
    have hcons : sortByKey (x :: fields) =
        (sortByKey fields).orderedInsert (fun a b => a.1 ≤ b.1) x := rfl
    rw [hcons, lookup_orderedInsert, List.lookup_cons, List.lookup_cons, ih]

/-- Fields with distinct keys may stand in any order. -/
theorem sortByKey_eq_of_perm {fields fields' : List (K × A)} (h : fields.Perm fields')
    (hkeys : (fields.map Prod.fst).Nodup) : sortByKey fields = sortByKey fields' := by
  have hperm : (sortByKey fields).Perm (sortByKey fields') :=
    (sortByKey_perm fields).trans (h.trans (sortByKey_perm fields').symm)
  refine hperm.eq_of_pairwise ?_ (sortByKey_pairwise fields) (sortByKey_pairwise fields')
  intro a b ha hb hab hba
  have hb' : b ∈ fields := h.mem_iff.2 (mem_sortByKey.1 hb)
  exact List.inj_on_of_nodup_map hkeys (mem_sortByKey.1 ha) hb' (le_antisymm hab hba)

end Weft.Lib
