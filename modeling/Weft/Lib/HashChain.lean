import Mathlib

/-! Chains of records in which each names the hash of the one before it. Where the hash is
injective and the root of a chain is no hash, the last hash of a chain determines it. -/

namespace Weft.Lib.HashChain

universe u v

variable {α : Type u} {β : Type v} (prev : α → Option β) (hash : α → β)

/-- Each record names the hash of the one before it, the first names `root`. -/
def Linked (root : β) : List α → Prop
  | [] => True
  | x :: xs => prev x = some root ∧ Linked (hash x) xs

/-- The hash that the next record of the chain has to name. -/
def tip (root : β) : List α → β
  | [] => root
  | x :: xs => tip (hash x) xs

variable {prev hash}

@[simp] theorem tip_append (root : β) (xs ys : List α) :
    tip hash root (xs ++ ys) = tip hash (tip hash root xs) ys := by
  induction xs generalizing root with
  | nil => rfl
  | cons x xs ih => exact ih (hash x)

theorem tip_concat (root : β) (xs : List α) (x : α) : tip hash root (xs ++ [x]) = hash x := by
  rw [tip_append]
  rfl

theorem linked_append {root : β} {xs ys : List α} :
    Linked prev hash root (xs ++ ys) ↔
      Linked prev hash root xs ∧ Linked prev hash (tip hash root xs) ys := by
  induction xs generalizing root with
  | nil => simp [Linked, tip]
  | cons x xs ih =>
    show prev x = some root ∧ Linked prev hash (hash x) (xs ++ ys) ↔ _
    rw [ih, ← and_assoc]
    rfl

theorem linked_concat {root : β} {xs : List α} {x : α} :
    Linked prev hash root (xs ++ [x]) ↔
      Linked prev hash root xs ∧ prev x = some (tip hash root xs) := by
  rw [linked_append]
  simp [Linked]

/-- A chain that ends in the last hash of another is its end: no record can be exchanged,
left out or put in. -/
theorem suffix_of_tip_eq (hinj : Function.Injective hash) {root : β}
    (hroot : root ∉ Set.range hash) {root' : β} {xs ys : List α} (hxs : Linked prev hash root' xs)
    (hys : Linked prev hash root ys) (hne : xs ≠ [])
    (htip : tip hash root' xs = tip hash root ys) : xs <:+ ys := by
  induction xs using List.reverseRecOn generalizing ys with
  | nil => exact (hne rfl).elim
  | append_singleton xs x ih =>
    rw [tip_concat] at htip
    obtain ⟨hxs, hprev⟩ := linked_concat.1 hxs
    rcases List.eq_nil_or_concat' ys with rfl | ⟨ys, y, rfl⟩
    · exact (hroot ⟨x, htip⟩).elim
    · rw [tip_concat] at htip
      obtain ⟨hys', hprev'⟩ := linked_concat.1 hys
      obtain rfl := hinj htip
      by_cases hnil : xs = []
      · rw [hnil]
        exact List.suffix_append _ _
      · have hback : tip hash root' xs = tip hash root ys :=
          Option.some.inj (hprev.symm.trans hprev')
        obtain ⟨before, rfl⟩ := ih hxs hys' hnil hback
        exact ⟨before, (List.append_assoc _ _ _).symm⟩

end Weft.Lib.HashChain
