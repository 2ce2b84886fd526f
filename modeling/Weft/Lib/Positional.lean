import Mathlib

/-! Numbers written with the most significant digit first, in any base. -/

namespace Weft.Lib

/-- A number goes on with more digits. -/
def positional (b n : Nat) (digits : List Nat) : Nat := digits.foldl (fun n d => b * n + d) n

theorem positional_nil (b n : Nat) : positional b n [] = n := rfl

theorem positional_cons (b n d : Nat) (digits : List Nat) :
    positional b n (d :: digits) = positional b (b * n + d) digits := rfl

theorem positional_bounds {b : Nat} {digits : List Nat} (h : ∀ d ∈ digits, d < b) (n : Nat) :
    b ^ digits.length * n ≤ positional b n digits ∧
      positional b n digits < b ^ digits.length * (n + 1) := by
  induction digits generalizing n with
  | nil => simp [positional_nil]
  | cons d digits ih =>
    obtain ⟨hd, hrest⟩ := List.forall_mem_cons.1 h
    obtain ⟨hlow, hhigh⟩ := ih hrest (b * n + d)
    rw [positional_cons, List.length_cons, pow_succ, mul_assoc, mul_assoc]
    constructor
    · exact (Nat.mul_le_mul_left _ (Nat.le_add_right _ d)).trans hlow
    · refine hhigh.trans_le (Nat.mul_le_mul_left _ ?_)
      rw [Nat.mul_succ]
      omega

/-- Of numerals of one length, the lexicographic order is that of the numbers. -/
theorem positional_lt_iff {b : Nat} {xs ys : List Nat} (hx : ∀ d ∈ xs, d < b)
    (hy : ∀ d ∈ ys, d < b) (hlength : xs.length = ys.length) (n : Nat) :
    positional b n xs < positional b n ys ↔ xs < ys := by
  induction xs generalizing ys n with
  | nil =>
    obtain rfl := List.length_eq_zero_iff.1 hlength.symm
    simp
  | cons x xs ih =>
    cases ys with
    | nil => cases hlength
    | cons y ys =>
      obtain ⟨-, hxs⟩ := List.forall_mem_cons.1 hx
      obtain ⟨-, hys⟩ := List.forall_mem_cons.1 hy
      have hlen : xs.length = ys.length := Nat.succ.inj hlength
      have hapart : ∀ {p q : Nat} {us vs : List Nat}, (∀ d ∈ us, d < b) → (∀ d ∈ vs, d < b) →
          us.length = vs.length → p < q →
          positional b (b * n + p) us < positional b (b * n + q) vs := by
        intro p q us vs hus hvs hlen hpq
        refine (positional_bounds hus _).2.trans_le (le_trans ?_ (positional_bounds hvs _).1)
        rw [hlen]
        exact Nat.mul_le_mul_left _ (by omega)
      rw [positional_cons, positional_cons, List.cons_lt_cons_iff]
      obtain hlt | rfl | hlt := Nat.lt_trichotomy x y
      · exact ⟨fun _ => .inl hlt, fun _ => hapart hxs hys hlen hlt⟩
      · rw [ih hxs hys hlen]
        simp
      · constructor
        · exact fun h => absurd h (hapart hys hxs hlen.symm hlt).not_gt
        · rintro (h | ⟨h, -⟩) <;> omega

theorem positional_digits (b n : Nat) : positional b 0 (Nat.digits b n).reverse = n := by
  have h := Nat.ofDigits_digits b n
  rw [Nat.ofDigits_eq_foldr] at h
  rw [positional, List.foldl_reverse]
  refine Eq.trans ?_ h
  congr 1
  funext d m
  exact Nat.add_comm _ _

theorem positional_zeros (b k : Nat) (digits : List Nat) :
    positional b 0 (List.replicate k 0 ++ digits) = positional b 0 digits := by
  induction k with
  | zero => rfl
  | succ k ih => rw [List.replicate_succ, List.cons_append, positional_cons, ← ih]; rfl

end Weft.Lib
