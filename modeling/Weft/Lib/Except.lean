import Mathlib

/-! Computations that may fail: when a sequence of them succeeds, and with what. -/

namespace Weft.Lib

universe u v w

variable {ε : Type u} {α β : Type v} {γ : Type w}

theorem bind_eq_ok {x : Except ε α} {f : α → Except ε β} {b : β} :
    (x >>= f) = .ok b ↔ ∃ a, x = .ok a ∧ f a = .ok b := by
  cases x with
  | error e => simp [bind, Except.bind]
  | ok a => simp [bind, Except.bind]

theorem toOption_eq_some {x : Except ε α} {a : α} : x.toOption = some a ↔ x = .ok a := by
  cases x with
  | error e => simp [Except.toOption]
  | ok b => simp [Except.toOption]

theorem toOption_eq_none {x : Except ε α} : x.toOption = none ↔ ∃ e, x = .error e := by
  cases x with
  | error e => simp [Except.toOption]
  | ok b => simp [Except.toOption]

theorem mapM_eq_ok {f : γ → Except ε β} {xs : List γ} {ys : List β} :
    xs.mapM f = .ok ys ↔ List.Forall₂ (fun x y => f x = .ok y) xs ys := by
  induction xs generalizing ys with
  | nil =>
    rw [List.mapM_nil, List.forall₂_nil_left_iff]
    exact ⟨fun h => (Except.ok.inj h).symm, fun h => by rw [h]; rfl⟩
  | cons x xs ih =>
    rw [List.mapM_cons, bind_eq_ok]
    constructor
    · rintro ⟨y, hy, h⟩
      obtain ⟨rest, hrest, h⟩ := bind_eq_ok.1 h
      obtain rfl := Except.ok.inj h
      exact List.Forall₂.cons hy (ih.1 hrest)
    · intro h
      obtain ⟨y, rest, hy, hrest, rfl⟩ := List.forall₂_cons_left_iff.1 h
      exact ⟨y, hy, bind_eq_ok.2 ⟨rest, ih.2 hrest, rfl⟩⟩

theorem mapM_eq_ok_map {f : γ → Except ε β} {g : γ → β} {xs : List γ}
    (h : ∀ x ∈ xs, f x = .ok (g x)) : xs.mapM f = .ok (xs.map g) := by
  rw [mapM_eq_ok, List.forall₂_map_right_iff, List.forall₂_same]
  exact h

/-- A sequence of results succeeds exactly if all of them did. -/
theorem mapM_id_eq_ok {xs : List (Except ε β)} {ys : List β} :
    xs.mapM id = .ok ys ↔ xs = ys.map .ok := by
  rw [mapM_eq_ok, ← List.forall₂_eq_eq_eq, List.forall₂_map_right_iff]
  rfl

theorem exists_eq_map_ok {xs : List (Except ε β)} (h : ∀ x ∈ xs, ∃ y, x = .ok y) :
    ∃ ys : List β, xs = ys.map .ok := by
  induction xs with
  | nil => exact ⟨[], rfl⟩
  | cons x xs ih =>
    obtain ⟨y, rfl⟩ := h x List.mem_cons_self
    obtain ⟨ys, rfl⟩ := ih fun x hx => h x (List.mem_cons_of_mem _ hx)
    exact ⟨y :: ys, rfl⟩

end Weft.Lib
