import Mathlib

/-! Lexicographic order on lists against concatenation: common prefixes cancel, blocks
of equal length are compared before what follows them, and the lists that extend a
nonempty prefix form an interval. -/

namespace Weft.Lib.Lex

universe u

variable {α : Type u} [LinearOrder α]

@[simp] theorem append_lt_append_iff (p a b : List α) : p ++ a < p ++ b ↔ a < b := by
  induction p with
  | nil => rfl
  | cons x p ih => simp [ih]

@[simp] theorem append_le_append_iff (p a b : List α) : p ++ a ≤ p ++ b ↔ a ≤ b := by
  rw [← not_lt, ← not_lt, append_lt_append_iff]

theorem nil_le (a : List α) : [] ≤ a := by
  cases a with
  | nil => exact le_refl _
  | cons x a => exact le_of_lt (List.nil_lt_cons x a)

theorem le_append (p a : List α) : p ≤ p ++ a := by
  have h := (append_le_append_iff p [] a).2 (nil_le a)
  rwa [List.append_nil] at h

variable {a b : List α}

theorem append_lt_append_of_length_eq (hlen : a.length = b.length) (h : a < b) (x y : List α) :
    a ++ x < b ++ y := by
  induction a generalizing b with
  | nil =>
    cases b with
    | nil => exact (lt_irrefl _ h).elim
    | cons d b => simp at hlen
  | cons c a ih =>
    cases b with
    | nil => simp at hlen
    | cons d b =>
      simp only [List.length_cons, Nat.add_right_cancel_iff] at hlen
      simp only [List.cons_append, List.cons_lt_cons_iff] at h ⊢
      rcases h with h | ⟨rfl, h⟩
      · exact Or.inl h
      · exact Or.inr ⟨rfl, ih hlen h⟩

/-- Blocks of equal length decide the order, and where they are equal the rest does. -/
theorem append_lt_append_iff_of_length_eq (hlen : a.length = b.length) (x y : List α) :
    a ++ x < b ++ y ↔ a < b ∨ a = b ∧ x < y := by
  rcases lt_trichotomy a b with h | rfl | h
  · exact ⟨fun _ => Or.inl h, fun _ => append_lt_append_of_length_eq hlen h x y⟩
  · simp
  · have hyx := append_lt_append_of_length_eq hlen.symm h y x
    constructor
    · intro hxy
      exact (lt_asymm hxy hyx).elim
    · rintro (h' | ⟨rfl, -⟩)
      · exact (lt_asymm h h').elim
      · exact (lt_irrefl _ h).elim

/-- Blocks of which neither begins the other decide the order. -/
theorem append_lt_append_iff_of_not_prefixed (hab : ¬ a <+: b) (hba : ¬ b <+: a) (x y : List α) :
    a ++ x < b ++ y ↔ a < b := by
  induction a generalizing b with
  | nil => exact (hab (List.nil_prefix)).elim
  | cons c a ih =>
    cases b with
    | nil => exact (hba (List.nil_prefix)).elim
    | cons d b =>
      simp only [List.cons_append, List.cons_lt_cons_iff]
      by_cases hcd : c = d
      · subst hcd
        have h := ih (fun h => hab (List.cons_prefix_cons.2 ⟨rfl, h⟩))
          fun h => hba (List.cons_prefix_cons.2 ⟨rfl, h⟩)
        simp [h]
      · simp [hcd]

omit [LinearOrder α] in
/-- Blocks that end in a mark which occurs nowhere else in them do not begin each other. -/
theorem eq_of_marked_prefixed {c : α} (ha : c ∉ a) (hb : c ∉ b) {rest : List α}
    (h : a ++ [c] <+: b ++ c :: rest) : a = b := by
  induction a generalizing b with
  | nil =>
    cases b with
    | nil => rfl
    | cons d b =>
      obtain ⟨rfl, -⟩ := List.cons_prefix_cons.1 h
      exact (hb List.mem_cons_self).elim
  | cons x a ih =>
    cases b with
    | nil =>
      obtain ⟨rfl, -⟩ := List.cons_prefix_cons.1 h
      exact (ha List.mem_cons_self).elim
    | cons d b =>
      obtain ⟨rfl, htail⟩ := List.cons_prefix_cons.1 h
      rw [ih (fun hc => ha (List.mem_cons_of_mem _ hc)) (fun hc => hb (List.mem_cons_of_mem _ hc))
        htail]

/-- Marked blocks decide the order, and where they are equal the rest does. -/
theorem marked_lt_iff {c : α} (ha : c ∉ a) (hb : c ∉ b) (x y : List α) :
    a ++ c :: x < b ++ c :: y ↔ a ++ [c] < b ++ [c] ∨ a = b ∧ x < y := by
  by_cases hab : a = b
  · subst hab
    simp
  · have h1 : ¬ a ++ [c] <+: b ++ [c] := fun h => hab (eq_of_marked_prefixed ha hb h)
    have h2 : ¬ b ++ [c] <+: a ++ [c] := fun h => hab (eq_of_marked_prefixed hb ha h).symm
    have h := append_lt_append_iff_of_not_prefixed h1 h2 x y
    simp only [List.append_assoc, List.singleton_append] at h
    simp [h, hab]

/-- Of two lists in order, the greater extends the smaller or they part before either ends. -/
theorem extends_or_parts (h : a < b) : (∃ c w, b = a ++ c :: w) ∨ ¬ a <+: b ∧ ¬ b <+: a := by
  by_cases hab : a <+: b
  · obtain ⟨rest, rfl⟩ := hab
    cases rest with
    | nil =>
      rw [List.append_nil] at h
      exact (lt_irrefl _ h).elim
    | cons c w => exact .inl ⟨c, w, rfl⟩
  · refine .inr ⟨hab, ?_⟩
    rintro ⟨rest, rfl⟩
    exact (not_lt.2 (le_append b rest)) h

/-- What follows two lists decides only where the greater extends the smaller. -/
theorem append_lt_append_iff_of_lt (h : a < b) (x y : List α) :
    a ++ x < b ++ y ↔ ∀ c w, b = a ++ c :: w → x < c :: (w ++ y) := by
  rcases extends_or_parts h with ⟨c, w, rfl⟩ | ⟨hab, hba⟩
  · rw [List.append_assoc, append_lt_append_iff]
    constructor
    · intro hx c' w' heq
      rw [List.append_cancel_left_eq] at heq
      rw [← List.cons_append, ← heq]
      exact hx
    · intro hx
      exact hx c w rfl
  · rw [append_lt_append_iff_of_not_prefixed hab hba]
    refine iff_of_true h fun c w heq => ?_
    exact (hab ⟨c :: w, heq.symm⟩).elim

theorem append_le_append_iff_of_lt (h : a < b) (x y : List α) :
    a ++ x ≤ b ++ y ↔ ∀ c w, b = a ++ c :: w → x ≤ c :: (w ++ y) := by
  rcases extends_or_parts h with ⟨c, w, rfl⟩ | ⟨hab, hba⟩
  · rw [List.append_assoc, append_le_append_iff]
    constructor
    · intro hx c' w' heq
      rw [List.append_cancel_left_eq] at heq
      rw [← List.cons_append, ← heq]
      exact hx
    · intro hx
      exact hx c w rfl
  · rw [← not_lt, append_lt_append_iff_of_not_prefixed hba hab]
    refine iff_of_true h.not_gt fun c w heq => ?_
    exact (hab ⟨c :: w, heq.symm⟩).elim

omit [LinearOrder α] in
theorem ne_append_cons (a : List α) (c : α) (w : List α) : a ≠ a ++ c :: w := by
  intro h
  have hlen := congrArg List.length h
  rw [List.length_append, List.length_cons] at hlen
  omega

theorem cons_le_cons_iff (c d : α) (x y : List α) :
    c :: x ≤ d :: y ↔ c < d ∨ c = d ∧ x ≤ y := by
  rw [← not_lt, List.cons_lt_cons_iff, not_or, not_and, not_lt, not_lt]
  constructor
  · rintro ⟨hcd, hxy⟩
    rcases hcd.lt_or_eq with h | h
    · exact .inl h
    · exact .inr ⟨h, hxy h.symm⟩
  · rintro (h | ⟨rfl, hxy⟩)
    · exact ⟨h.le, fun heq => (h.ne heq.symm).elim⟩
    · exact ⟨le_refl c, fun _ => hxy⟩

omit [LinearOrder α] in
/-- What ends in a mark and begins a list ends no later than the list's last mark. -/
theorem marked_prefix_iff {p t e : List α} {c : α} (he : c ∉ e) :
    p ++ [c] <+: t ++ c :: e ↔ p ++ [c] <+: t ++ [c] := by
  have hsplit : t ++ c :: e = (t ++ [c]) ++ e := by simp
  rw [hsplit]
  constructor
  · intro h
    rcases List.prefix_or_prefix_of_prefix h (List.prefix_append _ _) with h' | ⟨rest, h'⟩
    · exact h'
    · rw [← h', List.prefix_append_right_inj] at h
      cases hrest : rest.getLast? with
      | none =>
        rw [List.getLast?_eq_none_iff.1 hrest, List.append_nil] at h'
        exact ⟨[], by simp [h']⟩
      | some u =>
        have hlast : (p ++ [c]).getLast? = some u := by
          rw [← h', List.getLast?_append, hrest]
          rfl
        rw [List.getLast?_concat, Option.some.injEq] at hlast
        exact (he (hlast ▸ h.subset (List.mem_of_getLast? hrest))).elim
  · intro h
    exact h.trans (List.prefix_append _ _)

/-- The lists that extend `p ++ [c]` lie between it and `p ++ [d]`, `d` the successor of `c`. -/
theorem extends_iff_between (p : List α) {c d : α} (hcd : c ⋖ d) (k : List α) :
    (p ++ [c] ≤ k ∧ k < p ++ [d]) ↔ p ++ [c] <+: k := by
  induction p generalizing k with
  | nil =>
    cases k with
    | nil => simp [← not_lt]
    | cons x k =>
      simp only [List.nil_append, ← not_lt, List.cons_lt_cons_iff, List.cons_prefix_cons,
        List.not_lt_nil, and_false, or_false, List.nil_prefix, and_true]
      constructor
      · rintro ⟨hxc, hxd⟩
        by_contra hne
        exact hcd.2 (lt_of_le_of_ne (not_lt.1 hxc) hne) hxd
      · rintro rfl
        exact ⟨lt_irrefl _, hcd.1⟩
  | cons y p ih =>
    cases k with
    | nil => simp [← not_lt]
    | cons x k =>
      simp only [List.cons_append, ← not_lt, List.cons_lt_cons_iff, List.cons_prefix_cons] at ih ⊢
      rcases lt_trichotomy x y with hxy | rfl | hxy
      · simp [hxy, hxy.ne']
      · simpa using ih k
      · simp [hxy.ne, hxy.ne', hxy.not_gt]

theorem map_lt_map_iff {β : Type*} [LinearOrder β] (f : α → β)
    (hf : ∀ x ∈ a, ∀ y ∈ b, f x < f y ↔ x < y) (hinj : ∀ x ∈ a, ∀ y ∈ b, f x = f y ↔ x = y) :
    a.map f < b.map f ↔ a < b := by
  induction a generalizing b with
  | nil =>
    cases b with
    | nil => simp
    | cons y b => simp
  | cons x a ih =>
    cases b with
    | nil => simp
    | cons y b =>
      simp only [List.map_cons, List.cons_lt_cons_iff]
      rw [hf x (by simp) y (by simp), hinj x (by simp) y (by simp),
        ih (fun x' hx y' hy => hf x' (by simp [hx]) y' (by simp [hy]))
          (fun x' hx y' hy => hinj x' (by simp [hx]) y' (by simp [hy]))]

end Weft.Lib.Lex

/-! Decimal numerals of a fixed width, most significant digit first: they are compared
as lists exactly as the numbers are, up to the largest number of that width. -/

namespace Weft.Lib

def fixedDigits : Nat → Nat → List Nat
  | 0, _ => []
  | w + 1, n => fixedDigits w (n / 10) ++ [n % 10]

@[simp] theorem length_fixedDigits (w n : Nat) : (fixedDigits w n).length = w := by
  induction w generalizing n with
  | zero => rfl
  | succ w ih => simp [fixedDigits, ih]

theorem fixedDigits_lt (w n : Nat) : ∀ d ∈ fixedDigits w n, d < 10 := by
  induction w generalizing n with
  | zero => simp [fixedDigits]
  | succ w ih =>
    intro d hd
    rcases List.mem_append.1 hd with hd | hd
    · exact ih _ d hd
    · obtain rfl := List.mem_singleton.1 hd
      exact Nat.mod_lt _ (by decide)

theorem fixedDigits_injOn {w n m : Nat} (hn : n < 10 ^ w) (hm : m < 10 ^ w)
    (h : fixedDigits w n = fixedDigits w m) : n = m := by
  induction w generalizing n m with
  | zero => simp_all
  | succ w ih =>
    rw [Nat.pow_succ] at hn hm
    obtain ⟨hhigh, hlow⟩ := List.append_inj h (by simp)
    have hq := ih (Nat.div_lt_of_lt_mul (by omega)) (Nat.div_lt_of_lt_mul (by omega)) hhigh
    have hr := (List.cons.inj hlow).1
    omega

theorem fixedDigits_lt_iff {w n m : Nat} (hn : n < 10 ^ w) (hm : m < 10 ^ w) :
    fixedDigits w n < fixedDigits w m ↔ n < m := by
  induction w generalizing n m with
  | zero =>
    simp only [Nat.pow_zero, Nat.lt_one_iff] at hn hm
    simp [fixedDigits, hn, hm]
  | succ w ih =>
    rw [Nat.pow_succ] at hn hm
    have hn' : n / 10 < 10 ^ w := Nat.div_lt_of_lt_mul (by omega)
    have hm' : m / 10 < 10 ^ w := Nat.div_lt_of_lt_mul (by omega)
    have hblocks := Lex.append_lt_append_iff_of_length_eq
      (a := fixedDigits w (n / 10)) (b := fixedDigits w (m / 10)) (by simp) [n % 10] [m % 10]
    simp only [fixedDigits]
    rw [hblocks, ih hn' hm']
    constructor
    · rintro (h | ⟨heq, h⟩)
      · omega
      · have hq := fixedDigits_injOn hn' hm' heq
        simp only [List.cons_lt_cons_iff, List.not_lt_nil, and_false, or_false] at h
        omega
    · intro h
      rcases Nat.lt_or_ge (n / 10) (m / 10) with hq | hq
      · exact Or.inl hq
      · have heq : n / 10 = m / 10 := by omega
        refine Or.inr ⟨by rw [heq], ?_⟩
        simp only [List.cons_lt_cons_iff, List.not_lt_nil, and_false, or_false]
        omega

/-- Padding the digits of a number with zeros gives its fixed-width numeral. -/
theorem replicate_append_digits {w n : Nat} (h : n < 10 ^ w) :
    List.replicate (w - (Nat.digits 10 n).length) 0 ++ (Nat.digits 10 n).reverse =
      fixedDigits w n := by
  induction w generalizing n with
  | zero =>
    simp only [Nat.pow_zero, Nat.lt_one_iff] at h
    simp [h, fixedDigits]
  | succ w ih =>
    rw [Nat.pow_succ] at h
    have hq := ih (n := n / 10) (Nat.div_lt_of_lt_mul (by omega))
    rcases Nat.eq_zero_or_pos n with rfl | hpos
    · rw [Nat.zero_div] at hq
      simp only [Nat.digits_zero, List.length_nil, Nat.sub_zero, List.reverse_nil,
        List.append_nil] at hq ⊢
      rw [fixedDigits, Nat.zero_div, ← hq, List.replicate_succ']
    · rw [Nat.digits_def' (by decide) hpos, fixedDigits, ← hq]
      simp

end Weft.Lib
