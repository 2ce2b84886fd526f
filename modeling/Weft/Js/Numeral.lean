import Weft.Js.Number

/-! What a printed number reads as. Two numbers that are printed alike are the same. -/

namespace Weft.Js
open Weft.Lib

/-! ## Values -/

/-- A mantissa without a trailing zero and its power of ten are those of the value. -/
theorem JsNumber.value_injective {x y : JsNumber} (h : x.value = y.value) : x = y := by
  obtain ⟨m, e, hx⟩ := x
  obtain ⟨m', e', hy⟩ := y
  have hten : (10 : ℚ) ≠ 0 := by norm_num
  have hsame : ∀ {m m' : Int} {e e' : Int}, m % 10 ≠ 0 →
      (m : ℚ) * (10 : ℚ) ^ e = m' * (10 : ℚ) ^ e' → e' ≤ e := by
    intro m m' e e' hm heq
    by_contra hlt
    obtain ⟨k, hk⟩ := Int.eq_ofNat_of_zero_le (show 0 ≤ e' - e - 1 by omega)
    have hsplit : (10 : ℚ) ^ e' = (10 : ℚ) ^ e * (10 * 10 ^ k) := by
      have he' : e' = e + (k + 1 : Nat) := by omega
      rw [he', zpow_add₀ hten, zpow_natCast, pow_succ']
    rw [hsplit, ← mul_assoc, mul_comm (m' : ℚ), mul_assoc, mul_comm (m : ℚ)] at heq
    have hcancel := mul_left_cancel₀ (zpow_ne_zero e hten) heq
    have hint : m = m' * (10 * 10 ^ k) := by exact_mod_cast hcancel
    rw [hint] at hm
    exact hm (by rw [mul_left_comm, Int.mul_emod_right])
  simp only [JsNumber.value] at h
  have hzero : ∀ {m m' : Int} {e e' : Int}, m = 0 → (m : ℚ) * (10 : ℚ) ^ e = m' * (10 : ℚ) ^ e' →
      m' = 0 := by
    intro m m' e e' hm heq
    rw [hm, Int.cast_zero, zero_mul] at heq
    obtain hm' | hpow := mul_eq_zero.1 heq.symm
    · exact_mod_cast hm'
    · exact (zpow_ne_zero e' hten hpow).elim
  obtain ⟨hm, he⟩ | hm := hx
  · have hm' := hzero hm h
    obtain ⟨-, he'⟩ | hbad := hy
    · subst hm hm' he he'
      rfl
    · exact (hbad (by rw [hm', Int.zero_emod])).elim
  · obtain ⟨hm', he'⟩ | hm' := hy
    · have := hzero hm' h.symm
      exact (hm (by rw [this, Int.zero_emod])).elim
    · obtain rfl : e = e' := le_antisymm (hsame hm' h.symm) (hsame hm h)
      have hcancel := mul_right_cancel₀ (zpow_ne_zero e hten) h
      obtain rfl : m = m' := by exact_mod_cast hcancel
      rfl

/-! ## Reading -/

/-- The text before the first unit `u`, and the one after it. -/
def splitAt (u : CodeUnit) (s : JsString) : JsString × JsString :=
  (s.takeWhile (· ≠ u), (s.dropWhile (· ≠ u)).drop 1)

def exponentValue (s : JsString) : Int :=
  if s.head? = some 45 then -(numeralValue (s.drop 1) : Int) else numeralValue (s.drop 1)

/-- The value of a numeral without a sign: its digits, less the places after the point, and a power
of ten. -/
def positiveValue (s : JsString) : ℚ :=
  let (mantissa, exponent) := splitAt 101 s
  let (whole, fraction) := splitAt 46 mantissa
  numeralValue (whole ++ fraction) * (10 : ℚ) ^ (exponentValue exponent - fraction.length)

def textValue (s : JsString) : ℚ :=
  if s.head? = some 45 then -positiveValue (s.drop 1) else positiveValue s

def IsDigits (s : JsString) : Prop := ∀ u ∈ s, isDigitUnit u = true

variable {s t : JsString}

theorem isDigits_append (hs : IsDigits s) (ht : IsDigits t) : IsDigits (s ++ t) := by
  intro u hu
  obtain hu | hu := List.mem_append.1 hu
  · exact hs u hu
  · exact ht u hu

theorem isDigits_replicate (n : Nat) : IsDigits (List.replicate n (digitUnit 0)) := by
  intro u hu
  rw [List.eq_of_mem_replicate hu]
  decide

theorem isDigits_decimalUnits (n : Nat) : IsDigits (decimalUnits n) := by
  intro u hu
  have hpadded : paddedNat 0 n = decimalUnits n := by
    rw [paddedNat, padStart, Nat.zero_sub, List.replicate_zero, List.nil_append]
  obtain ⟨d, hd, rfl⟩ := mem_paddedNat (hpadded.symm ▸ hu)
  have hall : ∀ m : Fin 10, isDigitUnit (digitUnit m.val) = true := by decide
  exact hall ⟨d, hd⟩

theorem numeralValue_decimalUnits (n : Nat) : numeralValue (decimalUnits n) = n := by
  have hpadded : paddedNat 0 n = decimalUnits n := by
    rw [paddedNat, padStart, Nat.zero_sub, List.replicate_zero, List.nil_append]
  rw [← hpadded, numeralValue_paddedNat]

variable {u : CodeUnit} {s : JsString}

theorem splitAt_of_not_mem (h : u ∉ s) : splitAt u s = (s, []) := by
  have hall : ∀ v ∈ s, decide (v ≠ u) = true := fun v hv =>
    decide_eq_true fun heq => h (heq ▸ hv)
  rw [splitAt, List.takeWhile_eq_self_iff.2 hall, List.dropWhile_eq_nil_iff.2 hall, List.drop_nil]

theorem splitAt_append (h : u ∉ s) (rest : JsString) : splitAt u (s ++ u :: rest) = (s, rest) := by
  have hall : ∀ v ∈ s, decide (v ≠ u) = true := fun v hv =>
    decide_eq_true fun heq => h (heq ▸ hv)
  rw [splitAt, List.takeWhile_append_of_pos hall, List.dropWhile_append_of_pos hall,
    List.takeWhile_cons_of_neg (by simp), List.dropWhile_cons_of_neg (by simp), List.append_nil,
    List.drop_one, List.tail_cons]

theorem IsDigits.not_mem (h : IsDigits s) (hu : isDigitUnit u = false) : u ∉ s := by
  intro hmem
  rw [h u hmem] at hu
  cases hu

theorem numeralValue_append_zeros (s : JsString) (n : Nat) :
    numeralValue (s ++ List.replicate n (digitUnit 0)) = numeralValue s * 10 ^ n := by
  have hzero : (digitUnit 0).val - 48 = 0 := rfl
  have hzeros : Nat.ofDigits 10 (List.replicate n 0) = 0 := by
    induction n with
    | zero => rfl
    | succ n ih => rw [List.replicate_succ, Nat.ofDigits_cons, ih]
  rw [numeralValue, List.reverse_append, List.map_append, List.reverse_replicate,
    List.map_replicate, hzero, Nat.ofDigits_append, hzeros, List.length_replicate, zero_add,
    mul_comm]
  rfl

theorem numeralValue_zeros_append (s : JsString) (n : Nat) :
    numeralValue (List.replicate n (digitUnit 0) ++ s) = numeralValue s := by
  have hzero : (digitUnit 0).val - 48 = 0 := rfl
  have hzeros : Nat.ofDigits 10 (List.replicate n 0) = 0 := by
    induction n with
    | zero => rfl
    | succ n ih => rw [List.replicate_succ, Nat.ofDigits_cons, ih]
  rw [numeralValue, List.reverse_append, List.map_append, List.reverse_replicate,
    List.map_replicate, hzero, Nat.ofDigits_append, hzeros, mul_zero, add_zero]
  rfl

/-! ## The printed forms -/

/-- Digits alone. -/
theorem positiveValue_digits (hs : IsDigits s) : positiveValue s = numeralValue s := by
  rw [positiveValue, splitAt_of_not_mem (hs.not_mem (by decide))]
  dsimp only
  rw [splitAt_of_not_mem (hs.not_mem (by decide))]
  simp [exponentValue, numeralValue]

/-- Digits with a point in them. -/
theorem positiveValue_point (hs : IsDigits s) (ht : IsDigits t) :
    positiveValue (s ++ js "." ++ t) = numeralValue (s ++ t) * (10 : ℚ) ^ (-(t.length : Int)) := by
  have hpoint : s ++ js "." ++ t = s ++ (46 : CodeUnit) :: t := by
    rw [List.append_assoc]
    rfl
  have hnone : (101 : CodeUnit) ∉ s ++ (46 : CodeUnit) :: t := by
    rw [List.mem_append, List.mem_cons, not_or, not_or]
    exact ⟨hs.not_mem (by decide), by decide, ht.not_mem (by decide)⟩
  rw [positiveValue, hpoint, splitAt_of_not_mem hnone]
  dsimp only
  rw [splitAt_append (hs.not_mem (by decide))]
  simp [exponentValue, numeralValue]

theorem exponentValue_sign (n : Int) :
    exponentValue ((if 0 ≤ n then js "+" else js "-") ++ decimalUnits n.natAbs) = n := by
  have hplus : js "+" = [43] := by decide
  have hminus : js "-" = [45] := by decide
  rw [exponentValue, hplus, hminus]
  split_ifs with hn hhead hhead
  · exact absurd hhead (by simp)
  · rw [List.singleton_append, List.drop_one, List.tail_cons, numeralValue_decimalUnits]
    omega
  · rw [List.singleton_append, List.drop_one, List.tail_cons, numeralValue_decimalUnits]
    omega
  · exact (hhead rfl).elim

theorem positiveValue_exponent (hs : IsDigits s) (ht : IsDigits t) (point : Bool)
    (hpoint : point = false → t = []) (n : Int) :
    positiveValue ((s ++ (if point then js "." else []) ++ t) ++
        (js "e" ++ (if 0 ≤ n then js "+" else js "-") ++ decimalUnits n.natAbs)) =
      numeralValue (s ++ t) * (10 : ℚ) ^ (n - t.length) := by
  have hexponent : js "e" ++ (if 0 ≤ n then js "+" else js "-") ++ decimalUnits n.natAbs =
      (101 : CodeUnit) :: ((if 0 ≤ n then js "+" else js "-") ++ decimalUnits n.natAbs) := by
    rw [List.append_assoc]
    rfl
  have hmark : (101 : CodeUnit) ∉ s ++ (if point then js "." else []) ++ t := by
    rw [List.mem_append, List.mem_append, not_or, not_or]
    refine ⟨⟨hs.not_mem (by decide), ?_⟩, ht.not_mem (by decide)⟩
    split_ifs <;> decide
  rw [positiveValue, hexponent, splitAt_append hmark]
  dsimp only
  rw [exponentValue_sign]
  cases point with
  | false =>
    obtain rfl := hpoint rfl
    rw [if_neg Bool.false_ne_true, List.append_nil, List.append_nil,
      splitAt_of_not_mem (hs.not_mem (by decide))]
    rw [List.append_nil]
  | true =>
    have hwhole : s ++ (if true then js "." else []) ++ t = s ++ (46 : CodeUnit) :: t := by
      rw [if_pos rfl, List.append_assoc]
      rfl
    rw [hwhole, splitAt_append (hs.not_mem (by decide))]

theorem isDigits_take (h : IsDigits s) (n : Nat) : IsDigits (s.take n) :=
  fun u hu => h u (List.mem_of_mem_take hu)

theorem isDigits_drop (h : IsDigits s) (n : Nat) : IsDigits (s.drop n) :=
  fun u hu => h u (List.mem_of_mem_drop hu)

/-- Wherever the point stands, the digits are read back with their power of ten. -/
theorem positiveValue_positiveToString {digits : JsString} (hdigits : IsDigits digits)
    (hsome : digits ≠ []) (n : Int) : positiveValue (positiveToString digits n) =
      numeralValue digits * (10 : ℚ) ^ (n - digits.length) := by
  have hten : (10 : ℚ) ≠ 0 := by norm_num
  have hlength : 0 < digits.length := List.length_pos_of_ne_nil hsome
  have hexponent : ∀ {s t : JsString}, IsDigits s → IsDigits t → ∀ point : Bool,
      (point = false → t = []) → _ := fun hs ht point hpoint =>
    positiveValue_exponent hs ht point hpoint (n - 1)
  unfold positiveToString
  dsimp only
  generalize (if 0 ≤ n - 1 then js "+" else js "-") = sign at hexponent ⊢
  split_ifs with hwhole hinside hbefore hone
  · rw [positiveValue_digits (isDigits_append hdigits (isDigits_replicate _)),
      numeralValue_append_zeros]
    push_cast
    rw [← zpow_natCast, Int.toNat_of_nonneg (by omega)]
  · rw [positiveValue_point (isDigits_take hdigits _) (isDigits_drop hdigits _),
      List.take_append_drop, List.length_drop]
    congr 2
    omega
  · have hzero : js "0." = [digitUnit 0] ++ js "." := by decide
    rw [hzero, List.append_assoc, List.append_assoc, ← List.append_assoc [digitUnit 0],
      positiveValue_point (by intro u hu; rw [List.mem_singleton.1 hu]; decide)
        (isDigits_append (isDigits_replicate _) hdigits), ← List.append_assoc]
    have hzeros : [digitUnit 0] ++ List.replicate (-n).toNat (digitUnit 0) =
        List.replicate ((-n).toNat + 1) (digitUnit 0) := rfl
    rw [hzeros, numeralValue_zeros_append, List.length_append, List.length_replicate]
    congr 2
    omega
  · have hnil : IsDigits [] := fun u hu => by cases hu
    have hform := hexponent hdigits hnil false fun _ => rfl
    rw [if_neg Bool.false_ne_true, List.append_nil, List.append_nil] at hform
    rw [hform]
    congr 2
    simp only [List.length_nil]
    omega
  · have hform := hexponent (isDigits_take hdigits 1) (isDigits_drop hdigits 1) true
      fun h => by cases h
    rw [if_pos rfl, List.take_append_drop, List.length_drop] at hform
    simp only [List.append_assoc] at hform ⊢
    rw [hform]
    congr 2
    omega

theorem decimalUnits_ne_nil (n : Nat) : decimalUnits n ≠ [] := by
  have hpadded : paddedNat 0 n = decimalUnits n := by
    rw [paddedNat, padStart, Nat.zero_sub, List.replicate_zero, List.nil_append]
  exact hpadded ▸ paddedNat_ne_nil 0 n

/-- Only a negative number begins with a minus. -/
theorem head_positiveToString {digits : JsString} (hdigits : IsDigits digits) (hsome : digits ≠ [])
    (n : Int) : ∃ u rest, positiveToString digits n = u :: rest ∧ isDigitUnit u = true := by
  obtain ⟨u, rest, rfl⟩ := List.exists_cons_of_ne_nil hsome
  have hu := hdigits u List.mem_cons_self
  unfold positiveToString
  dsimp only
  generalize (if 0 ≤ n - 1 then js "+" else js "-") = sign
  split_ifs with hwhole hinside hbefore hone
  · exact ⟨u, _, rfl, hu⟩
  · obtain ⟨k, hk⟩ : ∃ k, n.toNat = k + 1 := ⟨n.toNat - 1, by omega⟩
    rw [hk, List.take_succ_cons]
    exact ⟨u, _, rfl, hu⟩
  · exact ⟨digitUnit 0, _, rfl, by decide⟩
  · exact ⟨u, _, rfl, hu⟩
  · exact ⟨u, _, rfl, hu⟩

theorem toJsString_ne_nil (x : JsNumber) : x.toJsString ≠ [] := by
  obtain ⟨u, rest, htext, -⟩ := head_positiveToString (isDigits_decimalUnits x.mantissa.natAbs)
    (decimalUnits_ne_nil x.mantissa.natAbs) ((decimalUnits x.mantissa.natAbs).length + x.exponent)
  unfold JsNumber.toJsString
  dsimp only
  rw [htext]
  split_ifs
  · decide
  · exact List.append_ne_nil_of_right_ne_nil _ (List.cons_ne_nil u rest)
  · exact List.cons_ne_nil u rest

theorem textValue_toJsString (x : JsNumber) : textValue x.toJsString = x.value := by
  have hzero : js "0" = [digitUnit 0] := by decide
  have hminus : js "-" = [45] := by decide
  unfold JsNumber.toJsString
  by_cases hm : x.mantissa = 0
  · rw [if_pos hm]
    have hdigit : IsDigits [digitUnit 0] := fun u hu => by
      rw [List.mem_singleton.1 hu]
      decide
    have hnumeral : numeralValue [digitUnit 0] = 0 := by decide
    rw [hzero, textValue, if_neg (by decide), positiveValue_digits hdigit, hnumeral, JsNumber.value,
      hm, Nat.cast_zero, Int.cast_zero, zero_mul]
  have hdigits := isDigits_decimalUnits x.mantissa.natAbs
  have hsome := decimalUnits_ne_nil x.mantissa.natAbs
  have hvalue := positiveValue_positiveToString hdigits hsome
    ((decimalUnits x.mantissa.natAbs).length + x.exponent)
  rw [numeralValue_decimalUnits, add_sub_cancel_left] at hvalue
  rw [if_neg hm]
  dsimp only
  split_ifs with hneg
  · rw [textValue, hminus, List.singleton_append, List.head?_cons, if_pos rfl, List.drop_one,
      List.tail_cons, hvalue, JsNumber.value, Nat.cast_natAbs, abs_of_neg hneg]
    push_cast
    ring
  · obtain ⟨u, rest, htext, hu⟩ := head_positiveToString hdigits hsome
      ((decimalUnits x.mantissa.natAbs).length + x.exponent)
    rw [textValue, htext, if_neg, ← htext, hvalue, JsNumber.value, Nat.cast_natAbs,
      abs_of_nonneg (not_lt.1 hneg)]
    intro hhead
    rw [List.head?_cons, Option.some.injEq] at hhead
    subst hhead
    exact absurd hu (by decide)

theorem toJsString_injective {x y : JsNumber} (h : x.toJsString = y.toJsString) : x = y := by
  apply JsNumber.value_injective
  rw [← textValue_toJsString, h, textValue_toJsString]

end Weft.Js
