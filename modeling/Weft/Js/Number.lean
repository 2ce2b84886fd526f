import Weft.Js.Text
import Weft.Lib.Lex

/-! Finite numbers as `String` prints them, and zero-padded numerals.

A finite number is taken as the decimal that `String` writes for it: a mantissa with no
trailing zero times a power of ten. The shortest decimals of two doubles are ordered as
the doubles are, and `-0` is printed and compared as `0`, so nothing that compares, prints
or stores timestamps can tell the difference. -/

namespace Weft.Js
open Weft.Lib

structure JsNumber where
  mantissa : Int
  exponent : Int
  canonical : (mantissa = 0 ∧ exponent = 0) ∨ mantissa % 10 ≠ 0
deriving DecidableEq

theorem canonical_one : ((1 : Int) = 0 ∧ (0 : Int) = 0) ∨ (1 : Int) % 10 ≠ 0 := by decide

theorem canonical_ten : ((1 : Int) = 0 ∧ (1 : Int) = 0) ∨ (1 : Int) % 10 ≠ 0 := by decide

theorem canonical_1500 : ((15 : Int) = 0 ∧ (2 : Int) = 0) ∨ (15 : Int) % 10 ≠ 0 := by decide

theorem canonical_1600 : ((16 : Int) = 0 ∧ (2 : Int) = 0) ∨ (16 : Int) % 10 ≠ 0 := by decide

def JsNumber.value (x : JsNumber) : ℚ := x.mantissa * (10 : ℚ) ^ x.exponent

def digitUnit (d : Nat) : CodeUnit := codeUnit (48 + d)

def decimalUnits (n : Nat) : JsString :=
  if n = 0 then [digitUnit 0] else (Nat.digits 10 n).reverse.map digitUnit

/-- `String(n)` of an integer below `10 ^ 21`. -/
def integerUnits (n : Int) : JsString :=
  if n < 0 then js "-" ++ decimalUnits n.natAbs else decimalUnits n.natAbs

/-- `padStart` by a single code unit. -/
def padStart (s : JsString) (width : Nat) (fill : CodeUnit) : JsString :=
  List.replicate (width - s.length) fill ++ s

/-- The digits of a positive number: `digits` has `k` of them and the point stands after
the first `n`. -/
def positiveToString (digits : JsString) (n : Int) : JsString :=
  let k := digits.length
  let zeros (m : Int) : JsString := List.replicate m.toNat (digitUnit 0)
  if (k : Int) ≤ n ∧ n ≤ 21 then digits ++ zeros (n - k)
  else if 0 < n ∧ n ≤ 21 then digits.take n.toNat ++ js "." ++ digits.drop n.toNat
  else if -6 < n ∧ n ≤ 0 then js "0." ++ zeros (-n) ++ digits
  else
    let sign := if 0 ≤ n - 1 then js "+" else js "-"
    let exponent := js "e" ++ sign ++ decimalUnits (n - 1).natAbs
    if k = 1 then digits ++ exponent
    else digits.take 1 ++ js "." ++ digits.drop 1 ++ exponent

/-- `String(x)`. -/
def JsNumber.toJsString (x : JsNumber) : JsString :=
  if x.mantissa = 0 then js "0"
  else
    let digits := decimalUnits x.mantissa.natAbs
    let text := positiveToString digits (digits.length + x.exponent)
    if x.mantissa < 0 then js "-" ++ text else text

/-! ## The alphabet of a numeral -/

/-- A digit, a point, a sign or the mark of an exponent. -/
def isNumeralUnit (u : CodeUnit) : Bool :=
  (48 ≤ u.val && u.val ≤ 57) || u = 46 || u = 43 || u = 45 || u = 101

theorem digitUnit_numeral {d : Nat} (h : d < 10) : isNumeralUnit (digitUnit d) = true := by
  have hall : ∀ m : Fin 10, isNumeralUnit (digitUnit m.val) = true := by decide
  exact hall ⟨d, h⟩

theorem decimalUnits_numeral (n : Nat) : ∀ u ∈ decimalUnits n, isNumeralUnit u = true := by
  intro u hu
  unfold decimalUnits at hu
  split_ifs at hu
  · rw [List.mem_singleton.1 hu]
    exact digitUnit_numeral (by decide)
  · obtain ⟨d, hd, rfl⟩ := List.mem_map.1 hu
    rw [List.mem_reverse] at hd
    exact digitUnit_numeral (Nat.digits_lt_base (by decide) hd)

theorem positiveToString_numeral {digits : JsString} (n : Int)
    (h : ∀ u ∈ digits, isNumeralUnit u = true) :
    ∀ u ∈ positiveToString digits n, isNumeralUnit u = true := by
  have hzeros : ∀ m : Int, ∀ u ∈ List.replicate m.toNat (digitUnit 0), isNumeralUnit u = true := by
    intro m u hu
    rw [(List.mem_replicate.1 hu).2]
    exact digitUnit_numeral (by decide)
  have htake : ∀ m, ∀ u ∈ digits.take m, isNumeralUnit u = true := fun m u hu =>
    h u (List.mem_of_mem_take hu)
  have hdrop : ∀ m, ∀ u ∈ digits.drop m, isNumeralUnit u = true := fun m u hu =>
    h u (List.mem_of_mem_drop hu)
  have hpoint : ∀ u ∈ js ".", isNumeralUnit u = true := List.all_eq_true.1 (by decide)
  have hzeroPoint : ∀ u ∈ js "0.", isNumeralUnit u = true := List.all_eq_true.1 (by decide)
  have hexp : ∀ u ∈ js "e", isNumeralUnit u = true := List.all_eq_true.1 (by decide)
  have hplus : ∀ u ∈ js "+", isNumeralUnit u = true := List.all_eq_true.1 (by decide)
  have hminus : ∀ u ∈ js "-", isNumeralUnit u = true := List.all_eq_true.1 (by decide)
  intro u hu
  unfold positiveToString at hu
  simp only at hu
  split_ifs at hu
  all_goals simp only [List.mem_append] at hu
  all_goals grind [decimalUnits_numeral]

theorem toJsString_numeral (x : JsNumber) : ∀ u ∈ x.toJsString, isNumeralUnit u = true := by
  intro u hu
  unfold JsNumber.toJsString at hu
  have htext := positiveToString_numeral
    ((decimalUnits x.mantissa.natAbs).length + x.exponent) (decimalUnits_numeral x.mantissa.natAbs)
  simp only at hu
  split_ifs at hu
  · exact List.all_eq_true.1 (by decide) u hu
  · rcases List.mem_append.1 hu with hu | hu
    · exact List.all_eq_true.1 (by decide) u hu
    · exact htext u hu
  · exact htext u hu

/-! ## Zero-padded numerals -/

def paddedNat (width n : Nat) : JsString := padStart (decimalUnits n) width (digitUnit 0)

theorem digitUnit_val {d : Nat} (h : d < 10) : (digitUnit d).val = 48 + d :=
  codeUnit_val (by omega)

theorem digitUnit_lt_iff {d e : Nat} (hd : d < 10) (he : e < 10) :
    digitUnit d < digitUnit e ↔ d < e := by
  rw [Fin.lt_def, digitUnit_val hd, digitUnit_val he]
  omega

theorem digitUnit_inj {d e : Nat} (hd : d < 10) (he : e < 10) :
    digitUnit d = digitUnit e ↔ d = e := by
  rw [Fin.ext_iff, digitUnit_val hd, digitUnit_val he]
  omega

theorem paddedNat_eq {w n : Nat} (hw : 0 < w) (hn : n < 10 ^ w) :
    paddedNat w n = (fixedDigits w n).map digitUnit := by
  rw [← replicate_append_digits hn]
  unfold paddedNat padStart decimalUnits
  by_cases h0 : n = 0
  · subst h0
    obtain ⟨w, rfl⟩ := Nat.exists_eq_succ_of_ne_zero hw.ne'
    simp [List.replicate_succ']
  · simp [h0]

@[simp] theorem length_paddedNat {w n : Nat} (hw : 0 < w) (hn : n < 10 ^ w) :
    (paddedNat w n).length = w := by
  simp [paddedNat_eq hw hn]

theorem paddedNat_lt_iff {w n m : Nat} (hw : 0 < w) (hn : n < 10 ^ w) (hm : m < 10 ^ w) :
    paddedNat w n < paddedNat w m ↔ n < m := by
  rw [paddedNat_eq hw hn, paddedNat_eq hw hm, ← fixedDigits_lt_iff hn hm]
  apply Lex.map_lt_map_iff
  · intro d hd e he
    exact digitUnit_lt_iff (fixedDigits_lt w n d hd) (fixedDigits_lt w m e he)
  · intro d hd e he
    exact digitUnit_inj (fixedDigits_lt w n d hd) (fixedDigits_lt w m e he)

/-- The number that a numeral with any zeros in front stands for. -/
def numeralValue (s : JsString) : Nat := Nat.ofDigits 10 (s.reverse.map fun u => u.val - 48)

theorem numeralValue_paddedNat (w n : Nat) : numeralValue (paddedNat w n) = n := by
  have hdigits : ∀ ds : List Nat, (∀ d ∈ ds, d < 10) →
      (ds.map digitUnit).map (fun u => u.val - 48) = ds := by
    intro ds hds
    rw [List.map_map]
    refine (List.map_congr_left fun d hd => ?_).trans (List.map_id ds)
    show (digitUnit d).val - 48 = d
    rw [digitUnit_val (hds d hd)]
    omega
  have hvalue : (decimalUnits n).reverse.map (fun u => u.val - 48) =
      if n = 0 then [0] else Nat.digits 10 n := by
    unfold decimalUnits
    split_ifs
    · decide
    · rw [List.map_reverse, hdigits _ fun d hd =>
        Nat.digits_lt_base (by decide) (List.mem_reverse.1 hd), List.reverse_reverse]
  have hzeros : ∀ k, Nat.ofDigits 10 (List.replicate k 0) = 0 := by
    intro k
    induction k with
    | zero => rfl
    | succ k ih => rw [List.replicate_succ, Nat.ofDigits_cons, ih]
  have hzero : (digitUnit 0).val - 48 = 0 := rfl
  rw [numeralValue, paddedNat, padStart, List.reverse_append, List.map_append,
    List.reverse_replicate, List.map_replicate, hzero, Nat.ofDigits_append, hzeros, hvalue]
  split_ifs with h
  · rw [h]
    rfl
  · rw [Nat.ofDigits_digits]
    omega

theorem mem_paddedNat {w n : Nat} {u : CodeUnit} (h : u ∈ paddedNat w n) :
    ∃ d < 10, u = digitUnit d := by
  rcases List.mem_append.1 h with hu | hu
  · exact ⟨0, by decide, List.eq_of_mem_replicate hu⟩
  · unfold decimalUnits at hu
    split_ifs at hu
    · exact ⟨0, by decide, List.mem_singleton.1 hu⟩
    · obtain ⟨d, hd, rfl⟩ := List.mem_map.1 hu
      exact ⟨d, Nat.digits_lt_base (by decide) (List.mem_reverse.1 hd), rfl⟩

theorem paddedNat_inj {w n m : Nat} (h : paddedNat w n = paddedNat w m) : n = m := by
  rw [← numeralValue_paddedNat w n, h, numeralValue_paddedNat]

def maxSafeInteger : Nat := 9007199254740991

def isDigitUnit (u : CodeUnit) : Bool := 48 ≤ u.val && u.val ≤ 57

/-- `Number` of a text, where that is a non-negative safe integer. -/
def safeNumber (numberLiteral : JsString → Option Nat) (s : JsString) : Option Nat :=
  if s ≠ [] ∧ s.all isDigitUnit then
    if numeralValue s ≤ maxSafeInteger then some (numeralValue s) else none
  else numberLiteral s

theorem paddedNat_ne_nil (w n : Nat) : paddedNat w n ≠ [] := by
  unfold paddedNat padStart decimalUnits
  split_ifs with h
  · simp
  · simp [Nat.digits_ne_nil_iff_ne_zero.2 h]

end Weft.Js
