import Weft.Attributes.Value
import Weft.Lib.Positional

/-! The sortable text of numbers: its order is that of the values, and it is decoded again, as that
of every other value is. -/

namespace Weft.Attributes
open Weft.Js Weft.Lib Weft.Storage

namespace Float64

/-- The bits without the sign. -/
def magnitude (x : Float64) : Nat := x.bits.toNat % 2 ^ 63

def isNegative (x : Float64) : Bool := x.bits &&& SIGN_BIT ≠ 0#64

/-- The absolute value of a finite pattern, in units of the least positive number: subnormal where
the exponent is zero, and with the hidden bit elsewhere. -/
def scaled (magnitude : Nat) : Nat :=
  if magnitude / 2 ^ 52 = 0 then magnitude % 2 ^ 52
  else (2 ^ 52 + magnitude % 2 ^ 52) * 2 ^ (magnitude / 2 ^ 52 - 1)

def size (magnitude : Nat) : ℚ := scaled magnitude / 2 ^ 1074

/-- What a pattern that is no `NaN` stands for, from minus infinity to infinity. -/
def value (x : Float64) : WithBot (WithTop ℚ) :=
  if x.magnitude / 2 ^ 52 = 2047 then if x.isNegative then ⊥
    else ((⊤ : WithTop ℚ) : WithBot (WithTop ℚ))
  else (((if x.isNegative then -size x.magnitude else size x.magnitude : ℚ) : WithTop ℚ) :
    WithBot (WithTop ℚ))

end Float64

def hexDigitValue (u : CodeUnit) : Option Nat :=
  if 48 ≤ u.val ∧ u.val ≤ 57 then some (u.val - 48)
  else if 97 ≤ u.val ∧ u.val ≤ 102 then some (u.val - 87)
  else if 65 ≤ u.val ∧ u.val ≤ 70 then some (u.val - 55)
  else none

/-- The `BigInt` of `0x` and the text, `none` where it throws. -/
def hexNumber (hex : JsString) : Option Nat :=
  if hex = [] then none else (hex.mapM hexDigitValue).map (positional 16 0)

open Float64 in
def sortableHexToFloat (hex : JsString) : Option Float64 :=
  (hexNumber hex).map fun n =>
    let bits := BitVec.ofNat 64 n
    ⟨if bits &&& SIGN_BIT ≠ 0#64 then bits ^^^ SIGN_BIT else bits ^^^ ALL_BITS⟩

/-! ## Bits -/

theorem isNegative_eq (x : Float64) : x.isNegative = x.bits.msb := by
  obtain ⟨bits⟩ := x
  have hmask : bits &&& Float64.SIGN_BIT = if bits.msb then Float64.SIGN_BIT else 0#64 := by
    ext i hi
    have hsign : Float64.SIGN_BIT.getLsbD i = decide (i = 63) := by
      have hall : ∀ i < 64, Float64.SIGN_BIT.getLsbD i = decide (i = 63) := by decide
      exact hall i hi
    rw [BitVec.getElem_and]
    by_cases h : i = 63
    · subst h
      cases hm : bits.msb <;> simp_all [BitVec.msb_eq_getLsbD_last, ← BitVec.getLsbD_eq_getElem]
    · cases hm : bits.msb <;> simp_all [← BitVec.getLsbD_eq_getElem]
  rw [Float64.isNegative]
  simp only [hmask]
  cases bits.msb <;> decide

theorem toNat_bits (x : Float64) :
    x.bits.toNat = (if x.isNegative then 2 ^ 63 else 0) + x.magnitude := by
  have hlt := x.bits.isLt
  rw [isNegative_eq, BitVec.msb_eq_decide, Float64.magnitude]
  split_ifs with h
  · have := of_decide_eq_true h
    omega
  · have : ¬ 2 ^ 63 ≤ x.bits.toNat := fun hle => h (decide_eq_true hle)
    omega

theorem magnitude_lt (x : Float64) : x.magnitude < 2 ^ 63 := Nat.mod_lt _ (by decide)

/-- What `floatToSortableHex` writes: the order of the numbers, from the least negative one. -/
def sortKey (x : Float64) : Nat :=
  if x.isNegative then 2 ^ 63 - 1 - x.magnitude else 2 ^ 63 + x.magnitude

theorem sortKey_lt (x : Float64) : sortKey x < 2 ^ 64 := by
  have := magnitude_lt x
  unfold sortKey
  split_ifs <;> omega

theorem toNat_xor_all (b : BitVec 64) : (b ^^^ Float64.ALL_BITS).toNat = 2 ^ 64 - 1 - b.toNat := by
  rw [Float64.ALL_BITS, BitVec.xor_allOnes, BitVec.toNat_not]

theorem toNat_xor_sign (x : Float64) : (x.bits ^^^ Float64.SIGN_BIT).toNat =
    (if x.isNegative then 0 else 2 ^ 63) + x.magnitude := by
  have hmagnitude : (Float64.mk (x.bits ^^^ Float64.SIGN_BIT)).magnitude = x.magnitude := by
    rw [Float64.magnitude, Float64.magnitude, BitVec.toNat_xor, Nat.xor_mod_two_pow,
      show Float64.SIGN_BIT.toNat % 2 ^ 63 = 0 by decide, Nat.xor_zero]
  have h := toNat_bits ⟨x.bits ^^^ Float64.SIGN_BIT⟩
  rw [hmagnitude, isNegative_eq, BitVec.msb_xor, ← isNegative_eq,
    show Float64.SIGN_BIT.msb = true by decide] at h
  rw [h]
  cases x.isNegative <;> rfl

theorem toNat_flipped (x : Float64) :
    (if x.bits &&& Float64.SIGN_BIT ≠ 0#64 then x.bits ^^^ Float64.ALL_BITS
      else x.bits ^^^ Float64.SIGN_BIT).toNat = sortKey x := by
  have hlt := magnitude_lt x
  have hbits := toNat_bits x
  have hnegative : (x.bits &&& Float64.SIGN_BIT ≠ 0#64) ↔ x.isNegative = true :=
    decide_eq_true_iff.symm
  rw [sortKey]
  simp only [hnegative]
  split_ifs at hbits ⊢
  · rw [toNat_xor_all]
    omega
  · rw [toNat_xor_sign, if_neg ‹_›]

/-! ## The text of a number -/

/-- The digits of a number below `2 ^ 64`, sixteen of them. -/
def hexDigits (n : Nat) : List Nat :=
  List.replicate (16 - (hexUnits n).length) 0 ++ if n = 0 then [0] else (Nat.digits 16 n).reverse

theorem floatToSortableHex_eq (x : Float64) :
    floatToSortableHex x = (hexDigits (sortKey x)).map hexLowerUnit := by
  simp only [floatToSortableHex, toNat_flipped, padStart, hexDigits, List.map_append,
    List.map_replicate]
  congr 1
  rw [hexUnits]
  split_ifs <;> rfl

theorem hexDigits_lt (n : Nat) : ∀ d ∈ hexDigits n, d < 16 := by
  intro d hd
  obtain hd | hd := List.mem_append.1 hd
  · rw [List.eq_of_mem_replicate hd]
    decide
  · split_ifs at hd
    · rw [List.mem_singleton.1 hd]
      decide
    · exact Nat.digits_lt_base (by decide) (List.mem_reverse.1 hd)

theorem positional_hexDigits (n : Nat) : positional 16 0 (hexDigits n) = n := by
  rw [hexDigits, positional_zeros]
  split_ifs with h
  · rw [h]
    rfl
  · exact positional_digits 16 n

theorem length_hexDigits (x : Float64) : (hexDigits (sortKey x)).length = 16 := by
  have h := length_floatToSortableHex x
  rwa [floatToSortableHex_eq, List.length_map] at h

theorem hexLowerUnit_lt_iff {d e : Nat} (hd : d < 16) (he : e < 16) :
    hexLowerUnit d < hexLowerUnit e ↔ d < e := by
  have hall : ∀ d e : Fin 16, hexLowerUnit d.val < hexLowerUnit e.val ↔ d.val < e.val := by decide
  exact hall ⟨d, hd⟩ ⟨e, he⟩

theorem hexDigitValue_hexLowerUnit {d : Nat} (h : d < 16) :
    hexDigitValue (hexLowerUnit d) = some d := by
  have hall : ∀ d : Fin 16, hexDigitValue (hexLowerUnit d.val) = some d.val := by decide
  exact hall ⟨d, h⟩

theorem floatToSortableHex_lt_iff (x y : Float64) :
    floatToSortableHex x < floatToSortableHex y ↔ sortKey x < sortKey y := by
  have hx := hexDigits_lt (sortKey x)
  have hy := hexDigits_lt (sortKey y)
  rw [floatToSortableHex_eq, floatToSortableHex_eq, Lex.map_lt_map_iff hexLowerUnit
    (fun d hd e he => hexLowerUnit_lt_iff (hx d hd) (hy e he)),
    ← positional_lt_iff hx hy (by rw [length_hexDigits, length_hexDigits]) 0,
    positional_hexDigits, positional_hexDigits]
  intro d hd e he
  refine ⟨fun heq => ?_, fun heq => by rw [heq]⟩
  have h := congrArg hexDigitValue heq
  rw [hexDigitValue_hexLowerUnit (hx d hd), hexDigitValue_hexLowerUnit (hy e he)] at h
  exact Option.some.inj h

theorem hexNumber_floatToSortableHex (x : Float64) :
    hexNumber (floatToSortableHex x) = some (sortKey x) := by
  have hmap : ∀ ds : List Nat, (∀ d ∈ ds, d < 16) →
      (ds.map hexLowerUnit).mapM hexDigitValue = some ds := by
    intro ds hds
    induction ds with
    | nil => rfl
    | cons d ds ih =>
      obtain ⟨hd, hrest⟩ := List.forall_mem_cons.1 hds
      rw [List.map_cons, List.mapM_cons, hexDigitValue_hexLowerUnit hd, ih hrest]
      rfl
  have hne : floatToSortableHex x ≠ [] := by
    intro h
    have hlength := length_floatToSortableHex x
    rw [h] at hlength
    cases hlength
  rw [hexNumber, if_neg hne, floatToSortableHex_eq, hmap _ (hexDigits_lt _), Option.map_some,
    positional_hexDigits]

theorem sortableHexToFloat_floatToSortableHex (x : Float64) :
    sortableHexToFloat (floatToSortableHex x) = some x := by
  have hlt := magnitude_lt x
  have hkey : (BitVec.ofNat 64 (sortKey x)).toNat = sortKey x :=
    Nat.mod_eq_of_lt (sortKey_lt x)
  have hnegative : (Float64.mk (BitVec.ofNat 64 (sortKey x))).isNegative = !x.isNegative := by
    rw [isNegative_eq, BitVec.msb_eq_decide, hkey, sortKey]
    cases hx : x.isNegative
    · exact decide_eq_true (Nat.le_add_right _ _)
    · exact decide_eq_false (by simp only [if_true]; omega)
  have hbits := toNat_bits x
  have hiff : (BitVec.ofNat 64 (sortKey x) &&& Float64.SIGN_BIT ≠ 0#64) ↔
      ¬ x.isNegative = true := by
    rw [Bool.not_eq_true, ← Bool.not_eq_true', ← hnegative]
    exact decide_eq_true_iff.symm
  rw [sortableHexToFloat, hexNumber_floatToSortableHex, Option.map_some]
  congr 1
  obtain ⟨bits⟩ := x
  simp only [hiff]
  congr 1
  apply BitVec.eq_of_toNat_eq
  split_ifs at hbits ⊢ with h
  · rw [toNat_xor_all, hkey, sortKey, if_pos h]
    simp only at hbits
    omega
  · have hxor := toNat_xor_sign ⟨BitVec.ofNat 64 (sortKey ⟨bits⟩)⟩
    have hsum := toNat_bits ⟨BitVec.ofNat 64 (sortKey ⟨bits⟩)⟩
    rw [hnegative] at hxor hsum
    rw [hkey] at hsum
    simp only [Bool.not_eq_true] at h
    simp only [h, sortKey, Bool.not_false, if_true, Bool.false_eq_true,
      if_false] at hxor hsum hbits ⊢
    omega

/-! ## The order of the values -/

theorem scaled_strictMono : StrictMono Float64.scaled := by
  refine strictMono_nat_of_lt_succ fun n => ?_
  obtain ⟨e, he⟩ : ∃ e, n / 2 ^ 52 = e := ⟨_, rfl⟩
  obtain hsame | ⟨hnext, hlast, hzero⟩ : (n + 1) / 2 ^ 52 = e ∧
      (n + 1) % 2 ^ 52 = n % 2 ^ 52 + 1 ∨
      (n + 1) / 2 ^ 52 = e + 1 ∧ n % 2 ^ 52 = 2 ^ 52 - 1 ∧ (n + 1) % 2 ^ 52 = 0 := by omega
  · rw [Float64.scaled, Float64.scaled, he, hsame.1, hsame.2]
    split_ifs
    · exact Nat.lt_succ_self _
    · exact Nat.mul_lt_mul_of_pos_right (by omega) (Nat.two_pow_pos _)
  · rw [Float64.scaled, Float64.scaled, he, hnext, hlast, hzero, if_neg (Nat.succ_ne_zero e),
      Nat.add_sub_cancel]
    cases e with
    | zero => decide
    | succ e =>
      rw [if_neg (Nat.succ_ne_zero e), Nat.add_sub_cancel, pow_succ]
      have := Nat.two_pow_pos e
      omega

theorem toNat_and_not_sign (x : Float64) :
    (x.bits &&& ~~~ Float64.SIGN_BIT).toNat = x.magnitude := by
  rw [BitVec.toNat_and, show (~~~ Float64.SIGN_BIT).toNat = 2 ^ 63 - 1 by decide,
    Nat.and_two_pow_sub_one_eq_mod, Float64.magnitude]

theorem magnitude_le_of_not_isNaN {x : Float64} (h : x.isNaN = false) :
    x.magnitude ≤ 2047 * 2 ^ 52 := by
  rw [Float64.isNaN, toNat_and_not_sign] at h
  exact Nat.le_of_not_lt (of_decide_eq_false h)

theorem size_strictMono : StrictMono Float64.size := by
  intro a b h
  exact div_lt_div_of_pos_right (Nat.cast_lt.2 (scaled_strictMono h)) (by positivity)

theorem size_zero : Float64.size 0 = 0 := by
  rw [Float64.size, show Float64.scaled 0 = 0 from rfl, Nat.cast_zero, zero_div]

theorem size_nonneg (n : Nat) : 0 ≤ Float64.size n :=
  size_zero ▸ size_strictMono.monotone (Nat.zero_le n)

/-- Below zero and above, sizes are apart unless both are zero. -/
theorem neg_size_lt_iff (a b : Nat) : -Float64.size a < Float64.size b ↔ -(a : Int) < b := by
  have ha := size_nonneg a
  have hb := size_nonneg b
  have hzero : ∀ n, Float64.size n = 0 ↔ n = 0 := by
    intro n
    rw [← size_zero]
    exact size_strictMono.injective.eq_iff
  constructor
  · intro h
    by_contra hnot
    obtain rfl : a = 0 := by omega
    obtain rfl : b = 0 := by omega
    simp [size_zero] at h
  · intro h
    by_contra hnot
    have hboth : Float64.size a = 0 ∧ Float64.size b = 0 := ⟨by linarith, by linarith⟩
    rw [hzero, hzero] at hboth
    omega

theorem not_size_lt_neg (a b : Nat) : ¬ Float64.size a < -Float64.size b := by
  have := size_nonneg a
  have := size_nonneg b
  linarith

/-- The order of the values is that of the signed magnitudes. -/
theorem value_lt_iff {x y : Float64} (hx : x.isNaN = false) (hy : y.isNaN = false) :
    x.value < y.value ↔ (if x.isNegative then -(x.magnitude : Int) else x.magnitude) <
        if y.isNegative then -(y.magnitude : Int) else y.magnitude := by
  have hxle := magnitude_le_of_not_isNaN hx
  have hyle := magnitude_le_of_not_isNaN hy
  have hinfinite : ∀ n ≤ 2047 * 2 ^ 52, n / 2 ^ 52 = 2047 ↔ n = 2047 * 2 ^ 52 := by omega
  simp only [Float64.value, hinfinite _ hxle, hinfinite _ hyle]
  generalize x.magnitude = a at hxle
  generalize y.magnitude = b at hyle
  by_cases ha : a = 2047 * 2 ^ 52 <;> by_cases hb : b = 2047 * 2 ^ 52 <;>
    cases x.isNegative <;> cases y.isNegative <;>
    simp only [ha, hb, if_true, if_false, Bool.false_eq_true, WithBot.coe_lt_coe,
      WithTop.coe_lt_coe, neg_lt_neg_iff, size_strictMono.lt_iff_lt, neg_size_lt_iff,
      not_size_lt_neg, lt_irrefl, not_lt_bot, WithBot.bot_lt_coe, WithTop.coe_lt_top,
      not_top_lt, Nat.cast_lt, false_iff, true_iff] <;> omega

theorem isZero_iff (x : Float64) : x.isZero = true ↔ x.magnitude = 0 := by
  rw [Float64.isZero, decide_eq_true_iff, ← toNat_and_not_sign]
  exact ⟨fun h => by rw [h]; rfl, fun h => BitVec.eq_of_toNat_eq (by rw [h]; rfl)⟩

/-- The text sorts as the values do, with minus zero before zero. -/
theorem floatToSortableHex_lt_iff_value {x y : Float64} (hx : x.isNaN = false)
    (hy : y.isNaN = false) : floatToSortableHex x < floatToSortableHex y ↔
      x.value < y.value ∨ x.isZero = true ∧ y.isZero = true ∧ x.isNegative = true ∧
        y.isNegative = false := by
  have hxlt := magnitude_lt x
  have hylt := magnitude_lt y
  rw [floatToSortableHex_lt_iff, value_lt_iff hx hy, isZero_iff, isZero_iff, sortKey, sortKey]
  cases x.isNegative <;> cases y.isNegative <;> simp <;> omega

/-! ## Decoding -/

/-- The year that a text begins with, and the rest of the text. -/
def parseYear (s : JsString) : Int × JsString :=
  if s.take 1 = js "-" then (-(numeralValue ((s.drop 1).take 6) : Int), s.drop 7)
  else if s.take 1 = js "+" then (numeralValue ((s.drop 1).take 6), s.drop 7)
  else (numeralValue (s.take 4), s.drop 4)

/-- `Date` of a text in the format of `toISOString`, `none` for any other. -/
def parseISOString (s : JsString) : Option JsDate :=
  let (year, rest) := parseYear s
  let field := fun start width => numeralValue ((rest.drop start).take width)
  let ms := field 7 2 * 3600000 + field 10 2 * 60000 + field 13 2 * 1000 + field 16 3
  let time := makeDay year (field 1 2) (field 4 2) * 86400000 + ms
  if h : -8640000000000000 ≤ time ∧ time ≤ 8640000000000000 then
    if JsDate.toISOString ⟨time, h⟩ = s then some ⟨time, h⟩ else none
  else none

inductive DecodeError where
  | unknownType (type : JsString)
  | syntaxError
deriving DecidableEq

/-- What a text decodes to; `none` is an invalid date. Texts of dates in other formats are left to
the platform, as `otherDate`. -/
def decodeAttributeValue (otherDate : JsString → Option JsDate) (encoded type : JsString) :
    Except DecodeError (Option Scalar) :=
  let payload := match encoded.idxOf? colon with
    | some colonIndex => encoded.drop (colonIndex + 1)
    | none => encoded
  if type = js "string" then .ok (some (.string payload))
  else if type = js "number" then
    match sortableHexToFloat payload with
    | some value => .ok (some (.number value))
    | none => .error .syntaxError
  else if type = js "boolean" then .ok (some (.boolean (payload = js "1")))
  else if type = js "date-time" ∨ type = js "datetime" then
    .ok (((parseISOString payload).orElse fun _ => otherDate payload).map .date)
  else .error (.unknownType type)

/-- The type that a value is decoded under. -/
def Scalar.type : Scalar → JsString
  | .string _ => js "string"
  | .number _ => js "number"
  | .boolean _ => js "boolean"
  | .date _ => js "datetime"

/-- `encodeAttributeValue` of any value: it throws for a list of keywords. -/
def SearchAttributeValue.encode : SearchAttributeValue → Option JsString
  | .scalar value => some (encodeAttributeValue value)
  | .keywords _ => none

theorem paddedNat_two {n : Nat} (h : n < 100) :
    paddedNat 2 n = [digitUnit (n / 10), digitUnit (n % 10)] := by
  rw [paddedNat_eq (by decide) h]
  simp only [fixedDigits, List.nil_append, List.cons_append, List.map_cons, List.map_nil]
  rw [Nat.mod_eq_of_lt (by omega : n / 10 < 10)]

theorem paddedNat_three {n : Nat} (h : n < 1000) :
    paddedNat 3 n = [digitUnit (n / 100), digitUnit (n / 10 % 10), digitUnit (n % 10)] := by
  rw [paddedNat_eq (by decide) h]
  simp only [fixedDigits, List.nil_append, List.cons_append, List.map_cons, List.map_nil,
    Nat.div_div_eq_div_mul]
  rw [Nat.mod_eq_of_lt (by omega : n / (10 * 10) < 10)]

theorem parseYear_isoYear {year : Int} (h : year.natAbs < 10 ^ 6) (rest : JsString) :
    parseYear (isoYear year ++ rest) = (year, rest) := by
  unfold isoYear
  split_ifs with hshort hneg
  · have hlt : year.toNat < 10 ^ 4 := by omega
    have hlength := length_paddedNat (w := 4) (by decide) hlt
    have hfirst : ∀ c < 48, (paddedNat 4 year.toNat ++ rest).take 1 ≠ [codeUnit c] := by
      intro c hc hu
      rw [List.take_append_of_le_length (by omega)] at hu
      obtain ⟨d, hd, heq⟩ := mem_paddedNat (List.mem_of_mem_take (hu ▸ List.mem_singleton_self _))
      have := congrArg Fin.val heq
      rw [digitUnit_val hd] at this
      simp [codeUnit] at this
      omega
    rw [parseYear, if_neg, if_neg, List.take_left' hlength, List.drop_left' hlength,
      numeralValue_paddedNat]
    · exact Prod.ext (by simp only; omega) rfl
    · exact hfirst 43 (by decide)
    · exact hfirst 45 (by decide)
  · have hlength := length_paddedNat (w := 6) (by decide) h
    have hsign : (js "-" ++ (paddedNat 6 year.natAbs ++ rest)).take 1 = js "-" := rfl
    rw [List.append_assoc, parseYear, if_pos hsign]
    refine Prod.ext ?_ ?_
    · show -((numeralValue ((paddedNat 6 year.natAbs ++ rest).take 6) : Nat) : Int) = year
      rw [List.take_left' hlength, numeralValue_paddedNat]
      omega
    · show (paddedNat 6 year.natAbs ++ rest).drop 6 = rest
      exact List.drop_left' hlength
  · have hlength := length_paddedNat (w := 6) (by decide) h
    have hsign : (js "+" ++ (paddedNat 6 year.natAbs ++ rest)).take 1 = js "+" := rfl
    rw [List.append_assoc, parseYear, hsign, if_neg (by decide), if_pos rfl]
    refine Prod.ext ?_ ?_
    · show ((numeralValue ((paddedNat 6 year.natAbs ++ rest).take 6) : Nat) : Int) = year
      rw [List.take_left' hlength, numeralValue_paddedNat]
      omega
    · show (paddedNat 6 year.natAbs ++ rest).drop 6 = rest
      exact List.drop_left' hlength

/-- Six digits are enough for the year of a date. -/
theorem natAbs_year_lt (d : JsDate) : (civilDate (d.time / 86400000)).year.natAbs < 10 ^ 6 := by
  obtain ⟨hlow, hhigh⟩ := d.inRange
  have hday : -100000000 ≤ d.time / 86400000 ∧ d.time / 86400000 ≤ 100000000 := by omega
  generalize d.time / 86400000 = epochDay at hday
  obtain ⟨-, -, -, hstart, hend⟩ := civilDate_bounds epochDay
  rw [civilDate_year]
  generalize monthOf epochDay = month at hstart hend
  unfold monthStart at hstart hend
  dsimp only at hstart hend
  omega

/-- What `toISOString` writes after the year. -/
def isoTail (month day ms : Nat) : JsString :=
  js "-" ++ (paddedNat 2 month ++ (js "-" ++ (paddedNat 2 day ++ (js "T" ++
    (paddedNat 2 (ms / 3600000) ++ (js ":" ++ (paddedNat 2 (ms / 60000 % 60) ++ (js ":" ++
      (paddedNat 2 (ms / 1000 % 60) ++ (js "." ++ (paddedNat 3 (ms % 1000) ++ js "Z")))))))))))

theorem fields_isoTail {month day ms : Nat} (hmonth : month < 100) (hday : day < 100)
    (hms : ms < 86400000) :
    let field := fun start width => numeralValue (((isoTail month day ms).drop start).take width)
    field 1 2 = month ∧ field 4 2 = day ∧
      field 7 2 * 3600000 + field 10 2 * 60000 + field 13 2 * 1000 + field 16 3 = ms := by
  have htail : isoTail month day ms = [codeUnit 45, digitUnit (month / 10), digitUnit (month % 10),
      codeUnit 45, digitUnit (day / 10), digitUnit (day % 10), codeUnit 84,
      digitUnit (ms / 3600000 / 10), digitUnit (ms / 3600000 % 10), codeUnit 58,
      digitUnit (ms / 60000 % 60 / 10), digitUnit (ms / 60000 % 60 % 10), codeUnit 58,
      digitUnit (ms / 1000 % 60 / 10), digitUnit (ms / 1000 % 60 % 10), codeUnit 46,
      digitUnit (ms % 1000 / 100), digitUnit (ms % 1000 / 10 % 10), digitUnit (ms % 1000 % 10),
      codeUnit 90] := by
    rw [isoTail, paddedNat_two hmonth, paddedNat_two hday, paddedNat_two (by omega),
      paddedNat_two (by omega), paddedNat_two (by omega), paddedNat_three (by omega),
      show js "-" = [codeUnit 45] by decide, show js "T" = [codeUnit 84] by decide,
      show js ":" = [codeUnit 58] by decide, show js "." = [codeUnit 46] by decide,
      show js "Z" = [codeUnit 90] by decide]
    simp only [List.cons_append, List.nil_append]
  have htwo : ∀ n < 100, numeralValue [digitUnit (n / 10), digitUnit (n % 10)] = n := by
    intro n hn
    rw [← paddedNat_two hn, numeralValue_paddedNat]
  have hthree : numeralValue [digitUnit (ms % 1000 / 100), digitUnit (ms % 1000 / 10 % 10),
      digitUnit (ms % 1000 % 10)] = ms % 1000 := by
    rw [← paddedNat_three (by omega), numeralValue_paddedNat]
  rw [htail]
  simp only [List.drop_succ_cons, List.drop_zero, List.take_succ_cons, List.take_zero,
    htwo month hmonth, htwo day hday, htwo (ms / 3600000) (by omega),
    htwo (ms / 60000 % 60) (by omega), htwo (ms / 1000 % 60) (by omega), hthree, true_and]
  omega

theorem parseISOString_toISOString (d : JsDate) : parseISOString d.toISOString = some d := by
  obtain ⟨hlow, hhigh, -⟩ := civilDate_bounds (d.time / 86400000)
  have hday : (civilDate (d.time / 86400000)).day < 100 := by
    obtain ⟨-, -, hday, hstart, hend⟩ := civilDate_bounds (d.time / 86400000)
    generalize monthOf (d.time / 86400000) = month at hday hstart hend
    unfold monthStart at hday hstart hend
    dsimp only at hday hstart hend
    omega
  have htext : d.toISOString = isoYear (civilDate (d.time / 86400000)).year ++
      isoTail (civilDate (d.time / 86400000)).month (civilDate (d.time / 86400000)).day
        (d.time % 86400000).toNat := by
    simp only [JsDate.toISOString, isoTail, List.append_assoc]
  have hmonth : (civilDate (d.time / 86400000)).month < 100 := by omega
  have hms : (d.time % 86400000).toNat < 86400000 := by omega
  obtain ⟨hfmonth, hfday, hfms⟩ := fields_isoTail hmonth hday hms
  have hyear := parseYear_isoYear (natAbs_year_lt d)
    (isoTail (civilDate (d.time / 86400000)).month (civilDate (d.time / 86400000)).day
      (d.time % 86400000).toNat)
  rw [← htext] at hyear
  have htime : makeDay (civilDate (d.time / 86400000)).year (civilDate (d.time / 86400000)).month
      (civilDate (d.time / 86400000)).day * 86400000 + ((d.time % 86400000).toNat : Int) =
      d.time := by
    rw [makeDay_civilDate]
    omega
  simp only [parseISOString, hyear, hfmonth, hfday, hfms, htime]
  rw [dif_pos d.inRange, if_pos trivial]

theorem decodeAttributeValue_encodeAttributeValue (otherDate : JsString → Option JsDate)
    (value : Scalar) :
    decodeAttributeValue otherDate (encodeAttributeValue value) value.type = .ok (some value) := by
  have hpayload : ∀ (u : CodeUnit) (payload : JsString), u ≠ colon →
      (u :: colon :: payload).idxOf? colon = some 1 := by
    intro u payload hu
    rw [List.idxOf?_cons, if_neg (by simpa using hu), List.idxOf?_cons, if_pos (by simp)]
    rfl
  cases value with
  | string s =>
    have h : (js "s:" ++ s).idxOf? colon = some 1 := hpayload (codeUnit 115) s (by decide)
    simp only [decodeAttributeValue, encodeAttributeValue, h, Scalar.type, if_true]
    rfl
  | number x =>
    have htext : ∀ payload, (js "n:" ++ payload).idxOf? colon = some 1 ∧
        (js "n:" ++ payload).drop (1 + 1) = payload :=
      fun payload => ⟨hpayload (codeUnit 110) payload (by decide), rfl⟩
    simp only [decodeAttributeValue, encodeAttributeValue, htext, Scalar.type,
      sortableHexToFloat_floatToSortableHex]
    rw [if_neg (by decide), if_pos trivial]
  | boolean b => cases b <;> rfl
  | date d =>
    have htext : ∀ payload, (js "d:" ++ payload).idxOf? colon = some 1 ∧
        (js "d:" ++ payload).drop (1 + 1) = payload :=
      fun payload => ⟨hpayload (codeUnit 100) payload (by decide), rfl⟩
    simp only [decodeAttributeValue, encodeAttributeValue, htext, Scalar.type,
      parseISOString_toISOString]
    rw [if_neg (by decide), if_neg (by decide), if_neg (by decide), if_pos (.inr trivial)]
    rfl

/-- Patterns have texts of their own, which sort as the values of the numbers do, with minus zero
before zero, and are decoded again; and every value that is encoded is decoded under its type. -/
theorem sortable_encoding :
    Function.Injective floatToSortableHex ∧
    (∀ x y : Float64, x.isNaN = false → y.isNaN = false →
      (floatToSortableHex x < floatToSortableHex y ↔
        x.value < y.value ∨ x.isZero = true ∧ y.isZero = true ∧ x.isNegative = true ∧
          y.isNegative = false)) ∧
    (∀ x, sortableHexToFloat (floatToSortableHex x) = some x) ∧
    ∀ (otherDate : JsString → Option JsDate) (value : Scalar),
      (SearchAttributeValue.scalar value).encode = some (encodeAttributeValue value) ∧
        decodeAttributeValue otherDate (encodeAttributeValue value) value.type =
          .ok (some value) := by
  refine ⟨fun x y h => ?_, fun x y => floatToSortableHex_lt_iff_value,
    sortableHexToFloat_floatToSortableHex,
    fun otherDate value => ⟨rfl, decodeAttributeValue_encodeAttributeValue otherDate value⟩⟩
  have hx := sortableHexToFloat_floatToSortableHex x
  rw [h, sortableHexToFloat_floatToSortableHex] at hx
  exact (Option.some.inj hx).symm

theorem sortable_encoding_zeros :
    floatToSortableHex ⟨0x8000000000000000#64⟩ < floatToSortableHex ⟨0#64⟩ ↔
      Float64.value ⟨0x8000000000000000#64⟩ < Float64.value ⟨0#64⟩ ∨
        Float64.isZero ⟨0x8000000000000000#64⟩ = true ∧ Float64.isZero ⟨0#64⟩ = true ∧
          Float64.isNegative ⟨0x8000000000000000#64⟩ = true ∧
            Float64.isNegative ⟨0#64⟩ = false :=
  sortable_encoding.2.1 _ _ (by decide) (by decide)

/-- A list of keywords is admitted but not encoded as a whole, and the two zeros have two texts. -/
theorem keywords_not_encoded :
    (SearchAttributeValue.keywords [js "a"]).encode = none ∧
      floatToSortableHex ⟨0x8000000000000000#64⟩ < floatToSortableHex ⟨0#64⟩ ∧
      Float64.value ⟨0x8000000000000000#64⟩ = Float64.value ⟨0#64⟩ := by
  refine ⟨rfl, (floatToSortableHex_lt_iff _ _).2 (by decide), ?_⟩
  simp [Float64.value, show (Float64.magnitude ⟨0x8000000000000000#64⟩) = 0 by decide,
    show (Float64.magnitude ⟨0#64⟩) = 0 by decide, size_zero]

end Weft.Attributes
