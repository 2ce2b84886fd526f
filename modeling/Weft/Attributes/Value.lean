import Weft.Js.Date
import Weft.Storage.Keys

/-! Search-attribute values and the sortable text they are indexed under. Numbers are
binary64 patterns: the index compares their bits, the program their values. -/

namespace Weft.Attributes
open Weft.Js Weft.Storage

/-! ## Numbers -/

structure Float64 where
  bits : BitVec 64
deriving DecidableEq, Repr

namespace Float64

def SIGN_BIT : BitVec 64 := 1#64 <<< 63

def ALL_BITS : BitVec 64 := BitVec.allOnes 64

def isNaN (x : Float64) : Bool := (x.bits &&& ~~~ SIGN_BIT).toNat > 0x7FF0000000000000

def isZero (x : Float64) : Bool := x.bits &&& ~~~ SIGN_BIT = 0#64

/-- `===`: zeros of either sign are equal, and no value equals `NaN`. -/
def jsEq (x y : Float64) : Bool := !x.isNaN && (x.bits = y.bits || x.isZero && y.isZero)

end Float64

def hexLowerUnit (d : Nat) : CodeUnit := codeUnit (if d < 10 then 48 + d else 87 + d)

/-- `toString(16)`. -/
def hexUnits (n : Nat) : JsString :=
  if n = 0 then [hexLowerUnit 0] else (Nat.digits 16 n).reverse.map hexLowerUnit

open Float64 in
def floatToSortableHex (value : Float64) : JsString :=
  let bits := if value.bits &&& SIGN_BIT ≠ 0#64 then value.bits ^^^ ALL_BITS
    else value.bits ^^^ SIGN_BIT
  padStart (hexUnits bits.toNat) 16 (digitUnit 0)

theorem length_floatToSortableHex (value : Float64) : (floatToSortableHex value).length = 16 := by
  have hlen : ∀ n < 2 ^ 64, (hexUnits n).length ≤ 16 := by
    intro n hn
    unfold hexUnits
    split_ifs
    · simp
    · rw [List.length_map, List.length_reverse]
      exact (Nat.digits_length_le_iff (by decide) n).2 hn
  simp only [floatToSortableHex, padStart, List.length_append, List.length_replicate]
  have h := hlen _ (BitVec.isLt (if value.bits &&& Float64.SIGN_BIT ≠ 0#64 then
    value.bits ^^^ Float64.ALL_BITS else value.bits ^^^ Float64.SIGN_BIT))
  omega

/-! ## Values -/

inductive Scalar where
  | string (value : JsString)
  | number (value : Float64)
  | boolean (value : Bool)
  | date (value : JsDate)
deriving DecidableEq

/-- `string | number | boolean | Date | string[]`. -/
inductive SearchAttributeValue where
  | scalar (value : Scalar)
  | keywords (values : List JsString)
deriving DecidableEq

def encodeAttributeValue : Scalar → JsString
  | .string value => js "s:" ++ value
  | .number value => js "n:" ++ floatToSortableHex value
  | .boolean value => js "b:" ++ (if value then js "1" else js "0")
  | .date value => js "d:" ++ value.toISOString

/-- `===` on scalars, with dates compared by their time. -/
def Scalar.equal : Scalar → Scalar → Bool
  | .string x, .string y => x = y
  | .number x, .number y => x.jsEq y
  | .boolean x, .boolean y => x = y
  | .date x, .date y => x.time = y.time
  | _, _ => false

def storedAttributeScalarValues : SearchAttributeValue → List Scalar
  | .scalar value => [value]
  | .keywords values => values.map .string

theorem Float64.isNaN_of_isZero {x : Float64} (h : x.isZero = true) : x.isNaN = false := by
  have hz : x.bits &&& ~~~ SIGN_BIT = 0#64 := of_decide_eq_true h
  simp [Float64.isNaN, hz]

theorem Float64.jsEq_comm (x y : Float64) : x.jsEq y = y.jsEq x := by
  have himp : ∀ x y : Float64, x.jsEq y = true → y.jsEq x = true := by
    intro x y h
    simp only [Float64.jsEq, Bool.and_eq_true, Bool.not_eq_true', Bool.or_eq_true,
      decide_eq_true_eq] at h ⊢
    obtain ⟨hnan, hbits | ⟨hx, hy⟩⟩ := h
    · refine ⟨?_, .inl hbits.symm⟩
      rw [Float64.isNaN] at hnan ⊢
      rwa [← hbits]
    · exact ⟨Float64.isNaN_of_isZero hy, .inr ⟨hy, hx⟩⟩
  exact Bool.eq_iff_iff.2 ⟨himp x y, himp y x⟩

theorem Scalar.equal_comm (x y : Scalar) : x.equal y = y.equal x := by
  cases x with
  | string a =>
    cases y with
    | string b => exact decide_eq_decide.2 eq_comm
    | number b | boolean b | date b => rfl
  | number a =>
    cases y with
    | number b => exact a.jsEq_comm b
    | string b | boolean b | date b => rfl
  | boolean a =>
    cases y with
    | boolean b => exact decide_eq_decide.2 eq_comm
    | string b | number b | date b => rfl
  | date a =>
    cases y with
    | date b => exact decide_eq_decide.2 eq_comm
    | string b | number b | boolean b => rfl

/-- Equal scalars have one text, but for the two zeros. -/
theorem Scalar.equal_cases {x y : Scalar} (h : x.equal y = true) :
    x = y ∨ ∃ a b : Float64, x = .number a ∧ y = .number b ∧ a.isZero = true ∧
      b.isZero = true ∧ a ≠ b := by
  cases x with
  | string a =>
    cases y with
    | string b =>
      left
      rw [of_decide_eq_true h]
    | number b | boolean b | date b => cases h
  | number a =>
    cases y with
    | number b =>
      simp only [Scalar.equal, Float64.jsEq, Bool.and_eq_true, Bool.or_eq_true,
        decide_eq_true_eq] at h
      by_cases hbits : a.bits = b.bits
      · left
        cases a
        cases b
        simp_all
      · rcases h.2 with h | h
        · exact absurd h hbits
        · refine .inr ⟨a, b, rfl, rfl, h.1, h.2, ?_⟩
          rintro rfl
          exact hbits rfl
    | string b | boolean b | date b => cases h
  | boolean a =>
    cases y with
    | boolean b =>
      left
      rw [of_decide_eq_true h]
    | string b | number b | date b => cases h
  | date a =>
    cases y with
    | date b =>
      left
      have := of_decide_eq_true h
      cases a
      cases b
      simp_all
    | string b | number b | boolean b => cases h

/-! ## Records -/

/-- The attributes of one workflow: an object, so names are unique. -/
structure AttributeRecord where
  entries : List (JsString × SearchAttributeValue)
  nodup : (entries.map (·.1)).Nodup
deriving DecidableEq

def AttributeRecord.get (record : AttributeRecord) (name : JsString) :
    Option SearchAttributeValue :=
  (record.entries.find? fun entry => entry.1 = name).map (·.2)

theorem AttributeRecord.get_eq_some {record : AttributeRecord} {name : JsString}
    {value : SearchAttributeValue} :
    record.get name = some value ↔ (name, value) ∈ record.entries := by
  have hnodup := record.nodup
  rw [AttributeRecord.get]
  generalize record.entries = entries at hnodup
  induction entries with
  | nil => simp
  | cons entry entries ih =>
    obtain ⟨hnot, hrest⟩ := List.nodup_cons.1 hnodup
    rw [List.find?_cons]
    by_cases hname : entry.1 = name
    · rw [decide_eq_true hname]
      simp only [Option.map_some, Option.some.injEq, List.mem_cons]
      constructor
      · rintro rfl
        exact .inl (by rw [← hname])
      · rintro (rfl | hmem)
        · rfl
        · exact (hnot (List.mem_map.2 ⟨_, hmem, hname.symm⟩)).elim
    · rw [decide_eq_false hname]
      refine (ih hrest).trans ⟨List.mem_cons_of_mem _, fun hmem => ?_⟩
      rcases List.mem_cons.1 hmem with rfl | hmem
      · exact (hname rfl).elim
      · exact hmem

/-- The index keys of one value: one for a scalar, one for each element of an array. -/
def valueRows (id : Component) (name : JsString) (value : SearchAttributeValue) :
    List JsString :=
  (storedAttributeScalarValues value).map fun scalar =>
    KEYS.attributeIndex name (encodeAttributeValue scalar) id

def attributeRows (id : Component) (record : AttributeRecord) : List JsString :=
  record.entries.flatMap fun entry => valueRows id entry.1 entry.2

def rowText (name : JsString) (value : Scalar) : JsString :=
  name ++ colon :: encodeAttributeValue value

theorem attributeIndex_eq (name : JsString) (value : Scalar) (id : Component) :
    KEYS.attributeIndex name (encodeAttributeValue value) id =
      js "idx:" ++ (rowText name value ++ colon :: id.enc) := by
  simp [KEYS.attributeIndex, rowText]

/-- The value, or an element of the value, stored under a name. -/
def HasValue (record : AttributeRecord) (name : JsString) (scalar : Scalar) : Prop :=
  ∃ value, record.get name = some value ∧ scalar ∈ storedAttributeScalarValues value

theorem mem_attributeRows {id : Component} {record : AttributeRecord} {k : JsString} :
    k ∈ attributeRows id record ↔ ∃ name scalar, HasValue record name scalar ∧
      k = KEYS.attributeIndex name (encodeAttributeValue scalar) id := by
  simp only [attributeRows, valueRows, List.mem_flatMap, List.mem_map]
  constructor
  · rintro ⟨⟨name, value⟩, hentry, scalar, hscalar, rfl⟩
    exact ⟨name, scalar, ⟨value, AttributeRecord.get_eq_some.2 hentry, hscalar⟩, rfl⟩
  · rintro ⟨name, scalar, ⟨value, hget, hscalar⟩, rfl⟩
    exact ⟨(name, value), AttributeRecord.get_eq_some.1 hget, scalar, hscalar, rfl⟩

end Weft.Attributes
