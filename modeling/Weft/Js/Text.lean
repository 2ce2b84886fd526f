import Mathlib

/-! JavaScript strings as lists of UTF-16 code units, ordered as `<` orders them, and the
code points that a well-formed string stands for. -/

namespace Weft.Js

abbrev CodeUnit := Fin 65536

abbrev JsString := List CodeUnit

instance codeUnitNeZero : NeZero 65536 := ⟨by decide⟩

instance : LawfulBEq (List CodeUnit) := inferInstance

def codeUnit (n : Nat) : CodeUnit := ⟨n % 65536, Nat.mod_lt _ (by decide)⟩

theorem codeUnit_val {n : Nat} (h : n < 65536) : (codeUnit n).val = n := Nat.mod_eq_of_lt h

/-- The code units of one code point. -/
def codePointUnits (cp : Nat) : JsString :=
  if cp < 0x10000 then [codeUnit cp]
  else [codeUnit (0xD800 + (cp - 0x10000) / 0x400),
    codeUnit (0xDC00 + (cp - 0x10000) % 0x400)]

/-- A string literal of the source. -/
def js (s : String) : JsString := s.toList.flatMap fun c => codePointUnits c.toNat

/-- A literal by its characters, which evaluates faster than the decoding of its bytes. -/
theorem js_ofList (l : List Char) :
    js (String.ofList l) = l.flatMap fun c => codePointUnits c.toNat := by
  rw [js, String.toList_ofList]

/-- A code point that is not a surrogate. -/
def IsScalar (cp : Nat) : Prop := cp < 0xD800 ∨ 0xE000 ≤ cp ∧ cp < 0x110000

/-- The code points of a string, `none` where it holds a lone surrogate. -/
def codePoints : JsString → Option (List Nat)
  | [] => some []
  | u :: rest =>
    if u.val < 0xD800 ∨ 0xE000 ≤ u.val then (codePoints rest).map (u.val :: ·)
    else if 0xDC00 ≤ u.val then none
    else match rest with
      | [] => none
      | l :: rest' =>
        if 0xDC00 ≤ l.val ∧ l.val < 0xE000 then
          (codePoints rest').map
            ((0x10000 + (u.val - 0xD800) * 0x400 + (l.val - 0xDC00)) :: ·)
        else none

private theorem units_of_unit (u : CodeUnit) : codePointUnits u.val = [u] := by
  have hu := u.isLt
  simp only [codePointUnits, hu, if_true, List.cons.injEq, and_true]
  exact Fin.ext (codeUnit_val hu)

private theorem units_of_pair (h l : CodeUnit) (hh : 0xD800 ≤ h.val) (hh' : h.val < 0xDC00)
    (hl : 0xDC00 ≤ l.val) (hl' : l.val < 0xE000) :
    codePointUnits (0x10000 + (h.val - 0xD800) * 0x400 + (l.val - 0xDC00)) = [h, l] := by
  have hlt : ¬ (0x10000 + (h.val - 0xD800) * 0x400 + (l.val - 0xDC00) < 0x10000) := by omega
  simp only [codePointUnits, hlt, if_false, List.cons.injEq, and_true]
  constructor
  · apply Fin.ext
    rw [codeUnit_val] <;> omega
  · apply Fin.ext
    rw [codeUnit_val] <;> omega

/-- What `codePoints` reads are scalars, and writing their units gives the string back. -/
theorem codePoints_eq_some {s : JsString} {cps : List Nat} (h : codePoints s = some cps) :
    (∀ cp ∈ cps, IsScalar cp) ∧ cps.flatMap codePointUnits = s := by
  fun_induction codePoints s generalizing cps with
  | case1 => simp_all
  | case2 u rest hu ih =>
    obtain ⟨cps', hrest, rfl⟩ := Option.map_eq_some_iff.1 h
    obtain ⟨hscalar, hunits⟩ := ih hrest
    have hlt := u.isLt
    constructor
    · intro cp hcp
      rcases List.mem_cons.1 hcp with rfl | hcp
      · unfold IsScalar
        omega
      · exact hscalar cp hcp
    · rw [List.flatMap_cons, hunits, units_of_unit]
      rfl
  | case3 => simp at h
  | case4 => simp at h
  | case5 u hu hu' l rest hl ih =>
    obtain ⟨cps', hrest, rfl⟩ := Option.map_eq_some_iff.1 h
    obtain ⟨hscalar, hunits⟩ := ih hrest
    constructor
    · intro cp hcp
      rcases List.mem_cons.1 hcp with hcp | hcp
      · unfold IsScalar
        omega
      · exact hscalar cp hcp
    · rw [List.flatMap_cons, hunits,
        units_of_pair u l (by omega) (by omega) hl.1 hl.2]
      rfl
  | case6 => simp at h

/-! ## Sets of strings -/

/-- `new Set(xs)`, in insertion order. -/
def toSet (xs : List JsString) : List JsString :=
  xs.foldl (fun acc x => if x ∈ acc then acc else acc ++ [x]) []

private theorem foldl_insert (xs acc : List JsString) (hacc : acc.Nodup) :
    (xs.foldl (fun acc x => if x ∈ acc then acc else acc ++ [x]) acc).Nodup ∧
      ∀ x, x ∈ xs.foldl (fun acc x => if x ∈ acc then acc else acc ++ [x]) acc ↔
        x ∈ acc ∨ x ∈ xs := by
  induction xs generalizing acc with
  | nil => simp [hacc]
  | cons y ys ih =>
    rw [List.foldl_cons]
    by_cases hy : y ∈ acc
    · rw [if_pos hy]
      refine ⟨(ih acc hacc).1, fun x => ?_⟩
      rw [(ih acc hacc).2, List.mem_cons]
      constructor
      · rintro (h | h)
        · exact .inl h
        · exact .inr (.inr h)
      · rintro (h | rfl | h)
        · exact .inl h
        · exact .inl hy
        · exact .inr h
    · rw [if_neg hy]
      have hacc' : (acc ++ [y]).Nodup := by
        rw [List.nodup_append]
        refine ⟨hacc, List.nodup_singleton y, fun a ha b hb => ?_⟩
        rw [List.mem_singleton.1 hb]
        rintro rfl
        exact hy ha
      refine ⟨(ih _ hacc').1, fun x => ?_⟩
      rw [(ih _ hacc').2, List.mem_cons, List.mem_append, List.mem_singleton, or_assoc]

@[simp] theorem mem_toSet {x : JsString} {xs : List JsString} : x ∈ toSet xs ↔ x ∈ xs := by
  have h := (foldl_insert xs [] List.nodup_nil).2 x
  rwa [List.mem_nil_iff, false_or] at h

theorem nodup_toSet (xs : List JsString) : (toSet xs).Nodup :=
  (foldl_insert xs [] List.nodup_nil).1

end Weft.Js
