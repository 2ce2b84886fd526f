import Weft.Js.Text

/-! `JSON.stringify` of a string, and how its text is read back. -/

namespace Weft.Js

def isHighSurrogate (u : CodeUnit) : Bool := 0xD800 ≤ u.val && u.val < 0xDC00

def isLowSurrogate (u : CodeUnit) : Bool := 0xDC00 ≤ u.val && u.val < 0xE000

def hexDigitLower (n : Nat) : CodeUnit := codeUnit (if n < 10 then 48 + n else 87 + n)

/-- `\uXXXX` in lower case. -/
def unicodeEscape (u : CodeUnit) : JsString :=
  [92, 117, hexDigitLower (u.val / 4096), hexDigitLower (u.val / 256 % 16),
    hexDigitLower (u.val / 16 % 16), hexDigitLower (u.val % 16)]

/-- A unit that is no surrogate. -/
def quoteUnit (u : CodeUnit) : JsString :=
  if u = 8 then [92, 98]
  else if u = 9 then [92, 116]
  else if u = 10 then [92, 110]
  else if u = 12 then [92, 102]
  else if u = 13 then [92, 114]
  else if u = 34 then [92, 34]
  else if u = 92 then [92, 92]
  else if u.val < 32 then unicodeEscape u
  else [u]

/-- A surrogate stays as it is in a pair, and is escaped alone. -/
def quoteUnits : JsString → JsString
  | [] => []
  | [u] =>
    if isHighSurrogate u || isLowSurrogate u then unicodeEscape u else quoteUnit u
  | u :: l :: rest =>
    if isHighSurrogate u then
      if isLowSurrogate l then u :: l :: quoteUnits rest
        else unicodeEscape u ++ quoteUnits (l :: rest)
    else if isLowSurrogate u then unicodeEscape u ++ quoteUnits (l :: rest)
    else quoteUnit u ++ quoteUnits (l :: rest)

/-- `JSON.stringify(s)` -/
def stringifyString (s : JsString) : JsString := [34] ++ quoteUnits s ++ [34]

/-! ## Reading -/

def hexDigitValue (u : CodeUnit) : Nat := if u.val < 58 then u.val - 48 else u.val - 87

def unescapeUnit (u : CodeUnit) : CodeUnit :=
  if u = 98 then 8
  else if u = 116 then 9
  else if u = 110 then 10
  else if u = 102 then 12
  else if u = 114 then 13
  else u

inductive Reading where
  | plain
  | escape
  | hex (left value : Nat)

/-- The string whose quoted text begins here, and what follows its closing quote. -/
def unquote : Reading → JsString → Option (JsString × JsString)
  | _, [] => none
  | .plain, u :: rest =>
    if u = 34 then some ([], rest)
    else if u = 92 then unquote .escape rest
    else (unquote .plain rest).map (Prod.map (u :: ·) id)
  | .escape, u :: rest =>
    if u = 117 then unquote (.hex 3 0) rest
    else (unquote .plain rest).map (Prod.map (unescapeUnit u :: ·) id)
  | .hex 0 value, u :: rest =>
    (unquote .plain rest).map (Prod.map (codeUnit (value * 16 + hexDigitValue u) :: ·) id)
  | .hex (left + 1) value, u :: rest => unquote (.hex left (value * 16 + hexDigitValue u)) rest

theorem hexDigitValue_hexDigitLower {n : Nat} (h : n < 16) :
    hexDigitValue (hexDigitLower n) = n := by
  have hall : ∀ m : Fin 16, hexDigitValue (hexDigitLower m.val) = m.val := by decide
  exact hall ⟨n, h⟩

variable {text s rest : JsString}

theorem unquote_literal {u : CodeUnit} (hquote : u ≠ 34) (hescape : u ≠ 92)
    (h : unquote .plain text = some (s, rest)) :
    unquote .plain (u :: text) = some (u :: s, rest) := by
  rw [unquote, if_neg hquote, if_neg hescape, h]
  rfl

theorem unquote_escape {e u : CodeUnit} (he : e ≠ 117) (hu : unescapeUnit e = u)
    (h : unquote .plain text = some (s, rest)) :
    unquote .plain ([92, e] ++ text) = some (u :: s, rest) := by
  rw [List.cons_append, List.singleton_append, unquote, if_neg (by decide), if_pos rfl, unquote,
    if_neg he, h, hu]
  rfl

theorem unquote_unicodeEscape (u : CodeUnit) (h : unquote .plain text = some (s, rest)) :
    unquote .plain (unicodeEscape u ++ text) = some (u :: s, rest) := by
  have hu := u.isLt
  have hvalue : codeUnit ((((0 * 16 + u.val / 4096) * 16 + u.val / 256 % 16) * 16 +
      u.val / 16 % 16) * 16 + u.val % 16) = u := by
    apply Fin.ext
    rw [codeUnit_val (by omega)]
    omega
  have htext : unicodeEscape u ++ text = 92 :: 117 :: hexDigitLower (u.val / 4096) ::
      hexDigitLower (u.val / 256 % 16) :: hexDigitLower (u.val / 16 % 16) ::
      hexDigitLower (u.val % 16) :: text := rfl
  rw [htext, unquote, if_neg (by decide), if_pos rfl, unquote, if_pos rfl, unquote, unquote,
    unquote, unquote, h, hexDigitValue_hexDigitLower (by omega),
    hexDigitValue_hexDigitLower (by omega), hexDigitValue_hexDigitLower (by omega),
    hexDigitValue_hexDigitLower (by omega), hvalue]
  rfl

theorem unquote_quoteUnit (u : CodeUnit) (h : unquote .plain text = some (s, rest)) :
    unquote .plain (quoteUnit u ++ text) = some (u :: s, rest) := by
  unfold quoteUnit
  split_ifs with hb ht hn hf hr hquote hescape hcontrol
  · exact unquote_escape (by decide) (by rw [hb]; decide) h
  · exact unquote_escape (by decide) (by rw [ht]; decide) h
  · exact unquote_escape (by decide) (by rw [hn]; decide) h
  · exact unquote_escape (by decide) (by rw [hf]; decide) h
  · exact unquote_escape (by decide) (by rw [hr]; decide) h
  · exact unquote_escape (by decide) (by rw [hquote]; decide) h
  · exact unquote_escape (by decide) (by rw [hescape]; decide) h
  · exact unquote_unicodeEscape u h
  · exact unquote_literal hquote hescape h

theorem surrogate_ne {u : CodeUnit} (h : isHighSurrogate u = true ∨ isLowSurrogate u = true) :
    u ≠ 34 ∧ u ≠ 92 := by
  have hval : 0xD800 ≤ u.val := by
    simp only [isHighSurrogate, isLowSurrogate, Bool.and_eq_true, decide_eq_true_eq] at h
    omega
  constructor
  · rintro rfl
    exact absurd hval (by decide)
  · rintro rfl
    exact absurd hval (by decide)

/-- The quoted text gives back the string and ends where its quote stands. -/
theorem unquote_quoteUnits (s rest : JsString) :
    unquote .plain (quoteUnits s ++ 34 :: rest) = some (s, rest) := by
  fun_induction quoteUnits s with
  | case1 => rfl
  | case2 u hsurrogate => exact unquote_unicodeEscape u rfl
  | case3 u hplain => exact unquote_quoteUnit u rfl
  | case4 u l tail hhigh hlow ih =>
    obtain ⟨hquote, hescape⟩ := surrogate_ne (.inl hhigh)
    obtain ⟨hquote', hescape'⟩ := surrogate_ne (.inr hlow)
    exact unquote_literal hquote hescape (unquote_literal hquote' hescape' ih)
  | case5 u l tail hhigh hlow ih =>
    rw [List.append_assoc]
    exact unquote_unicodeEscape u ih
  | case6 u l tail hhigh hlow ih =>
    rw [List.append_assoc]
    exact unquote_unicodeEscape u ih
  | case7 u l tail hhigh hlow ih =>
    rw [List.append_assoc]
    exact unquote_quoteUnit u ih

/-- A quoted string is told from what follows it. -/
theorem stringifyString_append {s t rest rest' : JsString}
    (h : stringifyString s ++ rest = stringifyString t ++ rest') : s = t ∧ rest = rest' := by
  have htext : ∀ s rest : JsString,
    stringifyString s ++ rest = 34 :: (quoteUnits s ++ 34 :: rest) := by
    intro s rest
    rw [stringifyString, List.append_assoc, List.append_assoc]
    rfl
  rw [htext, htext] at h
  have hread := congrArg (unquote .plain) (List.cons.inj h).2
  rw [unquote_quoteUnits, unquote_quoteUnits] at hread
  exact Prod.ext_iff.1 (Option.some.inj hread)

end Weft.Js
