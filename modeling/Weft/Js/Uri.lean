import Weft.Js.Text

/-! `encodeURIComponent` and `decodeURIComponent`: UTF-8 bytes written as percent escapes.
Decoding gives back what was encoded, and an encoded component holds no separator. -/

namespace Weft.Js

/-! ## Encoding -/

/-- Letters, digits and `- _ . ! ~ * ' ( )` stay as they are. -/
def isUnescaped (cp : Nat) : Bool :=
  (48 ≤ cp && cp ≤ 57) || (65 ≤ cp && cp ≤ 90) || (97 ≤ cp && cp ≤ 122) ||
    [45, 95, 46, 33, 126, 42, 39, 40, 41].contains cp

def utf8 (cp : Nat) : List Nat :=
  if cp < 0x80 then [cp]
  else if cp < 0x800 then [0xC0 + cp / 64, 0x80 + cp % 64]
  else if cp < 0x10000 then [0xE0 + cp / 4096, 0x80 + cp / 64 % 64, 0x80 + cp % 64]
  else [0xF0 + cp / 262144, 0x80 + cp / 4096 % 64, 0x80 + cp / 64 % 64, 0x80 + cp % 64]

def hexDigit (n : Nat) : CodeUnit := codeUnit (if n < 10 then 48 + n else 55 + n)

def percentByte (b : Nat) : JsString := [37, hexDigit (b / 16), hexDigit (b % 16)]

def encodeCodePoint (cp : Nat) : JsString :=
  if isUnescaped cp then [codeUnit cp] else (utf8 cp).flatMap percentByte

/-- `none` is the `URIError` of a lone surrogate. -/
def encodeURIComponent (s : JsString) : Option JsString :=
  (codePoints s).map fun cps => cps.flatMap encodeCodePoint

/-! ## Decoding -/

inductive UriToken where
  | unit (u : CodeUnit)
  | byte (b : Nat)
deriving DecidableEq, Repr

def hexValue (u : CodeUnit) : Option Nat :=
  if 48 ≤ u.val ∧ u.val ≤ 57 then some (u.val - 48)
  else if 65 ≤ u.val ∧ u.val ≤ 70 then some (u.val - 55)
  else if 97 ≤ u.val ∧ u.val ≤ 102 then some (u.val - 87)
  else none

def uriTokens : JsString → Option (List UriToken)
  | [] => some []
  | u :: rest =>
    if u.val = 37 then
      match rest with
      | a :: b :: rest' =>
        match hexValue a, hexValue b with
        | some x, some y => (uriTokens rest').map (UriToken.byte (16 * x + y) :: ·)
        | _, _ => none
      | _ => none
    else (uriTokens rest).map (UriToken.unit u :: ·)

def isContinuation (b : Nat) : Bool := 0x80 ≤ b && b < 0xC0

/-- Joins the escaped bytes into code points, refusing ill-formed UTF-8. -/
def uriUnits : List UriToken → Option JsString
  | [] => some []
  | .unit u :: rest => (uriUnits rest).map (u :: ·)
  | .byte b :: rest =>
    if b < 0x80 then (uriUnits rest).map (codePointUnits b ++ ·)
    else if 0xC2 ≤ b ∧ b < 0xE0 then
      match rest with
      | .byte c :: rest' =>
        if isContinuation c then
          (uriUnits rest').map (codePointUnits ((b - 0xC0) * 64 + (c - 0x80)) ++ ·)
        else none
      | _ => none
    else if 0xE0 ≤ b ∧ b < 0xF0 then
      match rest with
      | .byte c :: .byte d :: rest' =>
        let cp := (b - 0xE0) * 4096 + (c - 0x80) * 64 + (d - 0x80)
        if isContinuation c ∧ isContinuation d ∧ 0x800 ≤ cp ∧ ¬ (0xD800 ≤ cp ∧ cp < 0xE000) then
          (uriUnits rest').map (codePointUnits cp ++ ·)
        else none
      | _ => none
    else if 0xF0 ≤ b ∧ b < 0xF5 then
      match rest with
      | .byte c :: .byte d :: .byte e :: rest' =>
        let cp := (b - 0xF0) * 262144 + (c - 0x80) * 4096 + (d - 0x80) * 64 + (e - 0x80)
        if isContinuation c ∧ isContinuation d ∧ isContinuation e ∧
            0x10000 ≤ cp ∧ cp < 0x110000 then
          (uriUnits rest').map (codePointUnits cp ++ ·)
        else none
      | _ => none
    else none

def decodeURIComponent (s : JsString) : Option JsString := (uriTokens s).bind uriUnits

/-! ## Round trip -/

def codePointTokens (cp : Nat) : List UriToken :=
  if isUnescaped cp then [.unit (codeUnit cp)] else (utf8 cp).map .byte

variable {cp : Nat}

theorem isUnescaped_bounds (h : isUnescaped cp = true) : cp < 128 ∧ cp ≠ 37 ∧ cp ≠ 58 := by
  simp only [isUnescaped, Bool.or_eq_true, Bool.and_eq_true, decide_eq_true_eq,
    List.contains_cons, beq_iff_eq, List.contains_nil, Bool.false_eq_true, or_false] at h
  omega

theorem hexValue_hexDigit {n : Nat} (h : n < 16) : hexValue (hexDigit n) = some n := by
  have hall : ∀ m : Fin 16, hexValue (hexDigit m.val) = some m.val := by decide
  exact hall ⟨n, h⟩

theorem hexDigit_bounds {n : Nat} (h : n < 16) :
    (hexDigit n).val < 128 ∧ (hexDigit n).val ≠ 58 := by
  have hall : ∀ m : Fin 16, (hexDigit m.val).val < 128 ∧ (hexDigit m.val).val ≠ 58 := by decide
  exact hall ⟨n, h⟩

theorem utf8_lt {cp b : Nat} (hcp : IsScalar cp) (hb : b ∈ utf8 cp) : b < 256 := by
  unfold IsScalar at hcp
  unfold utf8 at hb
  split_ifs at hb <;> simp only [List.mem_cons, List.not_mem_nil, or_false] at hb <;> omega

variable {u : CodeUnit}

theorem uriTokens_unit (hu : u.val ≠ 37) (rest : JsString) :
    uriTokens (u :: rest) = (uriTokens rest).map (UriToken.unit u :: ·) := by
  rw [uriTokens.eq_def]
  simp [hu]

theorem uriTokens_percentByte {b : Nat} (hb : b < 256) (rest : JsString) :
    uriTokens (percentByte b ++ rest) = (uriTokens rest).map (UriToken.byte b :: ·) := by
  have h : 16 * (b / 16) + b % 16 = b := by omega
  simp only [percentByte, List.cons_append, List.nil_append]
  rw [uriTokens.eq_def]
  simp [hexValue_hexDigit (n := b / 16) (by omega), hexValue_hexDigit (n := b % 16) (by omega), h]

theorem uriTokens_percentBytes (bs : List Nat) (hbs : ∀ b ∈ bs, b < 256) (rest : JsString) :
    uriTokens (bs.flatMap percentByte ++ rest) =
      (uriTokens rest).map (bs.map UriToken.byte ++ ·) := by
  induction bs with
  | nil => simp
  | cons b bs ih =>
    rw [List.flatMap_cons, List.append_assoc, uriTokens_percentByte (hbs b (by simp)),
      ih fun c hc => hbs c (by simp [hc])]
    simp [Function.comp_def]

theorem uriTokens_encodeCodePoint (hcp : IsScalar cp) (rest : JsString) :
    uriTokens (encodeCodePoint cp ++ rest) =
      (uriTokens rest).map (codePointTokens cp ++ ·) := by
  by_cases h : isUnescaped cp
  · obtain ⟨hlt, hne, -⟩ := isUnescaped_bounds h
    have hu : (codeUnit cp).val ≠ 37 := by
      rw [codeUnit_val] <;> omega
    simp [encodeCodePoint, codePointTokens, h, uriTokens_unit hu]
  · simp only [encodeCodePoint, codePointTokens, h, Bool.false_eq_true, if_false]
    exact uriTokens_percentBytes _ (fun b hb => utf8_lt hcp hb) rest

theorem uriTokens_encode (cps : List Nat) (h : ∀ cp ∈ cps, IsScalar cp) :
    uriTokens (cps.flatMap encodeCodePoint) = some (cps.flatMap codePointTokens) := by
  induction cps with
  | nil => rfl
  | cons cp cps ih =>
    rw [List.flatMap_cons, uriTokens_encodeCodePoint (h cp (by simp)),
      ih fun c hc => h c (by simp [hc])]
    rfl

theorem uriUnits_codePointTokens (hcp : IsScalar cp) (rest : List UriToken) :
    uriUnits (codePointTokens cp ++ rest) =
      (uriUnits rest).map (codePointUnits cp ++ ·) := by
  unfold IsScalar at hcp
  by_cases h : isUnescaped cp
  · obtain ⟨hlt, -⟩ := isUnescaped_bounds h
    have : cp < 65536 := by omega
    simp [codePointTokens, h, uriUnits, codePointUnits, this]
  · simp only [codePointTokens, h, Bool.false_eq_true, if_false, utf8]
    split_ifs with h1 h2 h3
    · simp only [List.map_cons, List.map_nil, List.cons_append, List.nil_append]
      rw [uriUnits.eq_def]
      simp only [h1, if_true]
    · have e : (192 + cp / 64 - 192) * 64 + (128 + cp % 64 - 128) = cp := by omega
      have c1 : ¬ 192 + cp / 64 < 128 := by omega
      have c2 : 194 ≤ 192 + cp / 64 ∧ 192 + cp / 64 < 224 := by omega
      have c3 : 128 + cp % 64 < 192 := by omega
      simp only [List.map_cons, List.map_nil, List.cons_append, List.nil_append]
      rw [uriUnits, if_neg c1, if_pos c2, if_pos (by simp [isContinuation, c3]), e]
    · have e : (224 + cp / 4096 - 224) * 4096 + (128 + cp / 64 % 64 - 128) * 64 +
          (128 + cp % 64 - 128) = cp := by omega
      have c1 : ¬ 224 + cp / 4096 < 128 := by omega
      have c2 : ¬ (194 ≤ 224 + cp / 4096 ∧ 224 + cp / 4096 < 224) := by omega
      have c3 : 224 ≤ 224 + cp / 4096 ∧ 224 + cp / 4096 < 240 := by omega
      have c4 : 128 + cp / 64 % 64 < 192 := by omega
      have c5 : 128 + cp % 64 < 192 := by omega
      have c6 : 2048 ≤ cp ∧ ¬ (55296 ≤ cp ∧ cp < 57344) := by omega
      simp only [List.map_cons, List.map_nil, List.cons_append, List.nil_append]
      rw [uriUnits, if_neg c1, if_neg c2, if_pos c3]
      simp only [e]
      rw [if_pos (by simp [isContinuation, c4, c5, c6])]
    · have e : (240 + cp / 262144 - 240) * 262144 + (128 + cp / 4096 % 64 - 128) * 4096 +
          (128 + cp / 64 % 64 - 128) * 64 + (128 + cp % 64 - 128) = cp := by omega
      have c1 : ¬ 240 + cp / 262144 < 128 := by omega
      have c2 : ¬ (194 ≤ 240 + cp / 262144 ∧ 240 + cp / 262144 < 224) := by omega
      have c3 : ¬ (224 ≤ 240 + cp / 262144 ∧ 240 + cp / 262144 < 240) := by omega
      have c4 : 240 ≤ 240 + cp / 262144 ∧ 240 + cp / 262144 < 245 := by omega
      have c5 : 128 + cp / 4096 % 64 < 192 := by omega
      have c6 : 128 + cp / 64 % 64 < 192 := by omega
      have c7 : 128 + cp % 64 < 192 := by omega
      have c8 : 65536 ≤ cp ∧ cp < 1114112 := by omega
      simp only [List.map_cons, List.map_nil, List.cons_append, List.nil_append]
      rw [uriUnits, if_neg c1, if_neg c2, if_neg c3, if_pos c4]
      simp only [e]
      rw [if_pos (by simp [isContinuation, c5, c6, c7, c8])]

theorem uriUnits_encode (cps : List Nat) (h : ∀ cp ∈ cps, IsScalar cp) :
    uriUnits (cps.flatMap codePointTokens) = some (cps.flatMap codePointUnits) := by
  induction cps with
  | nil => rfl
  | cons cp cps ih =>
    rw [List.flatMap_cons, uriUnits_codePointTokens (h cp (by simp)),
      ih fun c hc => h c (by simp [hc])]
    rfl

theorem decodeURIComponent_encode {s e : JsString} (h : encodeURIComponent s = some e) :
    decodeURIComponent e = some s := by
  obtain ⟨cps, hcps, rfl⟩ := Option.map_eq_some_iff.1 h
  obtain ⟨hscalar, hunits⟩ := codePoints_eq_some hcps
  rw [decodeURIComponent, uriTokens_encode cps hscalar, Option.bind_some,
    uriUnits_encode cps hscalar, hunits]

theorem encodeURIComponent_injective {s t e : JsString} (hs : encodeURIComponent s = some e)
    (ht : encodeURIComponent t = some e) : s = t := by
  have h := (decodeURIComponent_encode hs).symm.trans (decodeURIComponent_encode ht)
  exact Option.some.inj h

/-! ## The alphabet of an encoded component -/

theorem percentByte_units {b : Nat} (hb : b < 256) (hu : u ∈ percentByte b) :
    u.val < 128 ∧ u.val ≠ 58 := by
  simp only [percentByte, List.mem_cons, List.not_mem_nil, or_false] at hu
  rcases hu with rfl | rfl | rfl
  · decide
  · exact hexDigit_bounds (by omega)
  · exact hexDigit_bounds (by omega)

theorem encodeCodePoint_units (hcp : IsScalar cp) (hu : u ∈ encodeCodePoint cp) :
    u.val < 128 ∧ u.val ≠ 58 := by
  by_cases h : isUnescaped cp
  · obtain ⟨hlt, -, hne⟩ := isUnescaped_bounds h
    simp only [encodeCodePoint, h, if_true, List.mem_singleton] at hu
    rw [hu, codeUnit_val (by omega)]
    exact ⟨hlt, hne⟩
  · simp only [encodeCodePoint, h, Bool.false_eq_true, if_false] at hu
    obtain ⟨b, hb, hub⟩ := List.mem_flatMap.1 hu
    exact percentByte_units (utf8_lt hcp hb) hub

/-- An encoded component is ASCII text without a colon. -/
theorem encodeURIComponent_units {s e : JsString} (h : encodeURIComponent s = some e) (hu : u ∈ e) :
    u.val < 128 ∧ u.val ≠ 58 := by
  obtain ⟨cps, hcps, rfl⟩ := Option.map_eq_some_iff.1 h
  obtain ⟨cp, hcp, hucp⟩ := List.mem_flatMap.1 hu
  exact encodeCodePoint_units ((codePoints_eq_some hcps).1 cp hcp) hucp

theorem codePoints_append {a : JsString} (ha : ∀ u ∈ a, u.val < 0xD800) (s : JsString) :
    codePoints (a ++ s) = (codePoints s).map (a.map (·.val) ++ ·) := by
  induction a with
  | nil => simp
  | cons u a ih =>
    have hu := ha u (by simp)
    rw [List.cons_append, codePoints.eq_def]
    simp only [hu, true_or, if_true, ih fun c hc => ha c (by simp [hc]), Option.map_map]
    rfl

/-- Text without surrogates is encoded by itself. -/
theorem encodeURIComponent_plain_append {a : JsString} (ha : ∀ u ∈ a, u.val < 0xD800)
    (s : JsString) :
    encodeURIComponent (a ++ s) =
      (encodeURIComponent s).map ((a.flatMap fun u => encodeCodePoint u.val) ++ ·) := by
  simp only [encodeURIComponent, codePoints_append ha, Option.map_map]
  congr 1
  funext cps
  simp [List.flatMap_append, List.flatMap_map]

/-- Text that stays as it is in front of a component stays in front of its encoding. -/
theorem encodeURIComponent_append {pre : JsString} (hpre : ∀ u ∈ pre, isUnescaped u.val = true)
    (rest : JsString) :
    encodeURIComponent (pre ++ rest) = (encodeURIComponent rest).map (pre ++ ·) := by
  have hlow : ∀ u ∈ pre, u.val < 0xD800 := by
    intro u hu
    obtain ⟨hlt, -⟩ := isUnescaped_bounds (hpre u hu)
    omega
  have hsame : (pre.flatMap fun u => encodeCodePoint u.val) = pre := by
    have hunits : ∀ u ∈ pre, encodeCodePoint u.val = [u] := by
      intro u hu
      rw [encodeCodePoint, if_pos (hpre u hu)]
      exact congrArg (fun c => [c]) (Fin.ext (codeUnit_val u.isLt))
    rw [List.flatMap_congr hunits]
    simp
  rw [encodeURIComponent_plain_append hlow, hsame]

end Weft.Js
