import Weft.Lease.Fencing

/-! The JSON of a holder record whose id needs no escapes, read from its end. -/

namespace Weft.Lease
open Weft.Js Weft.Storage

/-- The numbers of a record survive the codec, and records with other numbers have other bytes.
The bounds are those that `decodeHolder` checks. -/
structure HolderCodec.Lawful (codec : HolderCodec) : Prop where
  decode_encode : ∀ r, 0 ≤ r.expiresAt → r.expiresAt ≤ (MAX_SAFE_INTEGER : Int) → 1 ≤ r.epoch →
    r.epoch ≤ MAX_SAFE_INTEGER → ∃ r', codec.decodeHolder (codec.encodeHolder r) = some r' ∧
      r'.expiresAt = r.expiresAt ∧ r'.epoch = r.epoch
  encode_inj : ∀ r r', codec.encodeHolder r = codec.encodeHolder r' →
    r.expiresAt = r'.expiresAt ∧ r.epoch = r'.epoch

/-! ## Numerals -/

/-- The digits of a numeral, the last one first. -/
def numeral (n : Nat) : Bytes :=
  (if n = 0 then [0] else Nat.digits 10 n).map fun d => UInt8.ofNat (48 + d)

def isDigit (b : UInt8) : Bool := 48 ≤ b ∧ b ≤ 57

def numeralValue (raw : Bytes) : Nat := Nat.ofDigits 10 (raw.map fun b => b.toNat - 48)

theorem digit_spec {d : Nat} (h : d < 10) :
    isDigit (UInt8.ofNat (48 + d)) = true ∧ (UInt8.ofNat (48 + d)).toNat - 48 = d := by
  have hall : ∀ m : Fin 10, isDigit (UInt8.ofNat (48 + m.val)) = true ∧
      (UInt8.ofNat (48 + m.val)).toNat - 48 = m.val := by decide
  exact hall ⟨d, h⟩

theorem numeral_digits (n : Nat) : ∀ b ∈ numeral n, isDigit b = true := by
  intro b hb
  obtain ⟨d, hd, rfl⟩ := List.mem_map.1 hb
  split_ifs at hd with hzero
  · rw [List.mem_singleton.1 hd]
    decide
  · exact (digit_spec (Nat.digits_lt_base (by decide) hd)).1

theorem numeralValue_numeral (n : Nat) : numeralValue (numeral n) = n := by
  rw [numeralValue, numeral, List.map_map]
  split_ifs with hzero
  · subst hzero
    decide
  · have hsame : (Nat.digits 10 n).map ((fun b => b.toNat - 48) ∘ fun d => UInt8.ofNat (48 + d)) =
        (Nat.digits 10 n).map id :=
      List.map_congr_left fun d hd => (digit_spec (Nat.digits_lt_base (by decide) hd)).2
    rw [hsame, List.map_id, Nat.ofDigits_digits]

/-- A numeral in front of something else, cut off where its digits end. -/
theorem cut_numeral (n : Nat) {b : UInt8} (hb : isDigit b = false) (rest : Bytes) :
    (numeral n ++ b :: rest).takeWhile isDigit = numeral n ∧
      (numeral n ++ b :: rest).dropWhile isDigit = b :: rest := by
  have hdigits := numeral_digits n
  constructor
  · rw [List.takeWhile_append_of_pos hdigits, List.takeWhile_cons_of_neg (by simp [hb]),
      List.append_nil]
  · rw [List.dropWhile_append_of_pos hdigits, List.dropWhile_cons_of_neg (by simp [hb])]

/-! ## Records -/

def sign (n : Int) : Bytes := if n < 0 then [45] else []

/-- The text before the id, the texts between the fields, and what ends the object; each is
written from its end. -/
def headText : Bytes := (asciiBytes "\x7b\"holderId\":\"").reverse

def expiryText : Bytes := (asciiBytes "\",\"expiresAt\":").reverse

def epochText : Bytes := (asciiBytes ",\"epoch\":").reverse

def jsonHolder (r : LeaseHolderRecord) : Bytes :=
  ([125] ++ numeral r.epoch ++ epochText ++ numeral r.expiresAt.natAbs ++ sign r.expiresAt ++
    expiryText ++ (r.holderId.map fun (u : CodeUnit) => UInt8.ofNat u.val).reverse ++
      headText).reverse

/-- The id, the expiry and the epoch in the JSON of a record. -/
def parseHolder (raw : Bytes) : Option LeaseHolderRecord := do
  let afterBrace ← raw.reverse.dropPrefix? [125]
  let afterEpoch ← (afterBrace.dropWhile isDigit).dropPrefix? epochText
  let negative := (afterEpoch.dropWhile isDigit).head? = some 45
  let afterExpiry ← (if negative then (afterEpoch.dropWhile isDigit).tail
    else afterEpoch.dropWhile isDigit).dropPrefix? expiryText
  let expiry : Int := numeralValue (afterEpoch.takeWhile isDigit)
  some ⟨(afterExpiry.take (afterExpiry.length - headText.length)).reverse.map fun b =>
      codeUnit b.toNat,
    if negative then -expiry else expiry, numeralValue (afterBrace.takeWhile isDigit)⟩

theorem dropPrefix?_append (p rest : Bytes) : (p ++ rest).dropPrefix? p = some rest :=
  List.dropPrefix?_eq_some_iff.2 ⟨p, rfl, beq_self_eq_true p⟩

/-- What follows the digits of the expiry: its sign and the text before it. -/
theorem cut_sign (n : Int) (rest : Bytes) :
    ∃ b tail, isDigit b = false ∧ sign n ++ expiryText ++ rest = b :: tail ∧
      (b = 45 ↔ n < 0) ∧ (if b = 45 then tail else b :: tail) = expiryText ++ rest := by
  have hcons : expiryText = 58 :: expiryText.tail := by decide
  by_cases hn : n < 0
  · exact ⟨45, expiryText ++ rest, by decide, by simp [sign, hn], by simp [hn], by simp⟩
  · refine ⟨58, expiryText.tail ++ rest, by decide, ?_, by simp [hn], ?_⟩
    · rw [sign, if_neg hn, List.nil_append, hcons]
      rfl
    · rw [if_neg (by decide), ← List.cons_append, ← hcons]

theorem parseHolder_jsonHolder (r : LeaseHolderRecord) :
    ∃ r', parseHolder (jsonHolder r) = some r' ∧ r'.expiresAt = r.expiresAt ∧
      r'.epoch = r.epoch := by
  let ids := (r.holderId.map fun (u : CodeUnit) => UInt8.ofNat u.val).reverse ++ headText
  obtain ⟨b, tail, hb, hcut, hneg, hrest⟩ := cut_sign r.expiresAt ids
  let afterEpoch := numeral r.expiresAt.natAbs ++ b :: tail
  have htext : (jsonHolder r).reverse = [125] ++
    (numeral r.epoch ++ (epochText ++ afterEpoch)) := by
    simp only [jsonHolder, List.reverse_reverse, afterEpoch, ← hcut, ids, List.append_assoc]
  have hepochHead : epochText = 58 :: epochText.tail := by decide
  obtain ⟨htake, hdrop⟩ := cut_numeral r.epoch (b := 58) (by decide) (epochText.tail ++ afterEpoch)
  have htake' : (numeral r.epoch ++ (epochText ++ afterEpoch)).takeWhile isDigit =
      numeral r.epoch := by
    rw [hepochHead]
    exact htake
  have hdrop' : (numeral r.epoch ++ (epochText ++ afterEpoch)).dropWhile isDigit =
      epochText ++ afterEpoch := by
    rw [hepochHead]
    exact hdrop
  obtain ⟨hexpiry, hafter⟩ := cut_numeral r.expiresAt.natAbs hb tail
  have hsigned : (if (b :: tail).head? = some 45 then (b :: tail).tail else b :: tail) =
      expiryText ++ ids := by
    simpa using hrest
  have hparse : parseHolder (jsonHolder r) = some
      ⟨(ids.take (ids.length - headText.length)).reverse.map fun b => codeUnit b.toNat,
        if (b :: tail).head? = some 45 then -(r.expiresAt.natAbs : Int) else r.expiresAt.natAbs,
        r.epoch⟩ := by
    simp only [parseHolder, htext, dropPrefix?_append, Option.bind_eq_bind, Option.bind_some,
      hdrop',
      htake', afterEpoch, hexpiry, hafter, hsigned, numeralValue_numeral]
  refine ⟨_, hparse, ?_, rfl⟩
  dsimp only
  have hhead : (b :: tail).head? = some 45 ↔ r.expiresAt < 0 := by
    rw [List.head?_cons, Option.some.injEq, hneg]
  split_ifs with hminus
  · have := hhead.1 hminus
    omega
  · have : ¬ r.expiresAt < 0 := fun h => hminus (hhead.2 h)
    omega

theorem jsonHolder_inj {r r' : LeaseHolderRecord} (h : jsonHolder r = jsonHolder r') :
    r.expiresAt = r'.expiresAt ∧ r.epoch = r'.epoch := by
  obtain ⟨q, hq, hexpiry, hepoch⟩ := parseHolder_jsonHolder r
  obtain ⟨q', hq', hexpiry', hepoch'⟩ := parseHolder_jsonHolder r'
  rw [h, hq'] at hq
  obtain rfl := Option.some.inj hq
  exact ⟨hexpiry.symm.trans hexpiry', hepoch.symm.trans hepoch'⟩

def jsonCodec : HolderCodec where
  encodeHolder := jsonHolder
  decodeHolder raw := (parseHolder raw).filter fun r =>
    0 ≤ r.expiresAt ∧ r.expiresAt ≤ (MAX_SAFE_INTEGER : Int) ∧ 1 ≤ r.epoch ∧
      r.epoch ≤ MAX_SAFE_INTEGER

theorem jsonCodec_lawful : jsonCodec.Lawful where
  decode_encode r hstart hend hone hmax := by
    obtain ⟨r', hparse, hexpiry, hepoch⟩ := parseHolder_jsonHolder r
    refine ⟨r', ?_, hexpiry, hepoch⟩
    simp only [jsonCodec, hparse, Option.filter_some, hexpiry, hepoch, hstart, hend, hone, hmax,
      and_self, decide_true, if_true]
  encode_inj r r' h := jsonHolder_inj h

end Weft.Lease
