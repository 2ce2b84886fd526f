import Weft.Js.Json
import Weft.Js.Numeral
import Weft.Lib.KeySort

/-! The canonical text that `computeSemanticHash` hashes: the JSON of a value with the keys of its
records in order. Two values have one text exactly when they differ in no more than the order of
their keys and in fields that are undefined. -/

namespace Weft.EffectLog
open Weft.Js Weft.Lib

/-- JSON-like values, with `undefined` among them. -/
inductive Value where
  | null
  | undefined
  | boolean (value : Bool)
  | number (value : JsNumber)
  | string (value : JsString)
  | array (items : List Value)
  | record (fields : List (JsString × Value))

namespace Value

/-- An induction over values, with what holds of every value inside. -/
theorem ind {P : Value → Prop} (null : P .null) (undefined : P .undefined)
    (boolean : ∀ value, P (.boolean value)) (number : ∀ value, P (.number value))
    (string : ∀ value, P (.string value)) (array : ∀ items, (∀ v ∈ items, P v) → P (.array items))
    (record : ∀ fields, (∀ f ∈ fields, P f.2) → P (.record fields)) (v : Value) : P v :=
  @Value.rec P (fun items => ∀ v ∈ items, P v) (fun fields => ∀ f ∈ fields, P f.2) (fun f => P f.2)
    null undefined boolean number string array record (fun _ h => by cases h)
    (fun _ _ hv hvs v h => by
      obtain rfl | h := List.mem_cons.1 h
      · exact hv
      · exact hvs v h)
    (fun _ h => by cases h)
    (fun _ _ hf hfs f h => by
      obtain rfl | h := List.mem_cons.1 h
      · exact hf
      · exact hfs f h)
    (fun _ _ hv => hv) v

def isUndefined : Value → Bool
  | .undefined => true
  | _ => false

/-- No record has a key twice. -/
inductive WellFormed : Value → Prop
  | null : WellFormed .null
  | undefined : WellFormed .undefined
  | boolean (value : Bool) : WellFormed (.boolean value)
  | number (value : JsNumber) : WellFormed (.number value)
  | string (value : JsString) : WellFormed (.string value)
  | array (items : List Value) (h : ∀ v ∈ items, WellFormed v) : WellFormed (.array items)
  | record (fields : List (JsString × Value)) (hkeys : (fields.map Prod.fst).Nodup)
      (h : ∀ f ∈ fields, WellFormed f.2) : WellFormed (.record fields)

/-- The key is there, and its value is not undefined. -/
def HasKey (fields : List (JsString × Value)) (key : JsString) : Prop :=
  ∃ v, (key, v) ∈ fields ∧ v.isUndefined = false

/-- Equal up to the order of keys and up to keys whose value is undefined. -/
inductive Same : Value → Value → Prop
  | null : Same .null .null
  | undefined : Same .undefined .undefined
  | boolean (value : Bool) : Same (.boolean value) (.boolean value)
  | number (value : JsNumber) : Same (.number value) (.number value)
  | string (value : JsString) : Same (.string value) (.string value)
  | array (items items' : List Value) (hlength : items.length = items'.length)
      (h : ∀ (i : Nat) v w, items[i]? = some v → items'[i]? = some w → Same v w) :
      Same (.array items) (.array items')
  | record (fields fields' : List (JsString × Value))
      (hkeys : ∀ key, HasKey fields key ↔ HasKey fields' key)
      (h : ∀ key v w, (key, v) ∈ fields → (key, w) ∈ fields' → v.isUndefined = false →
        w.isUndefined = false → Same v w) :
      Same (.record fields) (.record fields')

end Value

/-! ## The canonical text -/

def UNDEFINED_SENTINEL : JsString := 0 :: js "undefined"

mutual

/-- The values of a record are written before its keys are put in order, which they do not depend
on. -/
def canonicalize : Value → JsString
  | .null => js "null"
  | .undefined => UNDEFINED_SENTINEL
  | .boolean value => if value then js "true" else js "false"
  | .number value => value.toJsString
  | .string value => stringifyString value
  | .array items => js "[" ++ (js ",").intercalate (canonicalizeItems items) ++ js "]"
  | .record fields =>
    js "\x7b" ++ (js ",").intercalate ((sortByKey (canonicalizeFields fields)).map fun f =>
      stringifyString f.1 ++ js ":" ++ f.2) ++ js "\x7d"

def canonicalizeItems : List Value → List JsString
  | [] => []
  | v :: items => canonicalize v :: canonicalizeItems items

def canonicalizeFields : List (JsString × Value) → List (JsString × JsString)
  | [] => []
  | (key, v) :: fields =>
    if v.isUndefined then canonicalizeFields fields
    else (key, canonicalize v) :: canonicalizeFields fields

end

theorem canonicalizeItems_eq (items : List Value) :
    canonicalizeItems items = items.map canonicalize := by
  induction items with
  | nil => rfl
  | cons v items ih => rw [canonicalizeItems, ih, List.map_cons]

/-- The fields whose values are not undefined. -/
def defined (fields : List (JsString × Value)) : List (JsString × Value) :=
  fields.filter fun f => !f.2.isUndefined

theorem canonicalizeFields_eq (fields : List (JsString × Value)) :
    canonicalizeFields fields = (defined fields).map (Prod.map id canonicalize) := by
  induction fields with
  | nil => rfl
  | cons f fields ih =>
    obtain ⟨key, v⟩ := f
    rw [canonicalizeFields, ih, defined, defined, List.filter_cons]
    cases hv : v.isUndefined with
    | true => rfl
    | false => rfl

variable {fields : List (JsString × Value)}

theorem mem_defined {f : JsString × Value} :
    f ∈ defined fields ↔ f ∈ fields ∧ f.2.isUndefined = false := by
  rw [defined, List.mem_filter, Bool.not_eq_true']

def fieldText (f : JsString × Value) : JsString := stringifyString f.1 ++ js ":" ++ canonicalize f.2

theorem canonicalize_array (items : List Value) : canonicalize (.array items) =
      js "[" ++ (js ",").intercalate (items.map canonicalize) ++ js "]" := by
  rw [canonicalize, canonicalizeItems_eq]

theorem canonicalize_record (fields : List (JsString × Value)) : canonicalize (.record fields) =
      js "\x7b" ++ (js ",").intercalate
        ((sortByKey (defined fields)).map fieldText) ++ js "\x7d" := by
  rw [canonicalize, canonicalizeFields_eq, sortByKey_map, List.map_map]
  rfl

/-! ## What a text begins with -/

inductive Kind where
  | null
  | undefined
  | boolean
  | number
  | string
  | array
  | record
deriving DecidableEq

def Value.kind : Value → Kind
  | .null => .null
  | .undefined => .undefined
  | .boolean _ => .boolean
  | .number _ => .number
  | .string _ => .string
  | .array _ => .array
  | .record _ => .record

def leadKind (u : CodeUnit) : Option Kind :=
  if u = 110 then some .null
  else if u = 0 then some .undefined
  else if u = 116 ∨ u = 102 then some .boolean
  else if isNumeralUnit u then some .number
  else if u = 34 then some .string
  else if u = 91 then some .array
  else if u = 123 then some .record
  else none

theorem leadKind_numeral {u : CodeUnit} (h : isNumeralUnit u = true) :
    leadKind u = some .number := by
  have hne : ∀ v : CodeUnit, isNumeralUnit v = false → u ≠ v := by
    rintro v hv rfl
    rw [h] at hv
    cases hv
  have htrue : ¬ (u = 116 ∨ u = 102) := not_or.2 ⟨hne _ (by decide), hne _ (by decide)⟩
  rw [leadKind, if_neg (hne _ (by decide)), if_neg (hne _ (by decide)), if_neg htrue, if_pos h]

/-- The first unit of a text tells what kind of value it is of. -/
theorem canonicalize_head (v : Value) :
    ∃ u rest, canonicalize v = u :: rest ∧ leadKind u = some v.kind := by
  cases v with
  | null => exact ⟨110, js "ull", rfl, by decide⟩
  | undefined => exact ⟨0, js "undefined", rfl, by decide⟩
  | boolean value =>
    cases value with
    | true => exact ⟨116, js "rue", rfl, by decide⟩
    | false => exact ⟨102, js "alse", rfl, by decide⟩
  | number value =>
    obtain ⟨u, rest, htext⟩ := List.exists_cons_of_ne_nil (toJsString_ne_nil value)
    refine ⟨u, rest, htext, leadKind_numeral ?_⟩
    exact toJsString_numeral value u (htext ▸ List.mem_cons_self)
  | string value => exact ⟨34, quoteUnits value ++ [34], rfl, by rw [Value.kind]; decide⟩
  | array items => exact ⟨91, _, canonicalize_array items, by rw [Value.kind]; decide⟩
  | record fields => exact ⟨123, _, canonicalize_record fields, by rw [Value.kind]; decide⟩

variable {rest rest' : JsString}

theorem kind_eq {v w : Value} (h : canonicalize v ++ rest = canonicalize w ++ rest') :
    v.kind = w.kind := by
  obtain ⟨u, tail, hv, hu⟩ := canonicalize_head v
  obtain ⟨u', tail', hw, hu'⟩ := canonicalize_head w
  rw [hv, hw, List.cons_append, List.cons_append] at h
  rw [(List.cons.inj h).1, hu'] at hu
  exact (Option.some.inj hu).symm

/-! ## Where a text ends -/

/-- A comma or a closing bracket follows, or nothing. -/
def Delimited (rest : JsString) : Prop := ∀ u, rest.head? = some u → u = 44 ∨ u = 93 ∨ u = 125

theorem toJsString_append {x y : JsNumber} (hrest : Delimited rest) (hrest' : Delimited rest')
    (h : x.toJsString ++ rest = y.toJsString ++ rest') : x = y ∧ rest = rest' := by
  have hread : ∀ (x : JsNumber) {rest : JsString}, Delimited rest →
      (x.toJsString ++ rest).takeWhile isNumeralUnit = x.toJsString := by
    intro x rest hrest
    rw [List.takeWhile_append_of_pos (toJsString_numeral x)]
    cases rest with
    | nil => rw [List.takeWhile_nil, List.append_nil]
    | cons u rest =>
      have hu : ¬ isNumeralUnit u = true := by
        obtain rfl | rfl | rfl := hrest u rfl <;> decide
      rw [List.takeWhile_cons_of_neg hu, List.append_nil]
  have htext := congrArg (List.takeWhile isNumeralUnit) h
  rw [hread x hrest, hread y hrest'] at htext
  obtain rfl := toJsString_injective htext
  exact ⟨rfl, List.append_cancel_left h⟩

/-- The parts of a list, and what follows its closing bracket, are told from its text. -/
theorem intercalate_append {α : Type*} {text : α → JsString} {R : α → α → Prop} {close : CodeUnit}
    (hclose : close = 93 ∨ close = 125) {xs ys : List α}
    (hpart : ∀ x ∈ xs, ∀ y ∈ ys, ∀ rest rest', Delimited rest → Delimited rest' →
      text x ++ rest = text y ++ rest' → R x y ∧ rest = rest')
    (hhead : ∀ x, ∃ u tail, text x = u :: tail ∧ u ≠ close)
    (h : (js ",").intercalate (xs.map text) ++ close :: rest = (js ",").intercalate (ys.map text) ++
      close :: rest') :
    List.Forall₂ R xs ys ∧ rest = rest' := by
  have hcomma : close ≠ 44 := by
    obtain rfl | rfl := hclose <;> decide
  have hbracket : ∀ rest, Delimited (close :: rest) := by
    intro rest u hu
    exact .inr (Option.some.inj hu ▸ hclose)
  have hjoin : ∀ x (xs : List α), (js ",").intercalate ((x :: xs).map text) =
      text x ++ xs.flatMap fun x => 44 :: text x := by
    intro x xs
    induction xs generalizing x with
    | nil => simp [List.intercalate]
    | cons y xs ih =>
      have hy := ih y
      rw [List.map_cons] at hy
      rw [List.map_cons, List.map_cons, List.intercalate_cons_cons, hy, List.flatMap_cons,
        List.append_assoc]
      rfl
  have hdelimited : ∀ (xs : List α) rest,
    Delimited ((xs.flatMap fun x => 44 :: text x) ++ close :: rest) := by
    intro xs rest
    cases xs with
    | nil => exact hbracket rest
    | cons x xs =>
      intro u hu
      exact .inl (Option.some.inj hu).symm
  have htail : ∀ {xs ys : List α}, (∀ x ∈ xs, ∀ y ∈ ys, ∀ rest rest', Delimited rest →
      Delimited rest' → text x ++ rest = text y ++ rest' → R x y ∧ rest = rest') →
      (xs.flatMap fun x => 44 :: text x) ++ close :: rest =
        (ys.flatMap fun y => 44 :: text y) ++ close :: rest' →
      List.Forall₂ R xs ys ∧ rest = rest' := by
    intro xs
    induction xs with
    | nil =>
      intro ys _ h
      cases ys with
      | nil => exact ⟨.nil, (List.cons.inj h).2⟩
      | cons y ys => exact (hcomma (List.cons.inj h).1).elim
    | cons x xs ih =>
      intro ys hpart h
      cases ys with
      | nil => exact (hcomma (List.cons.inj h).1.symm).elim
      | cons y ys =>
        rw [List.flatMap_cons, List.flatMap_cons, List.cons_append, List.cons_append,
          List.cons_append, List.cons_append, List.append_assoc, List.append_assoc] at h
        obtain ⟨hfirst, hmore⟩ := hpart x List.mem_cons_self y List.mem_cons_self _ _
          (hdelimited xs rest) (hdelimited ys rest') (List.cons.inj h).2
        obtain ⟨hall, hrest⟩ := ih (fun x hx y hy => hpart x (List.mem_cons_of_mem _ hx) y
          (List.mem_cons_of_mem _ hy)) hmore
        exact ⟨.cons hfirst hall, hrest⟩
  have hempty : ∀ x (xs : List α) rest rest',
      (js ",").intercalate ((x :: xs).map text) ++ close :: rest ≠ close :: rest' := by
    intro x xs rest rest' h
    obtain ⟨u, tail, htext, hu⟩ := hhead x
    rw [hjoin, htext] at h
    exact hu (List.cons.inj h).1
  cases xs with
  | nil =>
    cases ys with
    | nil => exact ⟨.nil, (List.cons.inj h).2⟩
    | cons y ys => exact (hempty y ys rest' rest h.symm).elim
  | cons x xs =>
    cases ys with
    | nil => exact (hempty x xs rest rest' h).elim
    | cons y ys =>
      rw [hjoin, hjoin, List.append_assoc, List.append_assoc] at h
      obtain ⟨hfirst, hmore⟩ := hpart x List.mem_cons_self y List.mem_cons_self _ _
        (hdelimited xs rest) (hdelimited ys rest') h
      obtain ⟨hall, hrest⟩ := htail (fun x hx y hy => hpart x (List.mem_cons_of_mem _ hx) y
        (List.mem_cons_of_mem _ hy)) hmore
      exact ⟨.cons hfirst hall, hrest⟩

/-! ## Equal texts -/

open Value

theorem hasKey_iff {key : JsString} :
    HasKey fields key ↔ key ∈ (sortByKey (defined fields)).map Prod.fst := by
  rw [List.mem_map]
  constructor
  · rintro ⟨v, hmem, hv⟩
    exact ⟨(key, v), mem_sortByKey.2 (mem_defined.2 ⟨hmem, hv⟩), rfl⟩
  · rintro ⟨f, hf, rfl⟩
    obtain ⟨hmem, hv⟩ := mem_defined.1 (mem_sortByKey.1 hf)
    exact ⟨f.2, hmem, hv⟩

/-- Records whose fields, put in order, are the same one by one. -/
theorem same_of_forall₂ {fields fields' : List (JsString × Value)}
    (hnodup : (fields'.map Prod.fst).Nodup)
    (h : List.Forall₂ (fun f g : JsString × Value => f.1 = g.1 ∧ Same f.2 g.2)
      (sortByKey (defined fields)) (sortByKey (defined fields'))) :
    Same (.record fields) (.record fields') := by
  have hkeys : (sortByKey (defined fields)).map Prod.fst =
      (sortByKey (defined fields')).map Prod.fst := by
    rw [← List.forall₂_eq_eq_eq, List.forall₂_map_left_iff, List.forall₂_map_right_iff]
    exact h.imp fun _ _ hfields => hfields.1
  refine .record fields fields' (fun key => ?_) fun key v w hv hw hsome hsome' => ?_
  · rw [hasKey_iff, hasKey_iff, hkeys]
  · have hmem : (key, v) ∈ sortByKey (defined fields) := mem_sortByKey.2 (mem_defined.2 ⟨hv, hsome⟩)
    obtain ⟨i, hi⟩ := List.getElem?_of_mem hmem
    obtain ⟨hlt, hget⟩ := List.getElem?_eq_some_iff.1 hi
    have hlt' : i < (sortByKey (defined fields')).length := h.length_eq ▸ hlt
    obtain ⟨hkey, hsame⟩ := h.get hlt hlt'
    have hmem' := (mem_defined.1 (mem_sortByKey.1 (List.getElem_mem hlt'))).1
    rw [List.get_eq_getElem, hget, List.get_eq_getElem] at hkey hsame
    have hfield : (key, w) = (sortByKey (defined fields'))[i] :=
      List.inj_on_of_nodup_map hnodup hw hmem' hkey
    rw [← hfield] at hsame
    exact hsame

/-- A text is read in one way, whatever follows it. -/
theorem canonicalize_append (v : Value) : WellFormed v → ∀ w, WellFormed w → ∀ rest rest',
    Delimited rest → Delimited rest' → canonicalize v ++ rest = canonicalize w ++ rest' →
      Same v w ∧ rest = rest' := by
  induction v using Value.ind with
  | null =>
    intro _ w _ rest rest' _ _ h
    have hkind := kind_eq h
    cases w with
    | null => exact ⟨.null, List.append_cancel_left h⟩
    | _ => cases hkind
  | undefined =>
    intro _ w _ rest rest' _ _ h
    have hkind := kind_eq h
    cases w with
    | undefined => exact ⟨.undefined, List.append_cancel_left h⟩
    | _ => cases hkind
  | boolean value =>
    intro _ w _ rest rest' _ _ h
    have hkind := kind_eq h
    cases w with
    | boolean value' =>
      cases value with
      | true =>
        cases value' with
        | true => exact ⟨.boolean true, List.append_cancel_left h⟩
        | false => exact absurd (List.cons.inj h).1 (by decide)
      | false =>
        cases value' with
        | true => exact absurd (List.cons.inj h).1 (by decide)
        | false => exact ⟨.boolean false, List.append_cancel_left h⟩
    | _ => cases hkind
  | number value =>
    intro _ w _ rest rest' hrest hrest' h
    have hkind := kind_eq h
    cases w with
    | number value' =>
      obtain ⟨rfl, hsame⟩ := toJsString_append hrest hrest' h
      exact ⟨.number value, hsame⟩
    | _ => cases hkind
  | string value =>
    intro _ w _ rest rest' _ _ h
    have hkind := kind_eq h
    cases w with
    | string value' =>
      obtain ⟨rfl, hsame⟩ := stringifyString_append h
      exact ⟨.string value, hsame⟩
    | _ => cases hkind
  | array items ih =>
    intro hv w hw rest rest' _ _ h
    have hkind := kind_eq h
    cases w with
    | array items' =>
      cases hv with
      | array _ hitems =>
      cases hw with
      | array _ hitems' =>
      rw [canonicalize_array, canonicalize_array] at h
      simp only [List.append_assoc] at h
      have hhead : ∀ v : Value, ∃ u tail, canonicalize v = u :: tail ∧ u ≠ 93 := by
        intro v
        obtain ⟨u, tail, htext, hu⟩ := canonicalize_head v
        refine ⟨u, tail, htext, ?_⟩
        rintro rfl
        have hbracket : leadKind 93 = none := by decide
        rw [hbracket] at hu
        cases hu
      obtain ⟨hall, hsame⟩ := intercalate_append (.inl rfl)
        (fun x hx y hy => ih x hx (hitems x hx) y
        (hitems' y hy)) hhead (List.append_cancel_left h)
      refine ⟨.array items items' hall.length_eq fun i v w hget hget' => ?_, hsame⟩
      obtain ⟨hlt, rfl⟩ := List.getElem?_eq_some_iff.1 hget
      obtain ⟨hlt', rfl⟩ := List.getElem?_eq_some_iff.1 hget'
      exact hall.get hlt hlt'
    | _ => cases hkind
  | record fields ih =>
    intro hv w hw rest rest' _ _ h
    have hkind := kind_eq h
    cases w with
    | record fields' =>
      cases hv with
      | record _ _ hfields =>
      cases hw with
      | record _ hnodup hfields' =>
      rw [canonicalize_record, canonicalize_record] at h
      simp only [List.append_assoc] at h
      have hpart : ∀ f ∈ sortByKey (defined fields), ∀ g ∈ sortByKey (defined fields'),
          ∀ rest rest', Delimited rest → Delimited rest' →
          fieldText f ++ rest = fieldText g ++ rest' →
          (f.1 = g.1 ∧ Same f.2 g.2) ∧ rest = rest' := by
        intro f hf g hg rest rest' hrest hrest' htext
        have hf' := (mem_defined.1 (mem_sortByKey.1 hf)).1
        have hg' := (mem_defined.1 (mem_sortByKey.1 hg)).1
        rw [fieldText, fieldText, List.append_assoc, List.append_assoc, List.append_assoc,
          List.append_assoc] at htext
        obtain ⟨hkey, hvalue⟩ := stringifyString_append htext
        obtain ⟨hsame, hmore⟩ := ih f hf' (hfields f hf') g.2 (hfields' g hg') rest rest' hrest
          hrest'
          (List.append_cancel_left hvalue)
        exact ⟨⟨hkey, hsame⟩, hmore⟩
      have hhead : ∀ f, ∃ u tail, fieldText f = u :: tail ∧ u ≠ 125 :=
        fun f => ⟨34, _, rfl, by decide⟩
      obtain ⟨hall, hsame⟩ := intercalate_append (.inr rfl) hpart hhead (List.append_cancel_left h)
      exact ⟨same_of_forall₂ hnodup hall, hsame⟩
    | _ => cases hkind

/-! ## Equal values -/

theorem nodup_canonicalizeFields (h : (fields.map Prod.fst).Nodup) :
    ((canonicalizeFields fields).map Prod.fst).Nodup := by
  rw [canonicalizeFields_eq, List.map_map]
  exact h.sublist (List.filter_sublist.map Prod.fst)

theorem canonicalize_eq_of_same {v w : Value} (h : Same v w) (hv : WellFormed v)
    (hw : WellFormed w) : canonicalize v = canonicalize w := by
  induction h with
  | null => rfl
  | undefined => rfl
  | boolean => rfl
  | number => rfl
  | string => rfl
  | array items items' hlength _ ih =>
    cases hv with
    | array _ hitems =>
    cases hw with
    | array _ hitems' =>
    have hall : items.map canonicalize = items'.map canonicalize := by
      refine List.ext_getElem (by rw [List.length_map, List.length_map, hlength]) fun i hi hi' => ?_
      rw [List.length_map] at hi hi'
      rw [List.getElem_map, List.getElem_map]
      exact ih i _ _ (List.getElem?_eq_getElem hi) (List.getElem?_eq_getElem hi')
        (hitems _ (List.getElem_mem hi)) (hitems' _ (List.getElem_mem hi'))
    rw [canonicalize_array, canonicalize_array, hall]
  | record fields fields' hkeys _ ih =>
    cases hv with
    | record _ hnodup hfields =>
    cases hw with
    | record _ hnodup' hfields' =>
    have hsub : ∀ {fields fields' : List (JsString × Value)},
        (∀ key, HasKey fields key → HasKey fields' key) →
        (∀ key v w, (key, v) ∈ fields → (key, w) ∈ fields' → v.isUndefined = false →
          w.isUndefined = false → canonicalize v = canonicalize w) →
        ∀ f ∈ canonicalizeFields fields, f ∈ canonicalizeFields fields' := by
      intro fields fields' hkeys htexts f hf
      rw [canonicalizeFields_eq, List.mem_map] at hf ⊢
      obtain ⟨⟨key, v⟩, hmem, rfl⟩ := hf
      obtain ⟨hv, hsome⟩ := mem_defined.1 hmem
      obtain ⟨w, hw, hsome'⟩ := hkeys key ⟨v, hv, hsome⟩
      refine ⟨(key, w), mem_defined.2 ⟨hw, hsome'⟩, ?_⟩
      rw [Prod.map_apply, Prod.map_apply, htexts key v w hv hw hsome hsome']
    have htexts : ∀ key v w, (key, v) ∈ fields → (key, w) ∈ fields' → v.isUndefined = false →
        w.isUndefined = false → canonicalize v = canonicalize w := fun key v w hv hw hsome hsome' =>
      ih key v w hv hw hsome hsome' (hfields _ hv) (hfields' _ hw)
    have hperm : (canonicalizeFields fields).Perm (canonicalizeFields fields') := by
      refine (List.perm_ext_iff_of_nodup (nodup_canonicalizeFields hnodup).of_map
        (nodup_canonicalizeFields hnodup').of_map).2 fun f => ⟨?_, ?_⟩
      · exact hsub (fun key => (hkeys key).1) htexts f
      · exact hsub (fun key => (hkeys key).2) (fun key v w hv hw hsome hsome' =>
          (htexts key w v hw hv hsome' hsome).symm) f
    rw [canonicalize, canonicalize, sortByKey_eq_of_perm hperm (nodup_canonicalizeFields hnodup)]

/-- A value as an input can be. -/
structure JsonLike where
  value : Value
  wellFormed : value.WellFormed

/-- The texts that are hashed are the same exactly when the values are, up to the order of keys and
up to keys whose value is undefined. -/
theorem canonicalize_eq_iff (v w : JsonLike) :
    canonicalize v.value = canonicalize w.value ↔ Same v.value w.value := by
  constructor
  · intro h
    have hnil : Delimited [] := fun u hu => by cases hu
    exact (canonicalize_append v.value v.wellFormed w.value w.wellFormed [] [] hnil hnil
      (by rw [h])).1
  · exact fun h => canonicalize_eq_of_same h v.wellFormed w.wellFormed

end Weft.EffectLog
