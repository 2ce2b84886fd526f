import Weft.Codec.Extension

/-! What the codec writes it reads back with the same structure, for values of the kinds that it has
a word or an extension for. -/

namespace Weft.Codec
open Weft.Js Weft.Lib

/-! ## Values the codec carries -/

namespace Value

def parts : Value → List Value
  | .error _ _ _ _ own => own.map Prod.snd
  | .array items => items
  | .record own => own.map Prod.snd
  | .classInstance _ _ own => own.map Prod.snd
  | .map entries => entries.flatMap fun entry => [entry.1, entry.2]
  | .set items => items
  | _ => []

/-- The value and everything inside it. -/
inductive Every (P : Value → Prop) : Value → Prop where
  | intro {v : Value} (here : P v) (inside : ∀ w ∈ v.parts, Every P w) : Every P v

variable {v : Value}

theorem Every.here {P : Value → Prop} (h : Every P v) : P v := by
  cases h with
  | intro here _ => exact here

theorem Every.inside {P : Value → Prop} {v w : Value} (h : Every P v) (hw : w ∈ v.parts) :
    Every P w := by
  cases h with
  | intro _ inside => exact inside w hw

/-- The parts with the depth that `msgpackEncode` meets them at. -/
def deeper (depth : Nat) : Value → List (Nat × Value)
  | .array items => items.map fun item => (depth + 1, item)
  | .record own => own.map fun field => (depth + 1, field.2)
  | .classInstance _ _ own => own.map fun field => (depth + 1, field.2)
  | .map entries => entries.flatMap fun entry => [(3, entry.1), (3, entry.2)]
  | .set items => items.map fun item => (2, item)
  | _ => []

/-- `msgpackEncode` does not find the value too deep. -/
inductive Fits : Nat → Value → Prop where
  | intro {depth : Nat} {v : Value} (here : depth ≤ maxDepth)
      (inside : ∀ part ∈ v.deeper depth, Fits part.1 part.2) : Fits depth v

theorem Fits.here {depth : Nat} (h : Fits depth v) : depth ≤ maxDepth := by
  cases h with
  | intro here _ => exact here

theorem Fits.inside {depth : Nat} (h : Fits depth v) {part : Nat × Value}
    (hpart : part ∈ v.deeper depth) : Fits part.1 part.2 := by
  cases h with
  | intro _ inside => exact inside part hpart

end Value

/-- What a value must be by itself to be carried: one of the kinds with a word or an extension, no
zero with a sign, a date with a time, a source within the limit of the decoder, an error with
nothing besides its name, its message and its stack, and fields and keys as they can stand in an
object, a `Map` or a `Set`. -/
def Carried (engine : JsEngine) : Value → Prop
  | .primitive (.bigint _) => False
  | .primitive (.symbol _) => False
  | .primitive (.function _) => False
  | .primitive (.number x) => x ≠ .negativeZero
  | .primitive _ => True
  | .uint8Array _ => True
  | .date time => timeClip time = time ∧ time ≠ .nan
  | .regExp source flags =>
    engine.acceptsRegExp source flags = true ∧ utf8Length source ≤ REGEXP_SOURCE_MAX_BYTES
  | .error _ _ _ stack own => stack.isSome = true ∧ own = []
  | .array _ => True
  | .record own => (own.map Prod.fst).Nodup ∧ js "__proto__" ∉ own.map Prod.fst
  | .map entries =>
    entries.Pairwise (fun old new => sameValueZero old.1 new.1 = false) ∧
      ∀ entry ∈ entries, entry.1.settled = entry.1
  | .set items =>
    items.Pairwise (fun old new => sameValueZero old new = false) ∧
      ∀ item ∈ items, item.settled = item
  | .undefinedSentinel => False
  | .arrayBuffer _ => False
  | .classInstance _ _ _ => False
  | .weak _ => False

/-! ## What comes back -/

mutual

/-- The value with the name of each error as a field of its own. -/
def restored : Value → Value
  | .error _ name message stack _ => .error true name message stack []
  | .array items => .array (restoredItems items)
  | .record own => .record (restoredFields own)
  | .map entries => .map (restoredEntries entries)
  | .set items => .set (restoredItems items)
  | v => v

def restoredItems : List Value → List Value
  | [] => []
  | item :: rest => restored item :: restoredItems rest

def restoredEntries : List (Value × Value) → List (Value × Value)
  | [] => []
  | (key, value) :: rest => (restored key, restored value) :: restoredEntries rest

def restoredFields : List (JsString × Value) → List (JsString × Value)
  | [] => []
  | (key, value) :: rest => (key, restored value) :: restoredFields rest

end

theorem restoredItems_eq_map (items : List Value) : restoredItems items = items.map restored := by
  induction items with
  | nil => rfl
  | cons item rest ih => rw [restoredItems, ih]; rfl

theorem restoredEntries_eq_map (entries : List (Value × Value)) :
    restoredEntries entries = entries.map (Prod.map restored restored) := by
  induction entries with
  | nil => rfl
  | cons entry rest ih => rw [restoredEntries, ih]; rfl

theorem restoredFields_eq_map (own : List (JsString × Value)) :
    restoredFields own = own.map (Prod.map id restored) := by
  induction own with
  | nil => rfl
  | cons field rest ih => rw [restoredFields, ih]; rfl

theorem replaceItemsUndefined_eq_map (items : List Value) :
    replaceItemsUndefined items = items.map replaceUndefinedDeep := by
  induction items with
  | nil => rfl
  | cons item rest ih => rw [replaceItemsUndefined, ih]; rfl

theorem replaceEntriesUndefined_eq_map (entries : List (Value × Value)) :
    replaceEntriesUndefined entries =
      entries.map (Prod.map replaceUndefinedDeep replaceUndefinedDeep) := by
  induction entries with
  | nil => rfl
  | cons entry rest ih => rw [replaceEntriesUndefined, ih]; rfl

theorem replaceFieldsUndefined_eq_map (own : List (JsString × Value)) :
    replaceFieldsUndefined own = own.map (Prod.map id replaceUndefinedDeep) := by
  induction own with
  | nil => rfl
  | cons field rest ih => rw [replaceFieldsUndefined, ih]; rfl

@[simp] theorem kind_restored (v : Value) : (restored v).kind = v.kind := by
  cases v <;> rfl

theorem asPrimitive_restored (v : Value) : (restored v).asPrimitive = v.asPrimitive := by
  cases v <;> rfl

/-! ## Collections -/

/-- A change that leaves primitives alone and makes no object one keeps the keys of a `Map` and the
items of a `Set` apart. -/
structure KeepsKeys (f : Value → Value) (v : Value) : Prop where
  notPrimitive : v.asPrimitive = none → (f v).asPrimitive = none
  primitive : ∀ p, v = .primitive p → f v = v ∨ (f v).asPrimitive = none

variable {v w : Value}

theorem sameValueZero_eq_false (h : v.asPrimitive = none ∨ w.asPrimitive = none) :
    sameValueZero v w = false := by
  cases v <;> cases w <;> first | rfl | simp [Value.asPrimitive] at h

variable {v : Value}

theorem settled_of_asPrimitive (h : v.asPrimitive = none) : v.settled = v := by
  cases v <;> first | rfl | simp [Value.asPrimitive] at h

variable {f : Value → Value}

theorem KeepsKeys.cases (h : KeepsKeys f v) :
    (∃ p, v = .primitive p ∧ f v = v) ∨ (f v).asPrimitive = none := by
  cases v with
  | primitive p =>
    rcases h.primitive p rfl with hsame | hnone
    · exact .inl ⟨p, rfl, hsame⟩
    · exact .inr hnone
  | _ => exact .inr (h.notPrimitive rfl)

theorem KeepsKeys.sameValueZero (hv : KeepsKeys f v) (hw : KeepsKeys f w)
    (h : sameValueZero v w = false) : sameValueZero (f v) (f w) = false := by
  rcases hv.cases with ⟨p, -, hfv⟩ | hnone
  · rcases hw.cases with ⟨q, -, hfw⟩ | hnone
    · rw [hfv, hfw, h]
    · exact sameValueZero_eq_false (.inr hnone)
  · exact sameValueZero_eq_false (.inl hnone)

theorem KeepsKeys.settled (hv : KeepsKeys f v) (h : v.settled = v) : (f v).settled = f v := by
  rcases hv.cases with ⟨p, -, hfv⟩ | hnone
  · rw [hfv, h]
  · exact settled_of_asPrimitive hnone

variable {entries : List (Value × Value)}

theorem newMap_map (hkeeps : ∀ entry ∈ entries, KeepsKeys f entry.1)
    (hapart : entries.Pairwise fun old new => sameValueZero old.1 new.1 = false)
    (hsettled : ∀ entry ∈ entries, entry.1.settled = entry.1) :
    newMap (entries.map (Prod.map f f)) = .map (entries.map (Prod.map f f)) := by
  have hid : (entries.map (Prod.map f f)).map (fun entry => (entry.1.settled, entry.2)) =
      entries.map (Prod.map f f) := by
    rw [List.map_map]
    refine List.map_congr_left fun entry he => ?_
    exact Prod.ext ((hkeeps entry he).settled (hsettled entry he)) rfl
  rw [newMap, hid, collect_of_pairwise]
  rw [List.pairwise_map]
  exact hapart.imp_of_mem fun ha hb hsame => (hkeeps _ ha).sameValueZero (hkeeps _ hb) hsame

theorem newSet_map {items : List Value} (hkeeps : ∀ item ∈ items, KeepsKeys f item)
    (hapart : items.Pairwise fun old new => sameValueZero old new = false)
    (hsettled : ∀ item ∈ items, item.settled = item) :
    newSet (items.map f) = .set (items.map f) := by
  have hid : (items.map f).map Value.settled = items.map f := by
    rw [List.map_map]
    exact List.map_congr_left fun item hi => (hkeeps item hi).settled (hsettled item hi)
  rw [newSet, hid, collect_of_pairwise]
  rw [List.pairwise_map]
  exact hapart.imp_of_mem fun ha hb hsame => (hkeeps _ ha).sameValueZero (hkeeps _ hb) hsame

theorem assigned_of_nodup {fields : List (JsString × Value)} (hnodup : (fields.map Prod.fst).Nodup)
    (hproto : js "__proto__" ∉ fields.map Prod.fst) : assigned fields = fields := by
  have hall : ∀ field ∈ fields, decide (field.1 ≠ js "__proto__") = true := by
    intro field hf
    refine decide_eq_true fun heq => hproto ?_
    exact heq ▸ List.mem_map_of_mem hf
  rw [assigned, List.filter_eq_self.2 hall, collect_of_pairwise]
  exact (List.pairwise_map.1 hnodup).imp fun hne => decide_eq_false hne

theorem keepsKeys_restored (v : Value) : KeepsKeys restored v where
  notPrimitive h := (asPrimitive_restored v).trans h
  primitive p h := .inl (by rw [h]; rfl)

theorem keepsKeys_replaceUndefinedDeep : KeepsKeys replaceUndefinedDeep v where
  notPrimitive h := by cases v <;> first | rfl | simp [Value.asPrimitive] at h
  primitive p h := by
    subst h
    rw [replaceUndefinedDeep]
    split_ifs
    · exact .inr rfl
    · exact .inl rfl

/-! ## Lists of parts -/

variable {engine : JsEngine}

/-- Written after the sentinel has taken the place of `undefined`, and read back. -/
def ComesBack (engine : JsEngine) (depth : Nat) (v : Value) : Prop :=
  ∃ packed, pack depth (replaceUndefinedDeep v) = .ok packed ∧
    decode engine packed = .ok (restored v)

variable {depth : Nat}

theorem items_comeBack {items : List Value} (h : ∀ item ∈ items, ComesBack engine depth item) :
    ∃ packed, packItems depth (items.map replaceUndefinedDeep) = .ok packed ∧
      decodeItems engine packed = .ok (items.map restored) := by
  induction items with
  | nil => exact ⟨[], rfl, rfl⟩
  | cons item rest ih =>
    obtain ⟨first, hpack, hdecode⟩ := h item List.mem_cons_self
    obtain ⟨others, hpacks, hdecodes⟩ := ih fun other ho => h other (List.mem_cons_of_mem item ho)
    refine ⟨first :: others, ?_, ?_⟩
    · simp only [List.map_cons, packItems, hpack, hpacks]
      rfl
    · simp only [decodeItems, hdecode, hdecodes]
      rfl

theorem entries_comeBack
    (h : ∀ entry ∈ entries, ComesBack engine 3 entry.1 ∧ ComesBack engine 3 entry.2) : ∃ packed,
      packEntries (entries.map (Prod.map replaceUndefinedDeep replaceUndefinedDeep)) = .ok packed ∧
      decodeItems engine packed =
        .ok (entries.map fun entry => .array [restored entry.1, restored entry.2]) := by
  induction entries with
  | nil => exact ⟨[], rfl, rfl⟩
  | cons entry rest ih =>
    obtain ⟨⟨key, hkey, hkey'⟩, ⟨value, hvalue, hvalue'⟩⟩ := h entry List.mem_cons_self
    obtain ⟨others, hpacks, hdecodes⟩ := ih fun other ho => h other (List.mem_cons_of_mem entry ho)
    refine ⟨.array [key, value] :: others, ?_, ?_⟩
    · simp only [List.map_cons, Prod.map, packEntries, hkey, hvalue, hpacks]
      rfl
    · simp only [decodeItems, decode, hkey', hvalue', hdecodes]
      rfl

variable {own : List (JsString × Value)}

theorem fields_comeBack (hproto : js "__proto__" ∉ own.map Prod.fst)
    (h : ∀ field ∈ own, ComesBack engine depth field.2) :
    ∃ packed, packFields depth (own.map (Prod.map id replaceUndefinedDeep)) = .ok packed ∧
      decodeFields engine packed = .ok (own.map (Prod.map id restored)) := by
  induction own with
  | nil => exact ⟨[], rfl, rfl⟩
  | cons field rest ih =>
    obtain ⟨first, hpack, hdecode⟩ := h field List.mem_cons_self
    obtain ⟨hne, hrest⟩ := not_or.1 (fun hor => hproto (List.mem_cons.2 hor))
    obtain ⟨others, hpacks, hdecodes⟩ :=
      ih hrest fun other ho => h other (List.mem_cons_of_mem field ho)
    refine ⟨(field.1, first) :: others, ?_, ?_⟩
    · simp only [List.map_cons, Prod.map, id, packFields, hpack, hpacks]
      rfl
    · simp only [decodeFields, if_neg (Ne.symm hne), hdecode, hdecodes]
      rfl

theorem restored_keys (own : List (JsString × Value)) :
    (own.map (Prod.map id restored)).map Prod.fst = own.map Prod.fst := by
  rw [List.map_map]
  rfl

theorem replaced_keys (own : List (JsString × Value)) :
    (own.map (Prod.map id replaceUndefinedDeep)).map Prod.fst = own.map Prod.fst := by
  rw [List.map_map]
  rfl

/-! ## The round trip -/

theorem comesBack (hv : v.Every (Carried engine)) (hdepth : v.Fits depth) :
    ComesBack engine depth v := by
  have hnot : ¬ maxDepth < depth := not_lt.2 hdepth.here
  induction v using Value.ind generalizing depth with
  | primitive p =>
    cases p with
    | null => exact ⟨.nil, by simp [replaceUndefinedDeep, pack, hnot], rfl⟩
    | undefined => exact ⟨.undefinedExtension, by simp [replaceUndefinedDeep, pack, hnot], rfl⟩
    | boolean value => exact ⟨.boolean value, by simp [replaceUndefinedDeep, pack, hnot], rfl⟩
    | number value =>
      have hword : numberWord value = value := by
        cases value with
        | negativeZero => exact absurd rfl hv.here
        | _ => rfl
      exact ⟨.number value, by simp [replaceUndefinedDeep, pack, hnot, hword], rfl⟩
    | string value => exact ⟨.string value, by simp [replaceUndefinedDeep, pack, hnot], rfl⟩
    | bigint | symbol | function => exact hv.here.elim
  | undefinedSentinel => exact hv.here.elim
  | uint8Array bytes =>
    exact ⟨.binary bytes, by simp only [replaceUndefinedDeep, pack, if_neg hnot], rfl⟩
  | arrayBuffer => exact hv.here.elim
  | date time =>
    obtain ⟨hclip, htime⟩ := hv.here
    have hword : timestampTime time = time := by
      cases time with
      | nan => exact absurd rfl htime
      | _ => rfl
    refine ⟨.timestamp time, by simp only [replaceUndefinedDeep, pack, if_neg hnot, hword], ?_⟩
    rw [decode, hclip]
    rfl
  | regExp source flags =>
    obtain ⟨haccepts, hlength⟩ := hv.here
    refine ⟨_, by simp only [replaceUndefinedDeep, pack, if_neg hnot]; rfl, ?_⟩
    have hsource : payloadText (.map [(js "source", .string source), (js "flags", .string flags)])
        (js "source") = some source := by
      simp [payloadText]
    have hflags : payloadText (.map [(js "source", .string source), (js "flags", .string flags)])
        (js "flags") = some flags := by
      have hne : (js "flags" == js "source") = false := by decide
      simp [payloadText, List.lookup_cons, hne]
    rw [decode, hsource, hflags]
    simp only [Option.getD_some, decodeRegExpExtension, haccepts]
    rw [if_neg (by simp [hlength])]
    rfl
  | error ownName name message stack own =>
    obtain ⟨hstack, rfl⟩ := hv.here
    obtain ⟨text, rfl⟩ := Option.isSome_iff_exists.1 hstack
    refine ⟨_, by simp only [replaceUndefinedDeep, pack, if_neg hnot]; rfl, ?_⟩
    have hmessage : (js "message" == js "name") = false := by decide
    have hstack' : (js "stack" == js "name") = false ∧ (js "stack" == js "message") = false := by
      decide
    simp [decode, payloadText, optionalText, List.lookup_cons, hmessage, hstack', restored]
  | array items ih =>
    obtain ⟨packed, hpack, hdecode⟩ := items_comeBack fun item hi =>
      have hfits := hdepth.inside (List.mem_map_of_mem hi)
      ih item hi (hv.inside hi) hfits (not_lt.2 hfits.here)
    refine ⟨.array packed, ?_, ?_⟩
    · simp only [replaceUndefinedDeep, replaceItemsUndefined_eq_map, pack, if_neg hnot, hpack]
      rfl
    · simp only [decode, hdecode, restored, restoredItems_eq_map]
      rfl
  | record own ih =>
    obtain ⟨hnodup, hproto⟩ := hv.here
    obtain ⟨packed, hpack, hdecode⟩ := fields_comeBack hproto fun field hf =>
      have hfits := hdepth.inside (List.mem_map_of_mem hf)
      ih field hf (hv.inside (List.mem_map_of_mem hf)) hfits (not_lt.2 hfits.here)
    refine ⟨.map packed, ?_, ?_⟩
    · simp only [replaceUndefinedDeep, replaceFieldsUndefined_eq_map]
      rw [assigned_of_nodup (by rwa [replaced_keys]) (by rwa [replaced_keys])]
      simp only [pack, if_neg hnot, hpack]
      rfl
    · simp only [decode, hdecode, restored, restoredFields_eq_map, Except.map]
      rw [assigned_of_nodup (by rwa [restored_keys]) (by rwa [restored_keys])]
  | classInstance => exact hv.here.elim
  | map entries ih =>
    obtain ⟨hapart, hsettled⟩ := hv.here
    have hkey : ∀ entry ∈ entries, entry.1 ∈ (Value.map entries).parts ∧
        entry.2 ∈ (Value.map entries).parts := fun entry he =>
      ⟨List.mem_flatMap.2 ⟨entry, he, by simp⟩, List.mem_flatMap.2 ⟨entry, he, by simp⟩⟩
    have hdeep : ∀ entry ∈ entries, Value.Fits 3 entry.1 ∧ Value.Fits 3 entry.2 := fun entry he =>
      ⟨hdepth.inside (List.mem_flatMap.2 ⟨entry, he, List.mem_cons_self⟩),
        hdepth.inside (List.mem_flatMap.2 ⟨entry, he, List.mem_cons_of_mem _ List.mem_cons_self⟩)⟩
    obtain ⟨packed, hpack, hdecode⟩ := entries_comeBack fun entry he =>
      ⟨(ih entry he).1 (hv.inside (hkey entry he).1) (hdeep entry he).1
          (not_lt.2 (hdeep entry he).1.here),
        (ih entry he).2 (hv.inside (hkey entry he).2) (hdeep entry he).2
          (not_lt.2 (hdeep entry he).2.here)⟩
    refine ⟨.mapExtension (.array packed), ?_, ?_⟩
    · simp only [replaceUndefinedDeep, replaceEntriesUndefined_eq_map]
      rw [newMap_map (fun _ _ => keepsKeys_replaceUndefinedDeep) hapart hsettled]
      simp only [pack, if_neg hnot, hpack]
      rfl
    · have hpairs : (entries.map fun entry =>
          Value.array [restored entry.1, restored entry.2]).map pairOf =
          entries.map (Prod.map restored restored) := by
        rw [List.map_map]
        rfl
      simp only [decode, hdecode, restored, restoredEntries_eq_map, Except.map, coerceCodecArray]
      rw [hpairs, newMap_map (fun entry _ => keepsKeys_restored entry.1) hapart hsettled]
  | set items ih =>
    obtain ⟨hapart, hsettled⟩ := hv.here
    obtain ⟨packed, hpack, hdecode⟩ := items_comeBack fun item hi =>
      have hfits := hdepth.inside (List.mem_map_of_mem hi)
      ih item hi (hv.inside hi) hfits (not_lt.2 hfits.here)
    refine ⟨.setExtension (.array packed), ?_, ?_⟩
    · simp only [replaceUndefinedDeep, replaceItemsUndefined_eq_map]
      rw [newSet_map (fun _ _ => keepsKeys_replaceUndefinedDeep) hapart hsettled]
      simp only [pack, if_neg hnot, hpack]
      rfl
    · simp only [decode, hdecode, restored, restoredItems_eq_map, Except.map, coerceCodecArray]
      rw [newSet_map (fun item _ => keepsKeys_restored item) hapart hsettled]
  | weak => exact hv.here.elim

/-! ## Values without `undefined` -/

theorem itemsContainUndefined_eq_any (items : List Value) :
    itemsContainUndefined items = items.any containsUndefined := by
  induction items with
  | nil => rfl
  | cons item rest ih => rw [itemsContainUndefined, ih]; rfl

theorem entriesContainUndefined_eq_any (entries : List (Value × Value)) :
    entriesContainUndefined entries =
      entries.any fun entry => containsUndefined entry.1 || containsUndefined entry.2 := by
  induction entries with
  | nil => rfl
  | cons entry rest ih => rw [entriesContainUndefined, ih]; rfl

theorem recordContainsUndefined_eq_any (own : List (JsString × Value)) :
    recordContainsUndefined own = own.any fun field => containsUndefined field.2 := by
  induction own with
  | nil => rfl
  | cons field rest ih => rw [recordContainsUndefined, ih]; rfl

theorem map_eq_self {α : Type} {f : α → α} {xs : List α} (h : ∀ x ∈ xs, f x = x) : xs.map f = xs :=
  (List.map_congr_left h).trans (List.map_id xs)

/-- Where there is no `undefined`, the copy with the sentinels is the value itself. -/
theorem replaceUndefinedDeep_eq_self (hv : v.Every (Carried engine))
    (h : containsUndefined v = false) : replaceUndefinedDeep v = v := by
  induction v using Value.ind with
  | primitive p =>
    rw [replaceUndefinedDeep, if_neg (of_decide_eq_false h)]
  | undefinedSentinel | uint8Array | arrayBuffer | date | regExp | error => rfl
  | array items ih =>
    rw [containsUndefined, itemsContainUndefined_eq_any, List.any_eq_false] at h
    rw [replaceUndefinedDeep, replaceItemsUndefined_eq_map,
      map_eq_self fun item hi => ih item hi (hv.inside hi) (Bool.eq_false_iff.2 (h item hi))]
  | record own ih =>
    obtain ⟨hnodup, hproto⟩ := hv.here
    rw [containsUndefined, recordContainsUndefined_eq_any, List.any_eq_false] at h
    have hfields : own.map (Prod.map id replaceUndefinedDeep) = own :=
      map_eq_self fun field hf => Prod.ext rfl (ih field hf
        (hv.inside (List.mem_map_of_mem hf)) (Bool.eq_false_iff.2 (h field hf)))
    rw [replaceUndefinedDeep, replaceFieldsUndefined_eq_map, hfields,
      assigned_of_nodup hnodup hproto]
  | classInstance => exact hv.here.elim
  | map entries ih =>
    obtain ⟨hapart, hsettled⟩ := hv.here
    rw [containsUndefined, entriesContainUndefined_eq_any, List.any_eq_false] at h
    have hentries : entries.map (Prod.map replaceUndefinedDeep replaceUndefinedDeep) = entries := by
      refine map_eq_self fun entry he => ?_
      obtain ⟨hkey, hvalue⟩ := Bool.or_eq_false_iff.1 (Bool.eq_false_iff.2 (h entry he))
      exact Prod.ext
        ((ih entry he).1 (hv.inside (List.mem_flatMap.2 ⟨entry, he, by simp⟩)) hkey)
        ((ih entry he).2 (hv.inside (List.mem_flatMap.2 ⟨entry, he, by simp⟩)) hvalue)
    have hmap := newMap_map (f := replaceUndefinedDeep)
      (fun _ _ => keepsKeys_replaceUndefinedDeep) hapart hsettled
    rw [replaceUndefinedDeep, replaceEntriesUndefined_eq_map, hmap, hentries]
  | set items ih =>
    obtain ⟨hapart, hsettled⟩ := hv.here
    rw [containsUndefined, itemsContainUndefined_eq_any, List.any_eq_false] at h
    have hset := newSet_map (f := replaceUndefinedDeep)
      (fun _ _ => keepsKeys_replaceUndefinedDeep) hapart hsettled
    rw [replaceUndefinedDeep, replaceItemsUndefined_eq_map, hset,
      map_eq_self fun item hi => ih item hi (hv.inside hi) (Bool.eq_false_iff.2 (h item hi))]
  | weak => exact hv.here.elim

/-! ## The structure of what comes back -/

theorem lookup_map_snd (f : Value → Value) (own : List (JsString × Value)) (key : JsString) :
    (own.map (Prod.map id f)).lookup key = (own.lookup key).map f := by
  induction own with
  | nil => rfl
  | cons field rest ih =>
    rw [List.map_cons, List.lookup_cons, List.lookup_cons, ih]
    simp only [Prod.map_fst, id, Prod.map_snd]
    cases key == field.1 <;> rfl

theorem sameValueZero_restored (v : Value) (key : Primitive) :
    sameValueZero (restored v) (.primitive key) = sameValueZero v (.primitive key) := by
  cases v <;> rfl

theorem mapGet_restored (entries : List (Value × Value)) (key : Primitive) :
    mapGet (entries.map (Prod.map restored restored)) (.primitive key) =
      (mapGet entries (.primitive key)).map restored := by
  have hsame : ((fun entry : Value × Value => sameValueZero entry.1 (.primitive key)) ∘
      Prod.map restored restored) = fun entry => sameValueZero entry.1 (.primitive key) := by
    funext entry
    exact sameValueZero_restored entry.1 key
  rw [mapGet, mapGet, List.find?_map, hsame, Option.map_map, Option.map_map]
  rfl

theorem filter_map_entries (entry : Option (Value × Value)) :
    (entry.map (Prod.map restored restored)).filter (fun e => e.1.asPrimitive = none) =
      (entry.filter fun e => e.1.asPrimitive = none).map (Prod.map restored restored) := by
  cases entry with
  | none => rfl
  | some e =>
    simp only [Option.map_some, Option.filter, Prod.map_fst, asPrimitive_restored]
    split_ifs <;> rfl

theorem child_restored (hv : Carried engine v) (label : Label) :
    (restored v).child label = (v.child label).map restored := by
  cases v with
  | error _ _ _ _ own =>
    obtain ⟨-, rfl⟩ := hv
    cases label with
    | field key => simp [restored, Value.child]
    | _ => rfl
  | array items | set items =>
    cases label with
    | index i => simp only [restored, restoredItems_eq_map, Value.child, List.getElem?_map]
    | _ => rfl
  | record own =>
    cases label with
    | field key => simp only [restored, restoredFields_eq_map, Value.child, lookup_map_snd]
    | _ => rfl
  | map entries =>
    cases label with
    | mapKey key =>
      simp only [restored, restoredEntries_eq_map, Value.child, mapGet_restored]
    | entryKey i =>
      simp only [restored, restoredEntries_eq_map, Value.child, List.getElem?_map,
        filter_map_entries, Option.map_map]
      rfl
    | entryValue i =>
      simp only [restored, restoredEntries_eq_map, Value.child, List.getElem?_map,
        filter_map_entries, Option.map_map]
      rfl
    | _ => rfl
  | classInstance => exact hv.elim
  | _ => cases label <;> rfl

theorem mem_of_lookup {key : JsString} {w : Value} (h : own.lookup key = some w) :
    w ∈ own.map Prod.snd := by
  obtain ⟨before, after, rfl, -⟩ := List.lookup_eq_some_iff.1 h
  simp

theorem child_mem_parts {label : Label} (h : v.child label = some w) : w ∈ v.parts := by
  have hentry : ∀ {entries : List (Value × Value)} {e : Value × Value}, e ∈ entries →
      e.1 ∈ (Value.map entries).parts ∧ e.2 ∈ (Value.map entries).parts := fun {entries e} he =>
    ⟨List.mem_flatMap.2 ⟨e, he, by simp⟩, List.mem_flatMap.2 ⟨e, he, by simp⟩⟩
  unfold Value.child at h
  split at h
  case h_1 =>
    split_ifs at h
    exact mem_of_lookup h
  case h_2 | h_3 => exact mem_of_lookup h
  case h_4 | h_5 => exact List.mem_of_getElem? h
  case h_6 entries key =>
    obtain ⟨e, he, rfl⟩ := Option.map_eq_some_iff.1 h
    exact (hentry (List.mem_of_find?_eq_some he)).2
  case h_7 entries i =>
    obtain ⟨e, he, rfl⟩ := Option.map_eq_some_iff.1 h
    exact (hentry (List.mem_of_getElem? (Option.filter_eq_some_iff.1 he).1)).1
  case h_8 entries i =>
    obtain ⟨e, he, rfl⟩ := Option.map_eq_some_iff.1 h
    exact (hentry (List.mem_of_getElem? (Option.filter_eq_some_iff.1 he).1)).2
  case h_9 => cases h

theorem sameStructure_restored (hv : v.Every (Carried engine)) : v.SameStructure (restored v) := by
  intro path
  have hat : ∀ path (w : Value), w.Every (Carried engine) →
      (restored w).at? path = (w.at? path).map restored := by
    intro path
    induction path with
    | nil => exact fun _ _ => rfl
    | cons label path ih =>
      intro w hw
      rw [Value.at?, Value.at?, child_restored hw.here]
      cases hchild : w.child label with
      | none => rfl
      | some part => exact ih part (hw.inside (child_mem_parts hchild))
  rw [hat path v hv, Option.map_map]
  congr 1
  funext w
  exact (kind_restored w).symm

/-- What the codec carries it gives back with the same structure. -/
theorem decode_encode {v : Value} (hv : v.Every (Carried engine)) (hdepth : v.Fits 1) :
    ∃ w, (encode v).bind (decode engine) = .ok w ∧ v.SameStructure w := by
  obtain ⟨packed, hpack, hdecode⟩ := comesBack hv hdepth
  have hreplace : replaceUndefined v = replaceUndefinedDeep v := by
    rw [replaceUndefined]
    split_ifs with h
    · rfl
    · exact (replaceUndefinedDeep_eq_self hv (Bool.eq_false_iff.2 h)).symm
  refine ⟨restored v, ?_, sameStructure_restored hv⟩
  rw [encode, hreplace, hpack]
  exact hdecode

/-- An engine that accepts the sources written here. -/
def plainEngine : JsEngine where
  acceptsRegExp _ _ := true
  stackOf message := js "Error: " ++ message

def labels : Value :=
  .map [(.string (js "pattern"), .regExp (js "a+") (js "g")),
    (.string (js "seen"), .array [.undefined, .set [.number (.finite 1), .number .nan]])]

theorem decode_encode_labels :
    ∃ w, (encode labels).bind (decode plainEngine) = .ok w ∧ labels.SameStructure w := by
  have hkeys : js "pattern" ≠ js "seen" := by decide
  have hlength : utf8Length (js "a+") ≤ REGEXP_SOURCE_MAX_BYTES := by decide
  refine decode_encode (.intro ?_ ?_) (.intro (by decide) ?_)
  · simp [labels, Carried, sameValueZero, Primitive.settled, Value.settled, hkeys]
  · intro v hv
    simp only [labels, Value.parts, List.flatMap_cons, List.flatMap_nil, List.append_nil,
      List.cons_append, List.nil_append, List.mem_cons, List.not_mem_nil, or_false] at hv
    have hprimitive : ∀ p, Carried plainEngine (.primitive p) →
        Value.Every (Carried plainEngine) (.primitive p) := fun p hp => .intro hp nofun
    rcases hv with rfl | rfl | rfl | rfl
    · exact hprimitive _ trivial
    · exact .intro ⟨rfl, hlength⟩ nofun
    · exact hprimitive _ trivial
    · refine .intro trivial fun item hi => ?_
      rcases List.mem_pair.1 hi with rfl | rfl
      · exact hprimitive _ trivial
      · refine .intro (by simp [Carried, sameValueZero, Primitive.settled, Value.settled]) ?_
        intro member hm
        rcases List.mem_pair.1 hm with rfl | rfl <;> exact hprimitive _ (by simp [Carried])
  · intro part hpart
    simp only [labels, Value.deeper, List.flatMap_cons, List.flatMap_nil, List.append_nil,
      List.cons_append, List.nil_append, List.mem_cons, List.not_mem_nil, or_false] at hpart
    rcases hpart with rfl | rfl | rfl | rfl
    · exact .intro (by decide) nofun
    · exact .intro (by decide) nofun
    · exact .intro (by decide) nofun
    · refine .intro (by decide) fun inner hinner => ?_
      simp only [Value.deeper, List.map_cons, List.map_nil] at hinner
      rcases List.mem_pair.1 hinner with rfl | rfl
      · exact .intro (by decide) nofun
      · refine .intro (by decide) fun member hm => ?_
        simp only [Value.deeper, List.map_cons, List.map_nil] at hm
        rcases List.mem_pair.1 hm with rfl | rfl <;> exact .intro (by decide) nofun

/-! ## Sources beyond the limit -/

theorem utf8Length_of_ascii {s : JsString} (h : ∀ u ∈ s, u.val < 0x80) :
    utf8Length s = s.length := by
  induction s with
  | nil => rfl
  | cons u rest ih =>
    have hu := h u List.mem_cons_self
    have hrest := ih fun l hl => h l (List.mem_cons_of_mem u hl)
    have hunit : unitLength u = 1 := by rw [unitLength, if_pos hu]
    cases rest with
    | nil => rw [utf8Length, hunit]; rfl
    | cons l rest =>
      have hpair : isPair u l = false := by
        have hlow : ¬ 0xD800 ≤ u.val := by omega
        simp [isPair, hlow]
      rw [utf8Length, hpair, if_neg Bool.false_ne_true, hrest, hunit]
      simp only [List.length_cons]
      omega

theorem decode_encode_regExp (engine : JsEngine) (source flags : JsString) :
    (encode (.regExp source flags)).bind (decode engine) =
      decodeRegExpExtension engine source flags := by
  have hnot : ¬ maxDepth < 1 := by decide
  have hflags : (js "flags" == js "source") = false := by decide
  rw [encode, replaceUndefined, containsUndefined, if_neg Bool.false_ne_true, pack, if_neg hnot]
  · simp [Except.bind, decode, payloadText, List.lookup_cons, hflags]
  all_goals simp

def longSource : JsString := List.replicate 65536 97

theorem utf8Length_longSource : utf8Length longSource = 65536 := by
  rw [utf8Length_of_ascii, longSource, List.length_replicate]
  intro u hu
  rw [List.eq_of_mem_replicate hu]
  decide

/-- A long source is written, and refused when it is read. -/
theorem long_source_refused :
    (encode (.regExp longSource (js "g"))).bind (decode plainEngine) =
      .error (.regExpExtensionDecode longSource (js "g") 65536) := by
  rw [decode_encode_regExp, decodeRegExpExtension, utf8Length_longSource]
  exact if_pos (.inl (by decide))

end Weft.Codec
