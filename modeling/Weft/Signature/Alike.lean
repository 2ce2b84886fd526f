import Weft.Signature.Model
import Weft.Lib.Lists

/-! What a signature sees of an operation, and when two operations are alike to it. -/

namespace Weft.Signature
open Weft.Js Weft.Lib

variable {ν β : Type}

/-- An induction over values, with what holds of every value inside. -/
theorem Value.ind {P : Value ν → Prop} (number : ∀ n, P (.number n)) (plain : ∀ a, P (.plain a))
    (text : ∀ s, P (.text s)) (callable : P .callable)
    (array : ∀ entries, (∀ e ∈ entries, P e) → P (.array entries))
    (object : ∀ hidden own, (∀ f ∈ own, P f.2) → P (.object hidden own))
    (date : ∀ time own, (∀ f ∈ own, P f.2) → P (.date time own))
    (error : ∀ name message own, (∀ f ∈ own, P f.2) → P (.error name message own))
    (map : ∀ entries own, (∀ e ∈ entries, P e.1 ∧ P e.2) → (∀ f ∈ own, P f.2) →
      P (.map entries own))
    (set : ∀ entries own, (∀ e ∈ entries, P e) → (∀ f ∈ own, P f.2) → P (.set entries own))
    (binary : ∀ view bytes own, (∀ f ∈ own, P f.2) → P (.binary view bytes own)) (v : Value ν) :
    P v :=
  @Value.rec ν P (fun es => ∀ e ∈ es, P e) (fun fs => ∀ f ∈ fs, P f.2)
    (fun es => ∀ e ∈ es, P e.1 ∧ P e.2) (fun f => P f.2) (fun e => P e.1 ∧ P e.2)
    number plain text callable array object date error map set binary
    (List.forall_mem_nil _) (fun _ _ he hes => List.forall_mem_cons.2 ⟨he, hes⟩)
    (List.forall_mem_nil _) (fun _ _ hf hfs => List.forall_mem_cons.2 ⟨hf, hfs⟩)
    (List.forall_mem_nil _) (fun _ _ he hes => List.forall_mem_cons.2 ⟨he, hes⟩)
    (fun _ _ h => h) (fun _ _ h h' => ⟨h, h'⟩) v

/-! ## Values up to the order of their fields -/

mutual

/-- Every object with its fields in the order of their keys. -/
def sorted : Value ν → Value ν
  | .number n => .number n
  | .plain a => .plain a
  | .text s => .text s
  | .callable => .callable
  | .array entries => .array (sortedAll entries)
  | .object hidden own => .object hidden (sortByKey (sortedFields own))
  | .date time own => .date time (sortByKey (sortedFields own))
  | .error name message own => .error name message (sortByKey (sortedFields own))
  | .map entries own => .map (sortedEntries entries) (sortByKey (sortedFields own))
  | .set entries own => .set (sortedAll entries) (sortByKey (sortedFields own))
  | .binary view bytes own => .binary view bytes (sortByKey (sortedFields own))

def sortedAll : List (Value ν) → List (Value ν)
  | [] => []
  | entry :: rest => sorted entry :: sortedAll rest

def sortedEntries : List (Value ν × Value ν) → List (Value ν × Value ν)
  | [] => []
  | (key, value) :: rest => (sorted key, sorted value) :: sortedEntries rest

def sortedFields : List (JsString × Value ν) → List (JsString × Value ν)
  | [] => []
  | (key, value) :: rest => (key, sorted value) :: sortedFields rest

end

/-- Values that differ in nothing but the order in which their objects list their fields. -/
def Agree (v w : Value ν) : Prop := sorted v = sorted w

theorem sortedFields_eq_map (fields : List (JsString × Value ν)) :
    sortedFields fields = fields.map (Prod.map id sorted) := by
  induction fields with
  | nil => rfl
  | cons f fields ih => rw [sortedFields, ih]; rfl

theorem sortedFields_sortByKey (fields : List (JsString × Value ν)) :
    sortedFields (sortByKey fields) = sortByKey (sortedFields fields) := by
  rw [sortedFields_eq_map, sortedFields_eq_map, sortByKey_map]

/-! ## What a signature sees -/

/-- How a field is written that the signature has. -/
def seenWriter (scope : Scope) (key : JsString) : Option Writer :=
  if key = js "__proto__" then none else writerOf scope key

mutual

/-- What a signature sees of a value, as a value: fields with an excluded name are left out of
every object, an error has a name and a message and nothing else, a date, a map, a set and binary
data are the objects that mark them, and a branch is the number of its parts and its input. -/
def seen : Writer → Value ν → Value ν
  | _, .number n => .number n
  | _, .plain a => .plain a
  | _, .text s => .text s
  | _, .callable => .callable
  | .branch, .array (_ :: input :: rest) =>
    .object none [(js "arity", .number (rest.length + 2)), (js "input", seen .value input)]
  | .branch, .array entries => .object none [(js "arity", .number entries.length)]
  | _, .array entries => .array (seenAll entries)
  | .branches, .object _ own => .object none (seenFields .branches own)
  | _, .object _ own => .object none (seenFields (scopeOf own) own)
  | .branches, .date _ own => .object none (seenFields .branches own)
  | _, .date none _ => .callable
  | _, .date (some d) _ => .object none [(DATE_MARKER, .text d.toISOString)]
  | .branches, .error _ _ own => .object none (seenFields .branches own)
  | _, .error name message _ => .error name message []
  | .branches, .map _ own => .object none (seenFields .branches own)
  | _, .map entries _ => .object none [(MAP_MARKER, .array (seenEntries entries))]
  | .branches, .set _ own => .object none (seenFields .branches own)
  | _, .set entries _ => .object none [(SET_MARKER, .array (seenAll entries))]
  | .branches, .binary _ _ own => .object none (seenFields .branches own)
  | _, .binary _ bytes _ => .object none [(BINARY_MARKER, .text (bytesToHex bytes))]

def seenAll : List (Value ν) → List (Value ν)
  | [] => []
  | entry :: rest => seen .value entry :: seenAll rest

def seenEntries : List (Value ν × Value ν) → List (Value ν)
  | [] => []
  | (key, value) :: rest => .array [seen .value key, seen .value value] :: seenEntries rest

def seenFields (scope : Scope) : List (JsString × Value ν) → List (JsString × Value ν)
  | [] => []
  | (key, value) :: rest =>
    match seenWriter scope key with
    | none => seenFields scope rest
    | some writer => (key, seen writer value) :: seenFields scope rest

end

/-- The fields of an operation other than its bookkeeping. -/
def semanticFields (operation : Operation ν) : Value ν :=
  .object none (operation.filter fun field => field.1 ∉ WORKER_SIGNATURE_EXCLUDED_FIELDS)

/-- The operations agree on their fields, bookkeeping apart. -/
def SameFields (a b : Operation ν) : Prop := Agree (semanticFields a) (semanticFields b)

/-- The operations agree on what a signature sees of their fields. -/
def LookAlike (a b : Operation ν) : Prop :=
  Agree (seen .value (semanticFields a)) (seen .value (semanticFields b))

theorem sortedAll_eq_map (entries : List (Value ν)) : sortedAll entries = entries.map sorted := by
  induction entries with
  | nil => rfl
  | cons e entries ih => rw [sortedAll, ih]; rfl

theorem sortedEntries_eq_map (entries : List (Value ν × Value ν)) :
    sortedEntries entries = entries.map (Prod.map sorted sorted) := by
  induction entries with
  | nil => rfl
  | cons e entries ih => rw [sortedEntries, ih]; rfl

theorem seenAll_eq_map (entries : List (Value ν)) :
    seenAll entries = entries.map (seen .value) := by
  induction entries with
  | nil => rfl
  | cons e entries ih => rw [seenAll, ih]; rfl

/-- An entry of a map, as an array. -/
def seenEntry (entry : Value ν × Value ν) : Value ν :=
  .array [seen .value entry.1, seen .value entry.2]

theorem seenEntries_eq_map (entries : List (Value ν × Value ν)) :
    seenEntries entries = entries.map seenEntry := by
  induction entries with
  | nil => rfl
  | cons e entries ih => rw [seenEntries, ih]; rfl

def seenField (scope : Scope) (field : JsString × Value ν) : Option (JsString × Value ν) :=
  (seenWriter scope field.1).map fun writer => (field.1, seen writer field.2)

theorem seenField_key {scope : Scope} {f f' : JsString × Value ν}
    (h : seenField scope f = some f') :
    f'.1 = f.1 := by
  obtain ⟨writer, -, rfl⟩ := Option.map_eq_some_iff.1 h
  rfl

theorem seenFields_eq_filterMap (scope : Scope) (fields : List (JsString × Value ν)) :
    seenFields scope fields = fields.filterMap (seenField scope) := by
  induction fields with
  | nil => rfl
  | cons f fields ih =>
    rw [seenFields, ih]
    cases hw : seenWriter scope f.1 with
    | none =>
      have hf : seenField scope f = none := by rw [seenField, hw]; rfl
      rw [List.filterMap_cons_none hf]
    | some writer =>
      have hf : seenField scope f = some (f.1, seen writer f.2) := by rw [seenField, hw]; rfl
      rw [List.filterMap_cons_some hf]

theorem seenFields_sortByKey (scope : Scope) (fields : List (JsString × Value ν)) :
    seenFields scope (sortByKey fields) = sortByKey (seenFields scope fields) := by
  rw [seenFields_eq_filterMap, seenFields_eq_filterMap,
    sortByKey_filterMap _ fun _ _ => seenField_key]

/-! ## Values that agree are seen alike -/

theorem textField_sorted (own : List (JsString × Value ν)) (key : JsString) :
    textField (sortByKey (sortedFields own)) key = textField own key := by
  have hlookup : (sortedFields own).lookup key = (own.lookup key).map sorted := by
    induction own with
    | nil => rfl
    | cons f own ih =>
      rw [sortedFields, List.lookup_cons, List.lookup_cons, ih]
      cases key == f.1 <;> rfl
  rw [textField, textField, lookup_sortByKey, hlookup]
  cases own.lookup key with
  | none => rfl
  | some v => cases v <;> rfl

theorem scopeOf_sorted (own : List (JsString × Value ν)) :
    scopeOf (sortByKey (sortedFields own)) = scopeOf own := by
  rw [scopeOf, scopeOf, textField_sorted]

/-- The fields of an object may be put in order before they are looked at. -/
private theorem seenFields_sorted {own : List (JsString × Value ν)}
    (ih : ∀ f ∈ own, ∀ writer, sorted (seen writer (sorted f.2)) = sorted (seen writer f.2))
    (scope : Scope) : sortByKey (sortedFields (seenFields scope (sortByKey (sortedFields own)))) =
      sortByKey (sortedFields (seenFields scope own)) := by
  have hfields : sortedFields (seenFields scope (sortedFields own)) =
      sortedFields (seenFields scope own) := by
    induction own with
    | nil => rfl
    | cons f own ihown =>
      have hf := ih f List.mem_cons_self
      have hrest := ihown fun g hg => ih g (List.mem_cons_of_mem f hg)
      rw [sortedFields, seenFields, seenFields]
      cases seenWriter scope f.1 with
      | none => exact hrest
      | some writer =>
        show (f.1, sorted (seen writer (sorted f.2))) :: _ = (f.1, sorted (seen writer f.2)) :: _
        rw [hf writer, hrest]
  rw [seenFields_sortByKey, sortedFields_sortByKey, sortByKey_sortByKey, hfields]

private theorem seenAll_sorted {entries : List (Value ν)}
    (ih : ∀ e ∈ entries, ∀ writer, sorted (seen writer (sorted e)) = sorted (seen writer e)) :
    sortedAll (seenAll (sortedAll entries)) = sortedAll (seenAll entries) := by
  simp only [sortedAll_eq_map, seenAll_eq_map, List.map_map]
  exact List.map_congr_left fun e he => ih e he .value

private theorem seenEntries_sorted {entries : List (Value ν × Value ν)}
    (ih : ∀ e ∈ entries, (∀ writer, sorted (seen writer (sorted e.1)) = sorted (seen writer e.1)) ∧
      ∀ writer, sorted (seen writer (sorted e.2)) = sorted (seen writer e.2)) :
    sortedAll (seenEntries (sortedEntries entries)) = sortedAll (seenEntries entries) := by
  simp only [sortedAll_eq_map, sortedEntries_eq_map, seenEntries_eq_map, List.map_map]
  refine List.map_congr_left fun e he => ?_
  obtain ⟨hkey, hvalue⟩ := ih e he
  simp only [Function.comp_apply, seenEntry, Prod.map_fst, Prod.map_snd, sorted, sortedAll,
    hkey .value, hvalue .value]

/-- What is seen of a value does not depend on the order of the fields in it. -/
theorem sorted_seen_sorted (v : Value ν) :
    ∀ writer, sorted (seen writer (sorted v)) = sorted (seen writer v) := by
  induction v using Value.ind with
  | number n => intro writer; cases writer <;> rfl
  | plain a => intro writer; cases writer <;> rfl
  | text s => intro writer; cases writer <;> rfl
  | callable => intro writer; cases writer <;> rfl
  | array entries ih =>
    intro writer
    cases writer with
    | value => simp only [sorted, seen, seenAll_sorted ih]
    | branches => simp only [sorted, seen, seenAll_sorted ih]
    | branch =>
      -- a branch with an input, and one without
      rcases entries with _ | ⟨head, _ | ⟨input, rest⟩⟩
      · rfl
      · rfl
      · have hinput := ih input (by simp) .value
        simp only [sorted, sortedAll, seen, sortedFields, hinput, sortedAll_eq_map, List.length_map]
  | object hidden own ih =>
    intro writer
    cases writer <;>
      simp only [sorted, seen, scopeOf_sorted, seenFields_sorted ih]
  | date time own ih =>
    intro writer
    cases writer <;> cases time <;> simp only [sorted, seen, seenFields_sorted ih]
  | error name message own ih =>
    intro writer
    cases writer <;> simp only [sorted, seen, seenFields_sorted ih]
  | map entries own ihentries ih =>
    intro writer
    cases writer <;>
      simp only [sorted, seen, seenFields_sorted ih, sortedFields, seenEntries_sorted ihentries]
  | set entries own ihentries ih =>
    intro writer
    cases writer <;>
      simp only [sorted, seen, seenFields_sorted ih, sortedFields, seenAll_sorted ihentries]
  | binary view bytes own ih =>
    intro writer
    cases writer <;> simp only [sorted, seen, seenFields_sorted ih]

theorem lookAlike_of_sameFields {a b : Operation ν} (h : SameFields a b) : LookAlike a b := by
  show sorted (seen .value (semanticFields a)) = sorted (seen .value (semanticFields b))
  rw [← sorted_seen_sorted (semanticFields a), ← sorted_seen_sorted (semanticFields b)]
  exact congrArg (fun v => sorted (seen .value v)) h

end Weft.Signature

/-! A codec that numbers values, with as many bytes for a digest as the number says: no two values
have one number, and no two numbers have one digest. -/

namespace Weft.Signature
open Weft.Js Weft.Lib

variable {ν β : Type}

/-- Neither the codec nor SHA-256 confuses two inputs. -/
structure Codec.Injective (codec : Codec ν β) : Prop where
  encode_inj : ∀ v w bytes, codec.encode v = some bytes → codec.encode w = some bytes → v = w
  digest_inj : Function.Injective codec.digest

mutual

def number : Value Nat → Nat
  | .number n => Nat.pair 0 (Encodable.encode n)
  | .plain a => Nat.pair 10 a
  | .text s => Nat.pair 1 (Encodable.encode s)
  | .callable => Nat.pair 2 0
  | .array entries => Nat.pair 3 (Encodable.encode (numberAll entries))
  | .object hidden own => Nat.pair 4 (Encodable.encode (hidden, numberFields own))
  | .date time own => Nat.pair 5 (Encodable.encode (time.map JsDate.time, numberFields own))
  | .error name message own =>
    Nat.pair 6 (Encodable.encode (name, message, numberFields own))
  | .map entries own => Nat.pair 7 (Encodable.encode (numberEntries entries, numberFields own))
  | .set entries own => Nat.pair 8 (Encodable.encode (numberAll entries, numberFields own))
  | .binary view bytes own => Nat.pair 9 (Encodable.encode (view, bytes, numberFields own))

def numberAll : List (Value Nat) → List Nat
  | [] => []
  | entry :: rest => number entry :: numberAll rest

def numberEntries : List (Value Nat × Value Nat) → List (Nat × Nat)
  | [] => []
  | (key, value) :: rest => (number key, number value) :: numberEntries rest

def numberFields : List (JsString × Value Nat) → List (JsString × Nat)
  | [] => []
  | (key, value) :: rest => (key, number value) :: numberFields rest

end

private theorem numberAll_inj {entries entries' : List (Value Nat)}
    (ih : ∀ e ∈ entries, ∀ w, number e = number w → e = w)
    (h : numberAll entries = numberAll entries') : entries = entries' := by
  have heq : ∀ es, numberAll es = es.map number := by
    intro es
    induction es with
    | nil => rfl
    | cons e es ih => rw [numberAll, ih]; rfl
  rw [heq, heq] at h
  exact eq_of_map_eq (fun e he w _ => ih e he w) h

private theorem numberEntries_inj {entries entries' : List (Value Nat × Value Nat)}
    (ih : ∀ e ∈ entries, (∀ w, number e.1 = number w → e.1 = w) ∧
      ∀ w, number e.2 = number w → e.2 = w)
    (h : numberEntries entries = numberEntries entries') : entries = entries' := by
  have heq : ∀ es, numberEntries es = es.map (Prod.map number number) := by
    intro es
    induction es with
    | nil => rfl
    | cons e es ih => rw [numberEntries, ih]; rfl
  rw [heq, heq] at h
  refine eq_of_map_eq (fun e he w _ hew => ?_) h
  obtain ⟨hkey, hvalue⟩ := Prod.mk.inj hew
  exact Prod.ext ((ih e he).1 w.1 hkey) ((ih e he).2 w.2 hvalue)

private theorem numberFields_inj {own own' : List (JsString × Value Nat)}
    (ih : ∀ f ∈ own, ∀ w, number f.2 = number w → f.2 = w)
    (h : numberFields own = numberFields own') : own = own' := by
  have heq : ∀ fs, numberFields fs = fs.map (Prod.map id number) := by
    intro fs
    induction fs with
    | nil => rfl
    | cons f fs ih => rw [numberFields, ih]; rfl
  rw [heq, heq] at h
  refine eq_of_map_eq (fun f hf w _ hfw => ?_) h
  obtain ⟨hkey, hvalue⟩ := Prod.mk.inj hfw
  exact Prod.ext hkey (ih f hf w.2 hvalue)

private theorem time_inj {time time' : Option JsDate}
    (h : time.map JsDate.time = time'.map JsDate.time) : time = time' := by
  refine Option.map_injective (fun d d' hd => ?_) h
  cases d
  cases d'
  simpa using hd

theorem number_injective : Function.Injective number := by
  intro v
  induction v using Value.ind with
  | number n =>
    intro w h
    cases w <;> simp [number] at h ⊢
    exact h
  | plain a =>
    intro w h
    cases w <;> simp [number] at h ⊢
    exact h
  | text s =>
    intro w h
    cases w <;> simp [number] at h ⊢
    exact h
  | callable => intro w h; cases w <;> simp [number] at h ⊢
  | array entries ih =>
    intro w h
    cases w <;> simp [number] at h ⊢
    exact numberAll_inj ih h
  | object hidden own ih =>
    intro w h
    cases w <;> simp [number] at h ⊢
    exact ⟨h.1, numberFields_inj ih h.2⟩
  | date time own ih =>
    intro w h
    cases w <;> simp [number] at h ⊢
    exact ⟨time_inj h.1, numberFields_inj ih h.2⟩
  | error name message own ih =>
    intro w h
    cases w <;> simp [number] at h ⊢
    exact ⟨h.1, h.2.1, numberFields_inj ih h.2.2⟩
  | map entries own ihentries ih =>
    intro w h
    cases w <;> simp [number] at h ⊢
    exact ⟨numberEntries_inj ihentries h.1, numberFields_inj ih h.2⟩
  | set entries own ihentries ih =>
    intro w h
    cases w <;> simp [number] at h ⊢
    exact ⟨numberAll_inj ihentries h.1, numberFields_inj ih h.2⟩
  | binary view bytes own ih =>
    intro w h
    cases w <;> simp [number] at h ⊢
    exact ⟨h.1, h.2.1, numberFields_inj ih h.2.2⟩

def numberCodec : Codec Nat Nat where
  encode v := some (number v)
  byteLength _ := 0
  digest n := List.replicate n 0

theorem numberCodec_injective : numberCodec.Injective where
  encode_inj v w bytes hv hw := number_injective (Option.some.inj (hv.trans hw.symm))
  digest_inj n m h := by
    have hlength := congrArg List.length h
    simpa [numberCodec] using hlength

end Weft.Signature
