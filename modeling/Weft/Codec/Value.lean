import Weft.Js.Number
import Weft.Lib.Lists

/-! JavaScript values as trees, and when two of them have the same structure. -/

namespace Weft.Codec
open Weft.Js Weft.Lib

abbrev Byte := Fin 256

/-- A double. -/
inductive Number where
  | nan
  | infinity (negative : Bool)
  | negativeZero
  | finite (value : ℚ)
deriving DecidableEq

/-- Values that `===` compares by their contents; symbols and functions stand for themselves. -/
inductive Primitive where
  | null
  | undefined
  | boolean (value : Bool)
  | number (value : Number)
  | bigint (value : Int)
  | string (value : JsString)
  | symbol (id : Nat)
  | function (id : Nat)
deriving DecidableEq

inductive WeakKind where
  | weakRef
  | weakMap
  | weakSet
deriving DecidableEq

/-- A value without cycles. `own` are the enumerable fields of an object, in their order. The name
of an error may be one of its own fields or that of its class. -/
inductive Value where
  | primitive (p : Primitive)
  | undefinedSentinel
  | uint8Array (bytes : List Byte)
  | arrayBuffer (bytes : List Byte)
  | date (time : Number)
  | regExp (source flags : JsString)
  | error (ownName : Bool) (name message : JsString) (stack : Option JsString)
      (own : List (JsString × Value))
  | array (items : List Value)
  | record (own : List (JsString × Value))
  | classInstance (constructor : Nat) (hasMethods : Bool) (own : List (JsString × Value))
  | map (entries : List (Value × Value))
  | set (items : List Value)
  | weak (kind : WeakKind)

namespace Value

abbrev null : Value := .primitive .null

abbrev undefined : Value := .primitive .undefined

abbrev number (value : Number) : Value := .primitive (.number value)

abbrev string (value : JsString) : Value := .primitive (.string value)

/-- An induction over values, with what holds of every value inside. -/
theorem ind {P : Value → Prop} (primitive : ∀ p, P (.primitive p))
    (undefinedSentinel : P .undefinedSentinel) (uint8Array : ∀ bytes, P (.uint8Array bytes))
    (arrayBuffer : ∀ bytes, P (.arrayBuffer bytes)) (date : ∀ time, P (.date time))
    (regExp : ∀ source flags, P (.regExp source flags))
    (error : ∀ ownName name message stack own, (∀ f ∈ own, P f.2) →
      P (.error ownName name message stack own))
    (array : ∀ items, (∀ v ∈ items, P v) → P (.array items))
    (record : ∀ own, (∀ f ∈ own, P f.2) → P (.record own))
    (classInstance : ∀ constructor hasMethods own, (∀ f ∈ own, P f.2) →
      P (.classInstance constructor hasMethods own))
    (map : ∀ entries, (∀ e ∈ entries, P e.1 ∧ P e.2) → P (.map entries))
    (set : ∀ items, (∀ v ∈ items, P v) → P (.set items))
    (weak : ∀ kind, P (.weak kind)) (v : Value) : P v :=
  @Value.rec P (fun fs => ∀ f ∈ fs, P f.2) (fun vs => ∀ v ∈ vs, P v)
    (fun es => ∀ e ∈ es, P e.1 ∧ P e.2) (fun f => P f.2) (fun e => P e.1 ∧ P e.2)
    primitive undefinedSentinel uint8Array arrayBuffer date regExp error array record classInstance
    map set weak
    (List.forall_mem_nil _) (fun _ _ hf hfs => List.forall_mem_cons.2 ⟨hf, hfs⟩)
    (List.forall_mem_nil _) (fun _ _ hv hvs => List.forall_mem_cons.2 ⟨hv, hvs⟩)
    (List.forall_mem_nil _) (fun _ _ he hes => List.forall_mem_cons.2 ⟨he, hes⟩)
    (fun _ _ h => h) (fun _ _ h h' => ⟨h, h'⟩) v

end Value

/-! ## Keys of collections -/

/-- `-0` as a key is `0`. -/
def Primitive.settled : Primitive → Primitive
  | .number .negativeZero => .number (.finite 0)
  | p => p

def Value.settled : Value → Value
  | .primitive p => .primitive p.settled
  | v => v

/-- No two objects are the same one here: the objects of a collection are distinct, and those that
decoding makes are new. -/
def sameValueZero : Value → Value → Bool
  | .primitive p, .primitive q => p.settled = q.settled
  | _, _ => false

/-- `map.get(key)`, and `none` where `map.has(key)` is false. -/
def mapGet (entries : List (Value × Value)) (key : Value) : Option Value :=
  (entries.find? fun entry => sameValueZero entry.1 key).map Prod.snd

end Weft.Codec

/-! When two values have the same structure: one kind of value, with the same contents, at every
path. -/

namespace Weft.Codec
open Weft.Js Weft.Lib

/-- What a value is by itself, without its parts. -/
inductive Kind where
  | primitive (p : Primitive)
  | undefinedSentinel
  | uint8Array (bytes : List Byte)
  | arrayBuffer (bytes : List Byte)
  | date (time : Number)
  | regExp (source flags : JsString)
  | error (name message : JsString) (stack : Option JsString)
  | array
  | record
  | classInstance (constructor : Nat) (hasMethods : Bool)
  | map
  | set
  | weak (kind : WeakKind)
deriving DecidableEq

/-- One step of a path. An entry of a `Map` is found by its key where that is a primitive, and else
by its place. -/
inductive Label where
  | field (key : JsString)
  | index (i : Nat)
  | mapKey (key : Primitive)
  | entryKey (i : Nat)
  | entryValue (i : Nat)
deriving DecidableEq

namespace Value

def kind : Value → Kind
  | .primitive p => .primitive p
  | .undefinedSentinel => .undefinedSentinel
  | .uint8Array bytes => .uint8Array bytes
  | .arrayBuffer bytes => .arrayBuffer bytes
  | .date time => .date time
  | .regExp source flags => .regExp source flags
  | .error _ name message stack _ => .error name message stack
  | .array _ => .array
  | .record _ => .record
  | .classInstance constructor hasMethods _ => .classInstance constructor hasMethods
  | .map _ => .map
  | .set _ => .set
  | .weak kind => .weak kind

def asPrimitive : Value → Option Primitive
  | .primitive p => some p
  | _ => none

def child : Value → Label → Option Value
  | .error _ _ _ _ own, .field key => if key = js "name" then none else own.lookup key
  | .record own, .field key => own.lookup key
  | .classInstance _ _ own, .field key => own.lookup key
  | .array items, .index i => items[i]?
  | .set items, .index i => items[i]?
  | .map entries, .mapKey key => mapGet entries (.primitive key)
  | .map entries, .entryKey i =>
    (entries[i]?.filter fun entry => entry.1.asPrimitive = none).map Prod.fst
  | .map entries, .entryValue i =>
    (entries[i]?.filter fun entry => entry.1.asPrimitive = none).map Prod.snd
  | _, _ => none

def at? : Value → List Label → Option Value
  | v, [] => some v
  | v, label :: path => (v.child label).bind fun part => at? part path

/-- One kind of value with the same contents at every path. -/
def SameStructure (v w : Value) : Prop :=
  ∀ path, (v.at? path).map kind = (w.at? path).map kind

end Value

end Weft.Codec
