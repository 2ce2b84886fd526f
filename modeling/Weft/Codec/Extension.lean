import Weft.Codec.Value
import Weft.Lib.Lists
import Weft.Lib.Except

/-! The checkpoint codec. Values that MessagePack has no word for are written as extensions whose
payload is a document of its own, and `undefined` is replaced by a sentinel first. The bytes of a
document are left out: a `Packed` is what they say. -/

namespace Weft.Codec
open Weft.Js Weft.Lib

/-! ## Collections -/

/-- `new Map(entries)`. -/
def newMap (entries : List (Value × Value)) : Value :=
  .map (collect (fun old new => sameValueZero old.1 new.1) (fun old new => (old.1, new.2))
    (entries.map fun entry => (entry.1.settled, entry.2)))

/-- `new Set(items)`. -/
def newSet (items : List Value) : Value :=
  .set (collect sameValueZero (fun old _ => old) (items.map Value.settled))

/-- The own fields that the assignments `result[key] = value` make, in their order. An assignment
to `__proto__` makes none. -/
def assigned (fields : List (JsString × Value)) : List (JsString × Value) :=
  collect (fun old new => old.1 = new.1) (fun old new => (old.1, new.2))
    (fields.filter fun field => field.1 ≠ js "__proto__")

/-! ## Replacing `undefined` -/

mutual

def containsUndefined : Value → Bool
  | .primitive p => p = .undefined
  | .array items => itemsContainUndefined items
  | .map entries => entriesContainUndefined entries
  | .set items => itemsContainUndefined items
  | .record own => recordContainsUndefined own
  | .classInstance _ _ own => recordContainsUndefined own
  | _ => false

def itemsContainUndefined : List Value → Bool
  | [] => false
  | item :: rest => containsUndefined item || itemsContainUndefined rest

def entriesContainUndefined : List (Value × Value) → Bool
  | [] => false
  | (key, value) :: rest =>
    containsUndefined key || containsUndefined value || entriesContainUndefined rest

def recordContainsUndefined : List (JsString × Value) → Bool
  | [] => false
  | (_, value) :: rest => containsUndefined value || recordContainsUndefined rest

end

mutual

def replaceUndefinedDeep : Value → Value
  | .primitive p => if p = .undefined then .undefinedSentinel else .primitive p
  | .array items => .array (replaceItemsUndefined items)
  | .map entries => newMap (replaceEntriesUndefined entries)
  | .set items => newSet (replaceItemsUndefined items)
  | .record own => .record (assigned (replaceFieldsUndefined own))
  | .classInstance _ _ own => .record (assigned (replaceFieldsUndefined own))
  | .weak _ => .record []
  | v => v

def replaceItemsUndefined : List Value → List Value
  | [] => []
  | item :: rest => replaceUndefinedDeep item :: replaceItemsUndefined rest

def replaceEntriesUndefined : List (Value × Value) → List (Value × Value)
  | [] => []
  | (key, value) :: rest =>
    (replaceUndefinedDeep key, replaceUndefinedDeep value) :: replaceEntriesUndefined rest

def replaceFieldsUndefined : List (JsString × Value) → List (JsString × Value)
  | [] => []
  | (key, value) :: rest => (key, replaceUndefinedDeep value) :: replaceFieldsUndefined rest

end

def replaceUndefined (value : Value) : Value :=
  if containsUndefined value then replaceUndefinedDeep value else value

/-! ## Documents -/

/-- A MessagePack document. The extension types are the library's timestamp and those that the codec
registers; a date is eight bytes, and every other payload is a document. -/
inductive Packed where
  | nil
  | boolean (value : Bool)
  | number (value : Number)
  | string (value : JsString)
  | binary (bytes : List Byte)
  | array (items : List Packed)
  | map (fields : List (JsString × Packed))
  | timestamp (milliseconds : Number)
  | dateExtension (milliseconds : Number)
  | regExpExtension (payload : Packed)
  | mapExtension (payload : Packed)
  | setExtension (payload : Packed)
  | undefinedExtension
  | errorExtension (payload : Packed)

inductive CodecError where
  | tooDeep (depth : Nat)
  | unrecognizedObject
  | protoKey
  | regExpExtensionDecode (source flags : JsString) (sourceByteLength : Nat)
deriving DecidableEq

/-- What the engine adds to the codec. -/
structure JsEngine where
  /-- `new RegExp(source, flags)` does not throw. -/
  acceptsRegExp : JsString → JsString → Bool
  /-- The `stack` of `new Error(message)`. -/
  stackOf : JsString → JsString

/-! ## Encoding -/

/-- The depth to which `msgpackEncode` nests arrays and records by default. -/
def maxDepth : Nat := 100

def optionalText : Option JsString → Packed
  | none => .nil
  | some text => .string text

/-- An integer is written without its sign where it is zero. -/
def numberWord : Number → Number
  | .negativeZero => .finite 0
  | x => x

/-- The time of the library's timestamp: seconds and nanoseconds that are no numbers become
zeros. -/
def timestampTime : Number → Number
  | .nan => .finite 0
  | x => x

mutual

/-- `msgpackEncode` with the extension codec. The library asks its own timestamp extension first, so
that the codec's extension for dates never gets one. The payload of an extension is encoded from
depth 1 again. -/
def pack (depth : Nat) (value : Value) : Except CodecError Packed :=
  if maxDepth < depth then .error (.tooDeep depth)
  else match value with
    | .primitive .null => .ok .nil
    | .primitive .undefined => .ok .nil
    | .primitive (.boolean b) => .ok (.boolean b)
    | .primitive (.number x) => .ok (.number (numberWord x))
    | .primitive (.string s) => .ok (.string s)
    | .primitive (.bigint _) => .error .unrecognizedObject
    | .primitive (.symbol _) => .error .unrecognizedObject
    | .primitive (.function _) => .error .unrecognizedObject
    | .undefinedSentinel => .ok .undefinedExtension
    | .date time => .ok (.timestamp (timestampTime time))
    | .regExp source flags =>
      .ok (.regExpExtension (.map [(js "source", .string source), (js "flags", .string flags)]))
    | .map entries => (packEntries entries).map fun pairs => .mapExtension (.array pairs)
    | .set items => (packItems 2 items).map fun packed => .setExtension (.array packed)
    | .error _ name message stack _ =>
      .ok (.errorExtension (.map [(js "name", .string name), (js "message", .string message),
        (js "stack", optionalText stack)]))
    | .array items => (packItems (depth + 1) items).map .array
    | .uint8Array bytes => .ok (.binary bytes)
    | .record own => (packFields (depth + 1) own).map .map
    | .classInstance _ _ own => (packFields (depth + 1) own).map .map
    | .arrayBuffer _ => .ok (.map [])
    | .weak _ => .ok (.map [])

def packItems (depth : Nat) : List Value → Except CodecError (List Packed)
  | [] => .ok []
  | item :: rest => do
    let packed ← pack depth item
    return packed :: (← packItems depth rest)

/-- The pairs stand at depth 2 of the payload. -/
def packEntries : List (Value × Value) → Except CodecError (List Packed)
  | [] => .ok []
  | (key, value) :: rest => do
    let packedKey ← pack 3 key
    let packedValue ← pack 3 value
    return .array [packedKey, packedValue] :: (← packEntries rest)

def packFields (depth : Nat) :
    List (JsString × Value) → Except CodecError (List (JsString × Packed))
  | [] => .ok []
  | (key, value) :: rest => do
    let packed ← pack depth value
    return (key, packed) :: (← packFields depth rest)

end

def encode (value : Value) : Except CodecError Packed := pack 1 (replaceUndefined value)

/-! ## Decoding -/

def REGEXP_SOURCE_MAX_BYTES : Nat := 65535

def unitLength (u : CodeUnit) : Nat := if u.val < 0x80 then 1 else if u.val < 0x800 then 2 else 3

def isPair (u l : CodeUnit) : Bool :=
  0xD800 ≤ u.val && u.val < 0xDC00 && 0xDC00 ≤ l.val && l.val < 0xE000

/-- `new TextEncoder().encode(text).byteLength`; a lone surrogate becomes a replacement
character. -/
def utf8Length : JsString → Nat
  | [] => 0
  | [u] => unitLength u
  | u :: l :: rest =>
    if isPair u l then 4 + utf8Length rest else unitLength u + utf8Length (l :: rest)

/-- `new Date(milliseconds)`: a time outside the range of dates is no time. -/
def timeClip : Number → Number
  | .finite q =>
    if |q| ≤ 8640000000000000 then .finite (if 0 ≤ q then (⌊q⌋ : ℚ) else (⌈q⌉ : ℚ)) else .nan
  | .negativeZero => .finite 0
  | _ => .nan

def decodeCodecDate (milliseconds : Number) : Value := .date (timeClip milliseconds)

/-- A text among the fields of a payload. -/
def payloadText (payload : Packed) (key : JsString) : Option JsString :=
  match payload with
  | .map fields =>
    match fields.lookup key with
    | some (.string text) => some text
    | _ => none
  | _ => none

variable (engine : JsEngine)

def decodeRegExpExtension (source flags : JsString) : Except CodecError Value :=
  if utf8Length source > REGEXP_SOURCE_MAX_BYTES ∨ engine.acceptsRegExp source flags = false then
    .error (.regExpExtensionDecode source flags (utf8Length source))
  else .ok (.regExp source flags)

def coerceCodecArray : Value → List Value
  | .array items => items
  | _ => []

def pairOf (entry : Value) : Value × Value :=
  let pair := coerceCodecArray entry
  (pair[0]?.getD .undefined, pair[1]?.getD .undefined)

mutual

/-- `msgpackDecode` with the extension codec; it refuses the key `__proto__`. -/
def decode : Packed → Except CodecError Value
  | .nil => .ok .null
  | .boolean b => .ok (.primitive (.boolean b))
  | .number x => .ok (.number x)
  | .string s => .ok (.string s)
  | .binary bytes => .ok (.uint8Array bytes)
  | .array items => (decodeItems items).map .array
  | .map fields => (decodeFields fields).map fun own => .record (assigned own)
  | .timestamp milliseconds => .ok (.date (timeClip milliseconds))
  | .dateExtension milliseconds => .ok (decodeCodecDate milliseconds)
  | .regExpExtension payload =>
    decodeRegExpExtension engine ((payloadText payload (js "source")).getD [])
      ((payloadText payload (js "flags")).getD [])
  | .mapExtension payload =>
    (decode payload).map fun entries => newMap ((coerceCodecArray entries).map pairOf)
  | .setExtension payload => (decode payload).map fun items => newSet (coerceCodecArray items)
  | .undefinedExtension => .ok .undefined
  | .errorExtension payload =>
    let message := (payloadText payload (js "message")).getD []
    .ok (.error true ((payloadText payload (js "name")).getD (js "Error")) message
      (some ((payloadText payload (js "stack")).getD (engine.stackOf message))) [])

def decodeItems : List Packed → Except CodecError (List Value)
  | [] => .ok []
  | item :: rest => do
    let value ← decode item
    return value :: (← decodeItems rest)

def decodeFields : List (JsString × Packed) → Except CodecError (List (JsString × Value))
  | [] => .ok []
  | (key, item) :: rest =>
    if key = js "__proto__" then .error .protoKey
    else do
      let value ← decode item
      return (key, value) :: (← decodeFields rest)

end

end Weft.Codec
