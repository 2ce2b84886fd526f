import Weft.Attributes.Value
import Weft.Lib.KeySort

/-! Replay signatures of worker operations: the stable fields of an operation, and their digest. -/

namespace Weft.Signature
open Weft.Js Weft.Lib Weft.Attributes

abbrev Byte := Fin 256

/-- A JavaScript value without cycles. `own` are the enumerable fields of an object, and `hidden`
stands for what no field shows: a prototype, internal slots, symbols. -/
inductive Value (ν : Type) where
  | number (n : Int)
  | plain (a : ν)
  | text (s : JsString)
  | callable
  | array (entries : List (Value ν))
  | object (hidden : Option ν) (own : List (JsString × Value ν))
  | date (time : Option JsDate) (own : List (JsString × Value ν))
  | error (name message : JsString) (own : List (JsString × Value ν))
  | map (entries : List (Value ν × Value ν)) (own : List (JsString × Value ν))
  | set (entries : List (Value ν)) (own : List (JsString × Value ν))
  | binary (view : JsString) (bytes : List Byte) (own : List (JsString × Value ν))

variable {ν β : Type}

abbrev Operation (ν : Type) := List (JsString × Value ν)

def BINARY_MARKER : JsString := js "__weftBinaryBytes"

def DATE_MARKER : JsString := js "__weftDate"

def ERROR_MARKER : JsString := js "__weftError"

def MAP_MARKER : JsString := js "__weftMap"

def SET_MARKER : JsString := js "__weftSet"

def WORKER_SIGNATURE_EXCLUDED_FIELDS : List JsString :=
  [js "attempt", js "callerStack", js "execute", js "fn", js "id", js "operationId",
    js "resumedCacheEntry", js "scheduledFireAt", js "scheduledAt", js "workflowId"]

def WORKER_SIGNATURE_OPERATION_TYPES : List JsString :=
  [js "activity", js "archive", js "child-workflow", js "get-version", js "load", js "memo",
    js "offload", js "parallel", js "race", js "run-all", js "signal-wait", js "sleep",
    js "speculate", js "state-commit", js "state-read", js "stream", js "timer", js "wait-review",
    js "wait-signal", js "wait-update"]

def WORKER_REPLAY_SIGNATURE_FORMAT : JsString := js "weft-worker-operation-signature-v1"

def byteHex (byte : Byte) : JsString := padStart (hexUnits byte.val) 2 (digitUnit 0)

def bytesToHex (bytes : List Byte) : JsString := bytes.flatMap byteHex

/-! ## Stable fields -/

/-- The text in a field. -/
def textField (fields : List (JsString × Value ν)) (key : JsString) : Option JsString :=
  match fields.lookup key with
  | some (.text s) => some s
  | _ => none

/-- Which of `toSignatureValue`, `toStableRunAllBranches` and `toStableRunAllBranch` writes a
value. -/
inductive Writer where
  | value
  | branches
  | branch
deriving DecidableEq, Repr

/-- The object whose fields are written. -/
inductive Scope where
  | record
  | runAll
  | branches
deriving DecidableEq, Repr

def scopeOf (own : List (JsString × Value ν)) : Scope :=
  if textField own (js "type") = some (js "run-all") then .runAll else .record

/-- How a field is written, and `none` for one that is left out. -/
def writerOf (scope : Scope) (key : JsString) : Option Writer :=
  if scope = .branches then some .branch
  else if key ∈ WORKER_SIGNATURE_EXCLUDED_FIELDS then none
  else if scope = .runAll ∧ key = js "branches" then some .branches
  else some .value

/-- `stable[key] = value`: an assignment to `__proto__` makes no field. -/
def assign (key : JsString) (value : Value ν) (stable : List (JsString × Value ν)) :
    List (JsString × Value ν) :=
  if key = js "__proto__" then stable else (key, value) :: stable

mutual

/-- `none` is a throw. The source takes the fields of an object in the order of their keys; here
they are put in that order when all of them are written. -/
def write : Writer → Value ν → Option (Value ν)
  | _, .number n => some (.number n)
  | _, .plain a => some (.plain a)
  | _, .text s => some (.text s)
  | _, .callable => none
  | .branch, .array (_ :: input :: rest) =>
    (write .value input).map fun stable =>
      .object none [(js "arity", .number (rest.length + 2)), (js "input", stable)]
  | .branch, .array entries => some (.object none [(js "arity", .number entries.length)])
  | _, .array entries => (writeAll entries).map .array
  | .branches, .object _ own => (writeFields .branches own).map fun fields =>
      .object none (sortByKey fields)
  | _, .object _ own => (writeFields (scopeOf own) own).map fun fields =>
      .object none (sortByKey fields)
  | .branches, .date _ own => (writeFields .branches own).map fun fields =>
      .object none (sortByKey fields)
  | _, .date time _ => time.map fun d => .object none [(DATE_MARKER, .text d.toISOString)]
  | .branches, .error _ _ own => (writeFields .branches own).map fun fields =>
      .object none (sortByKey fields)
  | _, .error name message _ =>
    some (.object none [(ERROR_MARKER,
      .object none [(js "name", .text name), (js "message", .text message)])])
  | .branches, .map _ own => (writeFields .branches own).map fun fields =>
      .object none (sortByKey fields)
  | _, .map entries _ => (writeEntries entries).map fun stable =>
      .object none [(MAP_MARKER, .array stable)]
  | .branches, .set _ own => (writeFields .branches own).map fun fields =>
      .object none (sortByKey fields)
  | _, .set entries _ => (writeAll entries).map fun stable =>
      .object none [(SET_MARKER, .array stable)]
  | .branches, .binary _ _ own => (writeFields .branches own).map fun fields =>
      .object none (sortByKey fields)
  | _, .binary _ bytes _ => some (.object none [(BINARY_MARKER, .text (bytesToHex bytes))])

def writeAll : List (Value ν) → Option (List (Value ν))
  | [] => some []
  | entry :: rest =>
    (write .value entry).bind fun stable => (writeAll rest).map fun stables => stable :: stables

def writeEntries : List (Value ν × Value ν) → Option (List (Value ν))
  | [] => some []
  | (key, value) :: rest =>
    (write .value key).bind fun stableKey => (write .value value).bind fun stableValue =>
      (writeEntries rest).map fun stables => .array [stableKey, stableValue] :: stables

def writeFields (scope : Scope) : List (JsString × Value ν) → Option (List (JsString × Value ν))
  | [] => some []
  | (key, value) :: rest =>
    match writerOf scope key with
    | none => writeFields scope rest
    | some writer =>
      (write writer value).bind fun stable => (writeFields scope rest).map (assign key stable)

end

def toSignatureValue (value : Value ν) : Option (Value ν) := write .value value

def toStableRunAllBranches (value : Value ν) : Option (Value ν) := write .branches value

def toStableRunAllBranch (branch : Value ν) : Option (Value ν) := write .branch branch

def toSortedStableRecord (record : List (JsString × Value ν)) :
    Option (List (JsString × Value ν)) :=
  (writeFields (scopeOf record) record).map sortByKey

/-! ## Signatures -/

/-- `encode`, the length of what it gives, and the SHA-256 of it. -/
structure Codec (ν β : Type) where
  encode : Value ν → Option β
  byteLength : β → Nat
  digest : β → List Byte

structure WorkerReplayOperationSignature where
  format : JsString
  operationType : JsString
  stableFieldsDigest : JsString
  stableFieldsByteLength : Nat
deriving DecidableEq

def workerOperationType (operation : Operation ν) : Option JsString :=
  (textField operation (js "type")).or (textField operation (js "kind"))

def stableWorkerOperationFields (operation : Operation ν) (operationType : JsString) :
    Option (List (JsString × Value ν)) :=
  if operationType ∈ WORKER_SIGNATURE_OPERATION_TYPES then toSortedStableRecord operation
  else none

def createWorkerReplayOperationSignature (codec : Codec ν β) (operation : Operation ν)
    (maxStableFieldsBytes : Nat) : Option WorkerReplayOperationSignature := do
  let operationType ← workerOperationType operation
  let stableFields ← stableWorkerOperationFields operation operationType
  let encodedStableFields ← codec.encode (.object none stableFields)
  if maxStableFieldsBytes < codec.byteLength encodedStableFields then none else
  return { format := WORKER_REPLAY_SIGNATURE_FORMAT
           operationType := operationType
           stableFieldsDigest := bytesToHex (codec.digest encodedStableFields)
           stableFieldsByteLength := codec.byteLength encodedStableFields }

def workerReplayOperationSignaturesEqual (left right : WorkerReplayOperationSignature) : Bool :=
  left.format = right.format && left.operationType = right.operationType &&
    left.stableFieldsDigest = right.stableFieldsDigest &&
    left.stableFieldsByteLength = right.stableFieldsByteLength

end Weft.Signature
