import Weft.Lib.Lists
import Weft.Storage.Interface

/-! The range operations of the adapters: the memory store, the LMDB store, and the interval of
a bounded range delete. Each of them stands for the keys that start with a prefix and are let
through by the bounds. -/

namespace Weft.Storage
open Weft.Lib Weft.Js

universe u

variable {V : Type u}

/-! ## Bounded range deletes -/

/-- A `limit` that is no integer is refused as a negative one is. -/
structure DeleteRangeOptions where
  gt : Option JsString := none
  gte : Option JsString := none
  lt : Option JsString := none
  lte : Option JsString := none
  limit : Option Int := none
deriving DecidableEq, Repr

structure NormalizedDeleteRangeOptions where
  gt : Option JsString
  gte : Option JsString
  lt : Option JsString
  lte : Option JsString
  limit : Option Nat
  bounded : gt.isSome ∨ gte.isSome ∨ lt.isSome ∨ lte.isSome
deriving DecidableEq

def normalizeDeleteRangeOptions (options : DeleteRangeOptions) :
    Except JsString NormalizedDeleteRangeOptions :=
  if hasBound : options.gt.isSome ∨ options.gte.isSome ∨ options.lt.isSome ∨
      options.lte.isSome then
    if options.limit.any (· < 0) then
      .error (js "deleteRange limit must be a finite non-negative integer")
    else
      .ok { gt := options.gt, gte := options.gte, lt := options.lt, lte := options.lte
            limit := options.limit.map Int.toNat, bounded := hasBound }
  else
    .error (js "deleteRange requires at least one of gt/gte/lt/lte; use deletePrefix to delete a whole prefix")

def NormalizedDeleteRangeOptions.toScanOptions (options : NormalizedDeleteRangeOptions) :
    ScanOptions where
  gt := options.gt
  gte := options.gte
  lt := options.lt
  lte := options.lte
  limit := options.limit

/-- One side of a range. -/
structure DeleteRangeBound where
  key : JsString
  isOpen : Bool
deriving DecidableEq, Repr

def resolveLowerBound (pre : JsString) (options : NormalizedDeleteRangeOptions) :
    DeleteRangeBound :=
  let bound : DeleteRangeBound := { key := pre, isOpen := false }
  let bound := options.gte.elim bound fun gte =>
    if gte > bound.key then { key := gte, isOpen := false } else bound
  options.gt.elim bound fun gt =>
    if gt ≥ bound.key then { key := gt, isOpen := true } else bound

def resolveUpperBound (pre : JsString) (options : NormalizedDeleteRangeOptions) :
    DeleteRangeBound :=
  let bound : DeleteRangeBound := { key := resolvePrefixRangeEnd pre, isOpen := true }
  let bound := options.lt.elim bound fun lt =>
    if lt ≤ bound.key then { key := lt, isOpen := true } else bound
  options.lte.elim bound fun lte =>
    if lte < bound.key then { key := lte, isOpen := false } else bound

def resolveDeleteRangeBounds (pre : JsString) (options : NormalizedDeleteRangeOptions) :
    Option (DeleteRangeBound × DeleteRangeBound) :=
  let lower := resolveLowerBound pre options
  let upper := resolveUpperBound pre options
  if lower.key > upper.key ∨ lower.key = upper.key ∧ (lower.isOpen ∨ upper.isOpen) then none
  else some (lower, upper)

def DeleteRangeBound.Below (b : DeleteRangeBound) (k : JsString) : Prop :=
  if b.isOpen then b.key < k else b.key ≤ k

def DeleteRangeBound.Above (b : DeleteRangeBound) (k : JsString) : Prop :=
  if b.isOpen then k < b.key else k ≤ b.key

/-- The keys of an interval; an impossible one has none. -/
def InRange (bounds : Option (DeleteRangeBound × DeleteRangeBound)) (k : JsString) : Prop :=
  ∃ b, bounds = some b ∧ b.1.Below k ∧ b.2.Above k

/-! ## The memory store -/

/-- The entries without some keys. -/
def deleteKeys (s : Store V) (keys : List JsString) : Store V := keys.foldl OrderedStore.delete s

namespace MemoryStorage

def matchesPrefix (key pre prefixEnd : JsString) : Bool := key ≥ pre ∧ key < prefixEnd

/-- The keys of the store come in ascending order. -/
def collectSortedKeys (s : Store V) (pre prefixEnd : JsString) : List JsString :=
  (s.range fun key => matchesPrefix key pre prefixEnd).map Prod.fst

/-- The loop over the keys, which counts up to the limit. -/
def limited (limit : Option Nat) : List JsString → Nat → List JsString
  | [], _ => []
  | key :: keys, count =>
    if limit.any (count ≥ ·) then [] else key :: limited limit keys (count + 1)

def keys (s : Store V) (pre : JsString) (options : ScanOptions) : List JsString :=
  let keys := (collectSortedKeys s pre (resolvePrefixRangeEnd pre)).filter
    (matchesScanOptions · options)
  limited options.limit (if options.reverse then keys.reverse else keys) 0

def scan (s : Store V) (pre : JsString) (options : ScanOptions) : List (JsString × V) :=
  (keys s pre options).filterMap fun key => (s.get key).map (key, ·)

def count (s : Store V) (pre : JsString) : Nat :=
  (collectSortedKeys s pre (resolvePrefixRangeEnd pre)).length

def deletePrefix (s : Store V) (pre : JsString) : Nat × Store V :=
  let keys := collectSortedKeys s pre (resolvePrefixRangeEnd pre)
  (keys.length, deleteKeys s keys)

def deleteRange (s : Store V) (pre : JsString) (options : DeleteRangeOptions) :
    Except JsString (Nat × Store V) :=
  (normalizeDeleteRangeOptions options).map fun normalized =>
    let keys := (collectSortedKeys s pre (resolvePrefixRangeEnd pre)).filter
      (matchesScanOptions · normalized.toScanOptions)
    let bounded := normalized.limit.elim keys keys.take
    (bounded.length, deleteKeys s bounded)

end MemoryStorage

/-! ## The LMDB store -/

namespace LMDBStorage

/-- The order in which a database has its keys: that of their encoded bytes, which need not be
that of the code units. -/
structure KeyOrder where
  before : JsString → JsString → Bool
  irrefl : ∀ k, before k k = false
  trans : ∀ i j k, before i j = true → before j k = true → before i k = true
  total : ∀ j k, j ≠ k → before j k = true ∨ before k j = true

/-- Which of two keys an iteration comes to first. -/
def KeyOrder.ahead (order : KeyOrder) (reverse : Bool) (j k : JsString) : Bool :=
  if reverse then order.before k j else order.before j k

variable (order : KeyOrder)

def sortedRows (s : Store V) (reverse : Bool) : List (JsString × V) :=
  let rows := s.entries.insertionSort fun a b => order.before b.1 a.1 = false
  if reverse then rows.reverse else rows

/-- A range of the database has its start and not its end, in the order of the iteration. -/
def getRange (s : Store V) (startKey endKey : JsString) (reverse : Bool) : List (JsString × V) :=
  (sortedRows order s reverse).filter fun row =>
    !order.ahead reverse row.1 startKey && order.ahead reverse row.1 endKey

/-- The loop over the range. -/
def readRange (pre : JsString) (options : ScanOptions) :
    List (JsString × V) → Nat → Bool → List (JsString × V)
  | [], _, _ => []
  | (key, value) :: rows, count, enteredPrefix =>
    if ¬ pre <+: key then
      if options.reverse ∧ enteredPrefix = false then
        readRange pre options rows count enteredPrefix
      else []
    else if ¬ matchesScanOptions key options then readRange pre options rows count true
    else if options.limit.any (count ≥ ·) then []
    else (key, value) :: readRange pre options rows (count + 1) true

def scan (s : Store V) (pre : JsString) (options : ScanOptions) : List (JsString × V) :=
  let prefixEnd := resolvePrefixRangeEnd pre
  let range :=
    if options.reverse then getRange order s prefixEnd pre true
    else getRange order s pre prefixEnd false
  readRange pre options range 0 false

end LMDBStorage

/-! ## What is asked for -/

/-- The rows that start with the prefix and meet the bounds, up to the limit. -/
def selected (s : Store V) (pre : JsString) (o : ScanOptions) : List (JsString × V) :=
  let rows := s.range fun k => decide (pre <+: k) && matchesScanOptions k o
  let rows := if o.reverse then rows.reverse else rows
  o.limit.elim rows rows.take

def withoutRows (s : Store V) (rows : List (JsString × V)) : Store V :=
  s.filter fun k => k ∉ rows.map Prod.fst

def ScanOptions.toDeleteRange (o : ScanOptions) : DeleteRangeOptions where
  gt := o.gt
  gte := o.gte
  lt := o.lt
  lte := o.lte
  limit := o.limit.map Int.ofNat

/-- All of the adapters' operations select what is asked for. -/
structure RangesAgree (order : LMDBStorage.KeyOrder) (s : Store V) (pre : JsString)
    (o : ScanOptions) : Prop where
  scan : MemoryStorage.scan s pre o = selected s pre o
  keys : MemoryStorage.keys s pre o = (selected s pre o).map Prod.fst
  count : MemoryStorage.count s pre = (selected s pre {}).length
  deletePrefix : MemoryStorage.deletePrefix s pre =
    ((selected s pre {}).length, withoutRows s (selected s pre {}))
  deleteRange : ∀ normalized, normalizeDeleteRangeOptions o.toDeleteRange = .ok normalized →
    MemoryStorage.deleteRange s pre o.toDeleteRange =
      .ok ((selected s pre { o with reverse := false }).length,
        withoutRows s (selected s pre { o with reverse := false }))
  interval : ∀ normalized, normalizeDeleteRangeOptions o.toDeleteRange = .ok normalized →
    ∀ k, (s.get k).isSome = true → (InRange (resolveDeleteRangeBounds pre normalized) k ↔
      pre <+: k ∧ matchesScanOptions k o = true)
  lmdb : LMDBStorage.scan order s pre o = selected s pre o

/-! ## Where the database's order does -/

namespace LMDBStorage

variable (order : KeyOrder)

def Between (pre : JsString) (reverse : Bool) (k : JsString) : Prop :=
  let prefixEnd := resolvePrefixRangeEnd pre
  if reverse then order.ahead true k prefixEnd = false ∧ order.ahead true k pre = true
  else order.ahead false k pre = false ∧ order.ahead false k prefixEnd = true

/-- A key of the range that no key without the prefix cuts off: in a reverse scan those count that
come after one with the prefix. -/
structure Reached (s : Store V) (pre : JsString) (reverse : Bool) (k : JsString) : Prop where
  between : Between order pre reverse k
  entered : ∀ j, (s.get j).isSome = true → Between order pre reverse j →
    order.ahead reverse j k = true →
    (reverse = true → ∃ i, (s.get i).isSome = true ∧ Between order pre reverse i ∧ pre <+: i ∧
      order.ahead reverse i j = true) → pre <+: j

/-- Each row that is asked for is reached, and after the same rows as in the order of the code
units. -/
def InStep (s : Store V) (pre : JsString) (o : ScanOptions) : Prop :=
  ∀ row ∈ selected s pre o, Reached order s pre o.reverse row.1 ∧
    ∀ j, (s.get j).isSome = true → pre <+: j → matchesScanOptions j o = true →
      Reached order s pre o.reverse j →
        (order.ahead o.reverse j row.1 = true ↔ if o.reverse then row.1 < j else j < row.1)

end LMDBStorage

/-! ## The interval of a range delete -/

theorem below_resolveLowerBound (pre : JsString) (options : NormalizedDeleteRangeOptions)
    (k : JsString) : (resolveLowerBound pre options).Below k ↔
      pre ≤ k ∧ (∀ b ∈ options.gte, b ≤ k) ∧ ∀ b ∈ options.gt, b < k := by
  obtain ⟨gt, gte, lt, lte, limit, hbounded⟩ := options
  have hfirst : ∃ key, (gte.elim ({ key := pre, isOpen := false } : DeleteRangeBound) fun gte =>
      if gte > pre then { key := gte, isOpen := false } else { key := pre, isOpen := false }) =
        { key := key, isOpen := false } ∧ (key ≤ k ↔ pre ≤ k ∧ ∀ b ∈ gte, b ≤ k) := by
    cases gte with
    | none => exact ⟨pre, rfl, by simp⟩
    | some b =>
      simp only [Option.elim_some, Option.mem_def, Option.some.injEq, forall_eq']
      split_ifs with h
      · exact ⟨b, rfl, fun hb => ⟨(le_of_lt h).trans hb, hb⟩, And.right⟩
      · exact ⟨pre, rfl, fun hp => ⟨hp, (not_lt.1 h).trans hp⟩, And.left⟩
  obtain ⟨key, hkey, hiff⟩ := hfirst
  unfold resolveLowerBound
  simp only [hkey]
  rw [← and_assoc, ← hiff]
  cases gt with
  | none => simp [DeleteRangeBound.Below]
  | some b =>
    simp only [Option.elim_some, Option.mem_def, Option.some.injEq, forall_eq']
    split_ifs with h
    · exact ⟨fun hb => ⟨h.trans (le_of_lt hb), hb⟩, And.right⟩
    · exact ⟨fun hk => ⟨hk, lt_of_lt_of_le (not_le.1 h) hk⟩, And.left⟩

theorem above_resolveUpperBound (pre : JsString) (options : NormalizedDeleteRangeOptions)
    (k : JsString) : (resolveUpperBound pre options).Above k ↔
      k < resolvePrefixRangeEnd pre ∧ (∀ b ∈ options.lt, k < b) ∧ ∀ b ∈ options.lte, k ≤ b := by
  obtain ⟨gt, gte, lt, lte, limit, hbounded⟩ := options
  unfold resolveUpperBound
  generalize resolvePrefixRangeEnd pre = prefixEnd
  have hfirst : ∃ key, (lt.elim ({ key := prefixEnd, isOpen := true } : DeleteRangeBound)
      fun lt => if lt ≤ prefixEnd then { key := lt, isOpen := true }
        else { key := prefixEnd, isOpen := true }) =
        { key := key, isOpen := true } ∧ (k < key ↔ k < prefixEnd ∧ ∀ b ∈ lt, k < b) := by
    cases lt with
    | none => exact ⟨prefixEnd, rfl, by simp⟩
    | some b =>
      simp only [Option.elim_some, Option.mem_def, Option.some.injEq, forall_eq']
      split_ifs with h
      · exact ⟨b, rfl, fun hb => ⟨lt_of_lt_of_le hb h, hb⟩, And.right⟩
      · exact ⟨prefixEnd, rfl, fun hp => ⟨hp, hp.trans (not_le.1 h)⟩, And.left⟩
  obtain ⟨key, hkey, hiff⟩ := hfirst
  simp only [hkey]
  rw [← and_assoc, ← hiff]
  cases lte with
  | none => simp [DeleteRangeBound.Above]
  | some b =>
    simp only [Option.elim_some, Option.mem_def, Option.some.injEq, forall_eq']
    split_ifs with h
    · exact ⟨fun hb => ⟨lt_of_le_of_lt hb h, hb⟩, And.right⟩
    · exact ⟨fun hk => ⟨hk, (le_of_lt hk).trans (not_lt.1 h)⟩, And.left⟩

theorem matchesScanOptions_iff (k : JsString) (o : ScanOptions) :
    matchesScanOptions k o = true ↔ ((∀ b ∈ o.gte, b ≤ k) ∧ ∀ b ∈ o.gt, b < k) ∧
      (∀ b ∈ o.lt, k < b) ∧ ∀ b ∈ o.lte, k ≤ b := by
  unfold matchesScanOptions
  simp only [Bool.and_eq_true, Option.all_eq_true, decide_eq_true_eq, Option.mem_def, not_le,
    not_lt, ge_iff_le, gt_iff_lt]
  tauto

/-- The interval has the keys of the prefix range that the bounds let through. -/
theorem inRange_resolveDeleteRangeBounds (pre : JsString)
    (options : NormalizedDeleteRangeOptions) (k : JsString) :
    InRange (resolveDeleteRangeBounds pre options) k ↔ (pre ≤ k ∧ k < resolvePrefixRangeEnd pre) ∧
        matchesScanOptions k options.toScanOptions = true := by
  have hlower := below_resolveLowerBound pre options k
  have hupper := above_resolveUpperBound pre options k
  rw [matchesScanOptions_iff]
  have hiff : InRange (resolveDeleteRangeBounds pre options) k ↔
      (resolveLowerBound pre options).Below k ∧ (resolveUpperBound pre options).Above k := by
    unfold resolveDeleteRangeBounds
    simp only
    split_ifs with hnone
    · refine ⟨fun ⟨b, hb, _⟩ => (by cases hb), fun ⟨hbelow, habove⟩ => ?_⟩
      unfold DeleteRangeBound.Below at hbelow
      unfold DeleteRangeBound.Above at habove
      have hle : (resolveLowerBound pre options).key ≤ k := by
        split_ifs at hbelow
        · exact le_of_lt hbelow
        · exact hbelow
      have hge : k ≤ (resolveUpperBound pre options).key := by
        split_ifs at habove
        · exact le_of_lt habove
        · exact habove
      rcases hnone with hgt | ⟨heq, hopen | hopen⟩
      · exact (not_lt.2 (hle.trans hge) hgt).elim
      · rw [if_pos hopen] at hbelow
        exact (not_lt.2 (hge.trans heq.ge) hbelow).elim
      · rw [if_pos hopen] at habove
        exact (not_lt.2 (heq.ge.trans hle) habove).elim
    · refine ⟨?_, fun h => ⟨_, rfl, h⟩⟩
      rintro ⟨b, hb, hrange⟩
      obtain rfl := Option.some.inj hb
      exact hrange
  rw [hiff, hlower, hupper]
  simp only [NormalizedDeleteRangeOptions.toScanOptions]
  tauto

end Weft.Storage
