import Weft.Storage.Interface

/-! Scans that are read row by row while others write. Backends differ in what is fixed when
a scan is opened: all its rows (LMDB, SQL), its keys (`MemoryStorage`) or nothing (IndexedDB). -/

namespace Weft.Storage
open Weft.Js Weft.Lib

universe u

inductive ScanMode where
  | rows
  | keys
  | live
deriving DecidableEq, Repr

/-- What a scan still has to do. -/
inductive ScanCursor (V : Type u) where
  | rows (remaining : List (JsString × V))
  | keys (remaining : List JsString)
  | live (last : Option JsString)
deriving DecidableEq

variable {V : Type u}

def openScan (mode : ScanMode) (s : Store V) (pre : JsString) (options : ScanOptions) :
    ScanCursor V :=
  match mode with
  | .rows => .rows (scan s pre options)
  | .keys => .keys ((scan s pre options).map (·.1))
  | .live => .live none

/-- The first of the keys that still has a value, and the keys after it. -/
def nextPresent (s : Store V) : List JsString → Option ((JsString × V) × List JsString)
  | [] => none
  | key :: rest =>
    match s.get key with
    | some value => some ((key, value), rest)
    | none => nextPresent s rest

namespace ScanCursor

/-- The next row, by what the store holds now. -/
def next (s : Store V) (pre : JsString) (options : ScanOptions) :
    ScanCursor V → Option ((JsString × V) × ScanCursor V)
  | .rows [] => none
  | .rows (row :: rest) => some (row, .rows rest)
  | .keys remaining => (nextPresent s remaining).map fun found => (found.1, .keys found.2)
  | .live last => ((scan s pre options).find? fun row => last.all (· < row.1)).map fun row =>
      (row, .live (some row.1))

/-- The rows that follow as long as nobody writes. -/
def pending (s : Store V) (pre : JsString) (options : ScanOptions) :
    ScanCursor V → List (JsString × V)
  | .rows remaining => remaining
  | .keys remaining => remaining.filterMap fun key => (s.get key).map (Prod.mk key)
  | .live last => (scan s pre options).filter fun row => last.all (· < row.1)

/-- The cursor asks for no key outside of the prefix. -/
def Under (pre : JsString) : ScanCursor V → Prop
  | .keys remaining => ∀ key ∈ remaining, pre <+: key
  | _ => True

variable {s t : Store V} {pre : JsString} {options : ScanOptions}

theorem nextPresent_eq (s : Store V) (remaining : List JsString) :
    (nextPresent s remaining = none →
      remaining.filterMap (fun key => (s.get key).map (Prod.mk key)) = []) ∧
    ∀ row rest, nextPresent s remaining = some (row, rest) → rest <:+ remaining ∧
      remaining.filterMap (fun key => (s.get key).map (Prod.mk key)) =
        row :: rest.filterMap fun key => (s.get key).map (Prod.mk key) := by
  induction remaining with
  | nil => exact ⟨fun _ => rfl, nofun⟩
  | cons key remaining ih =>
    cases hget : s.get key with
    | none =>
      simp only [nextPresent, hget, List.filterMap_cons, Option.map_none]
      exact ⟨ih.1, fun row rest h => ((ih.2 row rest h).imp_left
        fun hsuffix => hsuffix.trans (List.suffix_cons _ _))⟩
    | some value =>
      simp only [nextPresent, hget, List.filterMap_cons, Option.map_some]
      refine ⟨nofun, fun row rest h => ?_⟩
      obtain ⟨rfl, rfl⟩ := Prod.mk.inj (Option.some.inj h)
      exact ⟨List.suffix_cons _ _, rfl⟩

/-- After its first row, a part of a scan is what lies above that row. -/
theorem filter_above {l tail : List (JsString × V)} (hl : l.Pairwise fun a b => a.1 < b.1)
    {last : Option JsString} {row : JsString × V}
    (h : l.filter (fun row => last.all (· < row.1)) = row :: tail) :
    l.filter (fun next => (some row.1).all (· < next.1)) = tail := by
  have hrow : last.all (· < row.1) = true :=
    (List.mem_filter.1 (h ▸ List.mem_cons_self : row ∈ l.filter _)).2
  have htail : ∀ next ∈ tail, row.1 < next.1 := by
    have hsorted := hl.filter fun row : JsString × V => last.all (· < row.1)
    rw [h] at hsorted
    exact (List.pairwise_cons.1 hsorted).1
  have habove : l.filter (fun next => (some row.1).all (· < next.1)) =
      (l.filter fun row => last.all (· < row.1)).filter
        fun next => (some row.1).all (· < next.1) := by
    rw [List.filter_filter]
    refine List.filter_congr fun next _ => ?_
    cases last with
    | none => simp
    | some key =>
      simp only [Option.all_some, decide_eq_true_eq] at hrow
      by_cases hnext : row.1 < next.1
      · simp [hnext, hrow.trans hnext]
      · simp [hnext]
  rw [habove, h, List.filter_cons_of_neg (by simp), List.filter_eq_self]
  intro next hnext
  simpa using htail next hnext

theorem pending_of_next_none {cursor : ScanCursor V} (h : cursor.next s pre options = none) :
    cursor.pending s pre options = [] := by
  cases cursor with
  | rows remaining =>
    cases remaining with
    | nil => rfl
    | cons row rest => cases h
  | keys remaining => exact (nextPresent_eq s remaining).1 (Option.map_eq_none_iff.1 h)
  | live last =>
    have hfind := List.find?_eq_none.1 (Option.map_eq_none_iff.1 h)
    exact List.filter_eq_nil_iff.2 hfind

theorem pending_of_next (hr : options.reverse = false) (hl : options.limit = none)
    {cursor cursor' : ScanCursor V} {row : JsString × V}
    (h : cursor.next s pre options = some (row, cursor')) :
    cursor.pending s pre options = row :: cursor'.pending s pre options := by
  cases cursor with
  | rows remaining =>
    cases remaining with
    | nil => cases h
    | cons row rest =>
      obtain ⟨rfl, rfl⟩ := Prod.mk.inj (Option.some.inj h)
      rfl
  | keys remaining =>
    obtain ⟨⟨found, rest⟩, hfound, heq⟩ := Option.map_eq_some_iff.1 h
    obtain ⟨rfl, rfl⟩ := Prod.mk.inj heq
    exact ((nextPresent_eq s remaining).2 _ _ hfound).2
  | live last =>
    obtain ⟨found, hfound, heq⟩ := Option.map_eq_some_iff.1 h
    obtain ⟨rfl, rfl⟩ := Prod.mk.inj heq
    rw [← List.head?_filter, List.head?_eq_some_iff] at hfound
    obtain ⟨tail, htail⟩ := hfound
    have hsorted : (scan s pre options).Pairwise fun a b => a.1 < b.1 := by
      rw [scan_unlimited s pre options hr hl]
      exact OrderedStore.range_sorted _ _
    have habove := filter_above hsorted htail
    rw [pending, htail, pending, habove]

theorem pending_openScan (hr : options.reverse = false) (hl : options.limit = none)
    (mode : ScanMode) : (openScan mode s pre options).pending s pre options =
      scan s pre options := by
  cases mode with
  | rows => rfl
  | keys =>
    have hget : ∀ row ∈ scan s pre options, (s.get row.1).map (Prod.mk row.1) = some row := by
      intro row hrow
      rw [scan_unlimited s pre options hr hl] at hrow
      rw [((OrderedStore.mem_range _ _ _ _).1 hrow).1]
      rfl
    rw [openScan, pending, List.filterMap_map]
    refine (List.filterMap_congr hget).trans ?_
    exact List.filterMap_some
  | live => exact List.filter_eq_self.2 fun _ _ => rfl

section

variable {u : CodeUnit} (hlast : pre.getLast? = some u) (hu : u.val < 65535)
include hlast hu

theorem scan_congr (hr : options.reverse = false) (hl : options.limit = none)
    (h : ∀ k, pre <+: k → t.get k = s.get k) : scan t pre options = scan s pre options := by
  rw [scan_unlimited t pre options hr hl, scan_unlimited s pre options hr hl]
  refine OrderedStore.range_congr fun k hk => h k ?_
  rw [Bool.and_eq_true, decide_eq_true_eq] at hk
  exact (between_prefix_iff hlast hu k).1 hk.1

theorem under_openScan (hr : options.reverse = false) (hl : options.limit = none)
    (mode : ScanMode) : (openScan mode s pre options).Under pre := by
  cases mode with
  | rows => trivial
  | keys =>
    intro key hkey
    obtain ⟨⟨k, v⟩, hrow, rfl⟩ := List.mem_map.1 hkey
    exact ((mem_scan hlast hu hr hl).1 hrow).2.1
  | live => trivial

/-- Writes outside of the prefix are not seen. -/
theorem pending_congr (hr : options.reverse = false) (hl : options.limit = none)
    (h : ∀ k, pre <+: k → t.get k = s.get k) {cursor : ScanCursor V} (hunder : cursor.Under pre) :
    cursor.pending t pre options = cursor.pending s pre options := by
  cases cursor with
  | rows remaining => rfl
  | keys remaining =>
    refine List.filterMap_congr fun key hkey => ?_
    rw [h key (hunder key hkey)]
  | live last => rw [pending, pending, scan_congr hlast hu hr hl h]

end

theorem under_next {cursor cursor' : ScanCursor V} {row : JsString × V}
    (hunder : cursor.Under pre) (h : cursor.next s pre options = some (row, cursor')) :
    cursor'.Under pre := by
  cases cursor with
  | rows remaining =>
    cases remaining with
    | nil => cases h
    | cons row rest =>
      obtain ⟨-, rfl⟩ := Prod.mk.inj (Option.some.inj h)
      trivial
  | keys remaining =>
    obtain ⟨⟨found, rest⟩, hfound, heq⟩ := Option.map_eq_some_iff.1 h
    obtain ⟨-, rfl⟩ := Prod.mk.inj heq
    exact fun key hkey => hunder key (((nextPresent_eq s remaining).2 _ _ hfound).1.subset hkey)
  | live last =>
    obtain ⟨found, -, heq⟩ := Option.map_eq_some_iff.1 h
    obtain ⟨-, rfl⟩ := Prod.mk.inj heq
    trivial

/-! ## Order -/

/-- What the cursor may still yield comes in key order and above `bound`; rows that are fixed
already have `P`. -/
def From (pre : JsString) (options : ScanOptions) (P : JsString × V → Prop)
    (bound : Option JsString) : ScanCursor V → Prop
  | .rows remaining => remaining.Pairwise (fun a b => a.1 < b.1) ∧
      ∀ row ∈ remaining, bound.all (· < row.1) ∧ P row
  | .keys remaining => remaining.Pairwise (· < ·) ∧
      ∀ key ∈ remaining, bound.all (· < key) ∧ pre <+: key ∧ matchesScanOptions key options = true
  | .live last => last = bound

/-- The cursor has not passed the key. -/
def Awaits (k : JsString) : ScanCursor V → Prop
  | .rows remaining => ∃ v, (k, v) ∈ remaining
  | .keys remaining => k ∈ remaining
  | .live last => last.all (· < k)

theorem nextPresent_mem {remaining rest : List JsString} {row : JsString × V}
    (h : nextPresent s remaining = some (row, rest)) :
    s.get row.1 = some row.2 ∧ ∃ passed, remaining = passed ++ row.1 :: rest ∧
      ∀ key ∈ passed, s.get key = none := by
  induction remaining with
  | nil => cases h
  | cons key remaining ih =>
    cases hget : s.get key with
    | none =>
      rw [nextPresent, hget] at h
      obtain ⟨hrow, passed, rfl, hpassed⟩ := ih h
      refine ⟨hrow, key :: passed, rfl, fun key' hkey' => ?_⟩
      rcases List.mem_cons.1 hkey' with rfl | hkey'
      · exact hget
      · exact hpassed key' hkey'
    | some value =>
      rw [nextPresent, hget] at h
      obtain ⟨rfl, rfl⟩ := Prod.mk.inj (Option.some.inj h)
      exact ⟨hget, [], rfl, by simp⟩

section

variable {u : CodeUnit} {P : JsString × V → Prop}
variable (hlast : pre.getLast? = some u) (hu : u.val < 65535)
  (hr : options.reverse = false) (hl : options.limit = none)
  (hstore : ∀ k v, s.get k = some v → pre <+: k → matchesScanOptions k options = true → P (k, v))
include hlast hu hr hl hstore

theorem from_openScan (mode : ScanMode) :
    (openScan mode s pre options).From pre options P none := by
  have hsorted : (scan s pre options).Pairwise fun a b => a.1 < b.1 := by
    rw [scan_unlimited s pre options hr hl]
    exact OrderedStore.range_sorted _ _
  cases mode with
  | rows =>
    refine ⟨hsorted, fun row hrow => ⟨rfl, ?_⟩⟩
    obtain ⟨hget, hpre, hmatch⟩ := (mem_scan hlast hu hr hl).1 hrow
    exact hstore _ _ hget hpre hmatch
  | keys =>
    refine ⟨List.pairwise_map.2 hsorted, fun key hkey => ⟨rfl, ?_⟩⟩
    obtain ⟨⟨k, v⟩, hrow, rfl⟩ := List.mem_map.1 hkey
    exact ((mem_scan hlast hu hr hl).1 hrow).2
  | live => rfl

theorem from_next {bound : Option JsString} {cursor cursor' : ScanCursor V} {row : JsString × V}
    (hfrom : cursor.From pre options P bound)
    (h : cursor.next s pre options = some (row, cursor')) :
    bound.all (· < row.1) ∧ P row ∧ cursor'.From pre options P (some row.1) := by
  cases cursor with
  | rows remaining =>
    cases remaining with
    | nil => cases h
    | cons first rest =>
      obtain ⟨rfl, rfl⟩ := Prod.mk.inj (Option.some.inj h)
      obtain ⟨hsorted, hrows⟩ := hfrom
      obtain ⟨hbound, hrow⟩ := hrows first List.mem_cons_self
      refine ⟨hbound, hrow, (List.pairwise_cons.1 hsorted).2, fun next hnext => ⟨?_, ?_⟩⟩
      · simpa using (List.pairwise_cons.1 hsorted).1 next hnext
      · exact (hrows next (List.mem_cons_of_mem _ hnext)).2
  | keys remaining =>
    obtain ⟨⟨found, rest⟩, hfound, heq⟩ := Option.map_eq_some_iff.1 h
    obtain ⟨rfl, rfl⟩ := Prod.mk.inj heq
    obtain ⟨hget, passed, rfl, -⟩ := nextPresent_mem hfound
    obtain ⟨hsorted, hkeys⟩ := hfrom
    obtain ⟨hbound, hpre, hmatch⟩ := hkeys found.1 (by simp)
    refine ⟨hbound, hstore _ _ hget hpre hmatch, ?_⟩
    have htail := (List.pairwise_append.1 hsorted).2.1
    refine ⟨(List.pairwise_cons.1 htail).2, fun key hkey => ⟨?_, (hkeys key (by simp [hkey])).2⟩⟩
    simpa using (List.pairwise_cons.1 htail).1 key hkey
  | live last =>
    obtain ⟨found, hfound, heq⟩ := Option.map_eq_some_iff.1 h
    obtain ⟨rfl, rfl⟩ := Prod.mk.inj heq
    obtain ⟨hget, hpre, hmatch⟩ := (mem_scan hlast hu hr hl).1 (List.mem_of_find?_eq_some hfound)
    refine ⟨?_, hstore _ _ hget hpre hmatch, rfl⟩
    rw [From] at hfrom
    subst hfrom
    have hfirst := List.find?_some hfound
    exact hfirst

end

/-- A key that is in the store all the while is not passed over. -/
theorem awaits_next {u : CodeUnit} (hlast : pre.getLast? = some u) (hu : u.val < 65535)
    (hr : options.reverse = false) (hl : options.limit = none) {P : JsString × V → Prop}
    {bound : Option JsString} {cursor : ScanCursor V} {k : JsString} {v : V}
    (hfrom : cursor.From pre options P bound) (hawaits : cursor.Awaits k) (hget : s.get k = some v)
    (hpre : pre <+: k) (hmatch : matchesScanOptions k options = true) :
    ∃ row cursor', cursor.next s pre options = some (row, cursor') ∧
      (row.1 = k ∨ row.1 < k ∧ cursor'.Awaits k) := by
  cases cursor with
  | rows remaining =>
    obtain ⟨w, hmem⟩ := hawaits
    cases remaining with
    | nil => cases hmem
    | cons first rest =>
      refine ⟨first, .rows rest, rfl, ?_⟩
      rcases List.mem_cons.1 hmem with rfl | hmem
      · exact .inl rfl
      · exact .inr ⟨(List.pairwise_cons.1 hfrom.1).1 _ hmem, w, hmem⟩
  | keys remaining =>
    cases hnext : nextPresent s remaining with
    | none =>
      have hempty := (nextPresent_eq s remaining).1 hnext
      rw [List.filterMap_eq_nil_iff] at hempty
      have hnone := hempty k hawaits
      rw [hget] at hnone
      cases hnone
    | some found =>
      obtain ⟨row, rest⟩ := found
      refine ⟨row, .keys rest, by rw [next, hnext]; rfl, ?_⟩
      obtain ⟨-, passed, rfl, hpassed⟩ := nextPresent_mem hnext
      have hawaits : k ∈ passed ++ row.1 :: rest := hawaits
      rcases List.mem_append.1 hawaits with hk | hk
      · rw [hpassed k hk] at hget
        cases hget
      · rcases List.mem_cons.1 hk with heq | hk
        · exact .inl heq.symm
        · have htail := (List.pairwise_append.1 hfrom.1).2.1
          exact .inr ⟨(List.pairwise_cons.1 htail).1 k hk, hk⟩
  | live last =>
    have hmem : (k, v) ∈ scan s pre options := (mem_scan hlast hu hr hl).2 ⟨hget, hpre, hmatch⟩
    cases hfind : (scan s pre options).find? (fun row => last.all (· < row.1)) with
    | none => exact absurd hawaits (List.find?_eq_none.1 hfind (k, v) hmem)
    | some row =>
      refine ⟨row, .live (some row.1), by rw [next, hfind]; rfl, ?_⟩
      obtain ⟨-, before, after, hsplit, hbefore⟩ := List.find?_eq_some_iff_append.1 hfind
      have hsorted : (scan s pre options).Pairwise fun a b => a.1 < b.1 := by
        rw [scan_unlimited s pre options hr hl]
        exact OrderedStore.range_sorted _ _
      rw [hsplit] at hmem hsorted
      rcases List.mem_append.1 hmem with hk | hk
      · have hnot := hbefore _ hk
        rw [Bool.not_eq_true'] at hnot
        exact absurd hawaits (by simp only [Awaits, hnot]; decide)
      · rcases List.mem_cons.1 hk with heq | hk
        · exact .inl (congrArg Prod.fst heq).symm
        · have hlt := (List.pairwise_cons.1 (List.pairwise_append.1 hsorted).2.1).1 _ hk
          exact .inr ⟨hlt, by simpa [Awaits] using hlt⟩

theorem awaits_openScan {u : CodeUnit} (hlast : pre.getLast? = some u) (hu : u.val < 65535)
    (hr : options.reverse = false) (hl : options.limit = none) (mode : ScanMode) {k : JsString}
    {v : V} (hget : s.get k = some v) (hpre : pre <+: k)
    (hmatch : matchesScanOptions k options = true) :
    (openScan mode s pre options).Awaits k := by
  have hmem : (k, v) ∈ scan s pre options := (mem_scan hlast hu hr hl).2 ⟨hget, hpre, hmatch⟩
  cases mode with
  | rows => exact ⟨v, hmem⟩
  | keys => exact List.mem_map.2 ⟨_, hmem, rfl⟩
  | live => rfl

end ScanCursor

end Weft.Storage
