import Weft.Storage.Ranges

/-! When the range operations select what is asked for. The end of a prefix range is the prefix
with its last code unit one higher. The empty prefix has no such end, nor has one whose last
unit is the greatest, and a reverse range of the LMDB store leaves out the prefix itself. -/

namespace Weft.Storage
open Weft.Lib Weft.Js

universe u

variable {V : Type u}

/-! ## Prefix ranges -/

theorem eq_last_unit {u : CodeUnit} (h : ¬ u.val < 65535) : u = codeUnit 0xffff := by
  have := u.isLt
  apply Fin.ext
  rw [codeUnit_val (by decide)]
  omega

variable {pre : JsString}

/-- One more than the greatest unit is zero again. -/
theorem resolvePrefixRangeEnd_lt (h : pre.getLast? = some (codeUnit 0xffff)) :
    resolvePrefixRangeEnd pre < pre := by
  conv_rhs => rw [← List.dropLast_append_getLast? _ h]
  simp only [resolvePrefixRangeEnd, h]
  rw [Lex.append_lt_append_iff, List.cons_lt_cons_iff]
  exact .inl (by decide)

theorem not_between {pre k : JsString} (h : pre.getLast? = some (codeUnit 0xffff)) :
    ¬ (pre ≤ k ∧ k < resolvePrefixRangeEnd pre) := by
  rintro ⟨hle, hlt⟩
  exact lt_irrefl _ ((hle.trans_lt hlt).trans (resolvePrefixRangeEnd_lt h))

theorem prefix_of_between {pre k : JsString} (h : pre ≤ k ∧ k < resolvePrefixRangeEnd pre) :
    pre <+: k := by
  cases hlast : pre.getLast? with
  | none =>
    rw [List.getLast?_eq_none_iff.1 hlast]
    exact List.nil_prefix
  | some u =>
    by_cases hu : u.val < 65535
    · exact (between_prefix_iff hlast hu k).1 h
    · rw [eq_last_unit hu] at hlast
      exact (not_between hlast h).elim

/-- The keys of the store that start with the prefix lie before the end of its range. -/
structure PrefixCovered (s : Store V) (pre : JsString) : Prop where
  empty : pre = [] → ∀ k, (s.get k).isSome = true → k < [codeUnit 0xff]
  last : pre.getLast? = some (codeUnit 0xffff) → ∀ k, (s.get k).isSome = true → ¬ pre <+: k

theorem prefixCovered_iff (s : Store V) (pre : JsString) : PrefixCovered s pre ↔
    ∀ k, (s.get k).isSome = true → pre <+: k → pre ≤ k ∧ k < resolvePrefixRangeEnd pre := by
  cases hlast : pre.getLast? with
  | none =>
    obtain rfl := List.getLast?_eq_none_iff.1 hlast
    refine ⟨fun h k hk _ => ⟨Lex.nil_le k, h.empty rfl k hk⟩, fun h => ⟨?_, ?_⟩⟩
    · intro _ k hk
      exact (h k hk List.nil_prefix).2
    · intro hsome
      cases hsome
  | some u =>
    have hne : pre ≠ [] := by
      rintro rfl
      cases hlast
    by_cases hu : u.val < 65535
    · refine ⟨fun _ k _ hk => (between_prefix_iff hlast hu k).2 hk, fun _ => ⟨?_, ?_⟩⟩
      · intro hempty
        exact (hne hempty).elim
      · rw [hlast, Option.some.injEq]
        rintro rfl
        exact (hu.ne (codeUnit_val (by decide))).elim
    · rw [eq_last_unit hu] at hlast
      constructor
      · intro h k hk hpre
        exact (h.last hlast k hk hpre).elim
      · refine fun h => ⟨fun hempty => (hne hempty).elim, fun _ k hk hpre => ?_⟩
        exact not_between hlast (h k hk hpre)

variable {s : Store V}

theorem PrefixCovered.between_iff (h : PrefixCovered s pre) {k : JsString}
    (hk : (s.get k).isSome = true) : (pre ≤ k ∧ k < resolvePrefixRangeEnd pre) ↔ pre <+: k :=
  ⟨prefix_of_between, (prefixCovered_iff s pre).1 h k hk⟩

/-! ## The memory store -/

theorem isSome_of_mem_range {p : JsString → Bool} {row : JsString × V} (h : row ∈ s.range p) :
    s.get row.1 = some row.2 ∧ p row.1 = true :=
  (s.mem_range p row.1 row.2).1 h

theorem limited_eq (limit : Option Nat) (keys : List JsString) (count : Nat) :
    MemoryStorage.limited limit keys count = limit.elim keys fun n => keys.take (n - count) := by
  induction keys generalizing count with
  | nil => cases limit <;> simp [MemoryStorage.limited]
  | cons key keys ih =>
    cases limit with
    | none => simpa [MemoryStorage.limited] using ih (count + 1)
    | some n =>
      simp only [MemoryStorage.limited, Option.any_some, Option.elim_some, decide_eq_true_eq]
      split_ifs with hcount
      · rw [Nat.sub_eq_zero_of_le hcount, List.take_zero]
      · have hsucc : n - count = n - (count + 1) + 1 := by omega
        rw [ih, Option.elim_some, hsucc, List.take_succ_cons]

theorem filter_collectSortedKeys (s : Store V) (pre : JsString) (o : ScanOptions) :
    (MemoryStorage.collectSortedKeys s pre (resolvePrefixRangeEnd pre)).filter
        (matchesScanOptions · o) =
      (s.range fun k => decide (pre ≤ k ∧ k < resolvePrefixRangeEnd pre) &&
        matchesScanOptions k o).map Prod.fst := by
  rw [MemoryStorage.collectSortedKeys, List.filter_map, OrderedStore.range, List.filter_filter]
  congr 1
  refine List.filter_congr fun row _ => ?_
  simp [MemoryStorage.matchesPrefix, Bool.and_comm]

theorem memory_keys_eq (s : Store V) (pre : JsString) (o : ScanOptions) :
    MemoryStorage.keys s pre o = (scan s pre o).map Prod.fst := by
  unfold MemoryStorage.keys scan
  simp only [filter_collectSortedKeys, limited_eq]
  cases o.limit with
  | none => cases o.reverse <;> simp
  | some n => cases o.reverse <;> simp [List.map_take]

variable {rows : List (JsString × V)}

theorem filterMap_get (h : ∀ row ∈ rows, s.get row.1 = some row.2) :
    (rows.map Prod.fst).filterMap (fun key => (s.get key).map (key, ·)) = rows := by
  induction rows with
  | nil => rfl
  | cons row rows ih =>
    obtain ⟨hrow, hrows⟩ := List.forall_mem_cons.1 h
    rw [List.map_cons, List.filterMap_cons, hrow, ih hrows]
    rfl

variable {o : ScanOptions}

theorem get_of_mem_scan {row : JsString × V} (h : row ∈ scan s pre o) :
    s.get row.1 = some row.2 := by
  unfold scan at h
  simp only at h
  have hrange : row ∈ s.range fun k =>
      decide (pre ≤ k ∧ k < resolvePrefixRangeEnd pre) && matchesScanOptions k o := by
    cases hlimit : o.limit with
    | none =>
      simp only [hlimit] at h
      split_ifs at h
      · exact List.mem_reverse.1 h
      · exact h
    | some n =>
      simp only [hlimit] at h
      have h := List.mem_of_mem_take h
      split_ifs at h
      · exact List.mem_reverse.1 h
      · exact h
  exact (isSome_of_mem_range hrange).1

/-- The memory store scans as the storage interface has it. -/
theorem memory_scan_eq (s : Store V) (pre : JsString) (o : ScanOptions) :
    MemoryStorage.scan s pre o = scan s pre o := by
  rw [MemoryStorage.scan, memory_keys_eq]
  exact filterMap_get fun row hrow => get_of_mem_scan hrow

variable {p q : JsString → Bool}

theorem range_congr_keys (h : ∀ k, (s.get k).isSome = true → p k = q k) :
    s.range p = s.range q := by
  refine List.filter_congr fun row hrow => h row.1 ?_
  rw [(s.get_eq_some_iff row.1 row.2).2 hrow]
  rfl

theorem scan_eq_selected (h : PrefixCovered s pre) (o : ScanOptions) :
    scan s pre o = selected s pre o := by
  have hrows : (s.range fun k => decide (pre ≤ k ∧ k < resolvePrefixRangeEnd pre) &&
      matchesScanOptions k o) = s.range fun k => decide (pre <+: k) && matchesScanOptions k o := by
    refine range_congr_keys fun k hk => ?_
    rw [decide_eq_decide.2 (h.between_iff hk)]
  unfold scan selected
  rw [hrows]
  cases o.limit <;> rfl

theorem get_deleteKeys (s : Store V) (keys : List JsString) (k : JsString) :
    (deleteKeys s keys).get k = if k ∈ keys then none else s.get k := by
  unfold deleteKeys
  induction keys generalizing s with
  | nil => rfl
  | cons key keys ih =>
    rw [List.foldl_cons, ih, OrderedStore.get_delete]
    by_cases hk : k = key
    · simp [hk]
    · simp [hk]

theorem deleteKeys_rows (s : Store V) (rows : List (JsString × V)) :
    deleteKeys s (rows.map Prod.fst) = withoutRows s rows := by
  ext1 k
  rw [get_deleteKeys, withoutRows, OrderedStore.get_filter]
  by_cases hk : k ∈ rows.map Prod.fst
  · rw [if_pos hk, if_neg (by simpa using hk)]
  · rw [if_neg hk, if_pos (by simpa using hk)]

theorem memory_count_eq (s : Store V) (pre : JsString) : MemoryStorage.count s pre =
    (s.range fun k => decide (pre ≤ k ∧ k < resolvePrefixRangeEnd pre)).length := by
  rw [MemoryStorage.count, MemoryStorage.collectSortedKeys, List.length_map]
  rfl

/-! ## The LMDB store -/

namespace LMDBStorage

section iteration

variable {order : KeyOrder} {reverse : Bool} {i j k : JsString}

theorem KeyOrder.ahead_irrefl : ¬ order.ahead reverse k k = true := by
  simp [KeyOrder.ahead, order.irrefl]

theorem KeyOrder.ahead_trans (hij : order.ahead reverse i j = true)
    (hjk : order.ahead reverse j k = true) : order.ahead reverse i k = true := by
  cases reverse with
  | false => exact order.trans i j k hij hjk
  | true => exact order.trans k j i hjk hij

theorem KeyOrder.ahead_asymm (h : order.ahead reverse j k = true) :
    ¬ order.ahead reverse k j = true :=
  fun h' => ahead_irrefl (ahead_trans h h')

end iteration

variable (order : KeyOrder)

theorem before_eq_false_iff (j k : JsString) :
    order.before k j = false ↔ j = k ∨ order.before j k = true := by
  constructor
  · intro h
    by_cases hne : j = k
    · exact .inl hne
    · exact .inr ((order.total j k hne).resolve_right (by simp [h]))
  · rintro (rfl | h)
    · exact order.irrefl j
    · by_contra hkj
      rw [Bool.not_eq_false] at hkj
      exact absurd (order.trans j k j h hkj) (by simp [order.irrefl])

theorem mem_sortedRows {row : JsString × V} (reverse : Bool) :
    row ∈ sortedRows order s reverse ↔ s.get row.1 = some row.2 := by
  rw [s.get_eq_some_iff]
  cases reverse <;> simp [sortedRows]

theorem sortedRows_pairwise (s : Store V) (reverse : Bool) :
    (sortedRows order s reverse).Pairwise fun a b => order.ahead reverse a.1 b.1 = true := by
  let r : JsString × V → JsString × V → Prop := fun a b => order.before b.1 a.1 = false
  have htotal : Std.Total r := by
    refine ⟨fun a b => ?_⟩
    by_cases hne : a.1 = b.1
    · exact .inl ((before_eq_false_iff order _ _).2 (.inl hne))
    · exact (order.total _ _ hne).imp (fun h => (before_eq_false_iff order _ _).2 (.inr h))
        fun h => (before_eq_false_iff order _ _).2 (.inr h)
  have htrans : IsTrans (JsString × V) r := by
    refine ⟨fun a b c hab hbc => (before_eq_false_iff order _ _).2 ?_⟩
    obtain hab | hab := (before_eq_false_iff order _ _).1 hab
    · exact hab ▸ (before_eq_false_iff order _ _).1 hbc
    · obtain hbc | hbc := (before_eq_false_iff order _ _).1 hbc
      · exact .inr (hbc ▸ hab)
      · exact .inr (order.trans _ _ _ hab hbc)
  have hnodup : (s.entries.insertionSort r).Pairwise fun a b => a.1 ≠ b.1 := by
    refine (List.perm_insertionSort r s.entries).symm.pairwise (s.sorted.imp ne_of_lt) ?_
    exact fun h => h.symm
  have hsorted : (s.entries.insertionSort r).Pairwise fun a b => order.before a.1 b.1 = true := by
    refine ((List.pairwise_insertionSort r s.entries).and hnodup).imp fun h => ?_
    exact ((before_eq_false_iff order _ _).1 h.1).resolve_left h.2
  cases reverse with
  | false => exact hsorted
  | true => exact List.pairwise_reverse.2 hsorted

variable {order}

/-- The loop reads the first rows in a row that have the prefix, up to the limit. -/
theorem readRange_eq (pre : JsString) (o : ScanOptions) (rows : List (JsString × V)) (count : Nat)
    (entered : Bool) :
    readRange pre o rows count entered =
      let skipped := if o.reverse = true ∧ entered = false then
        rows.dropWhile fun row => !decide (pre <+: row.1) else rows
      let run := (skipped.takeWhile fun row => decide (pre <+: row.1)).filter
        fun row => matchesScanOptions row.1 o
      o.limit.elim run fun n => run.take (n - count) := by
  induction rows generalizing count entered with
  | nil => cases o.limit <;> simp [readRange]
  | cons row rows ih =>
    obtain ⟨key, value⟩ := row
    simp only [readRange]
    by_cases hpre : pre <+: key
    · rw [if_neg (not_not.2 hpre)]
      have hskipped : (if o.reverse = true ∧ entered = false then
          ((key, value) :: rows).dropWhile fun row => !decide (pre <+: row.1)
          else (key, value) :: rows) = (key, value) :: rows := by
        split_ifs
        · exact List.dropWhile_cons_of_neg (by simpa using hpre)
        · rfl
      rw [hskipped, List.takeWhile_cons_of_pos (by simpa using hpre)]
      have hrest : ∀ count, readRange pre o rows count true =
          o.limit.elim ((rows.takeWhile fun row => decide (pre <+: row.1)).filter
            fun row => matchesScanOptions row.1 o) fun n =>
            ((rows.takeWhile fun row => decide (pre <+: row.1)).filter
              fun row => matchesScanOptions row.1 o).take (n - count) := by
        intro count
        simpa using ih count true
      by_cases hmatches : matchesScanOptions key o = true
      · rw [if_neg (not_not.2 hmatches), List.filter_cons_of_pos (by exact hmatches), hrest]
        cases o.limit with
        | none => simp
        | some n =>
          simp only [Option.any_some, Option.elim_some, decide_eq_true_eq]
          split_ifs with hcount
          · rw [Nat.sub_eq_zero_of_le hcount, List.take_zero]
          · have hsucc : n - count = n - (count + 1) + 1 := by omega
            rw [hsucc, List.take_succ_cons]
      · rw [if_pos hmatches, List.filter_cons_of_neg (by exact hmatches), hrest]
    · rw [if_pos hpre]
      split_ifs with hskip
      · rw [ih, if_pos hskip, List.dropWhile_cons_of_pos (by simpa using hpre)]
      · rw [List.takeWhile_cons_of_neg (by simpa using hpre)]
        cases o.limit <;> simp

variable (order)

/-- The rows of the range. -/
def rangeRows (s : Store V) (pre : JsString) (reverse : Bool) : List (JsString × V) :=
  let prefixEnd := resolvePrefixRangeEnd pre
  if reverse then getRange order s prefixEnd pre true else getRange order s pre prefixEnd false

/-- The rows that a scan without a limit yields. -/
def yielded (s : Store V) (pre : JsString) (o : ScanOptions) : List (JsString × V) :=
  let rows := rangeRows order s pre o.reverse
  let skipped :=
    if o.reverse = true then rows.dropWhile fun row => !decide (pre <+: row.1) else rows
  (skipped.takeWhile fun row => decide (pre <+: row.1)).filter
    fun row => matchesScanOptions row.1 o

theorem scan_eq_yielded (s : Store V) (pre : JsString) (o : ScanOptions) :
    LMDBStorage.scan order s pre o =
      o.limit.elim (yielded order s pre o) (yielded order s pre o).take := by
  rw [LMDBStorage.scan, readRange_eq]
  simp only [and_true]
  rfl

theorem mem_rangeRows {row : JsString × V} {reverse : Bool} :
    row ∈ rangeRows order s pre reverse ↔
      s.get row.1 = some row.2 ∧ Between order pre reverse row.1 := by
  cases reverse <;> simp [rangeRows, getRange, Between, mem_sortedRows, List.mem_filter]

theorem rangeRows_pairwise (s : Store V) (pre : JsString) (reverse : Bool) :
    (rangeRows order s pre reverse).Pairwise fun a b => order.ahead reverse a.1 b.1 = true := by
  cases reverse
  · exact (sortedRows_pairwise order s false).filter _
  · exact (sortedRows_pairwise order s true).filter _

theorem mem_yielded {row : JsString × V} :
    row ∈ yielded order s pre o ↔ s.get row.1 = some row.2 ∧ pre <+: row.1 ∧
      matchesScanOptions row.1 o = true ∧ Reached order s pre o.reverse row.1 := by
  have hsorted := rangeRows_pairwise order s pre o.reverse
  have hasymm : ∀ a b : JsString × V, order.ahead o.reverse a.1 b.1 = true →
      ¬ order.ahead o.reverse b.1 a.1 = true := fun _ _ => KeyOrder.ahead_asymm
  have hstored : ∀ k, (s.get k).isSome = true → Between order pre o.reverse k →
      ∃ row ∈ rangeRows order s pre o.reverse, row.1 = k := by
    intro k hk hbetween
    obtain ⟨v, hv⟩ := Option.isSome_iff_exists.1 hk
    exact ⟨(k, v), (mem_rangeRows order).2 ⟨hv, hbetween⟩, rfl⟩
  have hsome : ∀ row ∈ rangeRows order s pre o.reverse,
      (s.get row.1).isSome = true ∧ Between order pre o.reverse row.1 := by
    intro row hrow
    obtain ⟨hget, hbetween⟩ := (mem_rangeRows order).1 hrow
    exact ⟨by rw [hget]; rfl, hbetween⟩
  unfold yielded
  rw [List.mem_filter]
  cases hreverse : o.reverse with
  | false =>
    rw [hreverse] at hsorted hasymm hstored hsome
    simp only [Bool.false_eq_true, if_false]
    rw [mem_takeWhile_iff hsorted hasymm, mem_rangeRows, decide_eq_true_eq]
    constructor
    · rintro ⟨⟨⟨hget, hbetween⟩, hpre, hahead⟩, hmatches⟩
      refine ⟨hget, hpre, hmatches, hbetween, fun j hj hj' hjk _ => ?_⟩
      obtain ⟨row', hrow', rfl⟩ := hstored j hj hj'
      exact of_decide_eq_true (hahead row' hrow' hjk)
    · rintro ⟨hget, hpre, hmatches, hreached⟩
      refine ⟨⟨⟨hget, hreached.between⟩, hpre, fun j hj hjk => decide_eq_true ?_⟩, hmatches⟩
      exact hreached.entered j.1 (hsome j hj).1 (hsome j hj).2 hjk (by simp)
  | true =>
    rw [hreverse] at hsorted hasymm hstored hsome
    simp only [if_true]
    rw [mem_run_iff hsorted hasymm, mem_rangeRows, decide_eq_true_eq]
    constructor
    · rintro ⟨⟨⟨hget, hbetween⟩, hpre, hrun⟩, hmatches⟩
      refine ⟨hget, hpre, hmatches, hbetween, fun j hj hj' hjk hentered => ?_⟩
      obtain ⟨i, hi, hi', hpre', hij⟩ := hentered rfl
      obtain ⟨row', hrow', rfl⟩ := hstored j hj hj'
      obtain ⟨row'', hrow'', rfl⟩ := hstored i hi hi'
      exact of_decide_eq_true (hrun row'' hrow'' row' hrow' (decide_eq_true hpre') hij hjk)
    · rintro ⟨hget, hpre, hmatches, hreached⟩
      refine ⟨⟨⟨hget, hreached.between⟩, hpre, fun i hi j hj hpi hij hjk => decide_eq_true ?_⟩,
        hmatches⟩
      refine hreached.entered j.1 (hsome j hj).1 (hsome j hj).2 hjk fun _ => ⟨i.1, ?_⟩
      exact ⟨(hsome i hi).1, (hsome i hi).2, of_decide_eq_true hpi, hij⟩

theorem yielded_pairwise (s : Store V) (pre : JsString) (o : ScanOptions) :
    (yielded order s pre o).Pairwise fun a b => order.ahead o.reverse a.1 b.1 = true := by
  refine List.Pairwise.filter _ (List.Pairwise.sublist (List.takeWhile_sublist _) ?_)
  split_ifs
  · exact (rangeRows_pairwise order s pre o.reverse).sublist (List.dropWhile_sublist _)
  · exact rangeRows_pairwise order s pre o.reverse

/-- The scan yields what is asked for just where the order of the database allows it. -/
theorem scan_eq_selected_iff (s : Store V) (pre : JsString) (o : ScanOptions) :
    LMDBStorage.scan order s pre o = selected s pre o ↔ InStep order s pre o := by
  let asked := s.range fun k => decide (pre <+: k) && matchesScanOptions k o
  let rows := if o.reverse then asked.reverse else asked
  have hmem : ∀ row, row ∈ rows ↔ s.get row.1 = some row.2 ∧ pre <+: row.1 ∧
      matchesScanOptions row.1 o = true := by
    intro row
    have hasked : row ∈ rows ↔ row ∈ asked := by
      simp only [rows]
      split_ifs
      · exact List.mem_reverse
      · exact Iff.rfl
    rw [hasked, s.mem_range, Bool.and_eq_true, decide_eq_true_eq]
  have hpairwise : rows.Pairwise fun a b => if o.reverse then b.1 < a.1 else a.1 < b.1 := by
    have hasked : asked.Pairwise fun a b => a.1 < b.1 := s.sorted.filter _
    simp only [rows]
    split_ifs
    · exact List.pairwise_reverse.2 hasked
    · exact hasked
  have hasymm : ∀ a b : JsString × V, (if o.reverse then b.1 < a.1 else a.1 < b.1) →
      ¬ if o.reverse then a.1 < b.1 else b.1 < a.1 := by
    intro a b
    split_ifs
    · exact fun h => h.not_gt
    · exact fun h => h.not_gt
  have hsub : yielded order s pre o ⊆ rows := by
    intro row hrow
    obtain ⟨hget, hpre, hmatches, _⟩ := (mem_yielded order).1 hrow
    exact (hmem row).2 ⟨hget, hpre, hmatches⟩
  have hinStep : ∀ row ∈ rows,
      (row ∈ yielded order s pre o ∧ ∀ j ∈ yielded order s pre o,
        order.ahead o.reverse j.1 row.1 = true ↔ if o.reverse then row.1 < j.1 else j.1 < row.1) ↔
      Reached order s pre o.reverse row.1 ∧ ∀ j, (s.get j).isSome = true → pre <+: j →
        matchesScanOptions j o = true → Reached order s pre o.reverse j →
          (order.ahead o.reverse j row.1 = true ↔ if o.reverse then row.1 < j else j < row.1) := by
    intro row hrow
    obtain ⟨hget, hpre, hmatches⟩ := (hmem row).1 hrow
    refine and_congr ?_ ?_
    · rw [mem_yielded]
      exact ⟨fun h => h.2.2.2, fun h => ⟨hget, hpre, hmatches, h⟩⟩
    · constructor
      · intro h j hj hj' hmatches' hreached
        obtain ⟨v, hv⟩ := Option.isSome_iff_exists.1 hj
        exact h (j, v) ((mem_yielded order).2 ⟨hv, hj', hmatches', hreached⟩)
      · intro h j hj
        obtain ⟨hget', hpre', hmatches', hreached⟩ := (mem_yielded order).1 hj
        exact h j.1 (by rw [hget']; rfl) hpre' hmatches' hreached
  have htake : ∀ n, (yielded order s pre o).take n = rows.take n ↔ ∀ row ∈ rows.take n,
      Reached order s pre o.reverse row.1 ∧ ∀ j, (s.get j).isSome = true → pre <+: j →
        matchesScanOptions j o = true → Reached order s pre o.reverse j →
          (order.ahead o.reverse j row.1 = true ↔ if o.reverse then row.1 < j else j < row.1) := by
    intro n
    rw [take_eq_take_iff (yielded_pairwise order s pre o) hpairwise
      (fun _ _ => KeyOrder.ahead_asymm) hasymm hsub]
    exact forall₂_congr fun row hrow => hinStep row (List.mem_of_mem_take hrow)
  have hselected : selected s pre o = o.limit.elim rows rows.take := rfl
  unfold InStep
  rw [scan_eq_yielded, hselected]
  cases o.limit with
  | some n => exact htake n
  | none =>
    have hall := htake (max (yielded order s pre o).length rows.length)
    rw [List.take_of_length_le (le_max_left _ _), List.take_of_length_le (le_max_right _ _)] at hall
    exact hall

end LMDBStorage

/-! ## Where all of them agree -/

variable {normalized : NormalizedDeleteRangeOptions}

theorem normalizeDeleteRangeOptions_toDeleteRange
    (h : normalizeDeleteRangeOptions o.toDeleteRange = .ok normalized) :
    normalized.toScanOptions = { o with reverse := false } := by
  unfold normalizeDeleteRangeOptions ScanOptions.toDeleteRange at h
  split_ifs at h
  cases h
  cases o.limit <;> simp [NormalizedDeleteRangeOptions.toScanOptions]

theorem collectSortedKeys_eq (h : PrefixCovered s pre) :
    MemoryStorage.collectSortedKeys s pre (resolvePrefixRangeEnd pre) =
      (selected s pre {}).map Prod.fst := by
  have hkeys := memory_keys_eq s pre {}
  rw [scan_eq_selected h, MemoryStorage.keys, limited_eq] at hkeys
  rw [← hkeys]
  exact (List.filter_eq_self.2 fun _ _ => rfl).symm

/-- A range delete deletes what a forward scan with its bounds and limit selects. -/
theorem deleteRange_eq (h : PrefixCovered s pre) {options : DeleteRangeOptions}
    (hnormalized : normalizeDeleteRangeOptions options = .ok normalized) :
    MemoryStorage.deleteRange s pre options = .ok ((selected s pre normalized.toScanOptions).length,
        withoutRows s (selected s pre normalized.toScanOptions)) := by
  have hkeys := memory_keys_eq s pre normalized.toScanOptions
  rw [scan_eq_selected h, MemoryStorage.keys, limited_eq] at hkeys
  unfold MemoryStorage.deleteRange
  rw [hnormalized, ← deleteKeys_rows, ← List.length_map Prod.fst, ← hkeys]
  rfl

theorem PrefixCovered.of_count (h : MemoryStorage.count s pre = (selected s pre {}).length) :
    PrefixCovered s pre := by
  have hsub : (s.range fun k => decide (pre ≤ k ∧ k < resolvePrefixRangeEnd pre)).Sublist
      (s.range fun k => decide (pre <+: k) && matchesScanOptions k {}) := by
    refine List.monotone_filter_right _ fun row hrow => ?_
    rw [Bool.and_eq_true, decide_eq_true_eq]
    exact ⟨prefix_of_between (of_decide_eq_true hrow), rfl⟩
  rw [memory_count_eq] at h
  have heq := hsub.eq_of_length h
  rw [prefixCovered_iff]
  intro k hk hpre
  obtain ⟨v, hv⟩ := Option.isSome_iff_exists.1 hk
  have hmem : (k, v) ∈ s.range fun k => decide (pre <+: k) && matchesScanOptions k {} := by
    rw [s.mem_range, Bool.and_eq_true, decide_eq_true_eq]
    exact ⟨hv, hpre, rfl⟩
  rw [← heq] at hmem
  exact of_decide_eq_true (isSome_of_mem_range hmem).2

/-- The adapters select what is asked for just where no key that starts with the prefix lies
past the end of its range, and the order of the database is in step with that of the code units. -/
theorem rangesAgree_iff (order : LMDBStorage.KeyOrder) (s : Store V) (pre : JsString)
    (o : ScanOptions) :
    RangesAgree order s pre o ↔ PrefixCovered s pre ∧ LMDBStorage.InStep order s pre o := by
  constructor
  · intro h
    exact ⟨PrefixCovered.of_count h.count,
      (LMDBStorage.scan_eq_selected_iff order s pre o).1 h.lmdb⟩
  · rintro ⟨hcovered, hinStep⟩
    have hall := collectSortedKeys_eq hcovered
    refine ⟨?_, ?_, ?_, ?_, ?_, ?_, (LMDBStorage.scan_eq_selected_iff order s pre o).2 hinStep⟩
    · rw [memory_scan_eq, scan_eq_selected hcovered]
    · rw [memory_keys_eq, scan_eq_selected hcovered]
    · rw [MemoryStorage.count, hall, List.length_map]
    · rw [MemoryStorage.deletePrefix, hall, deleteKeys_rows, List.length_map]
    · intro normalized hnormalized
      rw [deleteRange_eq hcovered hnormalized,
        normalizeDeleteRangeOptions_toDeleteRange hnormalized]
    · intro normalized hnormalized k hk
      rw [inRange_resolveDeleteRangeBounds, hcovered.between_iff hk,
        normalizeDeleteRangeOptions_toDeleteRange hnormalized]
      exact Iff.rfl

/-! The ways to fail: a key that is `ÿ`, a prefix that ends in the greatest unit, the prefix itself
in a reverse scan, and the limit of one where the bytes of a key beyond the basic plane come after
those of a key with greater units. -/

/-- Where the bytes of a unit stand: those of surrogates come last. -/
def bytePlace (u : CodeUnit) : CodeUnit :=
  if u.val < 0xd800 then u
  else if u.val < 0xe000 then codeUnit (u.val + 0x2000) else codeUnit (u.val - 0x800)

theorem bytePlace_val (u : CodeUnit) : (bytePlace u).val =
    if u.val < 0xd800 then u.val
    else if u.val < 0xe000 then u.val + 0x2000 else u.val - 0x800 := by
  have hu := u.isLt
  unfold bytePlace
  split_ifs
  · rfl
  · exact codeUnit_val (by omega)
  · exact codeUnit_val (by omega)

theorem bytePlace_injective : Function.Injective bytePlace := by
  intro u v h
  have hval := congrArg Fin.val h
  rw [bytePlace_val, bytePlace_val] at hval
  apply Fin.ext
  split_ifs at hval <;> omega

/-- The order of the keys' bytes. -/
def byteOrder : LMDBStorage.KeyOrder where
  before j k := decide (j.map bytePlace < k.map bytePlace)
  irrefl k := decide_eq_false (lt_irrefl _)
  trans i j k hij hjk := decide_eq_true ((of_decide_eq_true hij).trans (of_decide_eq_true hjk))
  total j k h := by
    have hne : j.map bytePlace ≠ k.map bytePlace := fun heq =>
      h (bytePlace_injective.list_map heq)
    exact (lt_or_gt_of_ne hne).imp decide_eq_true decide_eq_true

def oneKey (key : JsString) : Store Unit := OrderedStore.empty.put key ()

/-- The keys `a～` and `a😀`. -/
def twoKeys : Store Unit :=
  (oneKey [codeUnit 97, codeUnit 0xff5e]).put [codeUnit 97, codeUnit 0xd83d, codeUnit 0xde00] ()

theorem ranges_disagree :
    (MemoryStorage.scan (oneKey [codeUnit 0xff]) [] {} = [] ∧
      MemoryStorage.keys (oneKey [codeUnit 0xff]) [] {} = [] ∧
      MemoryStorage.count (oneKey [codeUnit 0xff]) [] = 0) ∧
    MemoryStorage.count (oneKey [codeUnit 0xffff]) [codeUnit 0xffff] = 0 ∧
    (∀ order, LMDBStorage.scan order (oneKey (js "wf:")) (js "wf:") { reverse := true } = []) ∧
    LMDBStorage.scan byteOrder twoKeys (js "a") { limit := some 1 } =
      [([codeUnit 97, codeUnit 0xff5e], ())] ∧
    MemoryStorage.scan twoKeys (js "a") { limit := some 1 } =
      [([codeUnit 97, codeUnit 0xd83d, codeUnit 0xde00], ())] ∧
    ¬ ∀ (order : LMDBStorage.KeyOrder) (s : Store Unit) (pre : JsString) (o : ScanOptions),
      RangesAgree order s pre o := by
  have hcount : MemoryStorage.count (oneKey [codeUnit 0xff]) [] = 0 := by decide
  refine ⟨⟨by decide, by decide, hcount⟩, by decide, fun order => ?_, by decide, by decide,
    fun h => ?_⟩
  · have hrange : LMDBStorage.getRange order (oneKey (js "wf:"))
        (resolvePrefixRangeEnd (js "wf:")) (js "wf:") true = [] := by
      refine List.filter_eq_nil_iff.2 fun row hrow => ?_
      obtain rfl : row = (js "wf:", ()) := List.mem_singleton.1 hrow
      rw [Bool.and_eq_true, not_and]
      exact fun _ => LMDBStorage.KeyOrder.ahead_irrefl
    rw [LMDBStorage.scan, if_pos rfl, hrange]
    rfl
  · have hagree := (h byteOrder (oneKey [codeUnit 0xff]) [] {}).count
    rw [hcount] at hagree
    exact absurd hagree (by decide)

end Weft.Storage
