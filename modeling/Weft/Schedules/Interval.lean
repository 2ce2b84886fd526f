import Weft.Schedules.Model
import Weft.Js.Number
import Weft.Lib.Except

/-! Interval occurrences on the numbers of the language: instants may be fractions, which are
rounded up, and what passes the safe integers is refused. -/

namespace Weft.Schedules.Interval
open Weft.Js Weft.Lib

inductive OccurrenceError where
  | period
  | maxOccurrences
  | notFinite (fieldName : String) (timestamp : ℚ)
  | notSafe (fieldName : String) (timestamp : ℚ)
deriving DecidableEq

/-- Of the finite numbers; the others are refused as the negative ones are. -/
def normalizeStorageTimestamp (timestamp : ℚ) (fieldName : String) :
    Except OccurrenceError Nat :=
  if timestamp < 0 then .error (.notFinite fieldName timestamp)
  else if maxSafeInteger < ⌈timestamp⌉.toNat then .error (.notSafe fieldName timestamp)
  else .ok ⌈timestamp⌉.toNat

def assertPositiveInterval (intervalMilliseconds : Int) : Except OccurrenceError Unit :=
  if maxSafeInteger < intervalMilliseconds ∨ intervalMilliseconds ≤ 0 then .error .period
  else .ok ()

/-- The sum of two safe integers as a number: of those past `2 ^ 53` only the even ones are. -/
def roundedSum (x y : Nat) : Nat :=
  let sum := x + y
  if sum ≤ 2 ^ 53 ∨ sum % 2 = 0 then sum else if sum % 4 = 1 then sum - 1 else sum + 1

/-- A candidate that is not safe stays so when it is rounded, and the quotient of two safe integers
rounds to none that is above it. -/
def getNextIntervalOccurrence (anchorTimestamp : ℚ) (intervalMilliseconds : Int)
    (afterTimestamp : ℚ) : Except OccurrenceError Nat := do
  assertPositiveInterval intervalMilliseconds
  let normalizedAnchor ← normalizeStorageTimestamp anchorTimestamp "Interval anchor"
  let normalizedAfter ← normalizeStorageTimestamp afterTimestamp "Interval occurrence candidate"
  if normalizedAfter < normalizedAnchor then
    return roundedSum normalizedAnchor intervalMilliseconds.toNat
  let elapsed := normalizedAfter - normalizedAnchor
  let completedIntervals := elapsed / intervalMilliseconds.toNat
  let candidate := normalizedAnchor + (completedIntervals + 1) * intervalMilliseconds.toNat
  normalizeStorageTimestamp candidate "Interval occurrence"

/-- The loop, with the occurrences it has collected; without `maxOccurrences` they are not
counted. -/
def collectLoop (anchorTimestamp : ℚ) (intervalMilliseconds : Int) (throughTimestamp : ℚ)
    (maxOccurrences : Option Int) : (fuel : Nat) → (nextOccurrence : ℚ) →
    (dueOccurrences : List ℚ) → Except OccurrenceError (List ℚ)
  | 0, _, dueOccurrences => .ok dueOccurrences
  | fuel + 1, nextOccurrence, dueOccurrences =>
    if nextOccurrence ≤ throughTimestamp ∧ ∀ m ∈ maxOccurrences, dueOccurrences.length < m then do
      let next ← getNextIntervalOccurrence anchorTimestamp intervalMilliseconds nextOccurrence
      collectLoop anchorTimestamp intervalMilliseconds throughTimestamp maxOccurrences fuel next
        (dueOccurrences ++ [nextOccurrence])
    else .ok dueOccurrences

/-- The loop goes up by a millisecond at least. -/
def collectDueIntervalOccurrences (anchorTimestamp : ℚ) (intervalMilliseconds : Int)
    (firstDueAt throughTimestamp : ℚ) (maxOccurrences : Option Int) :
    Except OccurrenceError (List ℚ) := do
  assertPositiveInterval intervalMilliseconds
  if ∃ m ∈ maxOccurrences, maxSafeInteger < m ∨ m ≤ 0 then throw .maxOccurrences
  collectLoop anchorTimestamp intervalMilliseconds throughTimestamp maxOccurrences
    ((⌊throughTimestamp⌋ - ⌊firstDueAt⌋ + 1).toNat + 1) firstDueAt []

/-- The occurrences of an interval are counted from the anchor, which is none itself. -/
def OnGrid (anchorTimestamp : ℚ) (interval t : Nat) : Prop :=
  ∃ n, 1 ≤ n ∧ t = ⌈anchorTimestamp⌉.toNat + n * interval

/-- A timestamp that `normalizeStorageTimestamp` takes. -/
def IsInstant (timestamp : ℚ) : Prop := 0 ≤ timestamp ∧ ⌈timestamp⌉.toNat ≤ maxSafeInteger

theorem normalize_of_isInstant {timestamp : ℚ} (h : IsInstant timestamp) (fieldName : String) :
    normalizeStorageTimestamp timestamp fieldName = .ok ⌈timestamp⌉.toNat := by
  rw [normalizeStorageTimestamp, if_neg (not_lt.2 h.1), if_neg (not_lt.2 h.2)]

theorem isInstant_natCast {n : Nat} (h : n ≤ maxSafeInteger) : IsInstant n :=
  ⟨Nat.cast_nonneg n, by simpa using h⟩

variable {interval : Nat}

theorem assertPositiveInterval_ok (hpos : 0 < interval) (hsafe : interval ≤ maxSafeInteger) :
    assertPositiveInterval interval = .ok () := by
  rw [assertPositiveInterval, if_neg]
  omega

/-- Of instants in the safe range, the code's occurrence is that of the schedule model. -/
theorem getNextIntervalOccurrence_eq {anchor after : ℚ} (hanchor : IsInstant anchor)
    (hafter : IsInstant after) (hpos : 0 < interval) (hinterval : interval ≤ maxSafeInteger)
    (hsafe : Schedules.getNextIntervalOccurrence ⌈anchor⌉.toNat interval ⌈after⌉.toNat ≤
      maxSafeInteger) :
    getNextIntervalOccurrence anchor interval after =
      .ok (Schedules.getNextIntervalOccurrence ⌈anchor⌉.toNat interval ⌈after⌉.toNat) := by
  rw [getNextIntervalOccurrence, assertPositiveInterval_ok hpos hinterval,
    normalize_of_isInstant hanchor, normalize_of_isInstant hafter]
  unfold Schedules.getNextIntervalOccurrence at hsafe ⊢
  simp only [bind, Except.bind, Int.toNat_natCast]
  split_ifs at hsafe ⊢ with hbefore
  · have hexact : roundedSum ⌈anchor⌉.toNat interval = ⌈anchor⌉.toNat + interval := by
      rw [roundedSum, if_pos]
      left
      unfold maxSafeInteger at hsafe
      omega
    rw [hexact]
    rfl
  · rw [normalize_of_isInstant (isInstant_natCast hsafe), Int.ceil_natCast, Int.toNat_natCast]

/-- The next occurrence is the least one after the instant. -/
theorem isLeast_next (anchor : ℚ) (hpos : 0 < interval) (after : Nat) :
    IsLeast {t | OnGrid anchor interval t ∧ after < t}
      (Schedules.getNextIntervalOccurrence ⌈anchor⌉.toNat interval after) := by
  refine ⟨⟨?_, getNextIntervalOccurrence_advances _ _ hpos⟩, ?_⟩
  · unfold Schedules.getNextIntervalOccurrence
    split_ifs
    · exact ⟨1, le_rfl, by rw [one_mul]⟩
    · exact ⟨_, Nat.le_add_left 1 _, rfl⟩
  · rintro t ⟨⟨n, hn, rfl⟩, hafter⟩
    unfold Schedules.getNextIntervalOccurrence
    split_ifs with hbefore
    · exact Nat.add_le_add_left (Nat.le_mul_of_pos_left interval hn) _
    · refine Nat.add_le_add_left (Nat.mul_le_mul_right interval ?_) _
      exact (Nat.div_lt_iff_lt_mul hpos).2 (by omega)

variable {anchor : ℚ}

theorem next_of_onGrid {interval t : Nat} (h : OnGrid anchor interval t) (hpos : 0 < interval) :
    Schedules.getNextIntervalOccurrence ⌈anchor⌉.toNat interval t = t + interval := by
  obtain ⟨n, -, rfl⟩ := h
  rw [Schedules.getNextIntervalOccurrence, if_neg (by omega), Nat.add_sub_cancel_left,
    Nat.mul_div_cancel _ hpos]
  ring

theorem OnGrid.add {interval t : Nat} (h : OnGrid anchor interval t) (k : Nat) :
    OnGrid anchor interval (t + k * interval) := by
  obtain ⟨n, hn, rfl⟩ := h
  exact ⟨n + k, by omega, by ring⟩

/-- The loop collects the occurrences up to the one that is past the window or past the cap. -/
theorem collectLoop_eq {anchor through : ℚ} {cap : Option Int} (hanchor : IsInstant anchor)
    (hpos : 0 < interval) (hinterval : interval ≤ maxSafeInteger) (k fuel first : Nat)
    (due : List ℚ) (hfirst : OnGrid anchor interval first) (hfuel : k < fuel)
    (hinside : ∀ j < k, ((first + j * interval : Nat) : ℚ) ≤ through)
    (hcap : ∀ m ∈ cap, ∀ j < k, ((due.length + j : Nat) : Int) < m)
    (hend : through < ((first + k * interval : Nat) : ℚ) ∨
      ∃ m ∈ cap, m ≤ ((due.length + k : Nat) : Int))
    (hsafe : ∀ j < k, first + (j + 1) * interval ≤ maxSafeInteger) :
    collectLoop anchor interval through cap fuel first due =
      .ok (due ++ (List.range k).map fun j => ((first + j * interval : Nat) : ℚ)) := by
  induction k generalizing fuel first due with
  | zero =>
    obtain ⟨fuel, rfl⟩ : ∃ n, fuel = n + 1 := ⟨fuel - 1, by omega⟩
    rw [collectLoop, if_neg]
    · simp
    · rintro ⟨hthrough, hcount⟩
      obtain hpast | ⟨m, hm, hle⟩ := hend
      · rw [Nat.zero_mul, Nat.add_zero] at hpast
        exact absurd hthrough (not_le.2 hpast)
      · exact absurd (hcount m hm) (not_lt.2 hle)
  | succ k ih =>
    obtain ⟨fuel, rfl⟩ : ∃ n, fuel = n + 1 := ⟨fuel - 1, by omega⟩
    have hnext : first + interval ≤ maxSafeInteger := by
      simpa using hsafe 0 (Nat.succ_pos k)
    have hstep : getNextIntervalOccurrence anchor interval first = .ok (first + interval) := by
      have hceil : ⌈(first : ℚ)⌉.toNat = first := by simp
      have hinstant : IsInstant (first : ℚ) := isInstant_natCast (by omega)
      have heq := getNextIntervalOccurrence_eq hanchor hinstant hpos hinterval
      rw [hceil, next_of_onGrid hfirst hpos] at heq
      exact heq hnext
    have hmore := ih fuel (first + interval) (due ++ [(first : ℚ)])
      (by simpa using hfirst.add 1) (by omega)
      (fun j hj => by
        rw [show first + interval + j * interval = first + (j + 1) * interval by ring]
        exact hinside (j + 1) (by omega))
      (fun m hm j hj => by
        have hlt := hcap m hm (j + 1) (by omega)
        rw [List.length_append, List.length_singleton]
        omega)
      (by
        rw [show first + interval + k * interval = first + (k + 1) * interval by ring,
          List.length_append, List.length_singleton,
          show due.length + 1 + k = due.length + (k + 1) by omega]
        exact hend)
      (fun j hj => by
        rw [show first + interval + (j + 1) * interval = first + (j + 1 + 1) * interval by ring]
        exact hsafe (j + 1) (by omega))
    rw [collectLoop, if_pos, hstep]
    · refine hmore.trans ?_
      rw [List.range_succ_eq_map, List.map_cons, List.map_map, List.append_assoc]
      congr 2
      refine List.cons_eq_cons.2 ⟨by simp, List.map_congr_left fun j _ => ?_⟩
      simp only [Function.comp_apply, Nat.succ_eq_add_one]
      congr 1
      ring
    · refine ⟨by simpa using hinside 0 (Nat.succ_pos k), fun m hm => ?_⟩
      simpa using hcap m hm 0 (Nat.succ_pos k)

/-- How many occurrences there are from one of them up to the end of a window. -/
def dueCount (interval first : Nat) (through : ℚ) : Nat :=
  if (first : ℚ) ≤ through then (⌊through⌋.toNat - first) / interval + 1 else 0

variable {interval first : Nat}

theorem lt_dueCount_iff {through : ℚ} (hpos : 0 < interval) (j : Nat) :
    j < dueCount interval first through ↔ ((first + j * interval : Nat) : ℚ) ≤ through := by
  unfold dueCount
  split_ifs with hinside
  · have hfloor := Int.le_floor.2 (show ((first : Int) : ℚ) ≤ through by simpa using hinside)
    have hle : ((first + j * interval : Nat) : ℚ) ≤ through ↔
        first + j * interval ≤ ⌊through⌋.toNat := by
      rw [show ((first + j * interval : Nat) : ℚ) = ((first + j * interval : Nat) : Int) by simp,
        ← Int.le_floor]
      omega
    rw [hle, Nat.lt_succ_iff, Nat.le_div_iff_mul_le hpos]
    omega
  · refine ⟨fun h => absurd h (Nat.not_lt_zero j), fun h => absurd ?_ hinside⟩
    exact le_trans (by exact_mod_cast Nat.le_add_right first _) h

/-- The occurrences from one of them up to the end of a window. -/
def duePoints (interval first : Nat) (through : ℚ) : List Nat :=
  (List.range (dueCount interval first through)).map fun j => first + j * interval

theorem pairwise_duePoints (hpos : 0 < interval) (first : Nat) (through : ℚ) :
    (duePoints interval first through).Pairwise (· < ·) := by
  refine List.pairwise_map.2 (List.pairwise_lt_range.imp fun hlt => ?_)
  exact Nat.add_lt_add_left (Nat.mul_lt_mul_of_pos_right hlt hpos) first

theorem mem_duePoints {through : ℚ} (hpos : 0 < interval) (hfirst : OnGrid anchor interval first)
    (t : Nat) : t ∈ duePoints interval first through ↔
      OnGrid anchor interval t ∧ first ≤ t ∧ (t : ℚ) ≤ through := by
  simp only [duePoints, List.mem_map, List.mem_range, lt_dueCount_iff hpos]
  constructor
  · rintro ⟨j, hj, rfl⟩
    exact ⟨hfirst.add j, Nat.le_add_right _ _, hj⟩
  · rintro ⟨⟨n, -, rfl⟩, hle, hthrough⟩
    obtain ⟨m, -, rfl⟩ := hfirst
    have hmn : m ≤ n := by
      by_contra hlt
      exact absurd hle (by nlinarith [Nat.mul_lt_mul_of_pos_right (Nat.lt_of_not_le hlt) hpos])
    obtain ⟨j, rfl⟩ := Nat.exists_eq_add_of_le hmn
    have heq : ⌈anchor⌉.toNat + m * interval + j * interval =
        ⌈anchor⌉.toNat + (m + j) * interval := by ring
    exact ⟨j, by rwa [heq], heq⟩

/-- What is collected: all that are due, or the first of them. -/
theorem collectDueIntervalOccurrences_eq {anchor through : ℚ} {cap : Option Int}
    (hanchor : IsInstant anchor) (hpos : 0 < interval) (hinterval : interval ≤ maxSafeInteger)
    (hfirst : OnGrid anchor interval first) (hcap : ∀ m ∈ cap, 0 < m ∧ m ≤ maxSafeInteger)
    (hsafe : ∀ t ∈ cap.elim (duePoints interval first through) fun m =>
      (duePoints interval first through).take m.toNat, t + interval ≤ maxSafeInteger) :
    collectDueIntervalOccurrences anchor interval first through cap =
      .ok ((cap.elim (duePoints interval first through)
        fun m => (duePoints interval first through).take m.toNat).map Nat.cast) := by
  obtain ⟨k, hk⟩ : ∃ k, k = cap.elim (dueCount interval first through)
    fun m => min m.toNat (dueCount interval first through) := ⟨_, rfl⟩
  have hle : k ≤ dueCount interval first through := by
    cases cap with
    | none => exact hk.le
    | some m => exact hk.le.trans (Nat.min_le_right _ _)
  have hpoints : (cap.elim (duePoints interval first through)
      fun m => (duePoints interval first through).take m.toNat) =
      (List.range k).map fun j => first + j * interval := by
    cases cap with
    | none => rw [hk]; rfl
    | some m =>
      rw [hk]
      simp only [Option.elim_some, duePoints]
      rw [← List.map_take, List.take_range]
  rw [hpoints] at hsafe ⊢
  have hfuel : k < (⌊through⌋ - ⌊(first : ℚ)⌋ + 1).toNat + 1 := by
    rw [Int.floor_natCast]
    refine Nat.lt_succ_of_le (hle.trans ?_)
    unfold dueCount
    split_ifs with hinside
    · have hdiv := Nat.div_le_self (⌊through⌋.toNat - first) interval
      have hfloor := Int.le_floor.2 (show ((first : Int) : ℚ) ≤ through by simpa using hinside)
      omega
    · exact Nat.zero_le _
  rw [collectDueIntervalOccurrences, assertPositiveInterval_ok hpos hinterval]
  simp only [bind, Except.bind]
  rw [if_neg]
  · refine (collectLoop_eq hanchor hpos hinterval k _ first [] hfirst hfuel
      (fun j hj => (lt_dueCount_iff hpos j).1 (hj.trans_le hle)) ?_ ?_ ?_).trans ?_
    · intro m hm j hj
      obtain rfl : cap = some m := hm
      have := (hcap m rfl).1
      simp only [Option.elim_some] at hk
      simp only [List.length_nil]
      omega
    · cases cap with
      | none =>
        left
        rw [hk]
        exact not_le.1 fun h => lt_irrefl _ ((lt_dueCount_iff hpos _).2 h)
      | some m =>
        simp only [Option.elim_some] at hk
        obtain hmin | hmin := Nat.le_total m.toNat (dueCount interval first through)
        · rw [Nat.min_eq_left hmin] at hk
          exact .inr ⟨m, rfl, by simp [hk]⟩
        · rw [Nat.min_eq_right hmin] at hk
          left
          rw [hk]
          exact not_le.1 fun h => lt_irrefl _ ((lt_dueCount_iff hpos _).2 h)
    · intro j hj
      have := hsafe (first + j * interval) (List.mem_map.2 ⟨j, List.mem_range.2 hj, rfl⟩)
      rw [Nat.succ_mul]
      omega
    · rw [List.nil_append, List.map_map]
      rfl
  · rintro ⟨m, hm, hbad⟩
    have := hcap m hm
    omega

/-- The next occurrence is the least after an instant, and a window that begins with an occurrence
is collected in order, as long as what is computed is safe. -/
theorem interval_occurrences :
    (∀ (anchor after : ℚ) (interval : Nat), IsInstant anchor → IsInstant after → 0 < interval →
      interval ≤ maxSafeInteger →
      ∃ next, IsLeast {t | OnGrid anchor interval t ∧ ⌈after⌉.toNat < t} next ∧
        (next ≤ maxSafeInteger → getNextIntervalOccurrence anchor interval after = .ok next)) ∧
    ∀ (anchor through : ℚ) (interval first : Nat) (cap : Option Int), IsInstant anchor →
      0 < interval → interval ≤ maxSafeInteger → OnGrid anchor interval first →
      (∀ m ∈ cap, 0 < m ∧ m ≤ maxSafeInteger) →
      ∃ points : List Nat, points.Pairwise (· < ·) ∧
        (∀ t, t ∈ points ↔ OnGrid anchor interval t ∧ first ≤ t ∧ (t : ℚ) ≤ through) ∧
        ((∀ t ∈ cap.elim points fun m => points.take m.toNat, t + interval ≤ maxSafeInteger) →
          collectDueIntervalOccurrences anchor interval first through cap =
            .ok ((cap.elim points fun m => points.take m.toNat).map Nat.cast)) := by
  constructor
  · intro anchor after interval hanchor hafter hpos hinterval
    exact ⟨_, isLeast_next anchor hpos _,
      getNextIntervalOccurrence_eq hanchor hafter hpos hinterval⟩
  · intro anchor through interval first cap hanchor hpos hinterval hfirst hcap
    exact ⟨duePoints interval first through, pairwise_duePoints hpos first through,
      mem_duePoints hpos hfirst,
        collectDueIntervalOccurrences_eq hanchor hpos hinterval hfirst hcap⟩

theorem isInstant_zero : IsInstant 0 := ⟨le_rfl, by simp⟩

theorem onGrid_ten : OnGrid 0 10 10 := ⟨1, le_rfl, by simp⟩

theorem interval_occurrences_ten :
    (∃ next, IsLeast {t | OnGrid 0 10 t ∧ ⌈(25 : ℚ)⌉.toNat < t} next ∧
      (next ≤ maxSafeInteger → getNextIntervalOccurrence 0 10 25 = .ok next)) ∧
    ∃ points : List Nat, points.Pairwise (· < ·) ∧
      (∀ t, t ∈ points ↔ OnGrid 0 10 t ∧ 10 ≤ t ∧ (t : ℚ) ≤ 35) ∧
      ((∀ t ∈ points.take 2, t + 10 ≤ maxSafeInteger) →
        collectDueIntervalOccurrences 0 10 10 35 (some 2) = .ok
          ((points.take 2).map Nat.cast)) := by
  constructor
  · exact interval_occurrences.1 0 25 10 isInstant_zero ⟨by norm_num, by decide +kernel⟩ (by decide)
      (by decide)
  · exact_mod_cast interval_occurrences.2 0 35 10 10 (some 2) isInstant_zero (by decide) (by decide)
      onGrid_ten (fun m hm => by obtain rfl := Option.some.inj hm; decide)

/-- A window that begins between two occurrences is collected with its beginning. -/
theorem collects_window_start :
    collectDueIntervalOccurrences 0 10 5 20 none = .ok [5, 10, 20] ∧ ¬ OnGrid 0 10 5 := by
  refine ⟨by decide +kernel, ?_⟩
  rintro ⟨n, hn, heq⟩
  simp only [Int.ceil_zero, Int.toNat_zero, Nat.zero_add] at heq
  omega

end Weft.Schedules.Interval
