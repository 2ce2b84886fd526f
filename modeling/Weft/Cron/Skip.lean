import Weft.Cron.Grammar
import Weft.Cron.Formatter

/-! Where the clock has to get to before an expression can match: what one skip of the search passes
over, by the readings of the clock alone. -/

namespace Weft.Cron
open Weft.Js Weft.Lib

/-! ## The values of a field -/

structure ParsedCronExpression.WellFormed (parsed : ParsedCronExpression) : Prop where
  seconds : parsed.seconds.WellFormed secondsSpec
  minutes : parsed.minutes.WellFormed minutesSpec
  hours : parsed.hours.WellFormed hoursSpec
  daysOfMonth : parsed.daysOfMonth.WellFormed daysOfMonthSpec
  months : parsed.months.WellFormed monthsSpec
  daysOfWeek : parsed.daysOfWeek.WellFormed daysOfWeekSpec

variable {parsed : ParsedCronExpression}

theorem ParsedCronExpression.wellFormed {expression : JsString}
    (h : parseCronExpression expression = .ok parsed) : parsed.WellFormed := by
  obtain ⟨hseconds, hfields⟩ := List.forall₂_cons.1 (wellFormed_of_parsed h)
  obtain ⟨hminutes, hfields⟩ := List.forall₂_cons.1 hfields
  obtain ⟨hhours, hfields⟩ := List.forall₂_cons.1 hfields
  obtain ⟨hdaysOfMonth, hfields⟩ := List.forall₂_cons.1 hfields
  obtain ⟨hmonths, hfields⟩ := List.forall₂_cons.1 hfields
  obtain ⟨hdaysOfWeek, -⟩ := List.forall₂_cons.1 hfields
  exact ⟨hseconds, hminutes, hhours, hdaysOfMonth, hmonths, hdaysOfWeek⟩

namespace ParsedCronExpression.WellFormed

variable {parsed : ParsedCronExpression} (h : parsed.WellFormed)

include h

theorem hour_lt : ∀ v ∈ parsed.hours.values, 0 ≤ v ∧ v < 24 := fun v hv =>
  (h.hours.bounds v hv).imp_right Int.lt_add_one_iff.2

theorem minute_lt : ∀ v ∈ parsed.minutes.values, 0 ≤ v ∧ v < 60 := fun v hv =>
  (h.minutes.bounds v hv).imp_right Int.lt_add_one_iff.2

theorem second_lt : ∀ v ∈ parsed.seconds.values, 0 ≤ v ∧ v < 60 := fun v hv =>
  (h.seconds.bounds v hv).imp_right Int.lt_add_one_iff.2

end ParsedCronExpression.WellFormed

/-- The next value, or the first one if there is none. -/
theorem selectNextValue_spec {values : List Int} (hsorted : values.Pairwise (· < ·))
    (hsome : values ≠ [])
    (current : Int) : (selectNextValue values current).value ∈ values ∧
      if (selectNextValue values current).wrapped = true then
        (∀ v ∈ values, v ≤ current) ∧ ∀ v ∈ values, (selectNextValue values current).value ≤ v
      else current < (selectNextValue values current).value ∧
        ∀ v ∈ values, current < v → (selectNextValue values current).value ≤ v := by
  unfold selectNextValue
  cases hfind : values.find? (current < ·) with
  | some value =>
    obtain ⟨hlt, before, after, rfl, hbefore⟩ := List.find?_eq_some_iff_append.1 hfind
    refine ⟨List.mem_append_right _ List.mem_cons_self, ?_⟩
    rw [if_neg Bool.false_ne_true]
    refine ⟨by simpa using hlt, fun v hv hcurrent => ?_⟩
    obtain hv | hv := List.mem_append.1 hv
    · have hnot := hbefore v hv
      simp only [hcurrent, decide_true, Bool.not_true, Bool.false_eq_true] at hnot
    · obtain rfl | hv := List.mem_cons.1 hv
      · exact le_rfl
      · have htail := (List.pairwise_append.1 hsorted).2.1
        exact (List.rel_of_pairwise_cons htail hv).le
  | none =>
    obtain ⟨first, rest, rfl⟩ := List.exists_cons_of_ne_nil hsome
    refine ⟨List.mem_cons_self, ?_⟩
    rw [if_pos rfl]
    refine ⟨fun v hv => ?_, fun v hv => ?_⟩
    · simpa using List.find?_eq_none.1 hfind v hv
    · obtain rfl | hv := List.mem_cons.1 hv
      · exact le_rfl
      · exact (List.rel_of_pairwise_cons hsorted hv).le

/-! ## Within a day -/

section Clock

variable (values : List Int) (unit count reading : Int)

/-- The part of the clock that counts so many units. -/
def clockPart : Int := reading / unit % count

/-- Where the part has its next value, or the one above changes. -/
def partAim : Int :=
  let next := selectNextValue values (clockPart unit count reading)
  if next.wrapped then (reading / (unit * count) + 1) * (unit * count)
  else reading / (unit * count) * (unit * count) + next.value * unit

/-- The reading that is tried first for the value of a part. -/
def firstTry : Int :=
  reading / (unit * count) * (unit * count) +
    (selectNextValue values (clockPart unit count reading)).value * unit

variable {values unit count reading}

theorem clockPart_eq (count reading : Int) (hunit : 0 < unit) :
    reading / unit = reading / (unit * count) * count + clockPart unit count reading := by
  rw [clockPart, ← Int.ediv_ediv_of_nonneg hunit.le, Int.mul_comm]
  exact (Int.mul_ediv_add_emod _ _).symm

/-- On the way to the aim only this part changes, and it has none of the values. -/
theorem partAim_spec (hunit : 0 < unit) (hcount : 0 < count) (hsorted : values.Pairwise (· < ·))
    (hsome : values ≠ []) (hbounds : ∀ v ∈ values, 0 ≤ v ∧ v < count)
    (hnot : clockPart unit count reading ∉ values) :
    reading < partAim values unit count reading ∧ ∀ y, reading ≤ y →
      y < partAim values unit count reading →
      y / (unit * count) = reading / (unit * count) ∧ clockPart unit count y ∉ values := by
  obtain ⟨hmem, hnext⟩ := selectNextValue_spec hsorted hsome (clockPart unit count reading)
  obtain ⟨hvalue, hvalueCount⟩ := hbounds _ hmem
  have hreading := clockPart_eq count reading hunit
  -- the aim in units
  obtain ⟨goal, hgoal, hlt, hle, hnone⟩ : ∃ goal, partAim values unit count reading = goal * unit ∧
      reading / unit < goal ∧ goal ≤ (reading / (unit * count) + 1) * count ∧
        ∀ v ∈ values, clockPart unit count reading ≤ v →
          goal ≤ reading / (unit * count) * count + v := by
    unfold partAim
    dsimp only
    have hpart : clockPart unit count reading < count := Int.emod_lt_of_pos _ hcount
    split_ifs at hnext ⊢ with hwrapped
    · refine ⟨(reading / (unit * count) + 1) * count, by ring, by linarith, le_rfl,
        fun v hv hge => ?_⟩
      have heq := le_antisymm (hnext.1 v hv) hge
      exact (hnot (heq ▸ hv)).elim
    · refine ⟨reading / (unit * count) * count +
        (selectNextValue values (clockPart unit count reading)).value,
        by ring, by linarith [hnext.1], by linarith, fun v hv hge => ?_⟩
      have hne : clockPart unit count reading ≠ v := fun heq => hnot (heq ▸ hv)
      linarith [hnext.2 v hv (lt_of_le_of_ne hge hne)]
  rw [hgoal]
  refine ⟨(Int.ediv_lt_iff_lt_mul hunit).1 hlt, fun y hy hygoal => ?_⟩
  have hlow : reading / unit ≤ y / unit := Int.ediv_le_ediv hunit hy
  have hhigh : y / unit < goal := (Int.ediv_lt_iff_lt_mul hunit).2 hygoal
  have hsame : y / (unit * count) = reading / (unit * count) := by
    apply le_antisymm
    · apply Int.lt_add_one_iff.1
      rw [← Int.ediv_ediv_of_nonneg hunit.le]
      exact (Int.ediv_lt_iff_lt_mul hcount).2 (hhigh.trans_le hle)
    · exact Int.ediv_le_ediv (Int.mul_pos hunit hcount) hy
  refine ⟨hsame, fun hbad => ?_⟩
  have hparts := clockPart_eq count y hunit
  rw [hsame] at hparts
  have hover := hnone _ hbad (by linarith)
  linarith

/-- The aim is the next value of the part, or the part above changes, which it does not where the
part starts from zero. -/
theorem partAim_cases (hunit : 0 < unit) (hcount : 0 < count) (hsorted : values.Pairwise (· < ·))
    (hsome : values ≠ []) (hbounds : ∀ v ∈ values, 0 ≤ v ∧ v < count)
    (hnot : clockPart unit count reading ∉ values) :
    (partAim values unit count reading / (unit * count) = reading / (unit * count) ∧
        clockPart unit count (partAim values unit count reading) ∈ values ∧
        unit ∣ partAim values unit count reading) ∨ clockPart unit count reading ≠ 0 ∧
        partAim values unit count reading = (reading / (unit * count) + 1) * (unit * count) := by
  obtain ⟨hmem, hnext⟩ := selectNextValue_spec hsorted hsome (clockPart unit count reading)
  obtain ⟨hvalue, hvalueCount⟩ := hbounds _ hmem
  unfold partAim
  dsimp only
  split_ifs at hnext ⊢ with hwrapped
  · right
    refine ⟨fun hzero => hnot ?_, rfl⟩
    have heq := le_antisymm ((hnext.1 _ hmem).trans_eq hzero) hvalue
    rw [hzero, ← heq]
    exact hmem
  · left
    have hgoal : reading / (unit * count) * (unit * count) +
        (selectNextValue values (clockPart unit count reading)).value * unit =
        (reading / (unit * count) * count +
          (selectNextValue values (clockPart unit count reading)).value) * unit := by ring
    have hunits : (reading / (unit * count) * count +
        (selectNextValue values (clockPart unit count reading)).value) * unit / unit =
        reading / (unit * count) * count +
          (selectNextValue values (clockPart unit count reading)).value :=
      Int.mul_ediv_cancel _ hunit.ne'
    rw [hgoal]
    refine ⟨?_, ?_, Dvd.intro_left _ rfl⟩
    · rw [← Int.ediv_ediv_of_nonneg hunit.le, hunits, Int.add_comm,
        Int.add_mul_ediv_right _ _ hcount.ne',
        Int.ediv_eq_zero_of_lt hvalue hvalueCount, Int.zero_add]
    · rw [clockPart, hunits, Int.add_comm, Int.add_mul_emod_self_right,
        Int.emod_eq_of_lt hvalue hvalueCount]
      exact hmem

/-- The first try is the aim, or it lies behind and the part above changes. -/
theorem firstTry_cases (hunit : 0 < unit) (hcount : 0 < count) (hsorted : values.Pairwise (· < ·))
    (hsome : values ≠ []) (hbounds : ∀ v ∈ values, 0 ≤ v ∧ v < count)
    (hnot : clockPart unit count reading ∉ values) :
    (firstTry values unit count reading = partAim values unit count reading ∧
        partAim values unit count reading ≤ reading + unit * count) ∨
      (firstTry values unit count reading < reading ∧
        reading - unit * count ≤ firstTry values unit count reading ∧
        partAim values unit count reading = (reading / (unit * count) + 1) * (unit * count)) := by
  obtain ⟨hmem, hnext⟩ := selectNextValue_spec hsorted hsome (clockPart unit count reading)
  obtain ⟨hvalue, hvalueCount⟩ := hbounds _ hmem
  have hsplit := Int.mul_ediv_add_emod reading (unit * count)
  have hrestLow := Int.emod_nonneg reading (Int.mul_pos hunit hcount).ne'
  have hrestHigh := Int.emod_lt_of_pos reading (Int.mul_pos hunit hcount)
  have hvalueLow := Int.mul_nonneg hvalue hunit.le
  have hvalueHigh := Int.mul_le_mul_of_nonneg_right hvalueCount.le hunit.le
  unfold firstTry partAim
  dsimp only
  split_ifs at hnext ⊢ with hwrapped
  · right
    have hne : (selectNextValue values (clockPart unit count reading)).value ≠
        clockPart unit count reading := fun heq => hnot (heq ▸ hmem)
    have hlt := lt_of_le_of_ne (hnext.1 _ hmem) hne
    have hreading := clockPart_eq count reading hunit
    have hunits : reading / (unit * count) * count +
        (selectNextValue values (clockPart unit count reading)).value + 1 ≤
          reading / unit := by linarith
    have hle := (Int.le_ediv_iff_mul_le hunit).1 hunits
    exact ⟨by linarith, by linarith, rfl⟩
  · exact .inl ⟨rfl, by linarith⟩

theorem dvd_firstTry (h : 1000 ∣ unit) : 1000 ∣ firstTry values unit count reading :=
  dvd_add (Dvd.dvd.mul_left (Dvd.dvd.mul_right h count) _) (Dvd.dvd.mul_left h _)

end Clock

/-! ## Months -/

/-- The next month that is one of those given, where January is the first. -/
def monthAim (months : List Int) (month : Int) : Int :=
  let next := selectNextValue months (month % 12 + 1)
  12 * (month / 12 + (if next.wrapped then 1 else 0)) + next.value - 1

theorem monthAim_spec {months : List Int} (hsorted : months.Pairwise (· < ·)) (hsome : months ≠ [])
    (hbounds : ∀ v ∈ months, 1 ≤ v ∧ v ≤ 12) {month : Int} (hnot : month % 12 + 1 ∉ months) :
    month < monthAim months month ∧ ∀ m, month ≤ m → m < monthAim months month →
      m % 12 + 1 ∉ months := by
  obtain ⟨hmem, hnext⟩ := selectNextValue_spec hsorted hsome (month % 12 + 1)
  obtain ⟨hlow, hhigh⟩ := hbounds _ hmem
  have hother : ∀ m, m % 12 + 1 ∈ months → m % 12 ≠ month % 12 := by
    intro m hm heq
    rw [heq] at hm
    exact hnot hm
  unfold monthAim
  dsimp only
  split_ifs at hnext ⊢ with hwrapped
  · refine ⟨by omega, fun m hm hmaim hbad => ?_⟩
    have hle := hnext.1 _ hbad
    have hge := hnext.2 _ hbad
    have hne := hother m hbad
    omega
  · refine ⟨by omega, fun m hm hmaim hbad => ?_⟩
    have hge := hnext.2 _ hbad
    have hne := hother m hbad
    omega

/-! ## Skips -/

/-- The fields of the expression match what the clock shows. -/
structure Matches (parsed : ParsedCronExpression) (reading : Int) : Prop where
  month : (partsOf reading).month ∈ parsed.months.values
  day : matchesDay (partsOf reading) parsed = true
  hour : (partsOf reading).hour ∈ parsed.hours.values
  minute : (partsOf reading).minute ∈ parsed.minutes.values
  second : (partsOf reading).second ∈ parsed.seconds.values

instance Matches.decidable (parsed : ParsedCronExpression) (reading : Int) :
    Decidable (Matches parsed reading) :=
  decidable_of_iff
    ((partsOf reading).month ∈ parsed.months.values ∧ matchesDay (partsOf reading) parsed = true ∧
      (partsOf reading).hour ∈ parsed.hours.values ∧
        (partsOf reading).minute ∈ parsed.minutes.values ∧
        (partsOf reading).second ∈ parsed.seconds.values)
    ⟨fun h => ⟨h.1, h.2.1, h.2.2.1, h.2.2.2.1, h.2.2.2.2⟩,
      fun h => ⟨h.month, h.day, h.hour, h.minute, h.second⟩⟩

/-- The reading that the search heads for from one that does not match. -/
def aim (parsed : ParsedCronExpression) (reading : Int) : Int :=
  if (partsOf reading).month ∉ parsed.months.values then
    monthStart (monthAim parsed.months.values (monthOf (reading / 86400000))) * 86400000
  else if ¬ matchesDay (partsOf reading) parsed then (reading / 86400000 + 1) * 86400000
  else if (partsOf reading).hour ∉ parsed.hours.values then partAim parsed.hours.values 3600000 24
    reading
  else if (partsOf reading).minute ∉ parsed.minutes.values then
    partAim parsed.minutes.values 60000 60 reading
  else partAim parsed.seconds.values 1000 60 reading

theorem partsOf_month (reading : Int) :
    (partsOf reading).month = monthOf (reading / 86400000) % 12 + 1 :=
  civilDate_month _

theorem matchesDay_congr {parts parts' : ZonedParts} (hday : parts.day = parts'.day)
    (hweek : parts.dayOfWeek = parts'.dayOfWeek) (parsed : ParsedCronExpression) :
    matchesDay parts parsed = matchesDay parts' parsed := by
  unfold matchesDay
  rw [hday, hweek]

/-- All readings of a day match the same days. -/
theorem matchesDay_of_day_eq {x y : Int} (h : x / 86400000 = y / 86400000)
    (parsed : ParsedCronExpression) : matchesDay (partsOf x) parsed = matchesDay
      (partsOf y) parsed := by
  apply matchesDay_congr
  · simp only [partsOf, h]
  · simp only [partsOf, h]

/-- Nothing matches before the clock gets to the aim. -/
theorem aim_spec (hwf : parsed.WellFormed) {reading : Int} (hnot : ¬ Matches parsed reading) :
    reading < aim parsed reading ∧ ∀ y, reading ≤ y → y < aim parsed reading →
      ¬ Matches parsed y := by
  unfold aim
  by_cases hmonth : (partsOf reading).month ∈ parsed.months.values
  · by_cases hday : matchesDay (partsOf reading) parsed = true
    · rw [if_neg (not_not.2 hmonth), if_neg (not_not.2 hday)]
      by_cases hhour : (partsOf reading).hour ∈ parsed.hours.values
      · rw [if_neg (not_not.2 hhour)]
        by_cases hminute : (partsOf reading).minute ∈ parsed.minutes.values
        · rw [if_neg (not_not.2 hminute)]
          have hsecond : (partsOf reading).second ∉ parsed.seconds.values := fun hbad =>
            hnot ⟨hmonth, hday, hhour, hminute, hbad⟩
          obtain ⟨hlt, hnone⟩ := partAim_spec (by decide) (by decide)
            hwf.seconds.sorted hwf.seconds.nonempty hwf.second_lt hsecond
          exact ⟨hlt, fun y hy hyaim hbad => (hnone y hy hyaim).2 hbad.second⟩
        · rw [if_pos hminute]
          obtain ⟨hlt, hnone⟩ := partAim_spec (by decide) (by decide)
            hwf.minutes.sorted hwf.minutes.nonempty hwf.minute_lt hminute
          exact ⟨hlt, fun y hy hyaim hbad => (hnone y hy hyaim).2 hbad.minute⟩
      · rw [if_pos hhour]
        obtain ⟨hlt, hnone⟩ := partAim_spec (by decide) (by decide)
          hwf.hours.sorted hwf.hours.nonempty hwf.hour_lt hhour
        exact ⟨hlt, fun y hy hyaim hbad => (hnone y hy hyaim).2 hbad.hour⟩
    · rw [if_neg (not_not.2 hmonth), if_pos hday]
      refine ⟨by omega, fun y hy hyaim hbad => hday ?_⟩
      rw [matchesDay_of_day_eq (y := y) (by omega)]
      exact hbad.day
  · rw [if_pos hmonth]
    rw [partsOf_month] at hmonth
    obtain ⟨hlt, hnone⟩ := monthAim_spec hwf.months.sorted hwf.months.nonempty hwf.months.bounds
      hmonth
    constructor
    · have hday := lt_of_not_ge fun hbad => hlt.not_ge (monthStart_le_iff.1 hbad)
      omega
    · intro y hy hyaim hbad
      have hmonthBad := hbad.month
      rw [partsOf_month] at hmonthBad
      refine hnone _ (monthOf_mono (by omega)) (lt_of_not_ge fun hle => ?_) hmonthBad
      have hday := monthStart_le_iff.2 hle
      omega

end Weft.Cron
