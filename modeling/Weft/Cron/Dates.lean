import Weft.Cron.Search

/-! The dates that an expression matches: if there is one at all, there is one within nine years of
any day. -/

namespace Weft.Cron
open Weft.Js

/-- The month and the day match. -/
structure DateMatches (parsed : ParsedCronExpression) (epochDay : Int) : Prop where
  month : (partsOf (epochDay * 86400000)).month ∈ parsed.months.values
  day : matchesDay (partsOf (epochDay * 86400000)) parsed = true

variable {parsed : ParsedCronExpression}

theorem ediv_day (epochDay : Int) : epochDay * 86400000 / 86400000 = epochDay :=
  Int.mul_ediv_cancel _ (by decide)

variable {reading : Int}

theorem dateMatches_iff : DateMatches parsed (reading / 86400000) ↔
      (partsOf reading).month ∈ parsed.months.values ∧
        matchesDay (partsOf reading) parsed = true := by
  have hday : reading / 86400000 * 86400000 / 86400000 = reading / 86400000 := ediv_day _
  have hmonth : (partsOf (reading / 86400000 * 86400000)).month = (partsOf reading).month := by
    rw [partsOf_month, partsOf_month, hday]
  rw [← matchesDay_of_day_eq hday parsed, ← hmonth]
  exact ⟨fun h => ⟨h.month, h.day⟩, fun h => ⟨h.1, h.2⟩⟩

theorem Matches.dateMatches (h : Matches parsed reading) :
    DateMatches parsed (reading / 86400000) :=
  dateMatches_iff.2 ⟨h.month, h.day⟩

theorem Matches.of_parts (hdate : DateMatches parsed (reading / 86400000))
    (hhour : (partsOf reading).hour ∈ parsed.hours.values)
    (hminute : (partsOf reading).minute ∈ parsed.minutes.values)
    (hsecond : (partsOf reading).second ∈ parsed.seconds.values) : Matches parsed reading := by
  obtain ⟨hmonth, hday⟩ := dateMatches_iff.1 hdate
  exact ⟨hmonth, hday, hhour, hminute, hsecond⟩

/-- Within a minute only the second changes. -/
theorem matches_of_same_minute {reading next : Int} (hsame : next / 60000 = reading / 60000)
    (hdate : DateMatches parsed (reading / 86400000))
    (hhour : (partsOf reading).hour ∈ parsed.hours.values)
    (hminute : (partsOf reading).minute ∈ parsed.minutes.values)
    (hsecond : (partsOf next).second ∈ parsed.seconds.values) : Matches parsed next := by
  have hsameDay : next / 86400000 = reading / 86400000 := by omega
  have hsameHour : next / 3600000 = reading / 3600000 := by omega
  refine .of_parts (hsameDay.symm ▸ hdate) ?_ ?_ hsecond
  · simp only [partsOf, hsameHour]
    exact hhour
  · simp only [partsOf, hsame]
    exact hminute

/-! ## Where the search heads for -/

section

variable (hdate : DateMatches parsed (reading / 86400000))

include hdate

theorem aim_of_hour (hhour : (partsOf reading).hour ∉ parsed.hours.values) :
    aim parsed reading = partAim parsed.hours.values 3600000 24 reading := by
  obtain ⟨hmonth, hday⟩ := dateMatches_iff.1 hdate
  unfold aim
  rw [if_neg (not_not.2 hmonth), if_neg (not_not.2 hday), if_pos hhour]

theorem aim_of_minute (hhour : (partsOf reading).hour ∈ parsed.hours.values)
    (hminute : (partsOf reading).minute ∉ parsed.minutes.values) :
    aim parsed reading = partAim parsed.minutes.values 60000 60 reading := by
  obtain ⟨hmonth, hday⟩ := dateMatches_iff.1 hdate
  unfold aim
  rw [if_neg (not_not.2 hmonth), if_neg (not_not.2 hday), if_neg (not_not.2 hhour), if_pos hminute]

theorem aim_of_second (hhour : (partsOf reading).hour ∈ parsed.hours.values)
    (hminute : (partsOf reading).minute ∈ parsed.minutes.values) :
    aim parsed reading = partAim parsed.seconds.values 1000 60 reading := by
  obtain ⟨hmonth, hday⟩ := dateMatches_iff.1 hdate
  unfold aim
  rw [if_neg (not_not.2 hmonth), if_neg (not_not.2 hday), if_neg (not_not.2 hhour),
    if_neg (not_not.2 hminute)]

end

/-- Where the date does not match the search heads for the start of a day, and no day that matches
comes before it. -/
theorem aim_of_date (hwf : parsed.WellFormed) (hnot : ¬ DateMatches parsed (reading / 86400000)) :
    ∃ epochDay, aim parsed reading = epochDay * 86400000 ∧ reading / 86400000 < epochDay ∧
      ∀ matching, reading / 86400000 ≤ matching → DateMatches parsed matching →
        epochDay ≤ matching := by
  unfold aim
  by_cases hmonth : (partsOf reading).month ∈ parsed.months.values
  · have hday : ¬ matchesDay (partsOf reading) parsed = true := fun hbad =>
      hnot (dateMatches_iff.2 ⟨hmonth, hbad⟩)
    rw [if_neg (not_not.2 hmonth), if_pos hday]
    refine ⟨_, rfl, Int.lt_succ _, fun matching hle hmatching => ?_⟩
    have hne : reading / 86400000 ≠ matching := by
      rintro rfl
      exact hnot hmatching
    omega
  · rw [if_pos hmonth]
    rw [partsOf_month] at hmonth
    obtain ⟨hlt, hnone⟩ := monthAim_spec hwf.months.sorted hwf.months.nonempty hwf.months.bounds
      hmonth
    refine ⟨_, rfl, lt_of_not_ge fun hbad => hlt.not_ge (monthStart_le_iff.1 hbad),
      fun matching hle hmatching => ?_⟩
    have hmember := hmatching.month
    rw [partsOf_month, ediv_day] at hmember
    refine monthStart_le_iff.2 (not_lt.1 fun hbad => hnone _ (monthOf_mono hle) hbad hmember)

/-- A day matches by its place in the month, whichever day of the week it is, or by its day of the
week, whatever its place. -/
theorem matchesDay_cases {parts : ZonedParts} (h : matchesDay parts parsed = true) :
    (∀ parts' : ZonedParts, parts'.day = parts.day → matchesDay parts' parsed = true) ∨
      ∀ parts' : ZonedParts, parts'.dayOfWeek = parts.dayOfWeek →
        matchesDay parts' parsed = true := by
  unfold matchesDay at h ⊢
  dsimp only at h ⊢
  split_ifs at h ⊢
  · exact .inl fun _ _ => rfl
  · right
    intro parts' hweek
    rw [hweek]
    exact h
  · left
    intro parts' hday
    rw [hday]
    exact h
  · rw [Bool.or_eq_true] at h
    obtain h | h := h
    · left
      intro parts' hday
      rw [hday, h, Bool.true_or]
    · right
      intro parts' hweek
      rw [hweek, h, Bool.or_true]

/-- A day of a month, counted from one. -/
theorem partsOf_dayOf {month day : Int} (hlow : 1 ≤ day)
    (hhigh : day ≤ monthStart (month + 1) - monthStart month) :
    (partsOf ((monthStart month + day - 1) * 86400000)).month = month % 12 + 1 ∧
      (partsOf ((monthStart month + day - 1) * 86400000)).day = day := by
  have hmonth : monthOf (monthStart month + day - 1) = month := by
    have hge := monthStart_le_iff.1 (show monthStart month ≤ monthStart month + day - 1 by omega)
    have hlt := mt monthStart_le_iff.2
      (show ¬ monthStart (month + 1) ≤ monthStart month + day - 1 by omega)
    omega
  refine ⟨?_, ?_⟩
  · rw [partsOf_month, ediv_day, hmonth]
  · show ((civilDate ((monthStart month + day - 1) * 86400000 / 86400000)).day : Int) = day
    rw [ediv_day, civilDate_day, hmonth]
    omega

theorem monthStart_years (year : Int) : monthStart (12 * (year + 9)) - monthStart
    (12 * year) ≤ 3288 := by
  have hstart : 12 * year = 12 * (year - 1) + 10 + 2 := by omega
  have hnext : 12 * (year + 9) = 12 * (year + 8) + 10 + 2 := by omega
  rw [hnext, hstart, monthStart_march _ (by decide) (by decide), monthStart_march _ (by decide)
    (by decide)]
  omega

/-- Whatever date matches, one like it comes in the next leap year. -/
theorem exists_dateMatches {matching : Int} (h : DateMatches parsed matching) (epochDay : Int) :
    ∃ next, epochDay < next ∧ next ≤ epochDay + 3300 ∧ DateMatches parsed next := by
  obtain ⟨leap, hafter, hwithin, hleap⟩ := exists_leap (monthOf epochDay / 12)
  obtain ⟨index, hindex⟩ : ∃ index, monthOf matching % 12 = index := ⟨_, rfl⟩
  have hindexLow : 0 ≤ index := by omega
  have hindexHigh : index < 12 := by omega
  have hmatching : matching = monthStart (12 * (monthOf matching / 12) + index) +
      ((civilDate matching).day : Int) - 1 := by
    have hmonth : 12 * (monthOf matching / 12) + index = monthOf matching := by omega
    rw [hmonth, civilDate_day]
    omega
  have hlength := le_monthLength leap hindexLow hindexHigh
  have hlonger := monthLength_le (monthOf matching / 12) hleap hindexLow hindexHigh
  obtain ⟨-, -, hday, hstart, hend⟩ := civilDate_bounds matching
  have hwhole : 12 * (monthOf matching / 12) + index = monthOf matching := by omega
  -- a day of the same month of that leap year
  have hnext : ∀ day, 1 ≤ day → day ≤ monthLength leap index →
      epochDay < monthStart (12 * leap + index) + day - 1 ∧
        monthStart (12 * leap + index) + day - 1 ≤ epochDay + 3300 ∧
        (partsOf ((monthStart (12 * leap + index) +
          day - 1) * 86400000)).month ∈ parsed.months.values ∧
        (partsOf ((monthStart (12 * leap + index) + day - 1) * 86400000)).day = day := by
    intro day hlow hhigh
    obtain ⟨hmonth, hdayOf⟩ := partsOf_dayOf hlow hhigh
    have hfirst := monthStart_strictMono.monotone
      (show monthOf epochDay + 1 ≤ 12 * leap + index by omega)
    have hlast := monthStart_strictMono.monotone
      (show 12 * leap + index + 1 ≤ 12 * (monthOf epochDay / 12 + 9) by omega)
    have hyear := monthStart_strictMono.monotone
      (show 12 * (monthOf epochDay / 12) ≤ monthOf epochDay by omega)
    have hyears := monthStart_years (monthOf epochDay / 12)
    obtain ⟨-, -, -, hthis, hthisEnd⟩ := civilDate_bounds epochDay
    unfold monthLength at hhigh
    refine ⟨by omega, by omega, ?_, hdayOf⟩
    have hmember := h.month
    rw [partsOf_month, ediv_day, hindex] at hmember
    rw [hmonth]
    have hmod : (12 * leap + index) % 12 = index := by omega
    rw [hmod]
    exact hmember
  obtain hall | hall := matchesDay_cases h.day
  · have hdayLow : 1 ≤ ((civilDate matching).day : Int) := by omega
    have hdayHigh : ((civilDate matching).day : Int) ≤ monthLength leap index := by
      unfold monthLength at hlonger
      rw [hwhole] at hlonger
      unfold monthLength
      omega
    obtain ⟨hlt, hle, hmonth, hsame⟩ := hnext _ hdayLow hdayHigh
    refine ⟨_, hlt, hle, hmonth, hall _ ?_⟩
    rw [hsame]
    show _ = ((civilDate (matching * 86400000 / 86400000)).day : Int)
    rw [ediv_day]
  · obtain ⟨first, hfirst⟩ : ∃ first, monthStart (12 * leap + index) = first := ⟨_, rfl⟩
    have hdayLow : 1 ≤ (matching - first) % 7 + 1 := by omega
    have hdayHigh : (matching - first) % 7 + 1 ≤ monthLength leap index := by omega
    obtain ⟨hlt, hle, hmonth, -⟩ := hnext _ hdayLow hdayHigh
    refine ⟨_, hlt, hle, hmonth, hall _ ?_⟩
    show ((monthStart (12 * leap + index) +
      ((matching - first) % 7 + 1) - 1) * 86400000 / 86400000 + 4) % 7 =
      (matching * 86400000 / 86400000 + 4) % 7
    rw [ediv_day, ediv_day, hfirst]
    omega

end Weft.Cron
