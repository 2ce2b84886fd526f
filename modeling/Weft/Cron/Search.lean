import Weft.Cron.Skip

/-! The search on a clock that is never set: a step leads to where the search heads for, and nothing
is skipped that matches. -/

namespace Weft.Cron
open Weft.Js Weft.Lib

/-! ## The local times that are tried -/

theorem localOf_day (reading hour minute second : Int) (hhour : 0 ≤ hour ∧ hour < 24)
    (hminute : 0 ≤ minute ∧ minute < 60) (hsecond : 0 ≤ second ∧ second < 60) :
    { startOfLocalDay (partsOf reading) with hour := hour, minute := minute, second := second } =
      localOf (reading / 86400000 * 86400000 + hour * 3600000 + minute * 60000 + second * 1000) :=
  (localOf_of_time (reading / 86400000) hour minute second hhour hminute hsecond).symm

theorem partsOf_time_bounds (reading : Int) :
    (0 ≤ (partsOf reading).hour ∧ (partsOf reading).hour < 24) ∧
      (0 ≤ (partsOf reading).minute ∧ (partsOf reading).minute < 60) := by
  simp only [partsOf]
  omega

theorem startOfLocalDay_eq (reading : Int) :
    startOfLocalDay (partsOf reading) = localOf (reading / 86400000 * 86400000) := by
  have hlocal := localOf_day reading 0 0 0 (by decide) (by decide) (by decide)
  rw [Int.zero_mul, Int.zero_mul, Int.zero_mul, Int.add_zero, Int.add_zero, Int.add_zero] at hlocal
  exact hlocal

theorem startOfLocalHour_eq (reading : Int) :
    { startOfLocalDay (partsOf reading) with hour := (partsOf reading).hour } =
      localOf (reading / 3600000 * 3600000) := by
  have hlocal := localOf_day reading _ 0 0 (partsOf_time_bounds reading).1 (by decide) (by decide)
  have hstart : reading / 86400000 * 86400000 + (partsOf reading).hour * 3600000 + 0 * 60000 +
    0 * 1000 =
      reading / 3600000 * 3600000 := by
    simp only [partsOf]
    omega
  rw [hstart] at hlocal
  exact hlocal

theorem startOfLocalMinute_eq (reading : Int) :
    { startOfLocalDay (partsOf reading) with
      hour := (partsOf reading).hour, minute := (partsOf reading).minute } =
      localOf (reading / 60000 * 60000) := by
  obtain ⟨hhour, hminute⟩ := partsOf_time_bounds reading
  have hlocal := localOf_day reading _ _ 0 hhour hminute (by decide)
  have hstart : reading / 86400000 * 86400000 + (partsOf reading).hour * 3600000 +
      (partsOf reading).minute * 60000 + 0 * 1000 = reading / 60000 * 60000 := by
    simp only [partsOf]
    omega
  rw [hstart] at hlocal
  exact hlocal

section Tries

variable {parsed : ParsedCronExpression} (hwf : parsed.WellFormed) (reading : Int)

include hwf

theorem monthTry_eq :
    { year := (partsOf reading).year +
        (if (selectNextValue parsed.months.values (partsOf reading).month).wrapped then 1 else 0)
      month := (selectNextValue parsed.months.values (partsOf reading).month).value
      day := 1
      hour := 0
      minute := 0
      second := 0 } =
      localOf (monthStart (monthAim parsed.months.values
        (monthOf (reading / 86400000))) * 86400000) := by
  have hvalue := hwf.months.bounds _
    (selectNextValue_spec hwf.months.sorted hwf.months.nonempty (partsOf reading).month).1
  have hyear : (partsOf reading).year = monthOf (reading / 86400000) / 12 := civilDate_year _
  have htime := localOf_of_time (monthStart (monthAim parsed.months.values
    (monthOf (reading / 86400000)))) 0 0 0 (by decide) (by decide) (by decide)
  simp only [Int.zero_mul, Int.add_zero] at htime
  rw [htime, civilDate_year, civilDate_month, civilDate_day, monthOf_monthStart, hyear]
  rw [partsOf_month] at hvalue ⊢
  unfold monthAim
  dsimp only
  have hlow : monthsSpec.minimum = 1 := rfl
  have hhigh : monthsSpec.maximum = 12 := rfl
  rw [LocalDateTime.mk.injEq]
  refine ⟨by omega, by omega, by omega, rfl, rfl, rfl⟩

theorem hourTry_eq :
    { startOfLocalDay (partsOf reading) with
      hour := (selectNextValue parsed.hours.values (partsOf reading).hour).value } =
      localOf (firstTry parsed.hours.values 3600000 24 reading) := by
  obtain ⟨hlow, hhigh⟩ := hwf.hours.bounds _
    (selectNextValue_spec hwf.hours.sorted hwf.hours.nonempty (partsOf reading).hour).1
  have hlocal := localOf_day reading _ 0 0 ⟨hlow, Int.lt_add_one_iff.2 hhigh⟩ (by decide)
    (by decide)
  rw [Int.zero_mul, Int.zero_mul, Int.add_zero, Int.add_zero] at hlocal
  exact hlocal

theorem minuteTry_eq :
    { startOfLocalDay (partsOf reading) with
      hour := (partsOf reading).hour
      minute := (selectNextValue parsed.minutes.values (partsOf reading).minute).value } =
      localOf (firstTry parsed.minutes.values 60000 60 reading) := by
  obtain ⟨hlow, hhigh⟩ := hwf.minutes.bounds _
    (selectNextValue_spec hwf.minutes.sorted hwf.minutes.nonempty (partsOf reading).minute).1
  have hlocal := localOf_day reading _ _ 0 (partsOf_time_bounds reading).1
    ⟨hlow, Int.lt_add_one_iff.2 hhigh⟩ (by decide)
  have hhour : reading / 86400000 * 86400000 + (partsOf reading).hour * 3600000 =
      reading / 3600000 * 3600000 := by
    simp only [partsOf]
    omega
  rw [hhour, Int.zero_mul, Int.add_zero] at hlocal
  exact hlocal

theorem secondTry_eq :
    { startOfLocalDay (partsOf reading) with
      hour := (partsOf reading).hour
      minute := (partsOf reading).minute
      second := (selectNextValue parsed.seconds.values (partsOf reading).second).value } =
      localOf (firstTry parsed.seconds.values 1000 60 reading) := by
  obtain ⟨hlow, hhigh⟩ := hwf.seconds.bounds _
    (selectNextValue_spec hwf.seconds.sorted hwf.seconds.nonempty (partsOf reading).second).1
  obtain ⟨hhour, hminute⟩ := partsOf_time_bounds reading
  have hlocal := localOf_day reading _ _ _ hhour hminute ⟨hlow, Int.lt_add_one_iff.2 hhigh⟩
  have hstart : reading / 86400000 * 86400000 + (partsOf reading).hour * 3600000 +
      (partsOf reading).minute * 60000 = reading / 60000 * 60000 := by
    simp only [partsOf]
    omega
  rw [hstart] at hlocal
  exact hlocal

end Tries

/-! ## One skip -/

theorem monthAim_le {months : List Int} (hsorted : months.Pairwise (· < ·)) (hsome : months ≠ [])
    (hbounds : ∀ v ∈ months, 1 ≤ v ∧ v ≤ 12) (month : Int) :
    monthAim months month ≤ month + 23 := by
  obtain ⟨hlow, hhigh⟩ := hbounds _ (selectNextValue_spec hsorted hsome (month % 12 + 1)).1
  unfold monthAim
  dsimp only
  split_ifs <;> omega

theorem monthStart_add_le (month : Int) (months : Nat) :
    monthStart (month + months) ≤ monthStart month + 31 * months := by
  induction months with
  | zero =>
    rw [Nat.cast_zero, Int.add_zero]
    omega
  | succ months ih =>
    have hlength : monthStart (month + months + 1) ≤ monthStart (month + months) + 31 := by
      obtain ⟨index, hindex⟩ : ∃ index, (month + months) % 12 = index := ⟨_, rfl⟩
      have hle := monthLength_le_31 ((month + months) / 12) (show 0 ≤ index by omega) (by omega)
      unfold monthLength at hle
      have hwhole : 12 * ((month + months) / 12) + index = month + months := by omega
      rw [hwhole] at hle
      omega
    rw [Nat.cast_succ, ← Int.add_assoc]
    omega

section Skip

variable {zone : TimeZone} {offset : Int} (hzone : IsConstant zone offset) {candidate : Int}

section Found

variable {target : Int} (hmultiple : 1000 ∣ target) (hlow : -86400000 * 4 ≤ target)
  (hhigh : target + 86400000 * 2 ≤ MAX_TIME)

include hzone hmultiple hlow hhigh

/-- A later reading is found, -/
theorem found_later (hcandidate : 1000 ∣ candidate) (hlater : candidate + offset < target) :
    localDateTimeToTimestamp (localOf target) zone (nextSearchTimestamp candidate) =
      .ok (some (target - offset)) := by
  have hminutes := hzone.minutes
  rw [localDateTimeToTimestamp_constant hzone _ hmultiple hlow hhigh, if_pos]
  unfold nextSearchTimestamp
  omega

/-- and an earlier one is not. -/
theorem not_found_earlier (hearlier : target < candidate + offset) :
    localDateTimeToTimestamp (localOf target) zone (nextSearchTimestamp candidate) = .ok none := by
  rw [localDateTimeToTimestamp_constant hzone _ hmultiple hlow hhigh, if_neg]
  unfold nextSearchTimestamp
  omega

end Found

theorem shiftLocalDateTime_of_valid {start next : Int} {adjustment : Adjustment}
    (hsecond : 1000 ∣ start) (hlow : -86400000 * 4 ≤ start) (hle : start ≤ next)
    (hhigh : next ≤ MAX_TIME) (hnext : start + adjustment.days * 86400000 +
      adjustment.hours * 3600000 + adjustment.minutes * 60000 = next) :
    shiftLocalDateTime (localOf start) adjustment = .ok (localOf next) := by
  have hmax : MAX_TIME = 8640000000000000 := rfl
  have hnaive : dateUTC (localOf start) = .ok start := by
    rw [dateUTC_localOf (by omega), Int.ediv_mul_cancel hsecond]
    exact validTime_of_valid (by omega) (by omega)
  refine bind_eq_ok.2 ⟨start, hnaive, bind_eq_ok.2 ⟨next, ?_, rfl⟩⟩
  rw [hnext]
  exact validTime_of_valid (by omega) (by omega)

variable (hcandidate : 1000 ∣ candidate) (hstart : 0 ≤ candidate)
  (hroom : candidate + 86400000 * 800 ≤ MAX_TIME)

include hzone hcandidate hstart hroom

theorem advanceToNextDay_constant :
    advanceToNextDay candidate (partsOf (candidate + offset)) zone =
      .ok (((candidate + offset) / 86400000 + 1) * 86400000 - offset) := by
  obtain ⟨hoffsetLow, hoffsetHigh⟩ := hzone.bounded
  have hmax : MAX_TIME = 8640000000000000 := rfl
  generalize hnext : ((candidate + offset) / 86400000 + 1) * 86400000 = next
  have hshift : shiftLocalDateTime (startOfLocalDay (partsOf (candidate + offset))) { days := 1 } =
      .ok (localOf next) := by
    rw [startOfLocalDay_eq]
    exact shiftLocalDateTime_of_valid (by omega) (by omega) (by omega) (by omega)
      (by dsimp only; omega)
  exact bind_eq_ok.2 ⟨_, hshift, bind_eq_ok.2 ⟨_, found_later hzone (by omega) (by omega) (by omega)
    hcandidate (by omega), rfl⟩⟩

variable {parsed : ParsedCronExpression} (hwf : parsed.WellFormed)

include hwf

theorem advanceToNextMonth_constant
    (hmonth : (partsOf (candidate + offset)).month ∉ parsed.months.values) :
    advanceToNextMonth candidate (partsOf (candidate + offset)) parsed zone =
      .ok (monthStart (monthAim parsed.months.values (monthOf ((candidate + offset) / 86400000))) *
        86400000 - offset) := by
  obtain ⟨hoffsetLow, hoffsetHigh⟩ := hzone.bounded
  have hmax : MAX_TIME = 8640000000000000 := rfl
  obtain ⟨day, hday⟩ : ∃ day, (candidate + offset) / 86400000 = day := ⟨_, rfl⟩
  rw [partsOf_month, hday] at hmonth
  obtain ⟨hlater, -⟩ := monthAim_spec hwf.months.sorted hwf.months.nonempty hwf.months.bounds hmonth
  have hafter : ¬ monthStart (monthAim parsed.months.values (monthOf day)) ≤ day := fun hbad =>
    hlater.not_ge (monthStart_le_iff.1 hbad)
  have hwithin := monthAim_le hwf.months.sorted hwf.months.nonempty hwf.months.bounds (monthOf day)
  have hwithinDay := (monthStart_strictMono.monotone hwithin).trans
    (monthStart_add_le (monthOf day) 23)
  obtain ⟨-, -, -, hthis, -⟩ := civilDate_bounds day
  refine bind_eq_ok.2 ⟨some _, ?_, rfl⟩
  rw [monthTry_eq hwf, hday]
  exact found_later hzone (by omega) (by omega) (by omega) hcandidate (by omega)

theorem advanceToNextHour_constant
    (hhour : (partsOf (candidate + offset)).hour ∉ parsed.hours.values) :
    advanceToNextHour candidate (partsOf (candidate + offset)) parsed zone =
      .ok (partAim parsed.hours.values 3600000 24 (candidate + offset) - offset) := by
  obtain ⟨hoffsetLow, hoffsetHigh⟩ := hzone.bounded
  have hmax : MAX_TIME = 8640000000000000 := rfl
  have hmultiple : 1000 ∣ firstTry parsed.hours.values 3600000 24 (candidate + offset) :=
    dvd_firstTry (by decide)
  obtain ⟨hlater, -⟩ := partAim_spec (by decide) (by decide) hwf.hours.sorted hwf.hours.nonempty
    hwf.hour_lt hhour
  obtain ⟨htry, hbound⟩ | ⟨hbehind, hbound, haim⟩ := firstTry_cases (by decide) (by decide)
    hwf.hours.sorted hwf.hours.nonempty hwf.hour_lt hhour
  · refine bind_eq_ok.2 ⟨some _, ?_, rfl⟩
    rw [hourTry_eq hwf, ← htry]
    exact found_later hzone hmultiple (by omega) (by omega) hcandidate (by omega)
  · refine bind_eq_ok.2 ⟨none, ?_, ?_⟩
    · rw [hourTry_eq hwf]
      exact not_found_earlier hzone hmultiple (by omega) (by omega) hbehind
    · rw [haim]
      exact advanceToNextDay_constant hzone hcandidate hstart hroom

theorem advanceToNextMinute_constant
    (hminute : (partsOf (candidate + offset)).minute ∉ parsed.minutes.values) :
    advanceToNextMinute candidate (partsOf (candidate + offset)) parsed zone =
      .ok (partAim parsed.minutes.values 60000 60 (candidate + offset) - offset) := by
  obtain ⟨hoffsetLow, hoffsetHigh⟩ := hzone.bounded
  have hmax : MAX_TIME = 8640000000000000 := rfl
  have hmultiple : 1000 ∣ firstTry parsed.minutes.values 60000 60 (candidate + offset) :=
    dvd_firstTry (by decide)
  obtain ⟨hlater, -⟩ := partAim_spec (by decide) (by decide) hwf.minutes.sorted hwf.minutes.nonempty
    hwf.minute_lt hminute
  obtain ⟨htry, hbound⟩ | ⟨hbehind, hbound, haim⟩ := firstTry_cases (by decide) (by decide)
    hwf.minutes.sorted hwf.minutes.nonempty hwf.minute_lt hminute
  · refine bind_eq_ok.2 ⟨some _, ?_, rfl⟩
    rw [minuteTry_eq hwf, ← htry]
    exact found_later hzone hmultiple (by omega) (by omega) hcandidate (by omega)
  · have hshift : shiftLocalDateTime { startOfLocalDay (partsOf (candidate + offset)) with
        hour := (partsOf (candidate + offset)).hour } { hours := 1 } =
        .ok (localOf (partAim parsed.minutes.values 60000 60 (candidate + offset))) := by
      rw [startOfLocalHour_eq]
      exact shiftLocalDateTime_of_valid (by omega) (by omega) (by omega) (by omega)
        (by dsimp only; omega)
    refine bind_eq_ok.2 ⟨none, ?_, bind_eq_ok.2 ⟨_, hshift, bind_eq_ok.2 ⟨_,
      found_later hzone (by omega) (by omega) (by omega) hcandidate hlater, rfl⟩⟩⟩
    rw [minuteTry_eq hwf]
    exact not_found_earlier hzone hmultiple (by omega) (by omega) hbehind

theorem advanceToNextSecond_constant
    (hsecond : (partsOf (candidate + offset)).second ∉ parsed.seconds.values) :
    advanceToNextSecond candidate (partsOf (candidate + offset)) parsed zone =
      .ok (partAim parsed.seconds.values 1000 60 (candidate + offset) - offset) := by
  obtain ⟨hoffsetLow, hoffsetHigh⟩ := hzone.bounded
  have hmax : MAX_TIME = 8640000000000000 := rfl
  have hmultiple : 1000 ∣ firstTry parsed.seconds.values 1000 60 (candidate + offset) :=
    dvd_firstTry (by decide)
  obtain ⟨hlater, -⟩ := partAim_spec (by decide) (by decide) hwf.seconds.sorted hwf.seconds.nonempty
    hwf.second_lt hsecond
  obtain ⟨htry, hbound⟩ | ⟨hbehind, hbound, haim⟩ := firstTry_cases (by decide) (by decide)
    hwf.seconds.sorted hwf.seconds.nonempty hwf.second_lt hsecond
  · refine bind_eq_ok.2 ⟨some _, ?_, rfl⟩
    rw [secondTry_eq hwf, ← htry]
    exact found_later hzone hmultiple (by omega) (by omega) hcandidate (by omega)
  · have hshift : shiftLocalDateTime { startOfLocalDay (partsOf (candidate + offset)) with
        hour := (partsOf (candidate + offset)).hour
        minute := (partsOf (candidate + offset)).minute }
        { minutes := 1 } =
        .ok (localOf (partAim parsed.seconds.values 1000 60 (candidate + offset))) := by
      rw [startOfLocalMinute_eq]
      exact shiftLocalDateTime_of_valid (by omega) (by omega) (by omega) (by omega)
        (by dsimp only; omega)
    refine bind_eq_ok.2 ⟨none, ?_, bind_eq_ok.2 ⟨_, hshift, bind_eq_ok.2 ⟨_,
      found_later hzone (by omega) (by omega) (by omega) hcandidate hlater, rfl⟩⟩⟩
    rw [secondTry_eq hwf]
    exact not_found_earlier hzone hmultiple (by omega) (by omega) hbehind

/-- A step leads to where it is aimed, if the candidate does not match. -/
theorem searchStep_constant : searchStep parsed zone candidate =
    .ok (if Matches parsed (candidate + offset) then none
      else some (aim parsed (candidate + offset) - offset)) := by
  have hmax : MAX_TIME = 8640000000000000 := rfl
  have hparts : getZonedParts candidate zone = .ok (partsOf (candidate + offset)) :=
    getZonedParts_eq_ok.2 ⟨by rw [hzone.clock], by omega, by omega⟩
  refine bind_eq_ok.2 ⟨_, hparts, ?_⟩
  unfold aim
  by_cases hmonth : (partsOf (candidate + offset)).month ∉ parsed.months.values
  · rw [if_pos hmonth, if_neg fun h : Matches _ _ => hmonth h.month, if_pos hmonth]
    exact bind_eq_ok.2 ⟨_, advanceToNextMonth_constant hzone hcandidate hstart hroom hwf hmonth,
      rfl⟩
  by_cases hday : ¬ matchesDay (partsOf (candidate + offset)) parsed = true
  · rw [if_neg hmonth, if_pos hday, if_neg fun h : Matches _ _ => hday h.day, if_neg hmonth,
      if_pos hday]
    exact bind_eq_ok.2 ⟨_, advanceToNextDay_constant hzone hcandidate hstart hroom, rfl⟩
  by_cases hhour : (partsOf (candidate + offset)).hour ∉ parsed.hours.values
  · rw [if_neg hmonth, if_neg hday, if_pos hhour, if_neg fun h : Matches _ _ => hhour h.hour,
      if_neg hmonth, if_neg hday, if_pos hhour]
    exact bind_eq_ok.2 ⟨_, advanceToNextHour_constant hzone hcandidate hstart hroom hwf hhour, rfl⟩
  by_cases hminute : (partsOf (candidate + offset)).minute ∉ parsed.minutes.values
  · rw [if_neg hmonth, if_neg hday, if_neg hhour, if_pos hminute,
      if_neg fun h : Matches _ _ => hminute h.minute, if_neg hmonth, if_neg hday, if_neg hhour,
      if_pos hminute]
    exact bind_eq_ok.2 ⟨_, advanceToNextMinute_constant hzone hcandidate hstart hroom hwf hminute,
      rfl⟩
  rw [if_neg hmonth, if_neg hday, if_neg hhour, if_neg hminute, if_neg hmonth, if_neg hday,
    if_neg hhour, if_neg hminute]
  rw [not_not] at hmonth hday hhour hminute
  by_cases hsecond : (partsOf (candidate + offset)).second ∈ parsed.seconds.values
  · rw [if_neg (not_not.2 hsecond), if_pos ⟨hmonth, hday, hhour, hminute, hsecond⟩]
    rfl
  · rw [if_pos hsecond, if_neg fun h => hsecond h.second]
    exact bind_eq_ok.2 ⟨_, advanceToNextSecond_constant hzone hcandidate hstart hroom hwf hsecond,
      rfl⟩

end Skip

/-! ## Runs of the search -/

/-- The first match, from a candidate on. -/
structure FirstMatch (parsed : ParsedCronExpression) (zone : TimeZone) (candidate t : Int) :
    Prop where
  le : candidate ≤ t
  matched : Matches parsed (zone.clock t)
  none_before : ∀ s, candidate ≤ s → s < t → ¬ Matches parsed (zone.clock s)

/-- Whatever the clock does, what the search returns matches. -/
theorem matches_of_search {parsed : ParsedCronExpression} {zone : TimeZone} {iterations : Nat}
    {candidate t : Int} (h : search parsed zone iterations candidate = .ok t) :
    Matches parsed (zone.clock t) := by
  induction iterations generalizing candidate with
  | zero => cases h
  | succ iterations ih =>
    obtain ⟨result, hstep, h⟩ := bind_eq_ok.1 h
    cases result with
    | some next => exact ih h
    | none =>
      cases h
      obtain ⟨parts, hparts, hstep⟩ := bind_eq_ok.1 hstep
      obtain ⟨rfl, -⟩ := getZonedParts_eq_ok.1 hparts
      split_ifs at hstep with hmonth hday hhour hminute hsecond
      · exact ⟨hmonth, hday, hhour, hminute, hsecond⟩
      all_goals
        obtain ⟨next, -, hbad⟩ := bind_eq_ok.1 hstep
        cases hbad

/-! ## The next occurrence -/

/-- The match that is next in whole seconds. -/
structure NextOccurrence (parsed : ParsedCronExpression) (zone : TimeZone)
    (afterTimestamp t : Int) :
    Prop where
  whole : 1000 ∣ t
  after : afterTimestamp < t
  matched : Matches parsed (zone.clock t)
  none_between : ∀ s, 1000 ∣ s → afterTimestamp < s → s < t → ¬ Matches parsed (zone.clock s)

theorem firstCandidate_le_iff {after t : Int} (h : 1000 ∣ t) : firstCandidate after ≤ t ↔
    after < t := by
  unfold firstCandidate
  omega

theorem firstCandidate_dvd (after : Int) : 1000 ∣ firstCandidate after := by
  unfold firstCandidate
  omega

end Weft.Cron
