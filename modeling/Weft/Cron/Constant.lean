import Weft.Cron.Dates

/-! The next occurrence on a clock that is never set: it is the first match, and it is found if
there is one. -/

namespace Weft.Cron
open Weft.Js Weft.Lib

/-! ## The search ends -/

/-- So many steps lead to the first match. -/
def Finds (parsed : ParsedCronExpression) (zone : TimeZone) (iterations : Nat) (candidate : Int) :
    Prop :=
  ∃ t, search parsed zone iterations candidate = .ok t ∧ FirstMatch parsed zone candidate t ∧
    1000 ∣ t

section Steps

variable {parsed : ParsedCronExpression} {zone : TimeZone} {offset : Int}

theorem Finds.mono {n m : Nat} {candidate : Int} (h : Finds parsed zone n candidate) (hle : n ≤ m) :
    Finds parsed zone m candidate := by
  obtain ⟨t, h, hfirst⟩ := h
  refine ⟨t, ?_, hfirst⟩
  clear hfirst
  induction n generalizing m candidate with
  | zero => cases h
  | succ n ih =>
    obtain ⟨m, rfl⟩ := Nat.exists_eq_add_of_le' (Nat.one_le_of_lt hle)
    obtain ⟨result, hstep, h⟩ := bind_eq_ok.1 h
    refine bind_eq_ok.2 ⟨result, hstep, ?_⟩
    cases result with
    | none => exact h
    | some next => exact ih (Nat.le_of_succ_le_succ hle) h

/-- The first match is where the search is, or behind where it heads for. -/
theorem IsConstant.finds_succ (hzone : IsConstant zone offset) (hwf : parsed.WellFormed) {n : Nat}
    {reading : Int} (hstart : offset ≤ reading) (hsecond : 1000 ∣ reading)
    (hroom : reading - offset + 86400000 * 800 ≤ MAX_TIME)
    (h : ¬ Matches parsed reading → Finds parsed zone n (aim parsed reading - offset)) :
    Finds parsed zone (n + 1) (reading - offset) := by
  have hminutes := hzone.minutes
  have hclock : ∀ t, zone.clock t = t + offset := hzone.clock
  have hstep := searchStep_constant hzone (show 1000 ∣ reading - offset by omega)
    (by omega) hroom hwf
  rw [Int.sub_add_cancel] at hstep
  by_cases hmatches : Matches parsed reading
  · rw [if_pos hmatches] at hstep
    refine ⟨_, bind_eq_ok.2 ⟨none, hstep, rfl⟩, ⟨le_rfl, ?_, fun s hs hst => (hs.not_gt hst).elim⟩,
      by omega⟩
    rwa [hclock, Int.sub_add_cancel]
  · rw [if_neg hmatches] at hstep
    obtain ⟨haim, hnone⟩ := aim_spec hwf hmatches
    obtain ⟨t, ht, hfirst, hwhole⟩ := h hmatches
    refine ⟨t, bind_eq_ok.2 ⟨some _, hstep, ht⟩, ⟨?_, hfirst.matched, fun s hs hst => ?_⟩, hwhole⟩
    · have hle := hfirst.le
      omega
    · obtain hlt | hge := lt_or_ge s (aim parsed reading - offset)
      · rw [hclock]
        exact hnone _ (by omega) (by omega)
      · exact hfirst.none_before s hge hst

end Steps

section Finds

variable {parsed : ParsedCronExpression} (hwf : parsed.WellFormed) {zone : TimeZone} {offset : Int}
  (hzone : IsConstant zone offset) {last : Int} (hlast : DateMatches parsed last)
  (hroom : (last + 1) * 86400000 - offset + 86400000 * 800 ≤ MAX_TIME)

include hwf hzone hroom

variable {reading : Int}

/-- From the start of a minute that matches. -/
theorem finds_of_minute (hstart : offset ≤ reading) (hday : reading / 86400000 ≤ last)
    (hminuteStart : 60000 ∣ reading) (hdate : DateMatches parsed (reading / 86400000))
    (hhour : (partsOf reading).hour ∈ parsed.hours.values)
    (hminute : (partsOf reading).minute ∈ parsed.minutes.values) :
    Finds parsed zone 2 (reading - offset) := by
  refine hzone.finds_succ hwf hstart (by omega) (by omega) fun hnot => ?_
  have hsecond : clockPart 1000 60 reading ∉ parsed.seconds.values := fun hbad =>
    hnot (.of_parts hdate hhour hminute hbad)
  obtain ⟨hlater, -⟩ := aim_spec hwf hnot
  rw [aim_of_second hdate hhour hminute] at hlater ⊢
  obtain ⟨hsame, hmember, hmultiple⟩ | ⟨hnonzero, -⟩ := partAim_cases (by decide) (by decide)
    hwf.seconds.sorted hwf.seconds.nonempty hwf.second_lt hsecond
  · generalize partAim parsed.seconds.values 1000 60 reading = next at *
    refine hzone.finds_succ hwf (by omega) hmultiple (by omega) fun hbad => ?_
    exact (hbad (matches_of_same_minute (by omega) hdate hhour hminute hmember)).elim
  · unfold clockPart at hnonzero
    omega

/-- From the start of an hour that matches. -/
theorem finds_of_hour (hstart : offset ≤ reading) (hday : reading / 86400000 ≤ last)
    (hhourStart : 3600000 ∣ reading) (hdate : DateMatches parsed (reading / 86400000))
    (hhour : (partsOf reading).hour ∈ parsed.hours.values) :
    Finds parsed zone 3 (reading - offset) := by
  by_cases hminute : (partsOf reading).minute ∈ parsed.minutes.values
  · exact (finds_of_minute hwf hzone hroom hstart hday (by omega) hdate hhour hminute).mono
      (by decide)
  refine hzone.finds_succ hwf hstart (by omega) (by omega) fun hnot => ?_
  obtain ⟨hlater, -⟩ := aim_spec hwf hnot
  rw [aim_of_minute hdate hhour hminute] at hlater ⊢
  obtain ⟨hsame, hmember, hmultiple⟩ | ⟨hnonzero, -⟩ := partAim_cases (by decide) (by decide)
    hwf.minutes.sorted hwf.minutes.nonempty hwf.minute_lt hminute
  · generalize partAim parsed.minutes.values 60000 60 reading = next at *
    have hsameDay : next / 86400000 = reading / 86400000 := by omega
    have hsameHour : next / 3600000 = reading / 3600000 := by omega
    refine finds_of_minute hwf hzone hroom (by omega)
      (by omega) hmultiple (hsameDay.symm ▸ hdate) ?_ hmember
    simp only [partsOf, hsameHour]
    exact hhour
  · change clockPart 60000 60 reading ≠ 0 at hnonzero
    unfold clockPart at hnonzero
    omega

/-- From the start of a day that matches. -/
theorem finds_of_day (hstart : offset ≤ reading) (hday : reading / 86400000 ≤ last)
    (hdayStart : 86400000 ∣ reading) (hdate : DateMatches parsed (reading / 86400000)) :
    Finds parsed zone 4 (reading - offset) := by
  by_cases hhour : (partsOf reading).hour ∈ parsed.hours.values
  · exact (finds_of_hour hwf hzone hroom hstart hday (by omega) hdate hhour).mono (by decide)
  refine hzone.finds_succ hwf hstart (by omega) (by omega) fun hnot => ?_
  obtain ⟨hlater, -⟩ := aim_spec hwf hnot
  rw [aim_of_hour hdate hhour] at hlater ⊢
  obtain ⟨hsame, hmember, hmultiple⟩ | ⟨hnonzero, -⟩ := partAim_cases (by decide) (by decide)
    hwf.hours.sorted hwf.hours.nonempty hwf.hour_lt hhour
  · generalize partAim parsed.hours.values 3600000 24 reading = next at *
    have hsameDay : next / 86400000 = reading / 86400000 := by omega
    exact finds_of_hour hwf hzone hroom (by omega)
      (by omega) hmultiple (hsameDay.symm ▸ hdate) hmember
  · change clockPart 3600000 24 reading ≠ 0 at hnonzero
    unfold clockPart at hnonzero
    omega

include hlast

/-- From the start of any day: each step comes to a later one, until a day matches. -/
theorem finds_of_days (hstart : offset ≤ reading) (hdayStart : 86400000 ∣ reading) {days : Nat}
    (hdays : last - reading / 86400000 = days) :
    Finds parsed zone (days + 4) (reading - offset) := by
  induction days using Nat.strong_induction_on generalizing reading with
  | _ days ih =>
    by_cases hdate : DateMatches parsed (reading / 86400000)
    · exact (finds_of_day hwf hzone hroom hstart (by omega) hdayStart hdate).mono (by omega)
    obtain ⟨epochDay, haim, hlater, hfirst⟩ := aim_of_date hwf hdate
    have hle := hfirst last (by omega) hlast
    refine (hzone.finds_succ hwf (n := (last - epochDay).toNat + 4) hstart (by omega) (by omega)
      fun _ => ?_).mono (by omega)
    rw [haim]
    exact ih (last - epochDay).toNat (by omega) (by omega) ⟨epochDay, Int.mul_comm _ _⟩ (by omega)

/-! ### From any reading before that day -/

theorem finds_of_date (hstart : offset ≤ reading) (hsecond : 1000 ∣ reading)
    (hday : reading / 86400000 ≤ last) (hdate : ¬ DateMatches parsed (reading / 86400000)) :
    Finds parsed zone ((last - reading / 86400000).toNat + 4) (reading - offset) := by
  obtain ⟨epochDay, haim, hlater, hfirst⟩ := aim_of_date hwf hdate
  have hle := hfirst last hday hlast
  have hrest : Finds parsed zone ((last - epochDay).toNat + 4) (epochDay * 86400000 - offset) :=
    finds_of_days hwf hzone hlast hroom (by omega) (Int.dvd_mul_left _ _) (by omega)
  refine (hzone.finds_succ hwf hstart hsecond (by omega) fun _ => ?_).mono
    (show (last - epochDay).toNat + 4 + 1 ≤ (last - reading / 86400000).toNat + 4 by omega)
  rw [haim]
  exact hrest

section Before

variable {reading : Int} (hstart : offset ≤ reading) (hsecond : 1000 ∣ reading)
  (hbefore : reading / 86400000 < last)

include hstart hsecond hbefore

/-- The next hour, or the next day. -/
theorem finds_of_not_hour (hdate : DateMatches parsed (reading / 86400000))
    (hhour : (partsOf reading).hour ∉ parsed.hours.values) :
    Finds parsed zone ((last - reading / 86400000).toNat + 4) (reading - offset) := by
  refine (hzone.finds_succ hwf hstart hsecond (by omega) fun hnot => ?_).mono
    (show (last - reading / 86400000 - 1).toNat + 4 + 1 ≤
      (last - reading / 86400000).toNat + 4 by omega)
  obtain ⟨hlater, -⟩ := aim_spec hwf hnot
  rw [aim_of_hour hdate hhour] at hlater ⊢
  obtain ⟨hsame, hmember, hmultiple⟩ | ⟨-, hnext⟩ := partAim_cases (by decide) (by decide)
    hwf.hours.sorted hwf.hours.nonempty hwf.hour_lt hhour
  · generalize partAim parsed.hours.values 3600000 24 reading = next at *
    have hsameDay : next / 86400000 = reading / 86400000 := by omega
    exact (finds_of_hour hwf hzone hroom (by omega) (by omega) hmultiple (hsameDay.symm ▸ hdate)
      hmember).mono (by omega)
  · rw [hnext] at hlater ⊢
    exact finds_of_days hwf hzone hlast hroom (by omega) (by omega) (by omega)

omit hsecond hbefore in
theorem finds_of_hours (hhourStart : 3600000 ∣ reading) (hle : reading ≤ last * 86400000) :
    Finds parsed zone ((last - reading / 86400000).toNat + 4) (reading - offset) := by
  obtain heq | hlt : reading / 86400000 = last ∨ reading / 86400000 < last := by omega
  · exact finds_of_days hwf hzone hlast hroom hstart (by omega) (by omega)
  by_cases hdate : DateMatches parsed (reading / 86400000)
  · by_cases hhour : (partsOf reading).hour ∈ parsed.hours.values
    · exact (finds_of_hour hwf hzone hroom hstart hlt.le hhourStart hdate hhour).mono (by omega)
    · exact finds_of_not_hour hwf hzone hlast hroom hstart (by omega) hlt hdate hhour
  · exact finds_of_date hwf hzone hlast hroom hstart (by omega) hlt.le hdate

/-- The next minute, or the next hour. -/
theorem finds_of_not_minute (hdate : DateMatches parsed (reading / 86400000))
    (hhour : (partsOf reading).hour ∈ parsed.hours.values)
    (hminute : (partsOf reading).minute ∉ parsed.minutes.values) :
    Finds parsed zone ((last - reading / 86400000).toNat + 5) (reading - offset) := by
  refine hzone.finds_succ hwf hstart hsecond (by omega) fun hnot => ?_
  obtain ⟨hlater, -⟩ := aim_spec hwf hnot
  rw [aim_of_minute hdate hhour hminute] at hlater ⊢
  obtain ⟨hsame, hmember, hmultiple⟩ | ⟨-, hnext⟩ := partAim_cases (by decide) (by decide)
    hwf.minutes.sorted hwf.minutes.nonempty hwf.minute_lt hminute
  · generalize partAim parsed.minutes.values 60000 60 reading = next at *
    have hsameDay : next / 86400000 = reading / 86400000 := by omega
    have hsameHour : next / 3600000 = reading / 3600000 := by omega
    refine (finds_of_minute hwf hzone hroom (by omega) (by omega) hmultiple (hsameDay.symm ▸ hdate)
      ?_ hmember).mono (by omega)
    simp only [partsOf, hsameHour]
    exact hhour
  · rw [hnext] at hlater ⊢
    exact (finds_of_hours hwf hzone hlast hroom (by omega) (by omega) (by omega)).mono (by omega)

omit hsecond hbefore in
theorem finds_of_minutes (hminuteStart : 60000 ∣ reading) (hle : reading ≤ last * 86400000) :
    Finds parsed zone ((last - reading / 86400000).toNat + 5) (reading - offset) := by
  by_cases hwhole : 3600000 ∣ reading
  · exact (finds_of_hours hwf hzone hlast hroom hstart hwhole hle).mono (by omega)
  have hlt : reading / 86400000 < last := by omega
  by_cases hdate : DateMatches parsed (reading / 86400000)
  · by_cases hhour : (partsOf reading).hour ∈ parsed.hours.values
    · by_cases hminute : (partsOf reading).minute ∈ parsed.minutes.values
      · exact (finds_of_minute hwf hzone hroom hstart hlt.le hminuteStart hdate hhour hminute).mono
          (by omega)
      · exact finds_of_not_minute hwf hzone hlast hroom hstart (by omega) hlt hdate hhour hminute
    · exact (finds_of_not_hour hwf hzone hlast hroom hstart (by omega) hlt hdate hhour).mono
        (by omega)
  · exact (finds_of_date hwf hzone hlast hroom hstart (by omega) hlt.le hdate).mono (by omega)

/-- The next second, which matches, or the next minute. -/
theorem finds_of_not_second (hdate : DateMatches parsed (reading / 86400000))
    (hhour : (partsOf reading).hour ∈ parsed.hours.values)
    (hminute : (partsOf reading).minute ∈ parsed.minutes.values)
    (hnotSecond : (partsOf reading).second ∉ parsed.seconds.values) :
    Finds parsed zone ((last - reading / 86400000).toNat + 6) (reading - offset) := by
  refine hzone.finds_succ hwf hstart hsecond (by omega) fun hnot => ?_
  obtain ⟨hlater, -⟩ := aim_spec hwf hnot
  rw [aim_of_second hdate hhour hminute] at hlater ⊢
  obtain ⟨hsame, hmember, hmultiple⟩ | ⟨-, hnext⟩ := partAim_cases (by decide) (by decide)
    hwf.seconds.sorted hwf.seconds.nonempty hwf.second_lt hnotSecond
  · generalize partAim parsed.seconds.values 1000 60 reading = next at *
    refine (hzone.finds_succ hwf (n := 0) (by omega) hmultiple (by omega) fun hbad => ?_).mono
      (by omega)
    exact (hbad (matches_of_same_minute (by omega) hdate hhour hminute hmember)).elim
  · rw [hnext] at hlater ⊢
    exact (finds_of_minutes hwf hzone hlast hroom (by omega) (by omega) (by omega)).mono (by omega)

/-- The last day is reached in a step a day, and a few more. -/
theorem finds_of_lt : Finds parsed zone ((last - reading / 86400000).toNat + 6)
    (reading - offset) := by
  by_cases hdate : DateMatches parsed (reading / 86400000)
  · by_cases hhour : (partsOf reading).hour ∈ parsed.hours.values
    · by_cases hminute : (partsOf reading).minute ∈ parsed.minutes.values
      · by_cases hnotSecond : (partsOf reading).second ∈ parsed.seconds.values
        · refine (hzone.finds_succ hwf (n := 0) hstart hsecond (by omega) fun hbad => ?_).mono
            (by omega)
          exact (hbad (.of_parts hdate hhour hminute hnotSecond)).elim
        · exact finds_of_not_second hwf hzone hlast hroom hstart hsecond hbefore hdate hhour hminute
            hnotSecond
      · exact (finds_of_not_minute hwf hzone hlast hroom hstart hsecond hbefore hdate hhour
          hminute).mono
          (by omega)
    · exact (finds_of_not_hour hwf hzone hlast hroom hstart hsecond hbefore hdate hhour).mono
        (by omega)
  · exact (finds_of_date hwf hzone hlast hroom hstart hsecond hbefore.le hdate).mono (by omega)

end Before

end Finds

/-- The search starts at the epoch or later, and eleven and a half years before the last date. -/
def HasRoom (afterTimestamp : Int) : Prop :=
  0 ≤ firstCandidate afterTimestamp ∧ afterTimestamp + 86400000 * 4200 ≤ MAX_TIME

instance HasRoom.decidable (afterTimestamp : Int) : Decidable (HasRoom afterTimestamp) :=
  inferInstanceAs (Decidable (_ ∧ _))

/-- If any date matches the next occurrence is found. -/
theorem IsConstant.exists_occurrence {parsed : ParsedCronExpression} (hwf : parsed.WellFormed)
    {zone : TimeZone} {offset : Int} (hzone : IsConstant zone offset) {after : Int}
    (hroom : HasRoom after) {matching : Int} (hmatching : DateMatches parsed matching) :
    ∃ t, getNextCronOccurrence parsed after zone = .ok t ∧ NextOccurrence parsed zone after t := by
  obtain ⟨hstart, hend⟩ := hroom
  have hmax : MAX_TIME = 8640000000000000 := rfl
  have hminutes := hzone.minutes
  have hsecond := firstCandidate_dvd after
  have hfirst : firstCandidate after ≤ after + 1000 := by
    unfold firstCandidate
    omega
  have hbounded := hzone.bounded
  obtain ⟨last, hlater, hwithin, hlast⟩ :=
    exists_dateMatches hmatching ((firstCandidate after + offset) / 86400000)
  have hfinds := (finds_of_lt hwf hzone hlast (by omega)
    (show offset ≤ firstCandidate after + offset by omega) (by omega) hlater).mono
    (show _ ≤ 100000 by omega)
  rw [Int.add_sub_cancel] at hfinds
  obtain ⟨t, ht, hfirst, hwhole⟩ := hfinds
  refine ⟨t, bind_eq_ok.2 ⟨firstCandidate after, ?_, ht⟩, hwhole,
    (firstCandidate_le_iff hwhole).1 hfirst.le, hfirst.matched, fun s hs hafter hst =>
      hfirst.none_before s ((firstCandidate_le_iff hs).2 hafter) hst⟩
  unfold normalizeStorageTimestamp
  rw [if_neg (by omega), if_neg (by omega)]

/-- Whatever is returned is an occurrence. -/
theorem matches_of_getNextCronOccurrence {parsed : ParsedCronExpression} {zone : TimeZone}
    {after t : Int} (h : getNextCronOccurrence parsed after zone = .ok t) :
    Matches parsed (zone.clock t) := by
  obtain ⟨candidate, -, h⟩ := bind_eq_ok.1 h
  exact matches_of_search h

/-- On a clock that is never set the search returns the next occurrence, and fails only where no
date matches. -/
theorem getNextCronOccurrence_constant {expression : JsString} {parsed : ParsedCronExpression}
    (hparsed : parseCronExpression expression = .ok parsed) {zone : TimeZone} {offset : Int}
    (hzone : IsConstant zone offset) {after : Int} (hroom : HasRoom after) :
    (∀ t, getNextCronOccurrence parsed after zone = .ok t ↔ NextOccurrence parsed zone after t) ∧
      ((∃ e, getNextCronOccurrence parsed after zone = .error e) ↔
        ¬ ∃ matching, DateMatches parsed matching) := by
  have hwf := ParsedCronExpression.wellFormed hparsed
  constructor
  · intro t
    constructor
    · intro h
      obtain ⟨t', ht', hnext⟩ := hzone.exists_occurrence hwf hroom
        (matches_of_getNextCronOccurrence h).dateMatches
      cases h.symm.trans ht'
      exact hnext
    · intro h
      obtain ⟨t', ht', h'⟩ := hzone.exists_occurrence hwf hroom h.matched.dateMatches
      obtain hlt | rfl | hgt := lt_trichotomy t t'
      · exact (h'.none_between t h.whole h.after hlt h.matched).elim
      · exact ht'
      · exact (h.none_between t' h'.whole h'.after hgt h'.matched).elim
  · constructor
    · rintro ⟨e, he⟩ ⟨matching, hmatching⟩
      obtain ⟨t, ht, -⟩ := hzone.exists_occurrence hwf hroom hmatching
      rw [ht] at he
      cases he
    · intro hnone
      cases hresult : getNextCronOccurrence parsed after zone with
      | error e => exact ⟨e, rfl⟩
      | ok t => exact (hnone ⟨_, (matches_of_getNextCronOccurrence hresult).dateMatches⟩).elim

theorem isConstant_utc : IsConstant getDefaultTimeZone 0 := ⟨by decide, fun _ => rfl⟩

example : HasRoom 0 := by decide +kernel

def everySecond : ParsedCronExpression where
  expression := js "* * * * * *"
  hasSeconds := true
  seconds := buildWildcardCronField secondsSpec
  minutes := buildWildcardCronField minutesSpec
  hours := buildWildcardCronField hoursSpec
  daysOfMonth := buildWildcardCronField daysOfMonthSpec
  months := buildWildcardCronField monthsSpec
  daysOfWeek := buildWildcardCronField daysOfWeekSpec

theorem parse_everySecond : parseCronExpression (js "* * * * * *") = .ok everySecond :=
  toOption_eq_some.1 (by decide +kernel)

theorem everySecond_after_epoch :
    NextOccurrence everySecond getDefaultTimeZone 0 1000 ∧
      ¬ ∃ e, getNextCronOccurrence everySecond 0 = .error e := by
  obtain ⟨hnext, hfails⟩ := getNextCronOccurrence_constant parse_everySecond isConstant_utc
    (show HasRoom 0 by decide)
  refine ⟨(hnext 1000).1 (toOption_eq_some.1 (by decide +kernel)), fun hbad =>
    hfails.1 hbad ⟨0, ?_⟩⟩
  exact ⟨by decide +kernel, by decide +kernel⟩

/-- Milliseconds are not looked at, nothing is found before the epoch, and nothing where the dates
end. -/
theorem everySecond_whole_seconds :
    (getNextCronOccurrence everySecond 0 = .ok 1000 ∧
        Matches everySecond (getDefaultTimeZone.clock 1)) ∧
      (∃ e, getNextCronOccurrence everySecond (-1001) = .error e) ∧
      (∃ e, getNextCronOccurrence everySecond 8640000000000000 = .error e) ∧
      DateMatches everySecond 0 := by
  refine ⟨⟨toOption_eq_some.1 (by decide +kernel), by decide +kernel⟩,
    toOption_eq_none.1 (by decide +kernel), toOption_eq_none.1 (by decide +kernel), ?_, ?_⟩
  · decide +kernel
  · decide +kernel

end Weft.Cron
