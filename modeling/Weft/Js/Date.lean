import Weft.Js.Number

/-! Date values and `toISOString`. -/

namespace Weft.Js

/-- A valid time value, in milliseconds of the epoch. -/
structure JsDate where
  time : Int
  inRange : -8640000000000000 ≤ time ∧ time ≤ 8640000000000000
deriving DecidableEq

structure CivilDate where
  year : Int
  month : Nat
  day : Nat
deriving DecidableEq

/-- The proleptic Gregorian date of a day of the epoch. Years are counted from March, so
that the leap day comes last, in eras of 400 years. -/
def civilDate (epochDay : Int) : CivilDate :=
  let z := epochDay + 719468
  let era := z / 146097
  let dayOfEra := (z % 146097).toNat
  let yearOfEra := (dayOfEra - dayOfEra / 1460 + dayOfEra / 36524 - dayOfEra / 146096) / 365
  let dayOfYear := dayOfEra - (365 * yearOfEra + yearOfEra / 4 - yearOfEra / 100)
  let shiftedMonth := (5 * dayOfYear + 2) / 153
  let month := if shiftedMonth < 10 then shiftedMonth + 3 else shiftedMonth - 9
  { year := yearOfEra + era * 400 + (if month ≤ 2 then 1 else 0)
    month := month
    day := dayOfYear - (153 * shiftedMonth + 2) / 5 + 1 }

/-- Four digits, or a sign and six outside of these. -/
def isoYear (year : Int) : JsString :=
  if 0 ≤ year ∧ year ≤ 9999 then paddedNat 4 year.toNat
  else (if year < 0 then js "-" else js "+") ++ paddedNat 6 year.natAbs

def JsDate.toISOString (d : JsDate) : JsString :=
  let date := civilDate (d.time / 86400000)
  let ms := (d.time % 86400000).toNat
  isoYear date.year ++ js "-" ++ paddedNat 2 date.month ++ js "-" ++ paddedNat 2 date.day ++
    js "T" ++ paddedNat 2 (ms / 3600000) ++ js ":" ++ paddedNat 2 (ms / 60000 % 60) ++
    js ":" ++ paddedNat 2 (ms / 1000 % 60) ++ js "." ++ paddedNat 3 (ms % 1000) ++ js "Z"

example : JsDate.toISOString ⟨1767225600123, by decide⟩ = js "2026-01-01T00:00:00.123Z" := by
  decide

end Weft.Js

/-! The proleptic Gregorian calendar by its months: months are counted from January of the year 0,
and days from the epoch. -/

namespace Weft.Js

/-- The first day of a month. Years are counted from March here. -/
def monthStart (month : Int) : Int :=
  let year := (month - 2) / 12
  365 * year + year / 4 - year / 100 + year / 400 + (153 * ((month - 2) % 12) + 2) / 5 - 719468

/-- The month that a day is in. -/
def monthOf (epochDay : Int) : Int :=
  12 * (civilDate epochDay).year + (civilDate epochDay).month - 1

theorem monthStart_lt_succ (month : Int) : monthStart month < monthStart (month + 1) := by
  unfold monthStart
  dsimp only
  omega

/-- The months of a year from March on. -/
theorem monthStart_march (year : Int) {month : Int} (hlow : 0 ≤ month) (hhigh : month < 12) :
    monthStart (12 * year + month + 2) =
      365 * year + year / 4 - year / 100 + year / 400 + (153 * month + 2) / 5 - 719468 := by
  have hshift : 12 * year + month + 2 - 2 = month + 12 * year := by omega
  rw [monthStart, hshift, Int.add_mul_ediv_left _ _ (by decide), Int.add_mul_emod_self_left,
    Int.ediv_eq_zero_of_lt hlow hhigh, Int.emod_eq_of_lt hlow hhigh, Int.zero_add]

/-- A year of an era is the one that its day falls into. -/
theorem yearOfEra_bounds {dayOfEra yearOfEra : Nat} (h : dayOfEra < 146097)
    (hyear : yearOfEra =
      (dayOfEra - dayOfEra / 1460 + dayOfEra / 36524 - dayOfEra / 146096) / 365) :
    yearOfEra < 400 ∧ 365 * yearOfEra + yearOfEra / 4 - yearOfEra / 100 ≤ dayOfEra ∧
      dayOfEra < 365 * (yearOfEra + 1) + (yearOfEra + 1) / 4 - (yearOfEra + 1) / 100 +
        (yearOfEra + 1) / 400 := by
  have hlast : dayOfEra / 146096 = 0 ∨ dayOfEra = 146096 := by omega
  obtain hlast | rfl := hlast
  · obtain ⟨century, hcentury⟩ : ∃ century, dayOfEra / 36524 = century := ⟨_, rfl⟩
    have hlow : 100 * century ≤ yearOfEra := by omega
    have hhigh : yearOfEra < 100 * (century + 1) := by omega
    have hyearCentury : yearOfEra / 100 = century := by omega
    refine ⟨by omega, by omega, ?_⟩
    obtain hnext | hnext : (yearOfEra + 1) / 100 = century ∨
      yearOfEra + 1 = 100 * (century + 1) := by omega
    · rw [hnext]
      have hnone : (yearOfEra + 1) / 400 = 0 := by omega
      omega
    · omega
  · subst hyear
    decide

/-- A month of a year that begins in March, by the day of that year. -/
theorem shiftedMonth_bounds {dayOfYear : Nat} (h : dayOfYear < 366) :
    (5 * dayOfYear + 2) / 153 < 12 ∧ (153 * ((5 * dayOfYear + 2) / 153) + 2) / 5 ≤ dayOfYear ∧
      dayOfYear < (153 * ((5 * dayOfYear + 2) / 153 + 1) + 2) / 5 := by
  omega

theorem civilDate_bounds (epochDay : Int) :
    1 ≤ (civilDate epochDay).month ∧ (civilDate epochDay).month ≤ 12 ∧
      monthStart (monthOf epochDay) + (civilDate epochDay).day = epochDay + 1 ∧
      monthStart (monthOf epochDay) ≤ epochDay ∧ epochDay < monthStart (monthOf epochDay + 1) := by
  obtain ⟨era, hera⟩ : ∃ era, (epochDay + 719468) / 146097 = era := ⟨_, rfl⟩
  obtain ⟨dayOfEra, hday⟩ : ∃ dayOfEra : Nat, ((epochDay + 719468) % 146097).toNat = dayOfEra :=
    ⟨_, rfl⟩
  have hdayOfEra : dayOfEra < 146097 := by omega
  have hepochDay : epochDay = 146097 * era + dayOfEra - 719468 := by omega
  obtain ⟨yearOfEra, hyear⟩ : ∃ yearOfEra,
    yearOfEra = (dayOfEra - dayOfEra / 1460 + dayOfEra / 36524 - dayOfEra / 146096) / 365 :=
      ⟨_, rfl⟩
  obtain ⟨hyears, hlow, hhigh⟩ := yearOfEra_bounds hdayOfEra hyear
  obtain ⟨dayOfYear, hdayOfYear⟩ : ∃ dayOfYear,
    dayOfYear = dayOfEra - (365 * yearOfEra + yearOfEra / 4 - yearOfEra / 100) := ⟨_, rfl⟩
  have hdays : dayOfYear < 366 := by
    clear hyear
    obtain hlt | rfl : yearOfEra < 399 ∨ yearOfEra = 399 := by omega
    · have hnone : (yearOfEra + 1) / 400 = 0 := by omega
      omega
    · omega
  obtain ⟨hmonths, hstart, hnext⟩ := shiftedMonth_bounds hdays
  generalize hshifted : (5 * dayOfYear + 2) / 153 = shiftedMonth at hmonths hstart hnext
  have hcivil : civilDate epochDay =
      { year := yearOfEra + era * 400 +
          (if (if shiftedMonth < 10 then shiftedMonth + 3 else shiftedMonth - 9) ≤ 2 then 1 else 0)
        month := if shiftedMonth < 10 then shiftedMonth + 3 else shiftedMonth - 9
        day := dayOfYear - (153 * shiftedMonth + 2) / 5 + 1 } := by
    simp only [civilDate, hera, hday, ← hyear, ← hdayOfYear, hshifted]
  have hmonth : monthOf epochDay = 12 * (yearOfEra + era * 400) + shiftedMonth + 2 := by
    rw [monthOf, hcivil]
    dsimp only
    split_ifs <;> omega
  have hyearStart : ∀ m : Int, 0 ≤ m → m < 12 →
      monthStart (12 * (yearOfEra + era * 400) + m + 2) =
        146097 * era + (365 * yearOfEra + yearOfEra / 4 - yearOfEra / 100) + (153 * m + 2) / 5 -
          719468 := by
    intro m hm hm'
    have hfour : ((yearOfEra : Int) + era * 400) / 4 = yearOfEra / 4 + 100 * era := by omega
    have hhundred : ((yearOfEra : Int) + era * 400) / 100 = yearOfEra / 100 + 4 * era := by omega
    have heras : ((yearOfEra : Int) + era * 400) / 400 = era := by omega
    rw [monthStart_march _ hm hm', hfour, hhundred, heras]
    ring
  have hfirst : monthStart (monthOf epochDay) =
      146097 * era + (365 * yearOfEra + yearOfEra / 4 - yearOfEra / 100) +
        (153 * shiftedMonth + 2) / 5 - 719468 := by
    rw [hmonth]
    exact hyearStart shiftedMonth (by omega) (by omega)
  have hyearNat : ((365 * yearOfEra + yearOfEra / 4 - yearOfEra / 100 : Nat) : Int) =
      365 * yearOfEra + yearOfEra / 4 - yearOfEra / 100 := by omega
  have hsecond : epochDay < monthStart (monthOf epochDay + 1) := by
    obtain hlt | hlast : shiftedMonth < 11 ∨ shiftedMonth = 11 := by omega
    · have hnextStart := hyearStart (shiftedMonth + 1) (by omega) (by omega)
      have hindex : monthOf epochDay + 1 =
          12 * ((yearOfEra : Int) + era * 400) + (shiftedMonth + 1) + 2 := by omega
      rw [hindex, hnextStart]
      omega
    · -- February is the last month of such a year
      have hindex : monthOf epochDay + 1 = 12 * (((yearOfEra + 1 : Nat) : Int) + era * 400) + 0 +
        2 := by
        omega
      rw [hindex, monthStart_march _ le_rfl (by decide), hepochDay]
      clear hyear hlow hyearNat hyearStart hfirst hmonth hstart hnext hmonths hshifted hcivil hindex
        hepochDay hday hera hdayOfYear hdays hyears hlast
      generalize yearOfEra + 1 = next at hhigh
      have hfour : ((next : Int) + era * 400) / 4 = next / 4 + 100 * era := by omega
      have hhundred : ((next : Int) + era * 400) / 100 = next / 100 + 4 * era := by omega
      have heras : ((next : Int) + era * 400) / 400 = next / 400 + era := by omega
      rw [hfour, hhundred, heras]
      omega
  refine ⟨?_, ?_, ?_, ?_, hsecond⟩
  · rw [hcivil]
    dsimp only
    split_ifs <;> omega
  · rw [hcivil]
    dsimp only
    split_ifs <;> omega
  · rw [hfirst, hcivil]
    dsimp only
    omega
  · rw [hfirst]
    omega

theorem monthStart_strictMono : StrictMono monthStart :=
    strictMono_int_of_lt_succ monthStart_lt_succ

/-- A month has begun by a day if it is not later than the one that the day is in. -/
theorem monthStart_le_iff {month epochDay : Int} : monthStart month ≤ epochDay ↔
    month ≤ monthOf epochDay := by
  obtain ⟨-, -, -, hstart, hnext⟩ := civilDate_bounds epochDay
  constructor
  · intro h
    have hlt := monthStart_strictMono.lt_iff_lt.1 (h.trans_lt hnext)
    omega
  · intro h
    exact (monthStart_strictMono.monotone h).trans hstart

theorem monthOf_monthStart (month : Int) : monthOf (monthStart month) = month := by
  have hlow := monthStart_le_iff.1 (le_refl (monthStart month))
  have hhigh : ¬ month + 1 ≤ monthOf (monthStart month) := fun hbad =>
    (monthStart_le_iff.2 hbad).not_gt (monthStart_lt_succ month)
  omega

theorem monthOf_mono {m n : Int} (h : m ≤ n) : monthOf m ≤ monthOf n :=
  monthStart_le_iff.1 ((monthStart_le_iff.2 le_rfl).trans h)

theorem civilDate_year (epochDay : Int) : (civilDate epochDay).year = monthOf epochDay / 12 := by
  obtain ⟨hlow, hhigh, -⟩ := civilDate_bounds epochDay
  rw [monthOf]
  omega

theorem civilDate_month (epochDay : Int) :
    ((civilDate epochDay).month : Int) = monthOf epochDay % 12 + 1 := by
  obtain ⟨hlow, hhigh, -⟩ := civilDate_bounds epochDay
  rw [monthOf]
  omega

theorem civilDate_day (epochDay : Int) :
    ((civilDate epochDay).day : Int) = epochDay - monthStart (monthOf epochDay) + 1 := by
  obtain ⟨-, -, hday, -⟩ := civilDate_bounds epochDay
  omega

/-- The day of a date, which may lie outside of its month. -/
def makeDay (year month date : Int) : Int := monthStart (12 * year + month - 1) + date - 1

theorem makeDay_civilDate (epochDay : Int) :
    makeDay (civilDate epochDay).year (civilDate epochDay).month (civilDate epochDay).day =
      epochDay := by
  obtain ⟨-, -, hday, -⟩ := civilDate_bounds epochDay
  rw [makeDay, ← monthOf]
  omega

/-! ## Leap years -/

def IsLeap (year : Int) : Prop := year % 4 = 0 ∧ (year % 100 ≠ 0 ∨ year % 400 = 0)

theorem exists_leap (year : Int) : ∃ leap, year < leap ∧ leap ≤ year + 8 ∧ IsLeap leap := by
  by_cases h : IsLeap (4 * (year / 4 + 1))
  · exact ⟨_, by omega, by omega, h⟩
  · refine ⟨4 * (year / 4 + 1) + 4, by omega, by omega, ?_⟩
    unfold IsLeap at h ⊢
    omega

/-- The days of a month, which is counted from zero. -/
def monthLength (year month : Int) : Int :=
  monthStart (12 * year + month + 1) - monthStart (12 * year + month)

theorem monthLength_january (year : Int) : monthLength year 0 = 31 := by
  have hmonth : 12 * year + 0 = 12 * (year - 1) + 10 + 2 := by omega
  have hnext : 12 * year + 0 + 1 = 12 * (year - 1) + 11 + 2 := by omega
  rw [monthLength, hnext, hmonth, monthStart_march _ (by decide) (by decide),
    monthStart_march _ (by decide) (by decide)]
  omega

theorem monthLength_february (year : Int) :
    28 ≤ monthLength year 1 ∧ monthLength year 1 ≤ 29 ∧
      (IsLeap year → monthLength year 1 = 29) := by
  have hmonth : 12 * year + 1 = 12 * (year - 1) + 11 + 2 := by omega
  have hnext : 12 * year + 1 + 1 = 12 * year + 0 + 2 := by omega
  rw [monthLength, hnext, hmonth, monthStart_march _ (by decide) (by decide),
    monthStart_march _ (by decide) (by decide), IsLeap]
  refine ⟨by omega, by omega, fun h => ?_⟩
  obtain ⟨hfour, hhundred⟩ := h
  omega

/-- The other months are as long in every year. -/
theorem monthLength_march (year : Int) {month : Int} (hlow : 2 ≤ month) (hhigh : month < 12) :
    monthLength year month = (153 * (month - 1) + 2) / 5 - (153 * (month - 2) + 2) / 5 := by
  have hmonth : 12 * year + month = 12 * year + (month - 2) + 2 := by omega
  have hnext : 12 * year + (month - 2) + 2 + 1 = 12 * year + (month - 1) + 2 := by omega
  rw [monthLength, hmonth, hnext, monthStart_march _ (by omega) (by omega),
    monthStart_march _ (by omega) (by omega)]
  omega

/-- No month is longer than the same month of a leap year. -/
theorem monthLength_le (year : Int) {leap month : Int} (h : IsLeap leap) (hlow : 0 ≤ month)
    (hhigh : month < 12) :
    monthLength year month ≤ monthLength leap month := by
  obtain rfl | rfl | hlate : month = 0 ∨ month = 1 ∨ 2 ≤ month := by omega
  · rw [monthLength_january, monthLength_january]
  · rw [(monthLength_february leap).2.2 h]
    exact (monthLength_february year).2.1
  · rw [monthLength_march _ hlate hhigh, monthLength_march _ hlate hhigh]

theorem monthLength_le_31 (year : Int) {month : Int} (hlow : 0 ≤ month) (hhigh : month < 12) :
    monthLength year month ≤ 31 := by
  obtain rfl | rfl | hlate : month = 0 ∨ month = 1 ∨ 2 ≤ month := by omega
  · rw [monthLength_january]
  · exact (monthLength_february year).2.1.trans (by decide)
  · rw [monthLength_march _ hlate hhigh]
    omega

theorem le_monthLength (year : Int) {month : Int} (hlow : 0 ≤ month) (hhigh : month < 12) :
    28 ≤ monthLength year month := by
  obtain rfl | rfl | hlate : month = 0 ∨ month = 1 ∨ 2 ≤ month := by omega
  · rw [monthLength_january]
    decide
  · exact (monthLength_february year).1
  · rw [monthLength_march _ hlate hhigh]
    omega

end Weft.Js
