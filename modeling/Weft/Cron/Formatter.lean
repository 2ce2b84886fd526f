import Weft.Cron.Parser
import Weft.Lib.Except

/-! Local time: what `Intl` reports of a time zone, and the way back from a local date and time to
an instant. Instants and clock readings are in milliseconds of the epoch. -/

namespace Weft.Cron
open Weft.Js Weft.Lib

structure LocalDateTime where
  year : Int
  month : Int
  day : Int
  hour : Int
  minute : Int
  second : Int
deriving DecidableEq

structure ZonedParts extends LocalDateTime where
  dayOfWeek : Int
deriving DecidableEq

/-- What `Intl` knows of a time zone: the difference of its clock to UTC at each instant. -/
structure TimeZone where
  offsetAt : Int → Int
  whole : ∀ t, 1000 ∣ offsetAt t
  bounded : ∀ t, -86400000 < offsetAt t ∧ offsetAt t < 86400000

/-- The reading of the clock. -/
def TimeZone.clock (zone : TimeZone) (t : Int) : Int := t + zone.offsetAt t

def constantZone (offset : Int) (hwhole : 1000 ∣ offset) (hlow : -86400000 < offset)
    (hhigh : offset < 86400000) : TimeZone where
  offsetAt := fun _ => offset
  whole := fun _ => hwhole
  bounded := fun _ => ⟨hlow, hhigh⟩

theorem utc_whole : 1000 ∣ (0 : Int) := by decide

theorem utc_low : -86400000 < (0 : Int) := by decide

theorem utc_high : (0 : Int) < 86400000 := by decide

/-- UTC. -/
def getDefaultTimeZone : TimeZone := constantZone 0 utc_whole utc_low utc_high

inductive CronOccurrenceError where
  | negative (fieldName : JsString) (timestamp : Int)
  | unsafeInteger (fieldName : JsString) (timestamp : Int)
  | invalidTime
  | notFound (expression : JsString)
deriving DecidableEq

/-- The text of an invalid time value is that of the platform. -/
def CronOccurrenceError.message : CronOccurrenceError → Option JsString
  | .negative fieldName timestamp =>
    some (fieldName ++ js " must resolve to a finite, non-negative millisecond timestamp, got: " ++
      integerUnits timestamp)
  | .unsafeInteger fieldName timestamp =>
    some (fieldName ++ js " must resolve to a safe integer millisecond timestamp, got: " ++
      integerUnits timestamp)
  | .invalidTime => none
  | .notFound expression =>
    some (js "Could not find the next cron occurrence for \"" ++ expression ++ js "\"")

abbrev Occurrence := Except CronOccurrenceError

/-- Dates are valid up to here, on both sides of the epoch. -/
def MAX_TIME : Int := 8640000000000000

/-- An invalid date is refused by the formatter, which it always reaches. -/
def validTime (t : Int) : Occurrence Int :=
  if -MAX_TIME ≤ t ∧ t ≤ MAX_TIME then .ok t else .error .invalidTime

/-- The parts that a clock shows. -/
def partsOf (reading : Int) : ZonedParts where
  year := (civilDate (reading / 86400000)).year
  month := (civilDate (reading / 86400000)).month
  day := (civilDate (reading / 86400000)).day
  hour := reading / 3600000 % 24
  minute := reading / 60000 % 60
  second := reading / 1000 % 60
  dayOfWeek := (reading / 86400000 + 4) % 7

/-- The short offset has no seconds: where there are any the pattern does not match its text. -/
def getOffsetMilliseconds (timestamp : Int) (timeZone : TimeZone) : Occurrence Int := do
  let timestamp ← validTime timestamp
  let offset := timeZone.offsetAt timestamp
  return if 60000 ∣ offset then offset else 0

def getZonedParts (timestamp : Int) (timeZone : TimeZone) : Occurrence ZonedParts := do
  let timestamp ← validTime timestamp
  return partsOf (timeZone.clock timestamp)

def sameLocalDateTime (left : LocalDateTime) (right : ZonedParts) : Bool :=
  left.year = right.year ∧ left.month = right.month ∧ left.day = right.day ∧
    left.hour = right.hour ∧
    left.minute = right.minute ∧ left.second = right.second

/-- `Date.UTC`, to which two digits of a year are one of the twentieth century. -/
def dateUTC (d : LocalDateTime) : Occurrence Int :=
  let year := if 0 ≤ d.year ∧ d.year ≤ 99 then 1900 + d.year else d.year
  validTime (makeDay year d.month d.day * 86400000 + d.hour * 3600000 + d.minute * 60000 +
    d.second * 1000)

/-- The loop that looks for an instant at which the offset leads back to the local time. -/
def adjustCandidate (naiveTimestamp : Int) (timeZone : TimeZone) : Nat → Int → Occurrence Int
  | 0, candidate => .ok candidate
  | iterations + 1, candidate => do
    let offsetMilliseconds ← getOffsetMilliseconds candidate timeZone
    let adjustedCandidate := naiveTimestamp - offsetMilliseconds
    if adjustedCandidate = candidate then return candidate
    else adjustCandidate naiveTimestamp timeZone iterations adjustedCandidate

/-- Every quarter of an hour, up to two hours away. -/
def candidatesAround (candidate : Int) : List Int :=
  (List.range 17).map fun (index : Nat) => candidate + (15 * (index : Int) - 120) * 60000

def filterSame (localDateTime : LocalDateTime) (timeZone : TimeZone) :
    List Int → Occurrence (List Int)
  | [] => .ok []
  | timestamp :: rest => do
    let parts ← getZonedParts timestamp timeZone
    let matching ← filterSame localDateTime timeZone rest
    return if sameLocalDateTime localDateTime parts then timestamp :: matching else matching

def localDateTimeToTimestamp (localDateTime : LocalDateTime) (timeZone : TimeZone)
    (minimumTimestamp : Int) : Occurrence (Option Int) := do
  let naiveTimestamp ← dateUTC localDateTime
  let candidate ← adjustCandidate naiveTimestamp timeZone 6 naiveTimestamp
  let matching ← filterSame localDateTime timeZone
    ((candidatesAround candidate).filter fun timestamp => minimumTimestamp ≤ timestamp)
  return (matching.insertionSort (· ≤ ·)).head?

structure Adjustment where
  days : Int := 0
  hours : Int := 0
  minutes : Int := 0

/-- The setters of a date carry what exceeds a part of it. -/
def shiftLocalDateTime (localDateTime : LocalDateTime) (adjustment : Adjustment) :
    Occurrence LocalDateTime := do
  let date ← dateUTC localDateTime
  let shifted ← validTime (date + adjustment.days * 86400000 + adjustment.hours * 3600000 +
    adjustment.minutes * 60000)
  return (partsOf shifted).toLocalDateTime

structure NextValue where
  value : Int
  wrapped : Bool

def selectNextValue (values : List Int) (currentValue : Int) : NextValue :=
  match values.find? (currentValue < ·) with
  | some value => { value := value, wrapped := false }
  | none => { value := values.headD 0, wrapped := true }

def matchesDay (parts : ZonedParts) (expression : ParsedCronExpression) : Bool :=
  let matchesDayOfMonth := expression.daysOfMonth.values.contains parts.day
  let matchesDayOfWeek := expression.daysOfWeek.values.contains parts.dayOfWeek
  if expression.daysOfMonth.wildcard && expression.daysOfWeek.wildcard then true
  else if expression.daysOfMonth.wildcard then matchesDayOfWeek
  else if expression.daysOfWeek.wildcard then matchesDayOfMonth
  else matchesDayOfMonth || matchesDayOfWeek

/-! ## Readings and their parts -/

def localOf (reading : Int) : LocalDateTime := (partsOf reading).toLocalDateTime

theorem validTime_eq_ok {t t' : Int} : validTime t = .ok t' ↔
    t' = t ∧ -MAX_TIME ≤ t ∧ t ≤ MAX_TIME := by
  unfold validTime
  constructor
  · intro h
    split_ifs at h with hvalid
    exact ⟨(Except.ok.inj h).symm, hvalid⟩
  · rintro ⟨rfl, hvalid⟩
    rw [if_pos hvalid]

theorem validTime_of_valid {t : Int} (hlow : -MAX_TIME ≤ t) (hhigh : t ≤ MAX_TIME) :
    validTime t = .ok t :=
  validTime_eq_ok.2 ⟨rfl, hlow, hhigh⟩

/-- The parts of a reading determine it, to the second. -/
theorem localOf_eq_iff {x y : Int} : localOf x = localOf y ↔ x / 1000 = y / 1000 := by
  constructor
  · intro h
    simp only [localOf, partsOf, LocalDateTime.mk.injEq] at h
    obtain ⟨hyear, hmonth, hday, hhour, hminute, hsecond⟩ := h
    have hepochDay : x / 86400000 = y / 86400000 := by
      rw [← makeDay_civilDate (x / 86400000), ← makeDay_civilDate (y / 86400000), hyear, hmonth,
        hday]
    omega
  · intro h
    have hepochDay : x / 86400000 = y / 86400000 := by omega
    have hhour : x / 3600000 = y / 3600000 := by omega
    have hminute : x / 60000 = y / 60000 := by omega
    simp only [localOf, partsOf, hepochDay, hhour, hminute, h]

theorem sameLocalDateTime_iff {d : LocalDateTime} {parts : ZonedParts} :
    sameLocalDateTime d parts = true ↔ d = parts.toLocalDateTime := by
  obtain ⟨year, month, day, hour, minute, second⟩ := d
  obtain ⟨⟨year', month', day', hour', minute', second'⟩, dayOfWeek⟩ := parts
  simp only [sameLocalDateTime, decide_eq_true_eq, LocalDateTime.mk.injEq]

theorem localOf_of_time (epochDay hour minute second : Int) (hhour : 0 ≤ hour ∧ hour < 24)
    (hminute : 0 ≤ minute ∧ minute < 60) (hsecond : 0 ≤ second ∧ second < 60) :
    localOf (epochDay * 86400000 + hour * 3600000 + minute * 60000 + second * 1000) =
      { year := (civilDate epochDay).year
        month := (civilDate epochDay).month
        day := (civilDate epochDay).day
        hour := hour
        minute := minute
        second := second } := by
  generalize hreading :
    epochDay * 86400000 + hour * 3600000 + minute * 60000 + second * 1000 = reading
  have hday : reading / 86400000 = epochDay := by omega
  have hhours : reading / 3600000 % 24 = hour := by omega
  have hminutes : reading / 60000 % 60 = minute := by omega
  have hseconds : reading / 1000 % 60 = second := by omega
  simp only [localOf, partsOf, hday, hhours, hminutes, hseconds]

/-- The first day of the year 100. -/
theorem year_gt_of_le {epochDay : Int}
    (h : -683003 ≤ epochDay) : 99 < (civilDate epochDay).year := by
  have hstart : monthStart 1200 = -683003 := by decide
  have hmonth := monthStart_le_iff.1 (hstart.trans_le h)
  rw [civilDate_year]
  omega

theorem dateUTC_localOf {reading : Int} (h : -683003 * 86400000 ≤ reading) :
    dateUTC (localOf reading) = validTime (reading / 1000 * 1000) := by
  have hyear : 99 < (civilDate (reading / 86400000)).year := year_gt_of_le (by omega)
  have hold : ¬ (0 ≤ (localOf reading).year ∧ (localOf reading).year ≤ 99) := fun hbad =>
    absurd hyear (not_lt.2 hbad.2)
  have hday : makeDay (localOf reading).year (localOf reading).month (localOf reading).day =
      reading / 86400000 := makeDay_civilDate _
  have htime : (localOf reading).hour = reading / 3600000 % 24 ∧
      (localOf reading).minute = reading / 60000 % 60 ∧
      (localOf reading).second = reading / 1000 % 60 := ⟨rfl, rfl, rfl⟩
  unfold dateUTC
  dsimp only
  rw [if_neg hold, hday]
  congr 1
  omega

/-! ## From a local date and time to an instant -/

variable {zone : TimeZone}

theorem getZonedParts_eq_ok {t : Int} {parts : ZonedParts} :
    getZonedParts t zone = .ok parts ↔
      parts = partsOf (zone.clock t) ∧ -MAX_TIME ≤ t ∧ t ≤ MAX_TIME := by
  unfold getZonedParts
  rw [bind_eq_ok]
  constructor
  · rintro ⟨t', ht', h⟩
    obtain ⟨rfl, hvalid⟩ := validTime_eq_ok.1 ht'
    exact ⟨(Except.ok.inj h).symm, hvalid⟩
  · rintro ⟨rfl, hvalid⟩
    exact ⟨t, validTime_eq_ok.2 ⟨rfl, hvalid⟩, rfl⟩

theorem filterSame_eq_ok {reading : Int} {ts matching : List Int}
    (h : filterSame (localOf reading) zone ts = .ok matching) (t : Int) :
    t ∈ matching ↔ t ∈ ts ∧ localOf (zone.clock t) = localOf reading := by
  induction ts generalizing matching with
  | nil =>
    cases h
    simp
  | cons first rest ih =>
    obtain ⟨parts, hparts, h⟩ := bind_eq_ok.1 h
    obtain ⟨rfl, -⟩ := getZonedParts_eq_ok.1 hparts
    obtain ⟨matching', hmatching', h⟩ := bind_eq_ok.1 h
    have hrest := ih hmatching'
    have hsame : sameLocalDateTime (localOf reading) (partsOf (zone.clock first)) = true ↔
        localOf (zone.clock first) = localOf reading := by
      rw [sameLocalDateTime_iff]
      exact eq_comm
    cases h
    rw [List.mem_cons]
    split_ifs with hfirst
    · have hreads := hsame.1 hfirst
      rw [List.mem_cons, hrest]
      constructor
      · rintro (rfl | ⟨hmem, ht⟩)
        · exact ⟨.inl rfl, hreads⟩
        · exact ⟨.inr hmem, ht⟩
      · rintro ⟨rfl | hmem, ht⟩
        · exact .inl rfl
        · exact .inr ⟨hmem, ht⟩
    · have hnot : ¬ localOf (zone.clock first) = localOf reading := fun hbad =>
        hfirst (hsame.2 hbad)
      rw [hrest]
      constructor
      · exact fun ⟨hmem, ht⟩ => ⟨.inr hmem, ht⟩
      · rintro ⟨rfl | hmem, ht⟩
        · exact (hnot ht).elim
        · exact ⟨hmem, ht⟩

theorem filterSame_of_valid (d : LocalDateTime) (zone : TimeZone) {ts : List Int}
    (h : ∀ t ∈ ts, -MAX_TIME ≤ t ∧ t ≤ MAX_TIME) : ∃ matching,
      filterSame d zone ts = .ok matching := by
  induction ts with
  | nil => exact ⟨[], rfl⟩
  | cons first rest ih =>
    obtain ⟨matching, hmatching⟩ := ih fun t ht => h t (List.mem_cons_of_mem first ht)
    exact ⟨_, bind_eq_ok.2 ⟨_, getZonedParts_eq_ok.2 ⟨rfl, h first List.mem_cons_self⟩,
      bind_eq_ok.2 ⟨matching, hmatching, rfl⟩⟩⟩

theorem mem_candidatesAround {candidate t : Int} :
    t ∈ candidatesAround candidate ↔
      900000 ∣ t - candidate ∧ -7200000 ≤ t - candidate ∧ t - candidate ≤ 7200000 := by
  simp only [candidatesAround, List.mem_map, List.mem_range]
  constructor
  · rintro ⟨index, hindex, rfl⟩
    omega
  · rintro ⟨hquarter, hlow, hhigh⟩
    exact ⟨((t - candidate + 7200000) / 900000).toNat, by omega, by omega⟩

theorem head?_insertionSort_eq_some {xs : List Int} {x : Int} (hmem : x ∈ xs)
    (hleast : ∀ y ∈ xs, x ≤ y) :
    (xs.insertionSort (· ≤ ·)).head? = some x := by
  have hsorted : (xs.insertionSort (· ≤ ·)).Pairwise (· ≤ ·) := List.pairwise_insertionSort _ _
  have hmem' : ∀ y, y ∈ xs.insertionSort (· ≤ ·) ↔ y ∈ xs := fun y => List.mem_insertionSort _
  cases hcons : xs.insertionSort (· ≤ ·) with
  | nil =>
    have hbad := (hmem' x).2 hmem
    rw [hcons] at hbad
    cases hbad
  | cons first rest =>
    rw [hcons] at hsorted hmem'
    have hfirst := hleast first ((hmem' first).1 List.mem_cons_self)
    obtain heq | hrest := List.mem_cons.1 ((hmem' x).2 hmem)
    · rw [heq]
      rfl
    · have hle := (List.pairwise_cons.1 hsorted).1 x hrest
      exact congrArg some (le_antisymm hle hfirst)

/-! ### Where the clock is never set -/

/-- The clock of a zone is never set, and differs from UTC by whole minutes. -/
structure IsConstant (zone : TimeZone) (offset : Int) : Prop where
  minutes : 60000 ∣ offset
  offsetAt : ∀ t, zone.offsetAt t = offset

section Constant

variable {offset : Int} (hzone : IsConstant zone offset)

include hzone

theorem IsConstant.clock (t : Int) : zone.clock t = t + offset := by
  rw [TimeZone.clock, hzone.offsetAt]

theorem IsConstant.bounded : -86400000 < offset ∧ offset < 86400000 := by
  have hbounded := zone.bounded 0
  rwa [hzone.offsetAt] at hbounded

theorem getOffsetMilliseconds_constant {t : Int} (hlow : -MAX_TIME ≤ t) (hhigh : t ≤ MAX_TIME) :
    getOffsetMilliseconds t zone = .ok offset := by
  refine bind_eq_ok.2 ⟨t, validTime_of_valid hlow hhigh, ?_⟩
  rw [hzone.offsetAt]
  exact congrArg Except.ok (if_pos hzone.minutes)

/-- The second iteration finds what the first one did. -/
theorem adjustCandidate_constant {naive : Int} (hlow : -MAX_TIME + 86400000 ≤ naive)
    (hhigh : naive + 86400000 ≤ MAX_TIME) (iterations : Nat) :
    adjustCandidate naive zone (iterations + 2) naive = .ok (naive - offset) := by
  obtain ⟨hoffsetLow, hoffsetHigh⟩ := hzone.bounded
  have hfirst := getOffsetMilliseconds_constant hzone (t := naive) (by omega) (by omega)
  have hsecond := getOffsetMilliseconds_constant hzone (t := naive - offset) (by omega) (by omega)
  refine bind_eq_ok.2 ⟨offset, hfirst, ?_⟩
  dsimp only
  split_ifs with heq
  · exact congrArg Except.ok heq.symm
  · refine bind_eq_ok.2 ⟨offset, hsecond, ?_⟩
    rw [if_pos rfl]
    rfl

/-- A local time is that of one instant, which is found if it is not too early. -/
theorem localDateTimeToTimestamp_constant {reading : Int} (minimum : Int) (hsecond : 1000 ∣ reading)
    (hlow : -86400000 * 4 ≤ reading) (hhigh : reading + 86400000 * 2 ≤ MAX_TIME) :
    localDateTimeToTimestamp (localOf reading) zone minimum =
      .ok (if minimum ≤ reading - offset then some (reading - offset) else none) := by
  have hmax : MAX_TIME = 8640000000000000 := rfl
  obtain ⟨hoffsetLow, hoffsetHigh⟩ := hzone.bounded
  have hnaive : dateUTC (localOf reading) = .ok reading := by
    rw [dateUTC_localOf (by omega), Int.ediv_mul_cancel hsecond]
    exact validTime_of_valid (by omega) (by omega)
  have hvalid : ∀ t ∈ (candidatesAround (reading - offset)).filter fun timestamp =>
      minimum ≤ timestamp, -MAX_TIME ≤ t ∧ t ≤ MAX_TIME := by
    intro t ht
    obtain ⟨-, htLow, htHigh⟩ := mem_candidatesAround.1 (List.mem_filter.1 ht).1
    omega
  obtain ⟨matching, hmatching⟩ := filterSame_of_valid (localOf reading) zone hvalid
  -- the other instants that are tried lie a quarter of an hour off
  have hmem : ∀ t, t ∈ matching ↔ minimum ≤ t ∧ t = reading - offset := by
    intro t
    rw [filterSame_eq_ok hmatching, List.mem_filter, decide_eq_true_iff, mem_candidatesAround,
      hzone.clock, localOf_eq_iff]
    omega
  have hhead : (matching.insertionSort (· ≤ ·)).head? =
      if minimum ≤ reading - offset then some (reading - offset) else none := by
    split_ifs with hmin
    · exact head?_insertionSort_eq_some ((hmem _).2 ⟨hmin, rfl⟩) fun y hy => ((hmem y).1 hy).2.ge
    · have hnil : matching = [] := by
        rw [List.eq_nil_iff_forall_not_mem]
        rintro t ht
        obtain ⟨hle, rfl⟩ := (hmem t).1 ht
        exact hmin hle
      rw [hnil]
      rfl
  refine bind_eq_ok.2 ⟨reading, hnaive, bind_eq_ok.2 ⟨reading - offset, ?_,
    bind_eq_ok.2 ⟨matching, hmatching, congrArg Except.ok hhead⟩⟩⟩
  exact adjustCandidate_constant hzone (by omega) (by omega) 4

end Constant

end Weft.Cron

/-! The next occurrence of a cron expression: a search that skips from field to field. -/

namespace Weft.Cron
open Weft.Js

def normalizeStorageTimestamp (timestamp : Int) (fieldName : JsString) : Occurrence Int :=
  if timestamp < 0 then .error (.negative fieldName timestamp)
  else if 2 ^ 53 - 1 < timestamp then .error (.unsafeInteger fieldName timestamp)
  else .ok timestamp

def nextSearchTimestamp (candidate : Int) : Int := candidate + 1000

def startOfLocalDay (parts : ZonedParts) : LocalDateTime where
  year := parts.year
  month := parts.month
  day := parts.day
  hour := 0
  minute := 0
  second := 0

def advanceToNextMonth (candidate : Int) (parts : ZonedParts)
    (parsedExpression : ParsedCronExpression)
    (timeZone : TimeZone) : Occurrence Int := do
  let nextMonth := selectNextValue parsedExpression.months.values parts.month
  let monthCandidate ← localDateTimeToTimestamp
    { year := parts.year + (if nextMonth.wrapped then 1 else 0)
      month := nextMonth.value
      day := 1
      hour := 0
      minute := 0
      second := 0 }
    timeZone (nextSearchTimestamp candidate)
  return monthCandidate.getD (candidate + 86400000)

def advanceToNextDay (candidate : Int) (parts : ZonedParts) (timeZone : TimeZone) :
    Occurrence Int := do
  let nextDay ← shiftLocalDateTime (startOfLocalDay parts) { days := 1 }
  let nextDayCandidate ← localDateTimeToTimestamp nextDay timeZone (nextSearchTimestamp candidate)
  return nextDayCandidate.getD (candidate + 86400000)

def advanceToNextHour (candidate : Int) (parts : ZonedParts)
    (parsedExpression : ParsedCronExpression)
    (timeZone : TimeZone) : Occurrence Int := do
  let nextHour := selectNextValue parsedExpression.hours.values parts.hour
  let hourCandidate ← localDateTimeToTimestamp { startOfLocalDay parts with hour := nextHour.value }
    timeZone (nextSearchTimestamp candidate)
  match hourCandidate with
  | some hourCandidate => return hourCandidate
  | none => advanceToNextDay candidate parts timeZone

def advanceToNextMinute (candidate : Int) (parts : ZonedParts)
    (parsedExpression : ParsedCronExpression)
    (timeZone : TimeZone) : Occurrence Int := do
  let nextMinute := selectNextValue parsedExpression.minutes.values parts.minute
  let minuteCandidate ← localDateTimeToTimestamp
    { startOfLocalDay parts with hour := parts.hour, minute := nextMinute.value }
    timeZone (nextSearchTimestamp candidate)
  match minuteCandidate with
  | some minuteCandidate => return minuteCandidate
  | none =>
    let nextHour ← shiftLocalDateTime { startOfLocalDay parts with hour := parts.hour }
      { hours := 1 }
    let nextHourBoundary ← localDateTimeToTimestamp nextHour timeZone
      (nextSearchTimestamp candidate)
    return nextHourBoundary.getD (candidate + 3600000)

def advanceToNextSecond (candidate : Int) (parts : ZonedParts)
    (parsedExpression : ParsedCronExpression)
    (timeZone : TimeZone) : Occurrence Int := do
  let nextSecond := selectNextValue parsedExpression.seconds.values parts.second
  let secondCandidate ← localDateTimeToTimestamp
    { startOfLocalDay parts with
      hour := parts.hour
      minute := parts.minute
      second := nextSecond.value }
    timeZone (nextSearchTimestamp candidate)
  match secondCandidate with
  | some secondCandidate => return secondCandidate
  | none =>
    let nextMinute ← shiftLocalDateTime
      { startOfLocalDay parts with hour := parts.hour, minute := parts.minute } { minutes := 1 }
    let nextMinuteBoundary ← localDateTimeToTimestamp nextMinute timeZone
      (nextSearchTimestamp candidate)
    return nextMinuteBoundary.getD (candidate + 60000)

/-- One iteration of the search: the next candidate, if this one is not the occurrence. -/
def searchStep (parsedExpression : ParsedCronExpression) (timeZone : TimeZone) (candidate : Int) :
    Occurrence (Option Int) := do
  let parts ← getZonedParts candidate timeZone
  if parts.month ∉ parsedExpression.months.values then
    return some (← advanceToNextMonth candidate parts parsedExpression timeZone)
  else if ¬ matchesDay parts parsedExpression then
    return some (← advanceToNextDay candidate parts timeZone)
  else if parts.hour ∉ parsedExpression.hours.values then
    return some (← advanceToNextHour candidate parts parsedExpression timeZone)
  else if parts.minute ∉ parsedExpression.minutes.values then
    return some (← advanceToNextMinute candidate parts parsedExpression timeZone)
  else if parts.second ∉ parsedExpression.seconds.values then
    return some (← advanceToNextSecond candidate parts parsedExpression timeZone)
  else return none

def search (parsedExpression : ParsedCronExpression) (timeZone : TimeZone) : Nat → Int →
    Occurrence Int
  | 0, _ => .error (.notFound parsedExpression.expression)
  | iterations + 1, candidate => do
    match ← searchStep parsedExpression timeZone candidate with
    | none => return candidate
    | some next => search parsedExpression timeZone iterations next

/-- The start of the next second. -/
def firstCandidate (afterTimestamp : Int) : Int := afterTimestamp / 1000 * 1000 + 1000

def getNextCronOccurrence (parsedExpression : ParsedCronExpression) (afterTimestamp : Int)
    (timeZone : TimeZone := getDefaultTimeZone) : Occurrence Int := do
  let candidate ← normalizeStorageTimestamp (firstCandidate afterTimestamp)
    (js "Cron occurrence candidate")
  search parsedExpression timeZone 100000 candidate

end Weft.Cron
