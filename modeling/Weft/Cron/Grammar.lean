import Weft.Cron.Parser
import Weft.Lib.Except
import Weft.Lib.Lists

/-! The grammar of cron expressions, and what the parser makes of those outside it: it reads over
whatever stands behind a number, and over a third part of a range or of a step. -/

namespace Weft.Cron
open Weft.Js Weft.Listing Weft.Lib

/-! ## The grammar -/

/-- How numbers are read, and what may follow the two parts of a range or of a step. -/
structure Reading where
  number : JsString → Int → Prop
  more : List JsString → Prop

def IsNumber (text : JsString) (n : Int) : Prop :=
  text ≠ [] ∧ (∀ u ∈ text, isDigitUnit u = true) ∧ numeralValue text < infinity ∧
    n = numeralValue text

/-- A number, with a plus before it or not, and with anything that is no digit behind it. -/
def StartsWithNumber (text : JsString) (n : Int) : Prop :=
  ∃ sign digits rest, text = sign ++ digits ++ rest ∧ (sign = [] ∨ sign = [plus]) ∧
    IsNumber digits n ∧
    ∀ u ∈ rest.head?, isDigitUnit u = false

/-- The grammar. -/
def strict : Reading where
  number := IsNumber
  more := fun rest => rest = []

/-- The grammar as the parser reads it. -/
def loose : Reading where
  number := StartsWithNumber
  more := fun _ => True

/-- In the field of the days of the week 7 is Sunday too. -/
def FieldSpec.normalize (spec : FieldSpec) (n : Int) : Int :=
  if spec.maximum = 6 ∧ n = 7 then 0 else n

def Reading.Value (r : Reading) (spec : FieldSpec) (token : JsString) (value : Int) : Prop :=
  match spec.names.lookup (toUpperCase token) with
  | some named => value = named
  | none => ∃ n, r.number token n ∧ value = spec.normalize n ∧ spec.minimum ≤ value ∧
      value ≤ spec.maximum

/-- A star, a value, or two values with a dash between them. -/
def Reading.Range (r : Reading) (spec : FieldSpec) (text : JsString) (start stop : Int) : Prop :=
  if isStar text then start = spec.minimum ∧ stop = spec.maximum
  else match text.splitOn minus with
    | [] => False
    | [token] => r.Value spec token start ∧ stop = start
    | first :: last :: rest =>
      r.Value spec first start ∧ r.Value spec last stop ∧ start ≤ stop ∧ r.more rest

/-- A range, with a step behind a slash or not. -/
def Reading.Term (r : Reading) (spec : FieldSpec) (segment : JsString) (start stop step : Int) :
    Prop :=
  match segment.splitOn slash with
  | [] => False
  | [range] => r.Range spec range start stop ∧ step = 1
  | range :: stepPart :: rest =>
    r.Range spec range start stop ∧ r.number stepPart step ∧ 0 < step ∧ r.more rest

/-- The terms of a field stand between commas. -/
def Reading.Field (r : Reading) (spec : FieldSpec) (text : JsString) : Prop :=
  ∀ segment ∈ text.splitOn comma, ∃ start stop step, r.Term spec segment start stop step

def Reading.Denotes (r : Reading) (spec : FieldSpec) (text : JsString) (value : Int) : Prop :=
  ∃ segment ∈ text.splitOn comma, ∃ start stop step, r.Term spec segment start stop step ∧
    start ≤ value ∧ value ≤ stop ∧ step ∣ value - start

def cronSpecs : List FieldSpec :=
  [secondsSpec, minutesSpec, hoursSpec, daysOfMonthSpec, monthsSpec, daysOfWeekSpec]

/-- The texts of the fields; where there are five the seconds are 0. -/
def fieldTexts (expression : JsString) : List JsString :=
  if (splitFields expression).length = 5 then js "0" :: splitFields expression
  else splitFields expression

def Reading.Expression (r : Reading) (expression : JsString) : Prop :=
  List.Forall₂ r.Field cronSpecs (fieldTexts expression)

def ParsedCronExpression.fields (parsed : ParsedCronExpression) : List CronField :=
  [parsed.seconds, parsed.minutes, parsed.hours, parsed.daysOfMonth, parsed.months,
    parsed.daysOfWeek]

/-- The field holds what its text denotes. -/
structure Holds (spec : FieldSpec) (text : JsString) (field : CronField) : Prop where
  sorted : field.values.Pairwise (· < ·)
  denoted : ∀ value, value ∈ field.values ↔ strict.Denotes spec text value
  bounds : ∀ value ∈ field.values, spec.minimum ≤ value ∧ value ≤ spec.maximum

/-- Exactly what is in the grammar is parsed, and to what it denotes. -/
structure ParsedExactly (expression : JsString) : Prop where
  accepted : (∃ parsed, parseCronExpression expression = .ok parsed) ↔ strict.Expression expression
  holds : ∀ parsed, parseCronExpression expression = .ok parsed →
    List.Forall₂ (fun (x : FieldSpec × JsString) field => Holds x.1 x.2 field)
      (cronSpecs.zip (fieldTexts expression)) parsed.fields

/-! ## Numbers -/

/-- There is no white space in it. -/
def Unspaced (text : JsString) : Prop := ∀ u ∈ text, isTrimmed u = false

variable {text : JsString}

theorem dropWhile_of_unspaced (h : Unspaced text) : text.dropWhile isTrimmed = text := by
  cases text with
  | nil => rfl
  | cons u rest => rw [List.dropWhile_cons_of_neg]; simp [h u List.mem_cons_self]

theorem trim_of_unspaced (h : Unspaced text) : trim text = text := by
  have hreverse : Unspaced text.reverse := fun u hu => h u (List.mem_reverse.1 hu)
  rw [trim, dropWhile_of_unspaced h, dropWhile_of_unspaced hreverse, List.reverse_reverse]

theorem isDigitUnit_ne {u : CodeUnit} (h : isDigitUnit u = true) : u ≠ minus ∧ u ≠ plus := by
  constructor
  · rintro rfl
    revert h
    decide
  · rintro rfl
    revert h
    decide

theorem takeWhile_digits {digits rest : JsString} (hdigits : ∀ u ∈ digits, isDigitUnit u = true)
    (hrest : ∀ u ∈ rest.head?, isDigitUnit u = false) :
    (digits ++ rest).takeWhile isDigitUnit = digits := by
  rw [List.takeWhile_append_of_pos hdigits]
  cases rest with
  | nil => simp
  | cons u rest =>
    rw [List.takeWhile_cons_of_neg, List.append_nil]
    simp [hrest u rfl]

/-- What is read behind the sign. -/
def leadingNumber (text : JsString) : Option Int :=
  if text.takeWhile isDigitUnit = [] ∨
    infinity ≤ numeralValue (text.takeWhile isDigitUnit) then none
  else some (numeralValue (text.takeWhile isDigitUnit))

theorem parseInt_minus {rest : JsString} (h : Unspaced (minus :: rest)) :
    parseInt (minus :: rest) = (leadingNumber rest).map fun n => -n := by
  unfold parseInt leadingNumber
  rw [dropWhile_of_unspaced h]
  have hhead : (minus :: rest).head? = some minus := rfl
  simp only [hhead, true_or, if_true, List.tail_cons]
  split_ifs
  · rfl
  · rfl

theorem parseInt_plus {rest : JsString} (h : Unspaced (plus :: rest)) :
    parseInt (plus :: rest) = leadingNumber rest := by
  unfold parseInt leadingNumber
  rw [dropWhile_of_unspaced h]
  have hhead : ¬ (plus :: rest).head? = some minus := by
    show ¬ some plus = some minus
    decide
  have hhead' : (plus :: rest).head? = some plus := rfl
  simp only [hhead', or_true, if_true, List.tail_cons]
  rw [hhead'] at hhead
  simp only [hhead, if_false]

theorem parseInt_unsigned (h : Unspaced text) (hminus : text.head? ≠ some minus)
    (hplus : text.head? ≠ some plus) : parseInt text = leadingNumber text := by
  unfold parseInt leadingNumber
  rw [dropWhile_of_unspaced h]
  simp only [hminus, hplus, or_self, if_false]

theorem leadingNumber_eq_some {n : Int} :
    leadingNumber text = some n ↔ ∃ digits rest, text = digits ++ rest ∧ IsNumber digits n ∧
      ∀ u ∈ rest.head?, isDigitUnit u = false := by
  constructor
  · intro h
    unfold leadingNumber at h
    split_ifs at h with hbad
    rw [not_or, not_le] at hbad
    refine ⟨text.takeWhile isDigitUnit, text.dropWhile isDigitUnit,
      List.takeWhile_append_dropWhile.symm,
      ⟨hbad.1, fun u hu => List.mem_takeWhile_imp hu, hbad.2, (Option.some.inj h).symm⟩,
        fun u hu => ?_⟩
    have hnot := List.head?_dropWhile_not isDigitUnit text
    rw [Option.mem_def.1 hu] at hnot
    simpa using hnot
  · rintro ⟨digits, rest, rfl, ⟨hsome, hdigits, hfinite, rfl⟩, hrest⟩
    unfold leadingNumber
    rw [takeWhile_digits hdigits hrest, if_neg (not_or.2 ⟨hsome, not_le.2 hfinite⟩)]

/-- The parser reads a number as it stands at the front. -/
theorem parseInt_of_startsWithNumber {n : Int} (hunspaced : Unspaced text)
    (h : StartsWithNumber text n) : parseInt text = some n := by
  obtain ⟨sign, digits, rest, rfl, hsign, hnumber, hrest⟩ := h
  have hleading : leadingNumber (digits ++ rest) = some n :=
    leadingNumber_eq_some.2 ⟨digits, rest, rfl, hnumber, hrest⟩
  obtain rfl | rfl := hsign
  · obtain ⟨d, tail, rfl⟩ := List.exists_cons_of_ne_nil hnumber.1
    obtain ⟨hminus, hplus⟩ := isDigitUnit_ne (hnumber.2.1 d List.mem_cons_self)
    refine (parseInt_unsigned hunspaced ?_ ?_).trans hleading
    · exact fun hhead => hminus (Option.some.inj hhead)
    · exact fun hhead => hplus (Option.some.inj hhead)
  · exact (parseInt_plus hunspaced).trans hleading

theorem leadingNumber_nonneg {n : Int} (h : leadingNumber text = some n) : 0 ≤ n := by
  obtain ⟨digits, rest, -, ⟨-, -, -, rfl⟩, -⟩ := leadingNumber_eq_some.1 h
  exact Int.natCast_nonneg _

/-- It reads nothing else, but for negative numbers. -/
theorem startsWithNumber_of_parseInt {n : Int} (hunspaced : Unspaced text)
    (h : parseInt text = some n) (hpositive : minus ∉ text ∨ 0 < n) : StartsWithNumber text n := by
  by_cases hminus : text.head? = some minus
  · obtain ⟨rest, rfl⟩ : ∃ rest, text = minus :: rest := List.head?_eq_some_iff.1 hminus
    rw [parseInt_minus hunspaced] at h
    obtain ⟨m, hm, rfl⟩ := Option.map_eq_some_iff.1 h
    have hm := leadingNumber_nonneg hm
    obtain hno | hpos := hpositive
    · exact (hno List.mem_cons_self).elim
    · omega
  · by_cases hplus : text.head? = some plus
    · obtain ⟨rest, rfl⟩ : ∃ rest, text = plus :: rest := List.head?_eq_some_iff.1 hplus
      rw [parseInt_plus hunspaced] at h
      obtain ⟨digits, rest', rfl, hnumber, hrest⟩ := leadingNumber_eq_some.1 h
      exact ⟨[plus], digits, rest', rfl, .inr rfl, hnumber, hrest⟩
    · rw [parseInt_unsigned hunspaced hminus hplus] at h
      obtain ⟨digits, rest, rfl, hnumber, hrest⟩ := leadingNumber_eq_some.1 h
      exact ⟨[], digits, rest, rfl, .inl rfl, hnumber, hrest⟩

theorem startsWithNumber_of_isNumber {n : Int} (h : IsNumber text n) : StartsWithNumber text n := by
  refine ⟨[], text, [], (List.append_nil text).symm, .inl rfl, h, fun u hu => ?_⟩
  cases hu

/-! ## Splitting -/

theorem mem_of_mem_splitOnP {isSep : CodeUnit → Bool} {u : CodeUnit} {text part : JsString}
    (hpart : part ∈ text.splitOnP isSep) (hu : u ∈ part) : u ∈ text ∧ isSep u = false := by
  induction text generalizing part with
  | nil =>
    rw [List.splitOnP_nil, List.mem_singleton] at hpart
    rw [hpart] at hu
    cases hu
  | cons v rest ih =>
    rw [List.splitOnP_cons_eq_if_modifyHead] at hpart
    split_ifs at hpart with hsep
    · obtain rfl | hpart := List.mem_cons.1 hpart
      · cases hu
      · exact (ih hpart hu).imp_left (List.mem_cons_of_mem v)
    · cases hparts : rest.splitOnP isSep with
      | nil => exact (List.splitOnP_ne_nil _ _ hparts).elim
      | cons first others =>
        rw [hparts, List.modifyHead_cons] at hpart
        rw [hparts] at ih
        obtain rfl | hpart := List.mem_cons.1 hpart
        · obtain rfl | hu := List.mem_cons.1 hu
          · exact ⟨List.mem_cons_self, by simpa using hsep⟩
          · exact (ih List.mem_cons_self hu).imp_left (List.mem_cons_of_mem v)
        · exact (ih (List.mem_cons_of_mem first hpart) hu).imp_left (List.mem_cons_of_mem v)

theorem mem_of_mem_splitOn {sep u : CodeUnit} {text part : JsString}
    (hpart : part ∈ text.splitOn sep)
    (hu : u ∈ part) : u ∈ text ∧ u ≠ sep := by
  obtain ⟨hmem, hnot⟩ := mem_of_mem_splitOnP hpart hu
  exact ⟨hmem, by simpa using hnot⟩

theorem Unspaced.part {sep : CodeUnit} {text part : JsString} (h : Unspaced text)
    (hpart : part ∈ text.splitOn sep) : Unspaced part := fun u hu =>
  h u (mem_of_mem_splitOn hpart hu).1

/-! ## Terms -/

variable {spec : FieldSpec}

variable {value : Int}

theorem parseNamedValue_iff {token : JsString} (hunspaced : Unspaced token)
    (hminus : minus ∉ token) :
    parseNamedValue spec token = .ok value ↔ loose.Value spec token value := by
  unfold parseNamedValue Reading.Value
  cases spec.names.lookup (toUpperCase token) with
  | some named =>
    constructor
    · intro h
      exact (Except.ok.inj h).symm
    · rintro rfl
      rfl
  | none =>
    dsimp only
    constructor
    · intro h
      cases hparse : parseInt token with
      | none =>
        rw [hparse] at h
        cases h
      | some n =>
        rw [hparse] at h
        dsimp only at h
        generalize hnormalized : (if spec.maximum = 6 ∧ n = 7 then (0 : Int) else n) = m at h
        split_ifs at h with hbad
        cases h
        rw [not_or, not_lt, not_lt] at hbad
        exact ⟨n, startsWithNumber_of_parseInt hunspaced hparse (.inl hminus), hnormalized.symm,
          hbad.1, hbad.2⟩
    · rintro ⟨n, hn, rfl, hlow, hhigh⟩
      rw [parseInt_of_startsWithNumber hunspaced hn]
      dsimp only
      rw [← FieldSpec.normalize, if_neg (not_or.2 ⟨not_lt.2 hlow, not_lt.2 hhigh⟩)]

theorem parseCronStep_iff {segment stepPart : JsString} {step : Int}
    (hunspaced : Unspaced stepPart) :
    parseCronStep segment (some stepPart) = .ok step ↔
      StartsWithNumber stepPart step ∧ 0 < step := by
  unfold parseCronStep
  dsimp only
  constructor
  · intro h
    cases hparse : parseInt stepPart with
    | none =>
      rw [hparse] at h
      cases h
    | some n =>
      rw [hparse] at h
      dsimp only at h
      split_ifs at h with hbad
      cases h
      rw [not_le] at hbad
      exact ⟨startsWithNumber_of_parseInt hunspaced hparse (.inr hbad), hbad⟩
  · rintro ⟨hn, hpositive⟩
    rw [parseInt_of_startsWithNumber hunspaced hn]
    exact if_neg (not_le.2 hpositive)

/-- What is done with a segment once its step is known. -/
def addRangeValues (spec : FieldSpec) (values : List Int) (segment rangePart : JsString)
    (step : Int) :
    Except CronError (List Int) :=
  if isStar rangePart then return addSteppedValues values spec.minimum spec.maximum step
  else do
    let tokens := rangePart.splitOn minus
    let start ← parseNamedValue spec (tokens.headD [])
    let stop ← match tokens[1]? with
      | none => pure start
      | some endToken => parseNamedValue spec endToken
    if stop < start then throw (.range segment)
    else return addSteppedValues values start stop step

theorem addCronSegmentValues_eq (spec : FieldSpec) (values : List Int) (segment : JsString) :
    addCronSegmentValues spec values segment =
      (parseCronStep segment (segment.splitOn slash)[1]?).bind fun step =>
        addRangeValues spec values segment ((segment.splitOn slash).headD []) step := by
  rfl

variable {values values' : List Int}

theorem addRangeValues_iff {segment rangePart : JsString} {step : Int}
    (hunspaced : Unspaced rangePart) :
    addRangeValues spec values segment rangePart step = .ok values' ↔
      ∃ start stop, loose.Range spec rangePart start stop ∧
        values' = addSteppedValues values start stop step := by
  unfold addRangeValues Reading.Range
  by_cases hstar : isStar rangePart = true
  · simp only [hstar, if_true]
    constructor
    · intro h
      exact ⟨_, _, ⟨rfl, rfl⟩, (Except.ok.inj h).symm⟩
    · rintro ⟨start, stop, ⟨rfl, rfl⟩, rfl⟩
      rfl
  · simp only [hstar, if_false, Bool.false_eq_true]
    have hvalue : ∀ {token value}, token ∈ rangePart.splitOn minus →
        (parseNamedValue spec token = .ok value ↔ loose.Value spec token value) := fun hmem =>
      parseNamedValue_iff (hunspaced.part hmem) fun hbad => (mem_of_mem_splitOn hmem hbad).2 rfl
    cases htokens : rangePart.splitOn minus with
    | nil => exact (List.splitOnP_ne_nil _ _ htokens).elim
    | cons first others =>
      rw [htokens] at hvalue
      cases others with
      | nil =>
        simp only [List.headD_cons, List.getElem?_cons_succ, List.getElem?_nil]
        constructor
        · intro h
          obtain ⟨start, hstart, h⟩ := bind_eq_ok.1 h
          obtain ⟨stop, hstop, h⟩ := bind_eq_ok.1 h
          cases hstop
          rw [if_neg (lt_irrefl start)] at h
          exact ⟨start, start, ⟨(hvalue List.mem_cons_self).1 hstart, rfl⟩, (Except.ok.inj h).symm⟩
        · rintro ⟨start, stop, ⟨hstart, rfl⟩, rfl⟩
          refine bind_eq_ok.2 ⟨stop, (hvalue List.mem_cons_self).2 hstart,
            bind_eq_ok.2 ⟨stop, rfl, ?_⟩⟩
          rw [if_neg (lt_irrefl stop)]
          rfl
      | cons last rest =>
        have hlast : last ∈ first :: last :: rest := List.mem_cons_of_mem _ List.mem_cons_self
        simp only [List.headD_cons, List.getElem?_cons_succ, List.getElem?_cons_zero]
        constructor
        · intro h
          obtain ⟨start, hstart, h⟩ := bind_eq_ok.1 h
          obtain ⟨stop, hstop, h⟩ := bind_eq_ok.1 h
          split_ifs at h with hbad
          exact ⟨start, stop, ⟨(hvalue List.mem_cons_self).1 hstart, (hvalue hlast).1 hstop,
            not_lt.1 hbad, trivial⟩, (Except.ok.inj h).symm⟩
        · rintro ⟨start, stop, ⟨hstart, hstop, hle, -⟩, rfl⟩
          refine bind_eq_ok.2 ⟨start, (hvalue List.mem_cons_self).2 hstart,
            bind_eq_ok.2 ⟨stop, (hvalue hlast).2 hstop, ?_⟩⟩
          rw [if_neg (not_lt.2 hle)]
          rfl

variable {segment : JsString}

theorem addCronSegmentValues_iff (hunspaced : Unspaced segment) :
    addCronSegmentValues spec values segment = .ok values' ↔
      ∃ start stop step, loose.Term spec segment start stop step ∧
        values' = addSteppedValues values start stop step := by
  rw [addCronSegmentValues_eq]
  unfold Reading.Term
  cases hparts : segment.splitOn slash with
  | nil => exact (List.splitOnP_ne_nil _ _ hparts).elim
  | cons range others =>
    have hrange : Unspaced range := hunspaced.part (by rw [hparts]; exact List.mem_cons_self)
    cases others with
    | nil =>
      simp only [List.headD_cons, List.getElem?_cons_succ, List.getElem?_nil]
      constructor
      · intro h
        obtain ⟨step, hstep, h⟩ := bind_eq_ok.1 h
        obtain ⟨start, stop, hread, rfl⟩ := (addRangeValues_iff hrange).1 h
        exact ⟨start, stop, step, ⟨hread, (Except.ok.inj hstep).symm⟩, rfl⟩
      · rintro ⟨start, stop, step, ⟨hread, rfl⟩, rfl⟩
        exact bind_eq_ok.2 ⟨1, rfl, (addRangeValues_iff hrange).2 ⟨start, stop, hread, rfl⟩⟩
    | cons stepPart rest =>
      have hstepPart : Unspaced stepPart := hunspaced.part (by
        rw [hparts]
        exact List.mem_cons_of_mem _ List.mem_cons_self)
      simp only [List.headD_cons, List.getElem?_cons_succ, List.getElem?_cons_zero]
      constructor
      · intro h
        obtain ⟨step, hstep, h⟩ := bind_eq_ok.1 h
        obtain ⟨hnumber, hpositive⟩ := (parseCronStep_iff hstepPart).1 hstep
        obtain ⟨start, stop, hread, rfl⟩ := (addRangeValues_iff hrange).1 h
        exact ⟨start, stop, step, ⟨hread, hnumber, hpositive, trivial⟩, rfl⟩
      · rintro ⟨start, stop, step, ⟨hread, hnumber, hpositive, -⟩, rfl⟩
        exact bind_eq_ok.2 ⟨step, (parseCronStep_iff hstepPart).2 ⟨hnumber, hpositive⟩,
          (addRangeValues_iff hrange).2 ⟨start, stop, hread, rfl⟩⟩

variable {r : Reading} {start stop step : Int}

theorem Reading.Term.step_pos (h : r.Term spec segment start stop step) : 0 < step := by
  unfold Reading.Term at h
  split at h
  · exact h.elim
  · obtain ⟨-, rfl⟩ := h
    exact Int.one_pos
  · exact h.2.2.1

/-! ## Values -/

variable {values : List Int}

theorem mem_addSteppedFrom {stop step : Int} (hstep : 0 < step) {iterations : Nat} {start v : Int}
    (henough : stop + 1 - start ≤ iterations) :
    v ∈ addSteppedFrom stop step iterations start values ↔
      v ∈ values ∨ start ≤ v ∧ v ≤ stop ∧ step ∣ v - start := by
  induction iterations generalizing start values with
  | zero =>
    have hnone : ¬ (start ≤ v ∧ v ≤ stop ∧ step ∣ v - start) := fun ⟨hlow, hhigh, _⟩ => by omega
    exact (or_iff_left hnone).symm
  | succ iterations ih =>
    rw [addSteppedFrom]
    by_cases hle : start ≤ stop
    · rw [if_pos hle, ih (by omega)]
      have hinsert : v ∈ (if start ∈ values then values else values ++ [start]) ↔
          v ∈ values ∨ v = start := by
        split_ifs with hmem
        · refine (or_iff_left_of_imp ?_).symm
          rintro rfl
          exact hmem
        · rw [List.mem_append, List.mem_singleton]
      have hshift : step ∣ v - (start + step) ↔ step ∣ v - start := by
        rw [← Int.sub_sub, dvd_sub_self_right]
      rw [hinsert, hshift, or_assoc]
      refine or_congr_right ⟨?_, ?_⟩
      · rintro (rfl | ⟨hlow, hhigh, hdvd⟩)
        · exact ⟨le_rfl, hle, by rw [Int.sub_self]; exact dvd_zero step⟩
        · exact ⟨by omega, hhigh, hdvd⟩
      · rintro ⟨hlow, hhigh, hdvd⟩
        obtain rfl | hlt := hlow.eq_or_lt
        · exact .inl rfl
        · have hfar := Int.le_of_dvd (by omega) hdvd
          exact .inr ⟨by omega, hhigh, hdvd⟩
    · rw [if_neg hle]
      have hnone : ¬ (start ≤ v ∧ v ≤ stop ∧ step ∣ v - start) := fun ⟨hlow, hhigh, _⟩ => by omega
      exact (or_iff_left hnone).symm

theorem mem_addSteppedValues {start stop step v : Int} (hstep : 0 < step) :
    v ∈ addSteppedValues values start stop step ↔
      v ∈ values ∨ start ≤ v ∧ v ≤ stop ∧ step ∣ v - start :=
  mem_addSteppedFrom hstep (by omega)

theorem nodup_addSteppedFrom {stop step start : Int} {iterations : Nat} (h : values.Nodup) :
    (addSteppedFrom stop step iterations start values).Nodup := by
  induction iterations generalizing start values with
  | zero => exact h
  | succ iterations ih =>
    rw [addSteppedFrom]
    split_ifs with _ hmem
    · exact ih h
    · refine ih (List.nodup_append.2 ⟨h, List.nodup_singleton start, fun a ha b hb => ?_⟩)
      rintro rfl
      exact hmem (List.mem_singleton.1 hb ▸ ha)
    · exact h

theorem nodup_addSteppedValues (h : values.Nodup) :
    (addSteppedValues values start stop step).Nodup :=
  nodup_addSteppedFrom h

/-! ## Fields -/

/-- The bounds are those of a field, and so are the names. -/
structure FieldSpec.Proper (spec : FieldSpec) : Prop where
  bounds : spec.minimum ≤ spec.maximum
  named : ∀ x ∈ spec.names, spec.minimum ≤ x.2 ∧ x.2 ≤ spec.maximum
  nameless : spec.names.lookup [] = none

theorem proper_of_mem (h : spec ∈ cronSpecs) : spec.Proper := by
  have hall : ∀ spec ∈ cronSpecs, spec.minimum ≤ spec.maximum ∧
      (∀ x ∈ spec.names, spec.minimum ≤ x.2 ∧ x.2 ≤ spec.maximum) ∧
        spec.names.lookup [] = none := by
    decide +kernel
  obtain ⟨hbounds, hnamed, hnameless⟩ := hall spec h
  exact ⟨hbounds, hnamed, hnameless⟩

theorem loose_value_of_strict {token : JsString} (h : strict.Value spec token value) :
    loose.Value spec token value := by
  unfold Reading.Value at h ⊢
  cases hname : spec.names.lookup (toUpperCase token) with
  | some named =>
    rw [hname] at h
    exact h
  | none =>
    rw [hname] at h
    obtain ⟨n, hn, h⟩ := h
    exact ⟨n, startsWithNumber_of_isNumber hn, h⟩

variable {start stop : Int}

theorem loose_range_of_strict (h : strict.Range spec text start stop) :
    loose.Range spec text start stop := by
  unfold Reading.Range at h ⊢
  split_ifs at h ⊢
  · exact h
  · cases htokens : text.splitOn minus with
    | nil =>
      rw [htokens] at h
      exact h
    | cons first others =>
      rw [htokens] at h
      cases others with
      | nil => exact ⟨loose_value_of_strict h.1, h.2⟩
      | cons last rest => exact ⟨loose_value_of_strict h.1, loose_value_of_strict h.2.1, h.2.2.1,
          trivial⟩

/-- What is in the grammar is read. -/
theorem loose_term_of_strict (h : strict.Term spec segment start stop step) :
    loose.Term spec segment start stop step := by
  unfold Reading.Term at h ⊢
  cases hparts : segment.splitOn slash with
  | nil =>
    rw [hparts] at h
    exact h
  | cons range others =>
    rw [hparts] at h
    cases others with
    | nil => exact ⟨loose_range_of_strict h.1, h.2⟩
    | cons stepPart rest =>
      exact ⟨loose_range_of_strict h.1, startsWithNumber_of_isNumber h.2.1, h.2.2.1, trivial⟩

theorem value_bounds (hproper : spec.Proper) {token : JsString} (h : r.Value spec token value) :
    spec.minimum ≤ value ∧ value ≤ spec.maximum := by
  unfold Reading.Value at h
  cases hname : spec.names.lookup (toUpperCase token) with
  | some named =>
    rw [hname] at h
    obtain ⟨before, after, hnames, -⟩ := List.lookup_eq_some_iff.1 hname
    have hmem : (toUpperCase token, named) ∈ spec.names := by
      rw [hnames]
      exact List.mem_append_right _ List.mem_cons_self
    exact h ▸ hproper.named _ hmem
  | none =>
    rw [hname] at h
    obtain ⟨n, -, -, hbounds⟩ := h
    exact hbounds

theorem range_bounds (hproper : spec.Proper) (h : r.Range spec text start stop) :
    spec.minimum ≤ start ∧ stop ≤ spec.maximum := by
  unfold Reading.Range at h
  split_ifs at h
  · obtain ⟨rfl, rfl⟩ := h
    exact ⟨le_rfl, le_rfl⟩
  · split at h
    · exact h.elim
    · obtain ⟨hvalue, rfl⟩ := h
      exact value_bounds hproper hvalue
    · exact ⟨(value_bounds hproper h.1).1, (value_bounds hproper h.2.1).2⟩

theorem term_bounds (hproper : spec.Proper) (h : r.Term spec segment start stop step) :
    spec.minimum ≤ start ∧ stop ≤ spec.maximum := by
  unfold Reading.Term at h
  split at h
  · exact h.elim
  · exact range_bounds hproper h.1
  · exact range_bounds hproper h.1

theorem range_start_le (hproper : spec.Proper) (h : r.Range spec text start stop) :
    start ≤ stop := by
  unfold Reading.Range at h
  split_ifs at h
  · obtain ⟨rfl, rfl⟩ := h
    exact hproper.bounds
  · split at h
    · exact h.elim
    · exact h.2.ge
    · exact h.2.2.1

theorem term_start_le (hproper : spec.Proper) (h : r.Term spec segment start stop step) :
    start ≤ stop := by
  unfold Reading.Term at h
  split at h
  · exact h.elim
  · exact range_start_le hproper h.1
  · exact range_start_le hproper h.1

theorem not_loose_term_nil (hproper : spec.Proper) : ¬ loose.Term spec [] start stop step := by
  have hempty : ∀ n, ¬ StartsWithNumber [] n := by
    rintro n ⟨sign, digits, rest, htext, -, ⟨hsome, -⟩, -⟩
    obtain ⟨hboth, -⟩ := List.append_eq_nil_iff.1 htext.symm
    exact hsome (List.append_eq_nil_iff.1 hboth).2
  have hvalue : ¬ loose.Value spec [] start := by
    unfold Reading.Value
    rw [show toUpperCase [] = [] from rfl, hproper.nameless]
    rintro ⟨n, hn, -⟩
    exact hempty n hn
  have hstar : isStar [] = false := by decide
  rintro ⟨hrange, -⟩
  replace hrange : loose.Range spec [] start stop := hrange
  unfold Reading.Range at hrange
  rw [hstar, if_neg Bool.false_ne_true] at hrange
  exact hvalue hrange.1

/-- Whichever way a segment is read, it denotes the same. -/
theorem loose_term_same (hunspaced : Unspaced segment) {start stop step start' stop' step' : Int}
    (h : loose.Term spec segment start stop step)
    (h' : loose.Term spec segment start' stop' step') (v : Int) :
    start ≤ v ∧ v ≤ stop ∧ step ∣ v - start ↔ start' ≤ v ∧ v ≤ stop' ∧ step' ∣ v - start' := by
  have hread : addCronSegmentValues spec [] segment = .ok (addSteppedValues [] start stop step) :=
    (addCronSegmentValues_iff hunspaced).2 ⟨start, stop, step, h, rfl⟩
  have hread' : addCronSegmentValues spec [] segment = .ok
    (addSteppedValues [] start' stop' step') :=
    (addCronSegmentValues_iff hunspaced).2 ⟨start', stop', step', h', rfl⟩
  have hsame := Except.ok.inj (hread.symm.trans hread')
  have hmem : v ∈ addSteppedValues [] start stop step ↔
    v ∈ addSteppedValues [] start' stop' step' := by
    rw [hsame]
  rw [mem_addSteppedValues h.step_pos, mem_addSteppedValues h'.step_pos] at hmem
  simpa using hmem

variable {segments : List JsString}

/-- The loop over the segments: it reads each of them, and adds what they denote. -/
theorem addSegments_eq_ok {field : JsString} (hunspaced : ∀ segment ∈ segments, Unspaced segment)
    (hnodup : values.Nodup) (h : addSegments spec field segments values = .ok values') :
    (∀ segment ∈ segments, ∃ start stop step, loose.Term spec segment start stop step) ∧
      values'.Nodup ∧ ∀ v, v ∈ values' ↔ v ∈ values ∨ ∃ segment ∈ segments,
        ∃ start stop step, loose.Term spec segment start stop step ∧ start ≤ v ∧ v ≤ stop ∧
          step ∣ v - start := by
  induction segments generalizing values with
  | nil =>
    cases h
    exact ⟨fun segment hbad => (by cases hbad), hnodup, fun v => (by simp)⟩
  | cons segment rest ih =>
    have hsegment := hunspaced segment List.mem_cons_self
    rw [addSegments, trim_of_unspaced hsegment] at h
    split_ifs at h
    obtain ⟨added, hadded, h⟩ := bind_eq_ok.1 h
    obtain ⟨start, stop, step, hterm, rfl⟩ := (addCronSegmentValues_iff hsegment).1 hadded
    obtain ⟨hread, hnodup', hmem⟩ := ih
      (fun other hother => hunspaced other (List.mem_cons_of_mem _ hother))
      (nodup_addSteppedValues hnodup) h
    refine ⟨fun other hother => ?_, hnodup', fun v => ?_⟩
    · obtain rfl | hother := List.mem_cons.1 hother
      · exact ⟨start, stop, step, hterm⟩
      · exact hread other hother
    · rw [hmem, mem_addSteppedValues hterm.step_pos, or_assoc]
      refine or_congr_right ⟨?_, ?_⟩
      · rintro (hv | ⟨other, hother, hv⟩)
        · exact ⟨segment, List.mem_cons_self, start, stop, step, hterm, hv⟩
        · exact ⟨other, List.mem_cons_of_mem _ hother, hv⟩
      · rintro ⟨other, hother, start', stop', step', hterm', hv⟩
        obtain rfl | hother := List.mem_cons.1 hother
        · exact .inl ((loose_term_same hsegment hterm hterm' v).2 hv)
        · exact .inr ⟨other, hother, start', stop', step', hterm', hv⟩

theorem addSegments_of_read (hproper : spec.Proper) {field : JsString}
    (hunspaced : ∀ segment ∈ segments, Unspaced segment)
    (hread : ∀ segment ∈ segments, ∃ start stop step, loose.Term spec segment start stop step) :
    ∃ values', addSegments spec field segments values = .ok values' := by
  induction segments generalizing values with
  | nil => exact ⟨values, rfl⟩
  | cons segment rest ih =>
    have hsegment := hunspaced segment List.mem_cons_self
    obtain ⟨start, stop, step, hterm⟩ := hread segment List.mem_cons_self
    have hsome : segment ≠ [] := by
      rintro rfl
      exact not_loose_term_nil hproper hterm
    obtain ⟨values', hvalues'⟩ : ∃ values', addSegments spec field rest
        (addSteppedValues values start stop step) = .ok values' :=
      ih (fun other hother => hunspaced other (List.mem_cons_of_mem _ hother))
        (fun other hother => hread other (List.mem_cons_of_mem _ hother))
    refine ⟨values', ?_⟩
    rw [addSegments, trim_of_unspaced hsegment, if_neg hsome]
    exact bind_eq_ok.2 ⟨_, (addCronSegmentValues_iff hsegment).2 ⟨start, stop, step, hterm, rfl⟩,
      hvalues'⟩

/-- Within the grammar both readings denote the same. -/
theorem strict_denotes_iff (hunspaced : Unspaced text) (hfield : strict.Field spec text) (v : Int) :
    strict.Denotes spec text v ↔ loose.Denotes spec text v := by
  constructor
  · rintro ⟨segment, hsegment, start, stop, step, hterm, hv⟩
    exact ⟨segment, hsegment, start, stop, step, loose_term_of_strict hterm, hv⟩
  · rintro ⟨segment, hsegment, start, stop, step, hterm, hv⟩
    obtain ⟨start', stop', step', hterm'⟩ := hfield segment hsegment
    have hsame := loose_term_same (hunspaced.part hsegment) hterm (loose_term_of_strict hterm') v
    exact ⟨segment, hsegment, start', stop', step', hterm', hsame.1 hv⟩

theorem isStar_cases (h : isStar text = true) : text = js "*" ∨ text = js "?" := by
  simpa [isStar] using h

/-- A field that is a star denotes all values. -/
theorem term_star (r : Reading) (spec : FieldSpec) (h : isStar text = true) :
    text.splitOn comma = [text] ∧ ∀ start stop step, r.Term spec text start stop step ↔
      start = spec.minimum ∧ stop = spec.maximum ∧ step = 1 := by
  have hsplit : text.splitOn comma = [text] ∧ text.splitOn slash = [text] := by
    obtain rfl | rfl := isStar_cases h
    · decide
    · decide
  refine ⟨hsplit.1, fun start stop step => ?_⟩
  simp only [Reading.Term, hsplit.2, Reading.Range, h, if_true, and_assoc]

theorem mem_buildWildcardCronField {v : Int} :
    v ∈ (buildWildcardCronField spec).values ↔ spec.minimum ≤ v ∧ v ≤ spec.maximum := by
  simp only [buildWildcardCronField, List.mem_map, List.mem_range]
  constructor
  · rintro ⟨index, hindex, rfl⟩
    omega
  · rintro ⟨hlow, hhigh⟩
    exact ⟨(v - spec.minimum).toNat, by omega, by omega⟩

/-- What every parsed field is. -/
structure CronField.WellFormed (spec : FieldSpec) (field : CronField) : Prop where
  sorted : field.values.Pairwise (· < ·)
  bounds : ∀ value ∈ field.values, spec.minimum ≤ value ∧ value ≤ spec.maximum
  nonempty : field.values ≠ []

theorem wellFormed_buildWildcardCronField (hproper : spec.Proper) :
    (buildWildcardCronField spec).WellFormed spec := by
  refine ⟨?_, fun v hv => mem_buildWildcardCronField.1 hv, ?_⟩
  · refine List.pairwise_map.2 (List.pairwise_lt_range.imp fun hlt => ?_)
    omega
  · exact List.ne_nil_of_mem (mem_buildWildcardCronField.2 ⟨le_rfl, hproper.bounds⟩)

theorem denotes_star (r : Reading) (spec : FieldSpec) (h : isStar text = true) (v : Int) :
    r.Denotes spec text v ↔ spec.minimum ≤ v ∧ v ≤ spec.maximum := by
  obtain ⟨hsplit, hterm⟩ := term_star r spec h
  rw [Reading.Denotes, hsplit]
  constructor
  · rintro ⟨segment, hsegment, start, stop, step, hread, hlow, hhigh, -⟩
    rw [List.mem_singleton.1 hsegment] at hread
    obtain ⟨rfl, rfl, rfl⟩ := (hterm _ _ _).1 hread
    exact ⟨hlow, hhigh⟩
  · rintro ⟨hlow, hhigh⟩
    exact ⟨text, List.mem_singleton_self text, _, _, _, (hterm _ _ _).2 ⟨rfl, rfl, rfl⟩, hlow,
      hhigh, one_dvd _⟩

/-- A field that the parser can read denotes something, and nothing outside of the bounds. -/
theorem denotes_of_read (hproper : spec.Proper) (hread : loose.Field spec text) :
    (∃ v, loose.Denotes spec text v) ∧
      ∀ v, loose.Denotes spec text v → spec.minimum ≤ v ∧ v ≤ spec.maximum := by
  constructor
  · obtain ⟨first, rest, hsplit⟩ := List.exists_cons_of_ne_nil (List.splitOnP_ne_nil _ text)
    have hfirst : first ∈ text.splitOn comma := by
      rw [List.splitOn, hsplit]
      exact List.mem_cons_self
    obtain ⟨start, stop, step, hterm⟩ := hread first hfirst
    exact ⟨start, first, hfirst, start, stop, step, hterm, le_rfl, term_start_le hproper hterm, by
      rw [Int.sub_self]
      exact dvd_zero step⟩
  · rintro v ⟨segment, -, start, stop, step, hterm, hlow, hhigh, -⟩
    obtain ⟨hstart, hstop⟩ := term_bounds hproper hterm
    exact ⟨hstart.trans hlow, hhigh.trans hstop⟩

theorem parseCronField_eq_ok (hproper : spec.Proper) {field : CronField}
    (hunspaced : Unspaced text) (h : parseCronField spec text = .ok field) :
    loose.Field spec text ∧ field.WellFormed spec ∧ ∀ v, v ∈ field.values ↔
      loose.Denotes spec text v := by
  rw [parseCronField, trim_of_unspaced hunspaced] at h
  split_ifs at h with hstar
  · cases h
    obtain ⟨hsplit, hterm⟩ := term_star loose spec hstar
    refine ⟨fun segment hsegment => ?_, wellFormed_buildWildcardCronField hproper, fun v => ?_⟩
    · rw [hsplit] at hsegment
      rw [List.mem_singleton.1 hsegment]
      exact ⟨_, _, _, (hterm _ _ _).2 ⟨rfl, rfl, rfl⟩⟩
    · rw [mem_buildWildcardCronField, denotes_star loose spec hstar]
  · obtain ⟨values, hvalues, h⟩ := bind_eq_ok.1 h
    cases h
    obtain ⟨hread, hnodup, hmem⟩ := addSegments_eq_ok
      (fun segment hsegment => hunspaced.part hsegment)
      List.nodup_nil hvalues
    have hdenoted : ∀ v, v ∈ values.insertionSort (· ≤ ·) ↔ loose.Denotes spec text v := by
      intro v
      rw [List.mem_insertionSort, hmem]
      exact or_iff_right (List.not_mem_nil)
    obtain ⟨⟨v, hv⟩, hbounds⟩ := denotes_of_read hproper hread
    refine ⟨hread, ⟨?_, fun v hv => hbounds v ((hdenoted v).1 hv), ?_⟩, hdenoted⟩
    · have hsorted : (values.insertionSort (· ≤ ·)).Pairwise (· ≤ ·) :=
        List.pairwise_insertionSort _ _
      have hdistinct : (values.insertionSort (· ≤ ·)).Nodup :=
        (List.perm_insertionSort _ _).nodup_iff.2 hnodup
      exact (hsorted.and hdistinct).imp fun hboth => lt_of_le_of_ne hboth.1 hboth.2
    · exact List.ne_nil_of_mem ((hdenoted v).2 hv)

theorem parseCronField_of_read (hproper : spec.Proper) (hunspaced : Unspaced text)
    (hread : loose.Field spec text) : ∃ field, parseCronField spec text = .ok field := by
  rw [parseCronField, trim_of_unspaced hunspaced]
  split_ifs
  · exact ⟨_, rfl⟩
  · obtain ⟨values, hvalues⟩ : ∃ values, addSegments spec text (text.splitOn comma)
      [] = .ok values :=
      addSegments_of_read hproper (fun segment hsegment => hunspaced.part hsegment) hread
    exact ⟨_, bind_eq_ok.2 ⟨values, hvalues, rfl⟩⟩

/-! ## Expressions -/

theorem unspaced_fieldTexts {expression text : JsString} (h : text ∈ fieldTexts expression) :
    Unspaced text := by
  have hpiece : ∀ piece ∈ splitFields expression, Unspaced piece := by
    intro piece hpiece u hu
    have hmem := (List.mem_filter.1 hpiece).1
    exact (mem_of_mem_splitOnP hmem hu).2
  unfold fieldTexts at h
  split_ifs at h
  · obtain rfl | h := List.mem_cons.1 h
    · intro u hu
      have hzero : js "0" = [digitUnit 0] := by decide
      rw [hzero, List.mem_singleton] at hu
      rw [hu]
      decide
    · exact hpiece text h
  · exact hpiece text h

variable {parsed : ParsedCronExpression}

theorem parseFields_eq_ok {expression second minute hour day month weekday : JsString}
    {hasSeconds : Bool} :
    parseFields expression hasSeconds second minute hour day month weekday = .ok parsed ↔
      parsed.expression = expression ∧ parsed.hasSeconds = hasSeconds ∧
        List.Forall₂ (fun (x : FieldSpec × JsString) field => parseCronField x.1 x.2 = .ok field)
          (cronSpecs.zip [second, minute, hour, day, month, weekday]) parsed.fields := by
  unfold parseFields
  constructor
  · intro h
    obtain ⟨seconds, hseconds, h⟩ := bind_eq_ok.1 h
    obtain ⟨minutes, hminutes, h⟩ := bind_eq_ok.1 h
    obtain ⟨hours, hhours, h⟩ := bind_eq_ok.1 h
    obtain ⟨daysOfMonth, hdaysOfMonth, h⟩ := bind_eq_ok.1 h
    obtain ⟨months, hmonths, h⟩ := bind_eq_ok.1 h
    obtain ⟨daysOfWeek, hdaysOfWeek, h⟩ := bind_eq_ok.1 h
    cases h
    exact ⟨rfl, rfl, .cons hseconds (.cons hminutes (.cons hhours (.cons hdaysOfMonth
      (.cons hmonths (.cons hdaysOfWeek .nil)))))⟩
  · obtain ⟨_, _, seconds, minutes, hours, daysOfMonth, months, daysOfWeek⟩ := parsed
    rintro ⟨rfl, rfl, hfields⟩
    obtain ⟨hseconds, hfields⟩ := List.forall₂_cons.1 hfields
    obtain ⟨hminutes, hfields⟩ := List.forall₂_cons.1 hfields
    obtain ⟨hhours, hfields⟩ := List.forall₂_cons.1 hfields
    obtain ⟨hdaysOfMonth, hfields⟩ := List.forall₂_cons.1 hfields
    obtain ⟨hmonths, hfields⟩ := List.forall₂_cons.1 hfields
    obtain ⟨hdaysOfWeek, -⟩ := List.forall₂_cons.1 hfields
    exact bind_eq_ok.2 ⟨seconds, hseconds, bind_eq_ok.2 ⟨minutes, hminutes,
      bind_eq_ok.2 ⟨hours, hhours, bind_eq_ok.2 ⟨daysOfMonth, hdaysOfMonth,
        bind_eq_ok.2 ⟨months, hmonths, bind_eq_ok.2 ⟨daysOfWeek, hdaysOfWeek, rfl⟩⟩⟩⟩⟩⟩

theorem exists_of_length_six {α : Type} {xs : List α} (h : xs.length = 6) :
    ∃ a b c d e f, xs = [a, b, c, d, e, f] := by
  obtain ⟨a, rest, rfl⟩ := List.exists_cons_of_length_eq_add_one h
  rw [List.length_cons, Nat.add_right_cancel_iff] at h
  obtain ⟨b, rest, rfl⟩ := List.exists_cons_of_length_eq_add_one h
  rw [List.length_cons, Nat.add_right_cancel_iff] at h
  obtain ⟨c, d, e, f, rfl⟩ := List.length_eq_four.1 h
  exact ⟨a, b, c, d, e, f, rfl⟩

variable {expression : JsString}

/-- An expression is parsed where it has six fields, given that of the seconds, and each of them
is. -/
theorem parseCronExpression_eq_ok : parseCronExpression expression = .ok parsed ↔
      parsed.expression = expression ∧
        parsed.hasSeconds = decide ((splitFields expression).length = 6) ∧
        (fieldTexts expression).length = 6 ∧
        List.Forall₂ (fun (x : FieldSpec × JsString) field => parseCronField x.1 x.2 = .ok field)
          (cronSpecs.zip (fieldTexts expression)) parsed.fields := by
  unfold parseCronExpression fieldTexts
  split
  · rename_i minute hour day month weekday hfields
    rw [parseFields_eq_ok, hfields]
    simp
  · rename_i second minute hour day month weekday hfields
    rw [parseFields_eq_ok, hfields]
    simp
  · rename_i hfive hsix
    constructor
    · intro h
      cases h
    · rintro ⟨-, -, hlength, -⟩
      exfalso
      split_ifs at hlength with hlen
      · obtain ⟨a, rest, hcons⟩ := List.exists_cons_of_length_eq_add_one hlen
        rw [hcons, List.length_cons, Nat.add_right_cancel_iff] at hlen
        obtain ⟨b, c, d, e, rfl⟩ := List.length_eq_four.1 hlen
        exact hfive a b c d e hcons
      · obtain ⟨a, b, c, d, e, f, hcons⟩ := exists_of_length_six hlength
        exact hsix a b c d e f hcons

theorem length_fieldTexts_of_expression (h : r.Expression expression) :
    (fieldTexts expression).length = 6 :=
  (List.Forall₂.length_eq h).symm

variable {x : FieldSpec × JsString}

theorem Reading.Expression.field (h : r.Expression expression)
    (hx : x ∈ cronSpecs.zip (fieldTexts expression)) : r.Field x.1 x.2 :=
  (List.forall₂_iff_zip.1 h).2 hx

theorem strict_expression_loose (h : strict.Expression expression) :
    loose.Expression expression := by
  refine h.imp fun spec text hfield segment hsegment => ?_
  obtain ⟨start, stop, step, hterm⟩ := hfield segment hsegment
  exact ⟨start, stop, step, loose_term_of_strict hterm⟩

theorem mem_zip_fieldTexts (h : x ∈ cronSpecs.zip (fieldTexts expression)) :
    x.1.Proper ∧ Unspaced x.2 :=
  ⟨proper_of_mem (List.of_mem_zip h).1, unspaced_fieldTexts (List.of_mem_zip h).2⟩

theorem exists_forall₂ {α β : Type} {r : α → β → Prop} {xs : List α} (h : ∀ x ∈ xs, ∃ y, r x y) :
    ∃ ys, List.Forall₂ r xs ys := by
  induction xs with
  | nil => exact ⟨[], .nil⟩
  | cons x xs ih =>
    obtain ⟨y, hy⟩ := h x List.mem_cons_self
    obtain ⟨ys, hys⟩ := ih fun x' hx' => h x' (List.mem_cons_of_mem x hx')
    exact ⟨y :: ys, .cons hy hys⟩

/-- The parser accepts what it can read, in the grammar or not. -/
theorem parse_iff_loose (expression : JsString) :
    (∃ parsed, parseCronExpression expression = .ok parsed) ↔ loose.Expression expression := by
  constructor
  · rintro ⟨parsed, h⟩
    obtain ⟨-, -, hlength, hfields⟩ := parseCronExpression_eq_ok.1 h
    refine List.forall₂_iff_zip.2 ⟨hlength.symm, fun {spec text} hmem => ?_⟩
    obtain ⟨hproper, hunspaced⟩ := mem_zip_fieldTexts hmem
    obtain ⟨field, -, hfield⟩ := exists_right_of_forall₂ hfields hmem
    exact (parseCronField_eq_ok hproper hunspaced hfield).1
  · intro h
    have hlength := length_fieldTexts_of_expression h
    have hfield : ∀ x ∈ cronSpecs.zip (fieldTexts expression),
        ∃ field, parseCronField x.1 x.2 = .ok field := fun x hx =>
      parseCronField_of_read (mem_zip_fieldTexts hx).1 (mem_zip_fieldTexts hx).2 (h.field hx)
    obtain ⟨fields, hfields⟩ := exists_forall₂ hfield
    have hsix : fields.length = 6 := by
      rw [← hfields.length_eq, List.length_zip, hlength]
      rfl
    obtain ⟨seconds, minutes, hours, daysOfMonth, months, daysOfWeek, rfl⟩ :=
      exists_of_length_six hsix
    exact ⟨⟨expression, _, seconds, minutes, hours, daysOfMonth, months, daysOfWeek⟩,
      parseCronExpression_eq_ok.2 ⟨rfl, rfl, hlength, hfields⟩⟩

theorem wellFormed_of_parsed (h : parseCronExpression expression = .ok parsed) :
    List.Forall₂ (fun (spec : FieldSpec) field => field.WellFormed spec) cronSpecs
      parsed.fields := by
  obtain ⟨-, -, hlength, hfields⟩ := parseCronExpression_eq_ok.1 h
  have hzip : (cronSpecs.zip (fieldTexts expression)).map Prod.fst = cronSpecs :=
    List.map_fst_zip hlength.ge
  rw [← hzip, List.forall₂_map_left_iff]
  refine List.forall₂_iff_zip.2 ⟨hfields.length_eq, fun {x field} hmem => ?_⟩
  obtain ⟨hproper, hunspaced⟩ := mem_zip_fieldTexts (List.of_mem_zip hmem).1
  exact (parseCronField_eq_ok hproper hunspaced (List.forall₂_zip hfields hmem)).2.1

theorem parsedExactly_of_strict (h : strict.Expression expression) : ParsedExactly expression := by
  refine ⟨iff_of_true ((parse_iff_loose expression).2 (strict_expression_loose h)) h,
    fun parsed hparsed => ?_⟩
  obtain ⟨-, -, -, hfields⟩ := parseCronExpression_eq_ok.1 hparsed
  refine List.forall₂_iff_zip.2 ⟨hfields.length_eq, fun {x field} hmem => ?_⟩
  have hx := (List.of_mem_zip hmem).1
  obtain ⟨hproper, hunspaced⟩ := mem_zip_fieldTexts hx
  obtain ⟨-, hwf, hdenoted⟩ := parseCronField_eq_ok hproper hunspaced
    (List.forall₂_zip hfields hmem)
  exact ⟨hwf.sorted, fun v => (hdenoted v).trans (strict_denotes_iff hunspaced (h.field hx) v).symm,
    hwf.bounds⟩

theorem parsedExactly_of_not_loose (h : ¬ loose.Expression expression) :
    ParsedExactly expression := by
  have hrejected : ¬ ∃ parsed, parseCronExpression expression = .ok parsed := fun hbad =>
    h ((parse_iff_loose expression).1 hbad)
  exact ⟨iff_of_false hrejected fun hbad => h (strict_expression_loose hbad),
    fun parsed hparsed => (hrejected ⟨parsed, hparsed⟩).elim⟩

/-- An expression is in the grammar, or not even the front of each part of it can be read. -/
theorem parsedExactly_iff (expression : JsString) :
    ParsedExactly expression ↔ strict.Expression expression ∨ ¬ loose.Expression expression := by
  constructor
  · intro h
    by_cases hloose : loose.Expression expression
    · exact .inl (h.accepted.1 ((parse_iff_loose expression).2 hloose))
    · exact .inr hloose
  · rintro (h | h)
    · exact parsedExactly_of_strict h
    · exact parsedExactly_of_not_loose h

/-- What stands behind a number is read over, and so is a third part of a range. -/
theorem garbage_accepted :
    (parseCronExpression (js "5abc 1-2-x * * *")).toOption.map
        (fun parsed => (parsed.minutes.values, parsed.hours.values)) = some ([5], [1, 2]) ∧
      ¬ ParsedExactly (js "5abc 1-2-x * * *") := by
  refine ⟨by decide +kernel, fun h => ?_⟩
  have hparsed : ∃ parsed, parseCronExpression (js "5abc 1-2-x * * *") = .ok parsed := by
    cases hresult : parseCronExpression (js "5abc 1-2-x * * *") with
    | ok parsed => exact ⟨parsed, rfl⟩
    | error e =>
      have hsome : (parseCronExpression (js "5abc 1-2-x * * *")).toOption.isSome = true := by
        decide +kernel
      rw [hresult] at hsome
      cases hsome
  have hgrammar := h.accepted.1 hparsed
  have htexts : fieldTexts (js "5abc 1-2-x * * *") =
      [js "0", js "5abc", js "1-2-x", js "*", js "*", js "*"] := by
    decide +kernel
  have hmem : (minutesSpec, js "5abc") ∈ cronSpecs.zip (fieldTexts (js "5abc 1-2-x * * *")) := by
    rw [htexts]
    exact List.mem_cons_of_mem _ List.mem_cons_self
  obtain ⟨start, stop, step, hterm⟩ := hgrammar.field hmem (js "5abc") (by decide +kernel)
  have hslash : (js "5abc").splitOn slash = [js "5abc"] := by decide +kernel
  have hminus : (js "5abc").splitOn minus = [js "5abc"] := by decide +kernel
  have hstar : isStar (js "5abc") = false := by decide +kernel
  have hname : minutesSpec.names.lookup (toUpperCase (js "5abc")) = none := rfl
  simp only [Reading.Term, hslash, Reading.Range, hstar, Bool.false_eq_true, if_false, hminus,
    Reading.Value, hname] at hterm
  obtain ⟨⟨⟨n, ⟨-, hdigits, -⟩, -⟩, -⟩, -⟩ := hterm
  have hletter := hdigits (codeUnit 97) (by decide +kernel)
  revert hletter
  decide

end Weft.Cron
