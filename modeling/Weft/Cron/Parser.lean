import Weft.Listing.Query

/-! Cron expressions: the parser, with the errors that it throws. -/

namespace Weft.Cron
open Weft.Js Weft.Listing

/-! ## Numbers -/

def minus : CodeUnit := codeUnit 45

def plus : CodeUnit := codeUnit 43

/-- From here on a decimal numeral is read as `Infinity`. -/
def infinity : Nat := 2 ^ 1024 - 2 ^ 970

/-- `Number.parseInt(s, 10)`, where it is an integer. -/
def parseInt (s : JsString) : Option Int :=
  let text := s.dropWhile isTrimmed
  let negative := text.head? = some minus
  let unsigned := if negative ∨ text.head? = some plus then text.tail else text
  let digits := unsigned.takeWhile isDigitUnit
  if digits = [] ∨ infinity ≤ numeralValue digits then none
  else some (if negative then -numeralValue digits else numeralValue digits)

/-! ## Fields -/

/-- `toUpperCase` of the code units that become a letter of a name: besides the lower case letters
these are the dotless i and the long s. -/
def upperUnit (u : CodeUnit) : CodeUnit :=
  if 97 ≤ u.val ∧ u.val ≤ 122 then codeUnit (u.val - 32)
  else if u.val = 0x131 then codeUnit 73
  else if u.val = 0x17F then codeUnit 83
  else u

def toUpperCase (s : JsString) : JsString := s.map upperUnit

/-- The bounds of a field, and the names of its values. -/
structure FieldSpec where
  minimum : Int
  maximum : Int
  names : List (JsString × Int) := []

def MONTH_NAMES : List (JsString × Int) :=
  [(js "JAN", 1), (js "FEB", 2), (js "MAR", 3), (js "APR", 4), (js "MAY", 5), (js "JUN", 6),
    (js "JUL", 7), (js "AUG", 8), (js "SEP", 9), (js "OCT", 10), (js "NOV", 11), (js "DEC", 12)]

def DAY_NAMES : List (JsString × Int) :=
  [(js "SUN", 0), (js "MON", 1), (js "TUE", 2), (js "WED", 3), (js "THU", 4), (js "FRI", 5),
    (js "SAT", 6)]

inductive CronError where
  | token (token : JsString)
  | outside (token : JsString) (minimum maximum : Int)
  | step (segment : JsString)
  | range (segment : JsString)
  | field (field : JsString)
  | fieldCount
deriving DecidableEq

def CronError.message : CronError → JsString
  | .token text => js "Invalid cron token \"" ++ text ++ js "\""
  | .outside text minimum maximum =>
    js "Cron token \"" ++ text ++ js "\" is outside the allowed range " ++ integerUnits minimum ++
      js "-" ++ integerUnits maximum
  | .step text => js "Invalid cron step \"" ++ text ++ js "\""
  | .range text => js "Invalid cron range \"" ++ text ++ js "\""
  | .field text => js "Invalid cron field \"" ++ text ++ js "\""
  | .fieldCount => js "Cron expression must have 5 fields or 6 fields with seconds"

def parseNamedValue (spec : FieldSpec) (token : JsString) : Except CronError Int :=
  match spec.names.lookup (toUpperCase token) with
  | some value => .ok value
  | none =>
    match parseInt token with
    | none => .error (.token token)
    | some numericValue =>
      let normalizedValue := if spec.maximum = 6 ∧ numericValue = 7 then 0 else numericValue
      if normalizedValue < spec.minimum ∨ spec.maximum < normalizedValue then
        .error (.outside token spec.minimum spec.maximum)
      else .ok normalizedValue

structure CronField where
  values : List Int
  wildcard : Bool
deriving DecidableEq

def buildWildcardCronField (spec : FieldSpec) : CronField where
  values := (List.range (spec.maximum - spec.minimum + 1).toNat).map fun (index : Nat) =>
    spec.minimum + (index : Int)
  wildcard := true

def parseCronStep (segment : JsString) (stepPart : Option JsString) : Except CronError Int :=
  match stepPart with
  | none => .ok 1
  | some stepPart =>
    match parseInt stepPart with
    | none => .error (.step segment)
    | some step => if step ≤ 0 then .error (.step segment) else .ok step

/-- The loop, of which there are at most so many iterations; `values` is a set in the order of
insertion. -/
def addSteppedFrom (stop step : Int) : Nat → (value : Int) → List Int → List Int
  | 0, _, values => values
  | iterations + 1, value, values =>
    if value ≤ stop then
      addSteppedFrom stop step iterations (value + step)
        (if value ∈ values then values else values ++ [value])
    else values

def addSteppedValues (values : List Int) (start stop step : Int) : List Int :=
  addSteppedFrom stop step (stop + 1 - start).toNat start values

def slash : CodeUnit := codeUnit 47

def comma : CodeUnit := codeUnit 44

def isStar (text : JsString) : Bool := text = js "*" || text = js "?"

def addCronSegmentValues (spec : FieldSpec) (values : List Int) (segment : JsString) :
    Except CronError (List Int) := do
  let parts := segment.splitOn slash
  let rangePart := parts.headD []
  let step ← parseCronStep segment parts[1]?
  if isStar rangePart then return addSteppedValues values spec.minimum spec.maximum step
  else
    let tokens := rangePart.splitOn minus
    let start ← parseNamedValue spec (tokens.headD [])
    let stop ← match tokens[1]? with
      | none => pure start
      | some endToken => parseNamedValue spec endToken
    if stop < start then throw (.range segment)
    else return addSteppedValues values start stop step

def addSegments (spec : FieldSpec) (field : JsString) :
    List JsString → List Int → Except CronError (List Int)
  | [], values => .ok values
  | rawSegment :: rest, values =>
    let segment := trim rawSegment
    if segment = [] then .error (.field field)
    else do
      let values ← addCronSegmentValues spec values segment
      addSegments spec field rest values

def parseCronField (spec : FieldSpec) (field : JsString) : Except CronError CronField :=
  let trimmedField := trim field
  if isStar trimmedField then .ok (buildWildcardCronField spec)
  else do
    let values ← addSegments spec field (trimmedField.splitOn comma) []
    return ⟨values.insertionSort (· ≤ ·), false⟩

/-! ## Expressions -/

structure ParsedCronExpression where
  expression : JsString
  hasSeconds : Bool
  seconds : CronField
  minutes : CronField
  hours : CronField
  daysOfMonth : CronField
  months : CronField
  daysOfWeek : CronField
deriving DecidableEq

def secondsSpec : FieldSpec := { minimum := 0, maximum := 59 }

def minutesSpec : FieldSpec := { minimum := 0, maximum := 59 }

def hoursSpec : FieldSpec := { minimum := 0, maximum := 23 }

def daysOfMonthSpec : FieldSpec := { minimum := 1, maximum := 31 }

def monthsSpec : FieldSpec := { minimum := 1, maximum := 12, names := MONTH_NAMES }

def daysOfWeekSpec : FieldSpec := { minimum := 0, maximum := 6, names := DAY_NAMES }

/-- What is between white space; a run of it only adds empty pieces, which are dropped. -/
def splitFields (expression : JsString) : List JsString :=
  ((trim expression).splitOnP isTrimmed).filter (· ≠ [])

def parseFields (expression : JsString) (hasSeconds : Bool)
    (second minute hour day month weekday : JsString) : Except CronError ParsedCronExpression := do
  let seconds ← parseCronField secondsSpec second
  let minutes ← parseCronField minutesSpec minute
  let hours ← parseCronField hoursSpec hour
  let daysOfMonth ← parseCronField daysOfMonthSpec day
  let months ← parseCronField monthsSpec month
  let daysOfWeek ← parseCronField daysOfWeekSpec weekday
  return {
    expression := expression
    hasSeconds := hasSeconds
    seconds := seconds
    minutes := minutes
    hours := hours
    daysOfMonth := daysOfMonth
    months := months
    daysOfWeek := daysOfWeek }

def parseCronExpression (expression : JsString) : Except CronError ParsedCronExpression :=
  match splitFields expression with
  | [minute, hour, day, month, weekday] =>
    parseFields expression false (js "0") minute hour day month weekday
  | [second, minute, hour, day, month, weekday] =>
    parseFields expression true second minute hour day month weekday
  | _ => .error .fieldCount

example : (parseCronExpression (js "*/20 9-17/4,0 1 JAN-mar 7")).toOption.map
    (fun parsed => (parsed.minutes.values, parsed.hours.values, parsed.months.values,
      parsed.daysOfWeek.values)) =
    some ([0, 20, 40], [0, 9, 13, 17], [1, 2, 3], [0]) := by
  decide +kernel

end Weft.Cron
