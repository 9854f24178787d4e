import StyleTree.Decimal.Layout

/-!
# Dates and moments

The dates and times which a document may hold. A `Moment` with an offset is a point in time; one
without is a reading of an unnamed clock, and the two kinds are never equal.
-/

namespace StyleTree

/-- A day of the Gregorian calendar. -/
structure Date where
  year : Nat
  month : Nat
  day : Nat
  deriving DecidableEq, Repr

/-- A time of a day, to the microsecond. -/
structure Moment where
  date : Date
  hour : Nat
  minute : Nat
  second : Nat
  microsecond : Nat
  /-- Minutes east of UTC. -/
  offset : Option Int
  deriving DecidableEq, Repr

/-- The decimal digits of a number, with zeros in front up to a width. -/
def paddedDigits (width n : Nat) : String :=
  let digits := decimalDigits n
  String.ofList (List.replicate (width - digits.length) '0' ++ digits)

namespace Date

def isLeapYear (year : Nat) : Bool :=
  year % 4 = 0 && (year % 100 ≠ 0 || year % 400 = 0)

def daysInMonth (year month : Nat) : Nat :=
  if month = 2 then if isLeapYear year then 29 else 28
  else if month ∈ [4, 6, 9, 11] then 30
  else 31

/-- The number of the day, where the first of January of the year 1 has number 1. -/
def dayNumber (d : Date) : Nat :=
  let before := d.year - 1
  before * 365 + before / 4 - before / 100 + before / 400 +
    (List.range (d.month - 1)).foldl (fun days m => days + daysInMonth d.year (m + 1)) d.day

/-- Why three numbers are no date. -/
def fault? (d : Date) : Option String :=
  if d.year = 0 then some "year 0 is out of range"
  else if d.month = 0 ∨ d.month > 12 then some "month must be in 1..12"
  else if d.day = 0 ∨ d.day > daysInMonth d.year d.month then
    some "day is out of range for month"
  else none

/-- The form `2024-01-31`. -/
def text (d : Date) : String :=
  paddedDigits 4 d.year ++ "-" ++ paddedDigits 2 d.month ++ "-" ++ paddedDigits 2 d.day

def arguments (d : Date) : String :=
  toString d.year ++ ", " ++ toString d.month ++ ", " ++ toString d.day

/-- The form which names the kind of value too. -/
def inspect (d : Date) : String := "datetime.date(" ++ d.arguments ++ ")"

end Date

namespace Moment

/-- The form of a span of minutes which names its kind: the days and seconds of it which are not
zero. The days of a negative span are those of its floor. -/
def inspectSpan (minutes : Int) : String :=
  let days := minutes.fdiv 1440
  let seconds := minutes.fmod 1440 * 60
  let parts := (if days = 0 then [] else ["days=" ++ toString days]) ++
    (if seconds = 0 then [] else ["seconds=" ++ toString seconds])
  "datetime.timedelta(" ++ (if parts.isEmpty then "0" else ", ".intercalate parts) ++ ")"

/-- Why the parts of a moment are none. An offset is shorter than a day. -/
def fault? (m : Moment) : Option String :=
  if m.offset.any fun minutes => minutes.natAbs ≥ 1440 then
    some ("offset must be a timedelta strictly between -timedelta(hours=24) and " ++
      "timedelta(hours=24), not " ++ inspectSpan (m.offset.getD 0) ++ ".")
  else if let some reason := m.date.fault? then some reason
  else if m.hour > 23 then some "hour must be in 0..23"
  else if m.minute > 59 then some "minute must be in 0..59"
  else if m.second > 59 then some "second must be in 0..59"
  else none

/-- The microseconds of the moment's clock since the first day. -/
def clock (m : Moment) : Int :=
  ((((m.date.dayNumber * 24 + m.hour) * 60 + m.minute) * 60 + m.second) * 1000000 +
    m.microsecond : Nat)

/-- Two moments are the same point in time, or the same reading of a clock without offset. -/
def same (a b : Moment) : Bool :=
  match a.offset, b.offset with
  | none, none => a == b
  | some s, some t => a.clock - s * 60000000 == b.clock - t * 60000000
  | _, _ => false

/-- The form `+05:30` of an offset. -/
def offsetText (minutes : Int) : String :=
  (if minutes < 0 then "-" else "+") ++ paddedDigits 2 (minutes.natAbs / 60) ++ ":" ++
    paddedDigits 2 (minutes.natAbs % 60)

/-- The form `2024-01-31 12:30:00.250000+01:00`, without a fraction of zero. -/
def text (m : Moment) : String :=
  m.date.text ++ " " ++ paddedDigits 2 m.hour ++ ":" ++ paddedDigits 2 m.minute ++ ":" ++
    paddedDigits 2 m.second ++
    (if m.microsecond = 0 then "" else "." ++ paddedDigits 6 m.microsecond) ++
    (match m.offset with
    | none => ""
    | some minutes => offsetText minutes)

/-- The form of an offset which names its kind. -/
def inspectOffset (minutes : Int) : String :=
  if minutes = 0 then "datetime.timezone.utc"
  else "datetime.timezone(" ++ inspectSpan minutes ++ ")"

/-- The form which names the kind of value too. Seconds and microseconds of zero at its end are
left out. -/
def inspect (m : Moment) : String :=
  "datetime.datetime(" ++ m.date.arguments ++ ", " ++ toString m.hour ++ ", " ++
    toString m.minute ++
    (if m.second = 0 ∧ m.microsecond = 0 then "" else ", " ++ toString m.second) ++
    (if m.microsecond = 0 then "" else ", " ++ toString m.microsecond) ++
    (match m.offset with
    | none => ""
    | some minutes => ", tzinfo=" ++ inspectOffset minutes) ++ ")"

end Moment

end StyleTree
