import LightMarkup.Text.Basic

/-!
Dates and times: which of them exist, how they are shown, and which of them are the same.
-/

namespace LightMarkup

structure Date where
  year : Nat
  month : Nat
  day : Nat
  deriving DecidableEq, Repr

/-- A time of day, to the millionth of a second; the offset from universal time is in minutes. -/
structure Time where
  hour : Nat
  minute : Nat
  second : Nat
  millionths : Nat
  offset : Option Int
  deriving DecidableEq, Repr

/-- A date, or a time on a date. -/
structure Moment where
  date : Date
  time : Option Time
  deriving DecidableEq, Repr

namespace Date

def isLeapYear (year : Nat) : Bool :=
  year % 4 == 0 && (year % 100 != 0 || year % 400 == 0)

def daysIn (year month : Nat) : Nat :=
  if month = 2 then (if isLeapYear year then 29 else 28)
  else if month = 4 || month = 6 || month = 9 || month = 11 then 30
  else 31

def isValid (d : Date) : Bool :=
  1 ≤ d.year && 1 ≤ d.month && d.month ≤ 12 && 1 ≤ d.day && d.day ≤ daysIn d.year d.month

def padded (width n : Nat) : Text :=
  let digits := Text.ofNat n
  List.replicate (width - digits.length) '0' ++ digits

def shown (d : Date) : Text :=
  padded 4 d.year ++ "-" ++ padded 2 d.month ++ "-" ++ padded 2 d.day

def parts (d : Date) : List Text :=
  [Text.ofNat d.year, Text.ofNat d.month, Text.ofNat d.day]

/-- Days from the first of January of the year 1. -/
def dayNumber (d : Date) : Nat :=
  let years := d.year - 1
  let before := (List.range (d.month - 1)).foldl (fun days month => days + daysIn d.year (month + 1)) 0
  365 * years + years / 4 - years / 100 + years / 400 + before + (d.day - 1)

end Date

namespace Time

def minutesInDay : Nat := 24 * 60

/-- An offset is less than a day. -/
def isValid (t : Time) : Bool :=
  t.hour < 24 && t.minute < 60 && t.second < 60
    && t.offset.all fun offset => offset.natAbs < minutesInDay

def shownOffset (offset : Int) : Text :=
  let sign : Text := if offset < 0 then "-" else "+"
  sign ++ Date.padded 2 (offset.natAbs / 60) ++ ":" ++ Date.padded 2 (offset.natAbs % 60)

def shown (t : Time) : Text :=
  let fraction : Text := if t.millionths = 0 then [] else "." ++ Date.padded 6 t.millionths
  let offset : Text := match t.offset with
    | none => []
    | some offset => shownOffset offset
  Date.padded 2 t.hour ++ ":" ++ Date.padded 2 t.minute ++ ":" ++ Date.padded 2 t.second ++ fraction ++ offset

/-- Seconds and their fraction are left out where they are nought. -/
def parts (t : Time) : List Text :=
  let second := Text.ofNat t.second
  let rest : List Text :=
    if t.millionths != 0 then [second, Text.ofNat t.millionths]
    else if t.second != 0 then [second]
    else []
  [Text.ofNat t.hour, Text.ofNat t.minute] ++ rest

/-- An offset as whole days, rounded down, and the seconds that are left. -/
def describeOffset (offset : Int) : Text :=
  let seconds := "seconds=" ++ Text.ofInt (offset % minutesInDay * 60)
  if offset = 0 then "datetime.timezone.utc"
  else
    let length : Text := if offset < 0 then "days=-1, " ++ seconds else seconds
    "datetime.timezone(datetime.timedelta(" ++ length ++ "))"

def offsetParts (t : Time) : List Text :=
  match t.offset with
  | none => []
  | some offset => ["tzinfo=" ++ describeOffset offset]

end Time

namespace Moment

def isValid (m : Moment) : Bool :=
  m.date.isValid && m.time.all Time.isValid

/-- How a moment is shown on its own. -/
def shown (m : Moment) : Text :=
  match m.time with
  | none => m.date.shown
  | some time => m.date.shown ++ " " ++ time.shown

/-- How a moment is shown among other values. -/
def inside (m : Moment) : Text :=
  match m.time with
  | none => "datetime.date(" ++ Text.join ", " m.date.parts ++ ")"
  | some time =>
    "datetime.datetime(" ++ Text.join ", " (m.date.parts ++ time.parts ++ time.offsetParts) ++ ")"

/-- Millionths of a second since the year 1, in universal time if there is an offset. -/
def instant (m : Moment) : Int :=
  match m.time with
  | none => m.date.dayNumber
  | some time =>
    let minutes : Int := (m.date.dayNumber * 24 + time.hour) * 60 + time.minute - time.offset.getD 0
    (minutes * 60 + time.second) * 1000000 + time.millionths

/-- Whether both are dates, or both times, with an offset or without, and at the same instant. -/
def isSame (a b : Moment) : Bool :=
  a.time.isSome == b.time.isSome && (a.time.bind (·.offset)).isSome == (b.time.bind (·.offset)).isSome
    && a.instant == b.instant

end Moment

end LightMarkup
