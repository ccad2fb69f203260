/-!
Days of the Gregorian calendar and moments in them.
-/

namespace Horn

def padded (width n : Nat) : String :=
  let ds := Nat.toDigits 10 n
  String.ofList (List.replicate (width - ds.length) '0' ++ ds)

structure Day where
  year : Nat
  month : Nat
  day : Nat
  deriving DecidableEq, Repr

namespace Day

def isLeap (year : Nat) : Bool := year % 4 == 0 && (year % 100 != 0 || year % 400 == 0)

def daysIn (year month : Nat) : Nat :=
  if month = 2 then if isLeap year then 29 else 28
  else if month = 4 ∨ month = 6 ∨ month = 9 ∨ month = 11 then 30
  else 31

/-- The day exists, in a year from 1 to 9999. -/
def isValid (d : Day) : Bool :=
  decide (1 ≤ d.year ∧ d.year ≤ 9999 ∧ 1 ≤ d.month ∧ d.month ≤ 12 ∧ 1 ≤ d.day ∧
    d.day ≤ daysIn d.year d.month)

/-- The number of the day, counted from the first of January of the year 1. -/
def ordinal (d : Day) : Nat :=
  let y := d.year - 1
  365 * y + y / 4 - y / 100 + y / 400 +
    (List.range (d.month - 1)).foldl (fun n m => n + daysIn d.year (m + 1)) 0 + d.day

def text (d : Day) : String := s!"{padded 4 d.year}-{padded 2 d.month}-{padded 2 d.day}"

def literal (d : Day) : String := s!"datetime.date({d.year}, {d.month}, {d.day})"

end Day

/-- A time of a day, down to microseconds, with the offset of its zone in minutes if it has one. -/
structure Moment where
  day : Day
  hour : Nat
  minute : Nat
  second : Nat
  micro : Nat
  zone : Option Int
  deriving DecidableEq, Repr

namespace Moment

/-- The day exists, the time lies within it, and the zone is less than a day off. -/
def isValid (t : Moment) : Bool :=
  t.day.isValid && decide (t.hour < 24 ∧ t.minute < 60 ∧ t.second < 60) &&
    t.zone.all fun z => decide (z.natAbs < 24 * 60)

/-- The microseconds since the first moment of the calendar, at the zone's own midnight if it has
none. -/
def instant (t : Moment) : Int :=
  let minutes : Int := ((t.day.ordinal * 24 + t.hour) * 60 + t.minute : Nat) - t.zone.getD 0
  (minutes * 60 + t.second) * 1000000 + t.micro

/-- Equality of moments: of the same instant, and both with a zone or both without. -/
def same (s t : Moment) : Bool := s.zone.isSome == t.zone.isSome && s.instant == t.instant

def zoneText (z : Int) : String :=
  let sign := if z < 0 then "-" else "+"
  s!"{sign}{padded 2 (z.natAbs / 60)}:{padded 2 (z.natAbs % 60)}"

def text (t : Moment) : String :=
  let time := s!"{padded 2 t.hour}:{padded 2 t.minute}:{padded 2 t.second}"
  let fraction := if t.micro = 0 then "" else "." ++ padded 6 t.micro
  let zone := (t.zone.map zoneText).getD ""
  s!"{t.day.text} {time}{fraction}{zone}"

/-- An offset as a literal value, in whole days and seconds from the start of the last one. -/
def zoneLiteral (z : Int) : String :=
  if z = 0 then "datetime.timezone.utc"
  else
    let seconds := if z < 0 then z * 60 + 86400 else z * 60
    let days := if z < 0 then "days=-1, " else ""
    s!"datetime.timezone(datetime.timedelta({days}seconds={seconds}))"

/-- The moment as a literal value; seconds and microseconds are left out if they and all after them
are zero. -/
def literal (t : Moment) : String :=
  let small := if t.micro ≠ 0 then s!", {t.second}, {t.micro}"
    else if t.second ≠ 0 then s!", {t.second}"
    else ""
  let zone := (t.zone.map fun z => ", tzinfo=" ++ zoneLiteral z).getD ""
  let day := s!"{t.day.year}, {t.day.month}, {t.day.day}"
  s!"datetime.datetime({day}, {t.hour}, {t.minute}{small}{zone})"

end Moment

end Horn
