import RemoteNode.Text.Decimal

/-!
Seconds since the start of 1970 as a date and time of the Gregorian calendar, extended to all
years, in universal time. The written form is that of RFC 3339; years beyond 9999 bear a sign.
Days are counted from the first of March of the year 0, so that the leap day ends a year, a
century of four and a cycle of four centuries.
-/

namespace RemoteNode.Calendar

open Text.Decimal (digits padded)

/-- A day of the calendar. -/
structure Date where
  year : Nat
  month : Nat
  day : Nat
  deriving DecidableEq, Repr

/-- A date and the time on it. -/
structure Moment where
  date : Date
  hour : Nat
  minute : Nat
  second : Nat
  deriving DecidableEq, Repr

/-- The days in a cycle of four centuries. -/
def cycleDays : Nat := 146097

/-- The days in a century without the leap day that a fourth one has. -/
def centuryDays : Nat := 36524

/-- The days in four years with one leap day. -/
def fourYearDays : Nat := 1461

def epoch : Nat := 719468

/-- The year that begins in March in which a day falls, and the place of the day in it. -/
def yearFromMarch (n : Nat) : Nat × Nat :=
  let cycle := n / cycleDays
  let inCycle := n % cycleDays
  let century := min 3 (inCycle / centuryDays)
  let inCentury := inCycle - century * centuryDays
  let four := inCentury / fourYearDays
  let inFour := inCentury % fourYearDays
  let year := min 3 (inFour / 365)
  (400 * cycle + 100 * century + 4 * four + year, inFour - 365 * year)

/-- The month and day of a place in a year that begins in March; five months have 153 days. -/
def monthAndDay (place : Nat) : Nat × Nat :=
  let month := (5 * place + 2) / 153
  (if month < 10 then month + 3 else month - 9, place - (153 * month + 2) / 5 + 1)

def Date.ofDays (n : Nat) : Date :=
  let (year, place) := yearFromMarch (n + epoch)
  let (month, day) := monthAndDay place
  ⟨if month ≤ 2 then year + 1 else year, month, day⟩

def Moment.ofSeconds (t : Nat) : Moment where
  date := .ofDays (t / 86400)
  hour := t % 86400 / 3600
  minute := t % 3600 / 60
  second := t % 60

/-- The last second that is written as a date: the end of the year 262142. -/
def lastSecond : Nat := 8210266876799

def yearDigits (y : Nat) : List Char := if 9999 < y then '+' :: padded 5 y else padded 4 y

def Moment.characters (m : Moment) : List Char :=
  yearDigits m.date.year ++ '-' :: padded 2 m.date.month ++ '-' :: padded 2 m.date.day ++
    'T' :: padded 2 m.hour ++ ':' :: padded 2 m.minute ++ ':' :: padded 2 m.second ++
    ['+', '0', '0', ':', '0', '0']

/-- The written form of a number of seconds; one beyond the last is written as a number. -/
def text (t : Nat) : String :=
  String.ofList (if t ≤ lastSecond then (Moment.ofSeconds t).characters else digits t)

example : text 951868799 = "2000-02-29T23:59:59+00:00" := by cbv
example : text 8210266876799 = "+262142-12-31T23:59:59+00:00" := by cbv
example : text 8210266876800 = "8210266876800" := by cbv

end RemoteNode.Calendar
