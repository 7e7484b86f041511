import Graphwire.Number.Power

/-!
# Civil calendar

Days counted from 1970-01-01 and dates of the proleptic Gregorian calendar with a year zero. A
cycle of 400 years has 146097 days; counting years from March puts the leap day last, so that the
length of the months before a day does not depend on the year.
-/

namespace Graphwire.Calendar

set_option autoImplicit false

/-- A calendar date. -/
structure CivilDate where
  year : Int
  month : Nat
  day : Nat
  deriving DecidableEq, Repr

/-- Days from 0000-03-01 to 1970-01-01. -/
def epochOffset : Int := 719468

/-- Days of one 400-year cycle. -/
def cycleDays : Int := 146097

/-- The date of a day count. -/
def CivilDate.ofDays (days : Int) : CivilDate :=
  let shifted := days + epochOffset
  let cycle := shifted.fdiv cycleDays
  let dayOfCycle := (shifted.fmod cycleDays).toNat
  let yearOfCycle :=
    (dayOfCycle - dayOfCycle / 1460 + dayOfCycle / 36524 - dayOfCycle / 146096) / 365
  let dayOfYear := dayOfCycle - (365 * yearOfCycle + yearOfCycle / 4 - yearOfCycle / 100)
  let monthFromMarch := (5 * dayOfYear + 2) / 153
  let day := dayOfYear - (153 * monthFromMarch + 2) / 5 + 1
  let month := if monthFromMarch < 10 then monthFromMarch + 3 else monthFromMarch - 9
  ⟨cycle * 400 + yearOfCycle + (if month ≤ 2 then 1 else 0), month, day⟩

/-- The day count of a date. -/
def CivilDate.toDays (date : CivilDate) : Int :=
  let year := if date.month ≤ 2 then date.year - 1 else date.year
  let cycle := year.fdiv 400
  let yearOfCycle := (year.fmod 400).toNat
  let monthFromMarch := if 2 < date.month then date.month - 3 else date.month + 9
  let dayOfYear := (153 * monthFromMarch + 2) / 5 + date.day - 1
  let dayOfCycle := yearOfCycle * 365 + yearOfCycle / 4 - yearOfCycle / 100 + dayOfYear
  cycle * cycleDays + dayOfCycle - epochOffset

/-- The first day that has a date, -262143-01-01. -/
def minDay : Int := (CivilDate.mk (-262143) 1 1).toDays

/-- The last day that has a date, 262142-12-31. -/
def maxDay : Int := (CivilDate.mk 262142 12 31).toDays

/-- Nanoseconds of a second. -/
def nanosPerSecond : Int := 1000000000

/-- Nanoseconds of a day. -/
def nanosPerDay : Int := 86400 * nanosPerSecond

/-- The longest span either way, 2⁶³ - 1 milliseconds. -/
def maxSpan : Int := (2 ^ 63 - 1) * 1000000

/-- A day, counted from 1970-01-01. -/
structure Day where
  count : Int
  inRange : minDay ≤ count ∧ count ≤ maxDay
  deriving DecidableEq, Repr

/-- An instant, in nanoseconds from the start of 1970-01-01. -/
structure Instant where
  nanos : Int
  inRange : minDay * nanosPerDay ≤ nanos ∧ nanos < (maxDay + 1) * nanosPerDay
  deriving DecidableEq, Repr

/-- A signed span of time in nanoseconds. -/
structure Span where
  nanos : Int
  inRange : -maxSpan ≤ nanos ∧ nanos ≤ maxSpan
  deriving DecidableEq, Repr

def Day.ofCount? (count : Int) : Option Day :=
  if h : minDay ≤ count ∧ count ≤ maxDay then some ⟨count, h⟩ else none

def Instant.ofNanos? (nanos : Int) : Option Instant :=
  if h : minDay * nanosPerDay ≤ nanos ∧ nanos < (maxDay + 1) * nanosPerDay then some ⟨nanos, h⟩
  else none

def Span.ofNanos? (nanos : Int) : Option Span :=
  if h : -maxSpan ≤ nanos ∧ nanos ≤ maxSpan then some ⟨nanos, h⟩ else none

/-- The day of an instant. -/
def Instant.day (t : Instant) : Day :=
  ⟨t.nanos.fdiv nanosPerDay, by
    have h := t.inRange
    have p : (0 : Int) < nanosPerDay := by decide
    rw [Int.fdiv_eq_ediv_of_nonneg _ (Int.le_of_lt p)]
    constructor
    · exact (Int.le_ediv_iff_mul_le p).2 h.1
    · exact Int.lt_add_one_iff.1 ((Int.ediv_lt_iff_lt_mul p).2 h.2)⟩

/-- A time of day. -/
structure ClockTime where
  hour : Nat
  minute : Nat
  second : Nat
  nano : Nat
  deriving DecidableEq, Repr

/-- The time of day of an instant. -/
def Instant.time (t : Instant) : ClockTime :=
  let nanos := (t.nanos.fmod nanosPerDay).toNat
  let seconds := nanos / 1000000000
  ⟨seconds / 3600, seconds / 60 % 60, seconds % 60, nanos % 1000000000⟩

/-- The instant of a date and a time of day. -/
def Instant.ofCivil? (date : CivilDate) (time : ClockTime) : Option Instant :=
  let seconds := (time.hour * 60 + time.minute) * 60 + time.second
  Instant.ofNanos? (date.toDays * nanosPerDay + seconds * nanosPerSecond + time.nano)

/-- Whole microseconds, cut toward 1970. -/
def Instant.micros (t : Instant) : Int := t.nanos.tdiv 1000

/-- Whole seconds, cut toward zero. -/
def Span.seconds (d : Span) : Int := d.nanos.tdiv nanosPerSecond

/-- Nanoseconds beyond the whole seconds, with the sign of the span. -/
def Span.subsecond (d : Span) : Int := d.nanos.tmod nanosPerSecond

end Graphwire.Calendar
