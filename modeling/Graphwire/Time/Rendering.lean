import Graphwire.Text.Quoted
import Graphwire.Time.Calendar

/-!
# Texts of dates, instants and spans

Dates are written year-month-day, instants as date and time of day, spans in seconds. Fractions of
a second take as many digits as they need, in groups of three for instants.
-/

namespace Graphwire.Calendar

set_option autoImplicit false

open Graphwire.Text (zeroPadded)

/-- Four digits for the years 0 to 9999; other years carry a sign. -/
def yearText (year : Int) : String :=
  let digits := zeroPadded 4 (toString year.natAbs)
  if year < 0 then "-" ++ digits
  else if 9999 < year then "+" ++ digits
  else digits

/-- The text of a day. -/
def Day.text (d : Day) : String :=
  let date := CivilDate.ofDays d.count
  yearText date.year ++ "-" ++ zeroPadded 2 (toString date.month) ++ "-" ++
    zeroPadded 2 (toString date.day)

/-- Nine, six, three or no digits after the point, the fewest that are exact. -/
def fractionText (nanos : Nat) : String :=
  if nanos = 0 then ""
  else if nanos % 1000000 = 0 then "." ++ zeroPadded 3 (toString (nanos / 1000000))
  else if nanos % 1000 = 0 then "." ++ zeroPadded 6 (toString (nanos / 1000))
  else "." ++ zeroPadded 9 (toString nanos)

/-- The text of an instant, with `separator` between day and time of day. -/
def Instant.text (separator : String) (t : Instant) : String :=
  let time := t.time
  t.day.text ++ separator ++ zeroPadded 2 (toString time.hour) ++ ":" ++
    zeroPadded 2 (toString time.minute) ++ ":" ++ zeroPadded 2 (toString time.second) ++
    fractionText time.nano

/-- The text of a span, in seconds without trailing zeros. -/
def Span.text (d : Span) : String :=
  let nanos := d.nanos
  if nanos = 0 then "P0D"
  else
    let sign := if nanos < 0 then "-" else ""
    let fraction := zeroPadded 9 (toString (nanos.natAbs % 1000000000))
    let digits := (fraction.toList.reverse.dropWhile (· = '0')).reverse
    sign ++ "PT" ++ toString (nanos.natAbs / 1000000000) ++
      (if digits = [] then "" else "." ++ String.ofList digits) ++ "S"

end Graphwire.Calendar
