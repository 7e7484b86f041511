import Graphwire.Schema.Shape
import Graphwire.Value.Rendering

/-!
# Constant defaults

Constants that stand in for the value of a field that a peer did not send.
-/

namespace Graphwire

set_option autoImplicit false

open Calendar (Day Instant Span)

/-- A constant default. Integers take the width of the field they are a default for. -/
inductive Constant where
  | bool (b : Bool)
  | int (n : Int)
  | uint (n : Nat)
  | float (bits : UInt64)
  | string (s : String)
  | binary (bytes : List UInt8)
  | date (day : Day)
  | timestamp (instant : Instant)
  | duration (span : Span)
  | enum (ordinal : Nat)
  | emptyList
  | emptySet
  | emptyMap
  deriving DecidableEq, Repr

/-- The text of a constant. -/
def Constant.text : Constant → String
  | bool b => s!"Bool({b})"
  | int n => s!"Int({n})"
  | uint n => s!"UInt({n})"
  | float bits => s!"Float({Decimal.text .binary64 bits.toNat})"
  | string s => s!"String({Text.quoted s})"
  | binary bytes => s!"Binary({Graph.bytesText bytes})"
  | date day => s!"Date({day.text})"
  | timestamp t => "Timestamp(" ++ t.text "T" ++ ")"
  | duration d =>
    "Duration(TimeDelta \x7b secs: " ++ toString (d.nanos.fdiv Calendar.nanosPerSecond) ++
      ", nanos: " ++ toString (d.nanos.fmod Calendar.nanosPerSecond) ++ " \x7d)"
  | enum ordinal => s!"Enum({ordinal})"
  | emptyList => "EmptyList"
  | emptySet => "EmptySet"
  | emptyMap => "EmptyMap"

end Graphwire
