/-!
# UTF-16

The 16-bit units of a text and the reading of units back: a high surrogate must be followed by a
low one, and a low surrogate must follow a high one.
-/

namespace Graphwire.Utf16

set_option autoImplicit false

/-- The one or two units of a character. -/
def units (c : Char) : List Nat :=
  if c.toNat < 0x10000 then [c.toNat]
  else [0xD800 + (c.toNat - 0x10000) / 0x400, 0xDC00 + (c.toNat - 0x10000) % 0x400]

/-- The units of a text. -/
def encode (s : String) : List Nat := s.toList.flatMap units

def isHigh (u : Nat) : Bool := 0xD800 ≤ u && u ≤ 0xDBFF

def isLow (u : Nat) : Bool := 0xDC00 ≤ u && u ≤ 0xDFFF

/-- The characters that the units spell, unless a surrogate stands alone. -/
def decodeChars : List Nat → Option (List Char)
  | [] => some []
  | [u] => if isHigh u || isLow u then none else some [Char.ofNat u]
  | u :: v :: rest =>
    if isHigh u then
      if isLow v then
        (decodeChars rest).map
          (Char.ofNat (0x10000 + (u - 0xD800) * 0x400 + (v - 0xDC00)) :: ·)
      else none
    else if isLow u then none
    else (decodeChars (v :: rest)).map (Char.ofNat u :: ·)

/-- The text that the units spell. -/
def decode (us : List Nat) : Option String := (decodeChars us).map String.ofList

/-- Little-endian units of a byte sequence, absent when its length is odd. -/
def pairs : List UInt8 → Option (List Nat)
  | [] => some []
  | [_] => none
  | low :: high :: rest => (pairs rest).map ((low.toNat + 256 * high.toNat) :: ·)

/-- Little-endian bytes of the units. -/
def bytes (us : List Nat) : List UInt8 :=
  us.flatMap fun u => [(u % 256).toUInt8, (u / 256).toUInt8]

end Graphwire.Utf16
