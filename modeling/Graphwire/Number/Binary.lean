import Graphwire.Number.Power

/-!
# Binary floating-point formats

Binary32 and binary64 numbers as bit patterns. A finite pattern stands for `mantissa · 2 ^ exponent`
with a sign; `BinaryFormat.pack` goes back, rounding to the nearest pattern and a half to the even
mantissa. Conversions between the formats and from integers are compositions of the two.
-/

namespace Graphwire

set_option autoImplicit false

/-- An interchange format: bits of the mantissa, the leading one included, and of the exponent. -/
structure BinaryFormat where
  precision : Nat
  exponentBits : Nat
  deriving DecidableEq, Repr

namespace BinaryFormat

def binary32 : BinaryFormat := ⟨24, 8⟩

def binary64 : BinaryFormat := ⟨53, 11⟩

/-- Bits of the stored mantissa. -/
def fractionBits (f : BinaryFormat) : Nat := f.precision - 1

/-- The largest exponent field, which marks infinities and NaNs. -/
def maxField (f : BinaryFormat) : Nat := 2 ^ f.exponentBits - 1

/-- The exponent of the lowest mantissa bit of subnormal numbers. -/
def minExponent (f : BinaryFormat) : Int :=
  3 - 2 ^ (f.exponentBits - 1) - f.precision

/-- The bit that carries the sign. -/
def signBit (f : BinaryFormat) : Nat := 2 ^ (f.exponentBits + f.fractionBits)

/-- The pattern of positive infinity. -/
def infinity (f : BinaryFormat) : Nat := f.maxField * 2 ^ f.fractionBits

/-- What a bit pattern stands for. -/
inductive Meaning where
  | finite (mantissa : Nat) (exponent : Int)
  | infinite
  | nan (payload : Nat)
  deriving DecidableEq, Repr

/-- Whether the sign bit of a pattern is set. -/
def isNegative (f : BinaryFormat) (bits : Nat) : Bool := f.signBit ≤ bits

/-- A pattern without its sign. -/
def magnitude (f : BinaryFormat) (bits : Nat) : Nat := bits % f.signBit

/-- The meaning of a pattern, its sign aside. -/
def meaning (f : BinaryFormat) (bits : Nat) : Meaning :=
  let field := f.magnitude bits / 2 ^ f.fractionBits
  let fraction := f.magnitude bits % 2 ^ f.fractionBits
  if field = f.maxField then if fraction = 0 then .infinite else .nan fraction
  else if field = 0 then .finite fraction f.minExponent
  else .finite (2 ^ f.fractionBits + fraction) (f.minExponent + (field - 1 : Nat))

/-- `m / 2 ^ shift` to the nearest integer, a half to the even one. -/
def roundShift (m shift : Nat) : Nat :=
  let quotient := m / 2 ^ shift
  let remainder := m % 2 ^ shift
  let half := 2 ^ shift / 2
  if shift = 0 ∨ remainder < half then quotient
  else if half < remainder then quotient + 1
  else quotient + quotient % 2

/-- The number of binary digits, none for zero. -/
def bitLength (n : Nat) : Nat := if n = 0 then 0 else n.log2 + 1

/-- The pattern without sign that is nearest to `m · 2 ^ e`. -/
def pack (f : BinaryFormat) (m : Nat) (e : Int) : Nat :=
  if m = 0 then 0
  else
    let lowest := max f.minExponent (e + bitLength m - f.precision)
    let mantissa :=
      if lowest ≤ e then m * 2 ^ (e - lowest).toNat else roundShift m (lowest - e).toNat
    let bits :=
      if mantissa < 2 ^ f.fractionBits then mantissa
      else (lowest - f.minExponent).toNat * 2 ^ f.fractionBits + mantissa
    min bits f.infinity

/-- A pattern of one format in another one: finite numbers are rounded, a NaN keeps the leading
bits of its payload and becomes quiet. -/
def convert (source target : BinaryFormat) (bits : Nat) : Nat :=
  let sign := if source.isNegative bits then target.signBit else 0
  let quiet := 2 ^ (target.fractionBits - 1)
  sign + match source.meaning bits with
    | .finite m e => target.pack m e
    | .infinite => target.infinity
    | .nan payload =>
      let moved := payload * 2 ^ target.fractionBits / 2 ^ source.fractionBits
      target.infinity + if moved / quiet % 2 = 1 then moved else moved + quiet

/-- The pattern nearest to an integer. -/
def ofInt (f : BinaryFormat) (n : Int) : Nat :=
  (if n < 0 then f.signBit else 0) + f.pack n.natAbs 0

/-- Whether a pattern is a NaN. -/
def isNaN (f : BinaryFormat) (bits : Nat) : Bool := f.infinity < f.magnitude bits

/-- Numeric equality: a NaN equals nothing and both zeros are equal. -/
def equal (f : BinaryFormat) (a b : Nat) : Bool :=
  !f.isNaN a && !f.isNaN b && (a = b || (f.magnitude a = 0 && f.magnitude b = 0))

end BinaryFormat

/-- A binary32 pattern as a binary64 one. -/
def widen (bits : UInt32) : UInt64 :=
  (BinaryFormat.binary32.convert .binary64 bits.toNat).toUInt64

/-- The binary32 pattern nearest to a binary64 one. -/
def narrow (bits : UInt64) : UInt32 :=
  (BinaryFormat.binary64.convert .binary32 bits.toNat).toUInt32

end Graphwire
