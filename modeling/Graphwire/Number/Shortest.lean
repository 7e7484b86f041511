import Graphwire.Number.Binary

/-!
# Shortest decimal text of a floating-point number

The fewest decimal digits that read back as the same number. The numbers that round to
`mantissa · 2 ^ exponent` form an interval, which contains its ends exactly when the mantissa is
even. For one digit, two digits and so on, the two neighbours of the number on the decimal grid of
that many digits are tested in exact arithmetic. The first grid with a neighbour in the interval
wins, of two the nearer one, and an exact tie goes up.
-/

namespace Graphwire.Decimal

set_option autoImplicit false

/-- The positive number `digits · 10 ^ exponent`. -/
structure Digits where
  digits : Nat
  exponent : Int
  deriving DecidableEq, Repr

/-- The number of decimal digits. -/
def width (n : Nat) : Nat := (Nat.toDigits 10 n).length

/-- A positive rational and the interval around it, over one denominator. -/
structure Target where
  value : Nat
  low : Nat
  high : Nat
  denominator : Nat
  closed : Bool
  deriving DecidableEq, Repr

/-- The interval that rounds to a finite positive pattern. Below a power of two the patterns lie
closer, so the lower end is nearer there. -/
def Target.ofPattern (f : BinaryFormat) (mantissa : Nat) (exponent : Int) : Target :=
  let shift := exponent - 2
  let scale := 2 ^ shift.toNat
  let closer := mantissa = 2 ^ f.fractionBits ∧ f.minExponent < exponent
  { value := 4 * mantissa * scale
    low := (4 * mantissa - if closer then 1 else 2) * scale
    high := (4 * mantissa + 2) * scale
    denominator := 2 ^ (-shift).toNat
    closed := mantissa % 2 = 0 }

/-- The largest power of ten that does not exceed the number. -/
def Target.magnitude (t : Target) : Int :=
  let guess : Int := (width t.value : Int) - width t.denominator
  let fits :=
    if 0 ≤ guess then t.denominator * 10 ^ guess.toNat ≤ t.value
    else t.denominator ≤ t.value * 10 ^ (-guess).toNat
  if fits then guess else guess - 1

/-- The neighbour on the grid of `10 ^ e` that reads back, the nearer of two. -/
def Target.onGrid (t : Target) (e : Int) : Option Nat :=
  let up := 10 ^ (-e).toNat
  let unit := t.denominator * 10 ^ e.toNat
  let floor := t.value * up / unit
  let inside (c : Nat) : Bool :=
    if t.closed then t.low * up ≤ c * unit && c * unit ≤ t.high * up
    else t.low * up < c * unit && c * unit < t.high * up
  let remainder := t.value * up % unit
  match inside floor && 0 < floor, inside (floor + 1) with
  | true, true => some (if 2 * remainder < unit then floor else floor + 1)
  | true, false => some floor
  | false, true => some (floor + 1)
  | false, false => none

/-- Searches the grids of `tried + 1`, `tried + 2`, … digits. -/
def Target.search (t : Target) (magnitude : Int) : Nat → Nat → Digits
  | 0, _ => ⟨t.value / t.denominator, 0⟩
  | left + 1, tried =>
    match t.onGrid (magnitude - tried) with
    | some digits => ⟨digits, magnitude - tried⟩
    | none => t.search magnitude left (tried + 1)

/-- The shortest digits of a finite positive number. Seventeen digits suffice for binary64. -/
def shortest (f : BinaryFormat) (mantissa : Nat) (exponent : Int) : Digits :=
  let t := Target.ofPattern f mantissa exponent
  t.search t.magnitude 17 0

/-- The digits without trailing zeros. -/
def significant (d : Digits) : List Char :=
  ((Nat.toDigits 10 d.digits).reverse.dropWhile (· = '0')).reverse

/-- Positional spelling, always with a fraction. -/
def positional (digits : List Char) (point : Int) : String :=
  if point ≤ 0 then
    "0." ++ String.ofList (List.replicate (-point).toNat '0' ++ digits)
  else
    let whole := digits.take point.toNat
    let zeros := List.replicate (point.toNat - digits.length) '0'
    let fraction := digits.drop point.toNat
    String.ofList (whole ++ zeros) ++ "." ++
      (if fraction = [] then "0" else String.ofList fraction)

/-- Spelling with an exponent and one digit before the point. -/
def scientific (digits : List Char) (point : Int) : String :=
  let fraction := digits.drop 1
  String.ofList (digits.take 1) ++ (if fraction = [] then "" else "." ++ String.ofList fraction) ++
    "e" ++ toString (point - 1)

/-- Where positional spelling begins and ends, as patterns of the format. -/
structure Thresholds where
  positionalFrom : Nat
  scientificFrom : Nat
  deriving DecidableEq, Repr

/-- Numbers from 10⁻⁴ up to below 10¹⁶ are written positionally. -/
def thresholds (f : BinaryFormat) : Thresholds :=
  { positionalFrom := if f = .binary32 then 0x38D1B717 else 0x3F1A36E2EB1C432D
    scientificFrom := if f = .binary32 then 0x5A0E1BCA else 0x4341C37937E08000 }

/-- The text of a pattern. -/
def text (f : BinaryFormat) (bits : Nat) : String :=
  let sign := if f.isNegative bits then "-" else ""
  match f.meaning bits with
  | .nan _ => "NaN"
  | .infinite => sign ++ "inf"
  | .finite 0 _ => sign ++ "0.0"
  | .finite mantissa exponent =>
    let d := shortest f mantissa exponent
    let digits := significant d
    let point : Int := d.exponent + width d.digits
    let n := thresholds f
    let bare := f.magnitude bits
    sign ++
      if bare < n.positionalFrom ∨ n.scientificFrom ≤ bare then scientific digits point
      else positional digits point

end Graphwire.Decimal
