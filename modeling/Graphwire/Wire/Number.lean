import Graphwire.Number.Power
import Graphwire.Wire.Reader

/-!
# Numbers on the wire

Four encodings of integers: little-endian bytes in full; groups of seven bits, lowest first, each
byte but the last with its high bit set, where a ninth byte counts in full; the same after folding
the sign into the lowest bit; and a tagged form of four bytes for small numbers, whose lowest bit
is clear, or nine bytes otherwise.
-/

namespace Graphwire

set_option autoImplicit false

namespace Encode

/-- The lowest `width` bytes of a number, lowest first. -/
def littleEndian : Nat → Nat → List UInt8
  | 0, _ => []
  | width + 1, n => (n % 256).toUInt8 :: littleEndian width (n / 256)

/-- The lowest `width` bytes of a number in two's complement. -/
def signed (width : Nat) (n : Int) : List UInt8 :=
  littleEndian width (n % (256 ^ width : Nat)).toNat

/-- At most `groups` groups of seven bits and a last byte. -/
def groups : Nat → Nat → List UInt8
  | 0, n => [n.toUInt8]
  | left + 1, n =>
    if n < 128 then [n.toUInt8] else (n % 128 + 128).toUInt8 :: groups left (n / 128)

/-- A 32-bit number in one to five bytes. -/
def varuint32 (n : Nat) : List UInt8 := groups 4 (n % 2 ^ 32)

/-- A 64-bit number in one to nine bytes. -/
def varuint64 (n : Nat) : List UInt8 := groups 8 (n % 2 ^ 64)

/-- The sign folded into the lowest bit: 0, -1, 1, -2 and so on. -/
def zigzag (n : Int) : Nat := if 0 ≤ n then 2 * n.toNat else 2 * (-n).toNat - 1

def varint32 (n : Int) : List UInt8 := varuint32 (zigzag n)

def varint64 (n : Int) : List UInt8 := varuint64 (zigzag n)

/-- Four bytes for numbers of at most 31 bits, nine bytes otherwise. -/
def taggedInt64 (n : Int) : List UInt8 :=
  if -2 ^ 30 ≤ n ∧ n < 2 ^ 30 then signed 4 (2 * n) else 1 :: signed 8 n

/-- Four bytes for numbers of at most 31 bits, nine bytes otherwise. -/
def taggedUint64 (n : Nat) : List UInt8 :=
  if n < 2 ^ 31 then littleEndian 4 (2 * n) else 1 :: littleEndian 8 n

end Encode

namespace Decode

/-- The number that little-endian bytes stand for. -/
def ofLittleEndian (bytes : List UInt8) : Nat := bytes.foldr (fun b n => b.toNat + 256 * n) 0

/-- A number below `256 ^ width` in two's complement. -/
def toSigned (width n : Nat) : Int :=
  if 2 * n < 256 ^ width then n else (n : Int) - (256 ^ width : Nat)

/-- A number in `width` bytes. -/
def littleEndian (width : Nat) : Decode Nat := do
  return ofLittleEndian (← bytes width)

/-- A signed number in `width` bytes. -/
def signed (width : Nat) : Decode Int := do
  return toSigned width (← littleEndian width)

/-- At most `groups` groups of seven bits; `last` reads what comes after that many. -/
def groups (last : Decode Nat) : Nat → Decode Nat
  | 0 => last
  | left + 1 => do
    let b ← octet
    if b < 128 then return b
    else do
      let high ← groups last left
      return b - 128 + 128 * high

/-- A 32-bit number in at most five bytes. Bits beyond the 32nd are lost. -/
def varuint32 : Decode Nat := do
  let n ← groups (throw .varuintTooLong) 5
  return n % 2 ^ 32

/-- A 64-bit number in at most nine bytes. -/
def varuint64 : Decode Nat := groups octet 8

/-- Undoes `Encode.zigzag`. -/
def unzigzag (n : Nat) : Int := if n % 2 = 0 then (n / 2 : Nat) else -((n / 2 : Nat) : Int) - 1

def varint32 : Decode Int := do
  return unzigzag (← varuint32)

def varint64 : Decode Int := do
  return unzigzag (← varuint64)

/-- Looks at the tag bit of the next byte: `small` starts at that byte, `large` after it. -/
def tagged {α : Type} (small large : Decode α) : Decode α := do
  let start ← get
  let head ← octet
  if head % 2 = 0 then do
    set start
    small
  else large

def taggedInt64 : Decode Int :=
  tagged (do return (← signed 4) / 2) (signed 8)

def taggedUint64 : Decode Nat :=
  tagged (do return (← littleEndian 4) / 2) (littleEndian 8)

def bool : Decode Bool := do
  return (← octet) ≠ 0

end Decode

/-- A truth value as a byte. -/
def Encode.bool (b : Bool) : List UInt8 := [if b then 1 else 0]

end Graphwire
