import Graphwire.Text.Utf16
import Graphwire.Wire.Number

/-!
# Texts and binaries on the wire

A text is a header, whose lowest two bits name the encoding and whose other bits count bytes, and
the bytes. Texts are written as UTF-8; Latin-1 and UTF-16 are read too. A binary is its length and
its bytes.
-/

namespace Graphwire

set_option autoImplicit false

/-- The number of an encoding in a text's header. -/
inductive TextEncoding where
  | latin1
  | utf16
  | utf8
  deriving DecidableEq, Repr

def TextEncoding.code : TextEncoding → Nat
  | latin1 => 0
  | utf16 => 1
  | utf8 => 2

namespace Encode

/-- A text in UTF-8. -/
def text (s : String) : List UInt8 :=
  let octets := Utf8.encode s
  varuint64 (4 * octets.length + TextEncoding.utf8.code) ++ octets

/-- A length and that many bytes. -/
def binary (bytes : List UInt8) : List UInt8 := varuint32 bytes.length ++ bytes

end Encode

namespace Decode

/-- The encoding's number and the length in bytes. -/
def textHeader : Decode (Nat × Nat) := do
  let header ← varuint64
  return (header % 4, header / 4)

/-- UTF-8 octets as a text. -/
def utf8 (role : TextRole) (octets : List UInt8) : Decode String :=
  match Utf8.decode octets with
  | .ok s => pure s
  | .error fault => throw (.illFormedText role fault)

/-- Little-endian UTF-16 units as a text. -/
def utf16 (octets : List UInt8) : Decode String :=
  match Utf16.pairs octets with
  | none => throw .oddUtf16Length
  | some units =>
    match Utf16.decode units with
    | some s => pure s
    | none => throw .loneSurrogate

/-- One character for each byte. -/
def latin1 (octets : List UInt8) : String := String.ofList (octets.map fun b => Char.ofNat b.toNat)

/-- A text of a known encoding and length. -/
def textPayload (encoding length : Nat) : Decode String := do
  let octets ← bytes length
  if encoding = TextEncoding.utf8.code then utf8 .string octets
  else if encoding = TextEncoding.latin1.code then return latin1 octets
  else if encoding = TextEncoding.utf16.code then utf16 octets
  else throw (.unsupportedStringEncoding encoding)

/-- A text with its header. -/
def text : Decode String := do
  let (encoding, length) ← textHeader
  textPayload encoding length

end Decode

end Graphwire
