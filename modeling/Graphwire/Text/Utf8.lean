/-!
# UTF-8

The octets of a text, and the reading of octets back into characters. The reader goes one octet at
a time: between characters it expects a lead octet, inside one it knows how many octets are owed
and in which interval the next one lies, so overlong forms, surrogates and values above U+10FFFF
are refused at the first octet that rules them out. A refusal says where the whole characters end
and how many octets the ill-formed sequence has.
-/

namespace Graphwire.Utf8

set_option autoImplicit false

/-- The octets of a text. -/
def encode (s : String) : List UInt8 := s.toList.flatMap String.utf8EncodeChar

/-- Where octets stop being a text: `start` octets of whole characters precede an ill-formed
sequence of `length` octets, or an unfinished character when the length is absent. -/
structure Fault where
  start : Nat
  length : Option Nat
  deriving DecidableEq, Repr

/-- The wording of a fault. -/
def Fault.message (f : Fault) : String :=
  match f.length with
  | some n => s!"invalid utf-8 sequence of {n} bytes from index {f.start}"
  | none => s!"incomplete utf-8 byte sequence from index {f.start}"

/-- An unfinished character: octets seen, octets owed after the next one, the interval of the next
octet and the value gathered so far. -/
structure Partial where
  seen : Nat
  owed : Nat
  low : Nat
  high : Nat
  value : Nat
  deriving DecidableEq, Repr

/-- What a lead octet above 0x7F begins. -/
def lead (b : Nat) : Option Partial :=
  if 0xC2 ≤ b ∧ b ≤ 0xDF then some ⟨1, 0, 0x80, 0xBF, b - 0xC0⟩
  else if b = 0xE0 then some ⟨1, 1, 0xA0, 0xBF, 0⟩
  else if b = 0xED then some ⟨1, 1, 0x80, 0x9F, 0xD⟩
  else if 0xE1 ≤ b ∧ b ≤ 0xEF then some ⟨1, 1, 0x80, 0xBF, b - 0xE0⟩
  else if b = 0xF0 then some ⟨1, 2, 0x90, 0xBF, 0⟩
  else if 0xF1 ≤ b ∧ b ≤ 0xF3 then some ⟨1, 2, 0x80, 0xBF, b - 0xF0⟩
  else if b = 0xF4 then some ⟨1, 2, 0x80, 0x8F, 4⟩
  else none

/-- Reads octets from offset `start`, where the character in progress begins. -/
def decodeFrom : List UInt8 → Nat → Option Partial → Except Fault (List Char)
  | [], _, none => .ok []
  | [], start, some _ => .error ⟨start, none⟩
  | b :: rest, start, none =>
    if b.toNat < 0x80 then
      (decodeFrom rest (start + 1) none).map (Char.ofNat b.toNat :: ·)
    else
      match lead b.toNat with
      | none => .error ⟨start, some 1⟩
      | some p => decodeFrom rest start (some p)
  | b :: rest, start, some p =>
    if p.low ≤ b.toNat ∧ b.toNat ≤ p.high then
      let value := p.value * 64 + (b.toNat - 0x80)
      match p.owed with
      | 0 => (decodeFrom rest (start + p.seen + 1) none).map (Char.ofNat value :: ·)
      | owed + 1 => decodeFrom rest start (some ⟨p.seen + 1, owed, 0x80, 0xBF, value⟩)
    else
      .error ⟨start, some p.seen⟩

/-- The text that the octets spell. -/
def decode (octets : List UInt8) : Except Fault String :=
  (decodeFrom octets 0 none).map String.ofList

end Graphwire.Utf8
