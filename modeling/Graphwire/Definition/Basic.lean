import Graphwire.Definition.Entry
import Graphwire.Hash.Murmur

/-!
# Type definitions

A type definition tells a peer which fields the records of a type have. Its header of 64 bits holds
the size of what follows, a flag for the presence of fields, and bits of a hash of what follows. Then
come the number of fields, the identifier or the two names of the type, and the entries.
-/

namespace Graphwire

set_option autoImplicit false

/-- How a type definition names its type. -/
inductive TypeIdentity where
  | id (id : Nat)
  | names (package typeName : String)
  deriving DecidableEq, Repr

/-- The fields of a peer's type. -/
structure TypeDefinition where
  /-- The bits of the hash that the header holds. -/
  hash : Int
  identity : TypeIdentity
  fields : List FieldEntry
  deriving Repr

namespace Encode

/-- A name in UTF-8 after its length. -/
def definitionName (name : String) : List UInt8 :=
  let octets := Utf8.encode name
  (if 63 ≤ octets.length then 252 :: varuint32 (octets.length - 63)
    else [(4 * octets.length).toUInt8]) ++ octets

end Encode

namespace Decode

/-- A name after its length. -/
def definitionName : Decode String := do
  let header ← octet
  if header % 4 ≠ 0 then throw (.unsupportedTypeNameEncoding (header % 4))
  let small := header / 4
  let length ← if 63 ≤ small then (63 + ·) <$> varuint32 else pure small
  let octets ← bytes length
  utf8 .typeName octets

/-- Reads the same thing a number of times. -/
def many {α : Type} (one : Decode α) : Nat → Decode (List α)
  | 0 => return []
  | n + 1 => do
    let first ← one
    let others ← many one n
    return first :: others

end Decode

namespace TypeIdentity

def isByName : TypeIdentity → Bool
  | id _ => false
  | names .. => true

def encode : TypeIdentity → List UInt8
  | id n => Encode.varuint32 n
  | names package typeName => Encode.definitionName package ++ Encode.definitionName typeName

/-- Reads an identifier or two names. -/
def decode (byName : Bool) : Decode TypeIdentity :=
  if byName then do
    let package ← Decode.definitionName
    let typeName ← Decode.definitionName
    return names package typeName
  else do
    return id (← Decode.varuint32)

end TypeIdentity

namespace TypeDefinition

/-- The definition of a type with the given fields. -/
def ofFields (identity : TypeIdentity) (fields : List Field) : TypeDefinition :=
  ⟨0, identity, fields.map FieldEntry.ofField⟩

/-- The number of fields and how the type is named. -/
def countByte (fields : Nat) (byName : Bool) : Nat := min 31 fields + if byName then 32 else 0

/-- What follows the header: number of fields, identity and entries. -/
def encodeLayer (d : TypeDefinition) : Except Error (List UInt8) := do
  let entries ← d.fields.mapM FieldEntry.encode
  let count := d.fields.length
  return (countByte count d.identity.isByName).toUInt8 ::
    (if 31 ≤ count then Encode.varuint32 (count - 31) else []) ++
    d.identity.encode ++ entries.flatten

/-- The largest size, which stands in the header when the true size follows it. -/
def sizeMask : Nat := 4095

/-- The header of a layer: its size in the lowest 12 bits, then the presence of fields, a clear bit,
and 49 bits of its hash. -/
def headerOf (layer : List UInt8) (hasFields : Bool) : Int :=
  (min sizeMask layer.length + (if hasFields then 2 ^ 12 else 0) +
    (Murmur.hash128 layer 47).1.toNat % 2 ^ 49 * 2 ^ 14 : Nat)

/-- The bytes of a definition. -/
def encode (d : TypeDefinition) : Except Error (List UInt8) := do
  let layer ← d.encodeLayer
  return Encode.signed 8 (headerOf layer (d.fields ≠ [])) ++
    (if sizeMask ≤ layer.length then Encode.varuint32 (layer.length - sizeMask) else []) ++ layer

/-- The size of the layer after a header. -/
def decodeSize (header : Int) : Decode Nat := do
  let small := (header % 4096).toNat
  if small = sizeMask then (sizeMask + ·) <$> Decode.varuint32 else pure small

/-- Reads what a layer holds. -/
def decodeLayer (header : Int) : Decode TypeDefinition := do
  let countByte ← Decode.octet
  let small := countByte % 32
  let count ← if small = 31 then (31 + ·) <$> Decode.varuint32 else pure small
  let identity ← TypeIdentity.decode (countByte / 32 % 2 = 1)
  let fields ← Decode.many FieldEntry.decode count
  return ⟨header / 2 ^ 14, identity, fields⟩

/-- Reads what follows a header. The bytes of the layer that its entries leave over are ignored. -/
def decodeAfter (header : Int) : Decode TypeDefinition := do
  let size ← decodeSize header
  let layer ← Decode.bytes size
  Decode.within layer (decodeLayer header)

/-- Reads a definition. -/
def decode : Decode TypeDefinition := do
  let header ← Decode.signed 8
  decodeAfter header

/-- Moves over what follows a header. -/
def skipAfter (header : Int) : Decode Unit := do
  let size ← decodeSize header
  Decode.skip size

end TypeDefinition

end Graphwire
