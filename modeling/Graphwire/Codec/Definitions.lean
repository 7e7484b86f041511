import Graphwire.Codec.State

/-!
# Sharing type definitions

Within one call a type definition is sent once. Its first use carries a number and the definition,
every later use the number alone; the lowest bit of the marker tells the two apart. A definition
whose header is in the cache is not parsed again.
-/

namespace Graphwire

set_option autoImplicit false

/-- The definition of a struct, or its number if it was sent before. -/
def Write.definition (s : StructType) : Write (List UInt8) := do
  let state ← get
  match state.sent.idxOf? s.qualifiedName with
  | some number => return Encode.varuint32 (2 * number + 1)
  | none =>
    match s.definition with
    | none => throw (.missingDefinition s.qualifiedName)
    | some bytes => do
      let number := state.sent.length
      set { state with sent := state.sent ++ [s.qualifiedName] }
      return Encode.varuint32 (2 * number) ++ bytes

namespace Read

/-- The definitions received so far. -/
def received : Read (List PeerStruct) := do
  return (← get).received

/-- Notes that a definition with a header stands here. -/
def note (header : Int) : Read Unit :=
  modify fun s => { s with met := s.met ++ [(header, s.reader)] }

/-- Gives a definition the next number. -/
def receive (p : PeerStruct) : Read Unit :=
  modify fun s => { s with received := s.received ++ [p] }

/-- The definition after a header, from the cache or parsed. -/
def definitionAfter (r : Registry) (header : Int) : Read PeerStruct := do
  let state ← get
  match state.cache.get? header with
  | some p => do
    decode (TypeDefinition.skipAfter header)
    return p
  | none => do
    let d ← decode (TypeDefinition.decodeAfter header)
    let p := PeerStruct.ofDefinition r header d
    modify fun s => { s with cache := s.cache.add header p }
    return p

/-- Reads the number of a definition, and the definition unless it was sent before. -/
def definition (r : Registry) : Read PeerStruct := do
  let marker ← decode Decode.varuint32
  let number := marker / 2
  let received ← received
  if marker % 2 = 1 then
    match received[number]? with
    | some p => return p
    | none => throw (.definitionNeverSent number)
  else if number ≠ received.length then
    throw (.definitionOutOfOrder number received.length)
  else do
    let header ← decode (Decode.signed 8)
    note header
    let p ← definitionAfter r header
    receive p
    return p

end Read

end Graphwire
