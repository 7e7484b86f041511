import Graphwire.Codec.Scalar

/-!
# Marked and typed values

A value is written as its marker, its type and its payload, where marker and type are left out if
the declaration makes them known. The functions here are given the writer and the reader of
payloads, which are the ones that go into nodes.
-/

namespace Graphwire

set_option autoImplicit false

/-- The writer of payloads of a wire type. The shape is the declared one. -/
abbrev WritePayload := WireType → Shape → Value → Write (List UInt8)

/-- The reader of payloads of a wire type. A node is put behind the reference number, if there is
one, before its contents are read. -/
abbrev ReadPayload := WireType → Shape → Option Nat → Read Value

namespace Write

/-- The type of a value, if asked for, and its payload. -/
def typed (env : Environment) (g : Graph) (payload : WritePayload) (typed : Bool) (shape : Shape)
    (v : Value) : Write (List UInt8) := do
  if typed then do
    let (info, wire) ← typeInfo env g v
    let bytes ← payload wire shape v
    return info ++ bytes
  else do
    let wire ← (env.declaredType shape : Except Error WireType)
    payload wire shape v

/-- Marks a value, by its number if its node was written before. -/
def mark (v : Value) : Write (Bool × List UInt8) :=
  modifyGet fun s => let (marking, seen) := s.seen.mark v; (marking, { s with seen })

/-- The marker that the mode asks for, then the type and the payload. -/
def marked (env : Environment) (g : Graph) (payload : WritePayload) (mode : RefMode)
    (hasType : Bool) (shape : Shape) (v : Value) : Write (List UInt8) := do
  match mode with
  | .tracking => do
    let (complete, marker) ← mark v
    if complete then return marker
    else return marker ++ (← typed env g payload hasType shape v)
  | .nullOnly =>
    if v.isNull then return RefFlag.null.encode
    else return RefFlag.notNull.encode ++ (← typed env g payload hasType shape v)
  | .none =>
    if v.isNull then throw .nullWithoutMarker
    else typed env g payload hasType shape v

end Write

namespace Read

/-- Reads the type of a value, if asked for, and its payload. -/
def typed (env : Environment) (payload : ReadPayload) (typed : Bool) (shape : Shape)
    (slot : Option Nat) : Read Value := do
  let wire ← if typed then typeInfo env else check (env.declaredType shape)
  payload wire shape slot

/-- Reserves the next reference number. -/
def reserve : Read Nat :=
  modifyGet fun s => let (number, slots) := s.slots.reserve; (number, { s with slots })

/-- The value behind a reference number. -/
def resolve (number : Nat) : Read Value := do
  check ((← get).slots.resolve number)

/-- Reads the marker that the mode asks for, then the type and the payload. -/
def marked (env : Environment) (payload : ReadPayload) (mode : RefMode) (hasType : Bool)
    (shape : Shape) : Read Value := do
  if mode = .none then typed env payload hasType shape none
  else
    let flag ← decode Decode.refFlag
    match flag, mode with
    | .null, _ => return .null
    | .notNull, _ => typed env payload hasType shape none
    | .ref, .tracking => do
      let number ← decode Decode.varuint32
      resolve number
    | .newRef, .tracking => do
      let number ← reserve
      let v ← typed env payload hasType shape (some number)
      publish (some number) v
      return v
    | flag, _ => throw (.untrackedRefFlag flag)

end Read

end Graphwire
