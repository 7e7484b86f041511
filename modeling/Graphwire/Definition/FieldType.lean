import Graphwire.Schema.Field
import Graphwire.Wire.Number

/-!
# Field types on the wire

A field type is its code, with two flags in the lowest bits where the type is a part of another
one, followed by its parts when it is a container. At the top the flags stand in the entry of the
field instead. Types nest at most 64 levels deep.
-/

namespace Graphwire.FieldType

set_option autoImplicit false

/-- The deepest nesting of parts that is read. -/
def maxDepth : Nat := 64

/-- The bytes of a part that may be any value. -/
def anyPart : List UInt8 := Encode.varuint32 2

/-- The two flags as a number. -/
def flagBits (nullable tracked : Bool) : Nat :=
  (if nullable then 2 else 0) + (if tracked then 1 else 0)

mutual

/-- A field type as a part of another one. -/
def encodePart : FieldType → List UInt8
  | mk t nullable tracked generics =>
    Encode.varuint32 (t.code * 4 % 2 ^ 32 + flagBits nullable tracked) ++ encodeParts t generics

/-- The parts of a container; a part that is not given may be any value. -/
def encodeParts (t : TypeId) : List FieldType → List UInt8
  | [] =>
    if t = .list ∨ t = .set then anyPart
    else if t = .map then anyPart ++ anyPart
    else []
  | [a] =>
    if t = .list ∨ t = .set then encodePart a
    else if t = .map then encodePart a ++ anyPart
    else []
  | a :: b :: _ =>
    if t = .list ∨ t = .set then encodePart a
    else if t = .map then encodePart a ++ encodePart b
    else []

end

/-- A field type at the top, without flags. -/
def encode (f : FieldType) : List UInt8 :=
  Encode.varuint32 f.type.code ++ encodeParts f.type f.generics

/-- The parts that follow a type code, given how one part is read. -/
def decodeParts (part : Decode FieldType) (t : TypeId) : Decode (List FieldType) :=
  if t = .list ∨ t = .set then do
    return [← part]
  else if t = .map then do
    let key ← part
    let value ← part
    return [key, value]
  else return []

/-- Reads a part with at most the given number of levels. -/
def decodePart : Nat → Decode FieldType
  | 0 => throw .fieldTypeTooDeep
  | levels + 1 => do
    let header ← Decode.varuint32
    let t : TypeId := ⟨header / 4⟩
    let generics ← decodeParts (decodePart levels) t
    return .mk t (header / 2 % 2 = 1) (header % 2 = 1) generics

/-- Reads a field type whose flags are known. -/
def decode (nullable tracked : Bool) : Decode FieldType := do
  let t : TypeId := ⟨← Decode.varuint32⟩
  let generics ← decodeParts (decodePart maxDepth) t
  return .mk t nullable tracked generics

mutual

/-- The shape that values of the type are read with when no field of ours describes them. The
values of registered types carry their own type. -/
def toShape : FieldType → Shape
  | mk t _ _ generics =>
    if t = .list then .list (partShape generics)
    else if t = .set then .set (partShape generics)
    else if t = .map then .map (partShape generics) (secondShape generics)
    else if t.isDeclarable then .scalar t
    else .dynamic

/-- The shape of the first part. -/
def partShape : List FieldType → Shape
  | [] => .dynamic
  | a :: _ => a.toShape

/-- The shape of the second part. -/
def secondShape : List FieldType → Shape
  | _ :: b :: _ => b.toShape
  | _ => .dynamic

end

end Graphwire.FieldType
