import Graphwire.Schema.Field

/-!
# Canonical field order

The fields of a struct fall into seven groups that follow one another. Within the two groups of
primitives, fixed widths come before compressed ones, wide before narrow, high type codes before
low ones; ties there and the order within the other groups are decided by the fields' keys. The
declaration order plays no part.
-/

namespace Graphwire

set_option autoImplicit false

/-- A group of fields. -/
inductive FieldGroup where
  | primitive
  | nullablePrimitive
  | internal
  | list
  | set
  | map
  | other
  deriving DecidableEq, Repr

namespace FieldGroup

/-- The groups in the order in which they are written. -/
def all : List FieldGroup := [primitive, nullablePrimitive, internal, list, set, map, other]

/-- The name of a group. -/
def name : FieldGroup → String
  | primitive => "Primitive"
  | nullablePrimitive => "NullablePrimitive"
  | internal => "Internal"
  | list => "List"
  | set => "Set"
  | map => "Map"
  | other => "Other"

/-- The group of a field. -/
def ofField (f : Field) : FieldGroup :=
  if f.type.isPrimitive then if f.nullable then nullablePrimitive else primitive
  else if f.type = .list then list
  else if f.type = .set then set
  else if f.type = .map then map
  else if f.type.isInternal then internal
  else other

/-- Whether the fields of a group are ordered by width. -/
def isPrimitive : FieldGroup → Bool
  | primitive | nullablePrimitive => true
  | _ => false

end FieldGroup

/-- The order of primitive fields. -/
def Field.precedesPrimitive (a b : Field) : Bool :=
  if a.type.isCompressed ≠ b.type.isCompressed then b.type.isCompressed
  else if a.type.primitiveSize ≠ b.type.primitiveSize then
    b.type.primitiveSize < a.type.primitiveSize
  else if a.type.code ≠ b.type.code then b.type.code < a.type.code
  else a.precedes b

/-- The sorted fields of one group. -/
def groupFields (group : FieldGroup) (fields : List Field) : List Field :=
  (fields.filter fun f => FieldGroup.ofField f = group).mergeSort
    (if group.isPrimitive then Field.precedesPrimitive else Field.precedes)

/-- The canonical order of fields. -/
def canonicalOrder (fields : List Field) : List Field :=
  FieldGroup.all.flatMap fun group => groupFields group fields

end Graphwire
