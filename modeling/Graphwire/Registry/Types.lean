import Graphwire.Config
import Graphwire.Definition.Basic
import Graphwire.Schema.Plan
import Graphwire.Schema.Version

/-!
# Types ready for use

What is kept of a struct or an enumeration once it is registered: its names, its kind and
identifier, and for a struct the canonical fields, the version hash, the plan and, in compatible
mode, the bytes of its type definition.
-/

namespace Graphwire

set_option autoImplicit false

/-- A struct ready for use. -/
structure StructType where
  qualifiedName : String
  package : String
  typeName : String
  kind : TypeId
  id : Option Nat
  isAbstract : Bool
  /-- The fields in canonical order. -/
  fields : List Field
  version : Int
  plan : List PlanStep
  /-- The type definition, in compatible mode. -/
  definition : Option (List UInt8)
  deriving Repr

/-- The kind of a struct. -/
def structKind (byId compatible : Bool) : TypeId :=
  match byId, compatible with
  | true, false => .struct
  | true, true => .compatibleStruct
  | false, false => .namedStruct
  | false, true => .namedCompatibleStruct

namespace StructType

/-- Whether records of the type travel with its definition. -/
def isCompatible (s : StructType) : Bool :=
  s.kind = .compatibleStruct || s.kind = .namedCompatibleStruct

/-- The header of the type's definition. -/
def header? (s : StructType) : Option Int :=
  s.definition.bind fun bytes =>
    (splitExactly 8 bytes).map fun (header, _) =>
      Decode.toSigned 8 (Decode.ofLittleEndian header)

/-- The definition of a type with canonical fields. -/
def definitionOf (id : Option Nat) (package typeName : String) (fields : List Field) :
    TypeDefinition :=
  .ofFields (id.elim (.names package typeName) .id) fields

/-- A struct from its resolved fields. -/
def build (qualifiedName : String) (id : Option Nat) (isAbstract : Bool) (fields : List Field)
    (compatible : Bool) : Except Error StructType := do
  let (package, typeName) := splitQualified qualifiedName
  let version ← structVersion qualifiedName fields
  let fields := canonicalOrder fields
  let definition ←
    if compatible then some <$> (definitionOf id package typeName fields).encode else pure none
  return { qualifiedName, package, typeName, kind := structKind id.isSome compatible, id,
           isAbstract, fields, version, plan := fieldPlan fields, definition }

end StructType

/-- An enumeration ready for use. -/
structure EnumType where
  qualifiedName : String
  package : String
  typeName : String
  id : Option Nat
  members : List String
  deriving DecidableEq, Repr

/-- The kind of an enumeration. -/
def EnumType.kind (e : EnumType) : TypeId := if e.id.isSome then .enum else .namedEnum

/-- An enumeration from its declaration. -/
def EnumType.ofDecl (id : Option Nat) (e : EnumDecl) : EnumType :=
  ⟨e.qualifiedName, e.naming.package, e.naming.typeName, id, e.members⟩

/-- What a name refers to. -/
inductive NamedType where
  | struct (s : StructType)
  | enum (e : EnumType)
  deriving Repr

end Graphwire
