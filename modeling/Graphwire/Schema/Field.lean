import Graphwire.Reference.Marker
import Graphwire.Schema.Constant
import Graphwire.Schema.Naming

/-!
# Declared and resolved fields

A struct is declared with fields of its own and may extend another one. Resolving the fields of an
inheritance chain decides once and for all how each is written: its type code, whether its value
carries its own type, whether a null or a reference marker precedes it, and the field type that
peers are told.
-/

namespace Graphwire

set_option autoImplicit false

/-- A declared field. `dynamic` is absent when it follows from the shape. -/
structure FieldDecl where
  name : String
  shape : Shape
  tag : Option Int
  nullable : Bool
  refEligible : Bool
  dynamic : Option Bool
  constant : Option Constant
  template : Option Template
  deriving DecidableEq, Repr

/-- A field of a shape, not nullable and without default. -/
def FieldDecl.ofShape (name : String) (shape : Shape) : FieldDecl :=
  { name, shape, tag := none, nullable := false, refEligible := false, dynamic := none,
    constant := none, template := none }

/-- A declared struct. -/
structure StructDecl where
  naming : Naming
  parent : Option String
  isAbstract : Bool
  fields : List FieldDecl
  deriving DecidableEq, Repr

def StructDecl.qualifiedName (s : StructDecl) : String := s.naming.qualifiedName

/-- A declared enumeration; a member is known by its position. -/
structure EnumDecl where
  naming : Naming
  members : List String
  deriving DecidableEq, Repr

def EnumDecl.qualifiedName (e : EnumDecl) : String := e.naming.qualifiedName

/-- The type of a field as peers are told. -/
inductive FieldType where
  | mk (type : TypeId) (nullable tracked : Bool) (generics : List FieldType)
  deriving Repr

namespace FieldType

def type : FieldType → TypeId
  | mk t _ _ _ => t

def nullable : FieldType → Bool
  | mk _ n _ _ => n

def tracked : FieldType → Bool
  | mk _ _ t _ => t

def generics : FieldType → List FieldType
  | mk _ _ _ g => g

/-- The field type with another reference flag. -/
def withTracked (f : FieldType) (tracked : Bool) : FieldType :=
  .mk f.type f.nullable tracked f.generics

/-- Any value, possibly null. -/
def any : FieldType := .mk .unknown true false []

mutual

/-- Whether two field types agree in type codes and generics; flags do not count. -/
def agrees : FieldType → FieldType → Bool
  | mk t _ _ g, mk u _ _ h => t = u && allAgree g h

/-- Pairwise agreement of two lists of the same length. -/
def allAgree : List FieldType → List FieldType → Bool
  | [], [] => true
  | a :: as, b :: bs => agrees a b && allAgree as bs
  | _, _ => false

end

end FieldType

/-- What is known of a type that a shape refers to by name. -/
structure NamedInfo where
  type : TypeId
  byId : Bool
  isAbstract : Bool
  deriving DecidableEq, Repr

/-- What is known of types by their qualified names. -/
abbrev NamedLookup := String → Option NamedInfo

/-- The type code of a shape; a type that is not known has the unknown one. -/
def Shape.typeId (lookup : NamedLookup) : Shape → TypeId
  | .scalar t => t
  | .list _ => .list
  | .set _ => .set
  | .map .. => .map
  | .named name => (lookup name).elim .unknown (·.type)
  | .dynamic => .unknown

/-- The field type of a shape; the parts of containers have no flags. -/
def Shape.fieldType (lookup : NamedLookup) (nullable tracked : Bool) : Shape → FieldType
  | .list e => .mk .list nullable tracked [e.fieldType lookup false false]
  | .set e => .mk .set nullable tracked [e.fieldType lookup false false]
  | .map k v =>
    .mk .map nullable tracked [k.fieldType lookup false false, v.fieldType lookup false false]
  | .scalar t => .mk t nullable tracked []
  | .named name => .mk ((lookup name).elim .unknown (·.type)) nullable tracked []
  | .dynamic => .mk .unknown nullable tracked []

/-- Whether the values of a field carry their own type. -/
def FieldDecl.isDynamic (lookup : NamedLookup) (f : FieldDecl) : Bool :=
  match f.shape with
  | .dynamic => true
  | .named name =>
    match lookup name with
    | none => true
    | some info =>
      info.isAbstract || f.dynamic.getD (info.type.isPolymorphic && !info.byId)
  | _ => f.dynamic.getD false

/-- A resolved field. -/
structure Field where
  name : String
  /-- The position among the fields of the inheritance chain. -/
  index : Nat
  shape : Shape
  tag : Option Int
  nullable : Bool
  refEligible : Bool
  dynamic : Bool
  /-- Whether references are tracked for this field. -/
  tracked : Bool
  type : TypeId
  declaringType : String
  fieldType : FieldType
  constant : Option Constant
  template : Option Template
  deriving Repr

namespace Field

/-- Resolves a declared field. -/
def resolve (lookup : NamedLookup) (trackRef : Bool) (declaringType : String) (index : Nat)
    (f : FieldDecl) : Field :=
  let dynamic := f.isDynamic lookup
  { name := f.name
    index
    shape := f.shape
    tag := f.tag
    nullable := f.nullable
    refEligible := f.refEligible
    dynamic
    tracked := f.refEligible && trackRef
    type := f.shape.typeId lookup
    declaringType
    fieldType :=
      if dynamic then .mk .unknown f.nullable f.refEligible []
      else f.shape.fieldType lookup f.nullable f.refEligible
    constant := f.constant
    template := f.template }

/-- The text that identifies a field to peers: its tag, or its name. -/
def key (f : Field) : String := f.tag.elim f.name toString

/-- Tagged fields come first, in the order of the tags' texts, then the others by name. -/
def precedes (a b : Field) : Bool :=
  if a.tag.isSome = b.tag.isSome then a.key ≤ b.key else a.tag.isSome

def refMode (f : Field) : RefMode := .ofFlags f.nullable f.tracked

def hasDefault (f : Field) : Bool := f.constant.isSome || f.template.isSome

end Field

/-- The declarations of an inheritance chain, most ancestral struct first, each with the name of the
struct that makes it. -/
def declarations (chain : List StructDecl) : List (FieldDecl × String) :=
  chain.flatMap fun s => s.fields.map fun f => (f, s.qualifiedName)

/-- The fields of the declarations so far, and where the field of each name stands. -/
structure Flattening where
  fields : List (FieldDecl × String)
  positions : List (String × Nat)

namespace Flattening

def empty : Flattening := { fields := [], positions := [] }

/-- Puts a declaration over the field of that name, or after all fields. -/
def declare (w : Flattening) (d : FieldDecl × String) : Flattening :=
  match w.positions.lookup d.1.name with
  | some position => { w with fields := w.fields.set position d }
  | none =>
    { fields := w.fields ++ [d], positions := (d.1.name, w.fields.length) :: w.positions }

end Flattening

/-- The fields of an inheritance chain, most ancestral struct first, each with the struct that
declares it. A redefined field keeps its place. -/
def flattenFields (chain : List StructDecl) : List (FieldDecl × String) :=
  ((declarations chain).foldl Flattening.declare .empty).fields

/-- The resolved fields of an inheritance chain. -/
def resolveFields (lookup : NamedLookup) (trackRef : Bool) (chain : List StructDecl) :
    List Field :=
  (flattenFields chain).mapIdx fun index (f, declaring) =>
    Field.resolve lookup trackRef declaring index f

end Graphwire
