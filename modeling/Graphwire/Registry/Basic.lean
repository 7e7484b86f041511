import Graphwire.Registry.Types
import Graphwire.Schema.Default

/-!
# The registry

The structs and enumerations that an instance knows, in the order of registration, and the owners
of identifiers. Since a struct may refer to types that are registered after it, all structs are
built anew whenever a type joins or a setting changes; either every one is or nothing changes. A
registration that fails leaves the registry as it was.
-/

namespace Graphwire

set_option autoImplicit false

/-- A registered struct: its declaration, its identifier, and the struct once it is built. -/
structure StructEntry where
  decl : StructDecl
  id : Option Nat
  built : Option StructType
  deriving Repr

/-- The registered types under their qualified names, and the owners of identifiers. -/
structure Registry where
  structs : List (String × StructEntry)
  enums : List (String × EnumType)
  ids : IdTable
  deriving Repr

namespace Registry

/-- The registry without types. -/
def empty : Registry := ⟨[], [], .empty⟩

/-- A struct that was built. -/
def struct? (r : Registry) (name : String) : Option StructType :=
  (r.structs.lookup name).bind (·.built)

def enum? (r : Registry) (name : String) : Option EnumType := r.enums.lookup name

/-- What a qualified name refers to. -/
def named? (r : Registry) (name : String) : Option NamedType :=
  match r.struct? name with
  | some s => some (.struct s)
  | none => (r.enum? name).map .enum

/-- What an identifier refers to. -/
def byId? (r : Registry) (id : Nat) : Option NamedType := (r.ids.owner? id).bind r.named?

/-- What a package and a name refer to. -/
def byName? (r : Registry) (package typeName : String) : Option NamedType :=
  r.named? (qualify package typeName)

/-- The struct that the records of a type belong to. -/
def recordType (r : Registry) (name : String) : Except Error StructType :=
  match r.struct? name with
  | some s => .ok s
  | none => .error (.recordUnregistered name)

/-- Whether a name is taken. -/
def contains (r : Registry) (name : String) : Bool :=
  (r.structs.lookup name).isSome || (r.enums.lookup name).isSome

/-- What fields need to know of the types that they refer to. -/
def lookup (r : Registry) (compatible : Bool) : NamedLookup := fun name =>
  match r.structs.lookup name with
  | some entry =>
    some ⟨structKind entry.id.isSome compatible, entry.id.isSome, entry.decl.isAbstract⟩
  | none => (r.enum? name).map fun e => ⟨e.kind, e.id.isSome, false⟩

/-- The chain of declarations from the most ancestral one down to the given one, of at most
`left` ancestors. -/
def ancestry (find : String → Option StructDecl) (name : String) :
    Nat → StructDecl → Except Error (List StructDecl)
  | left, decl =>
    match decl.parent with
    | none => .ok [decl]
    | some parent =>
      match left with
      | 0 => .error (.inheritanceCycle name)
      | left + 1 =>
        match find parent with
        | none => .error (.parentMissing parent name)
        | some ancestor => (ancestry find name left ancestor).map (· ++ [decl])

/-- The inheritance chain of a registered struct. A chain longer than the registry is a cycle. -/
def chain (r : Registry) (name : String) (decl : StructDecl) : Except Error (List StructDecl) :=
  ancestry (fun parent => (r.structs.lookup parent).map (·.decl)) name r.structs.length decl

/-- Refuses a negative tag and a type that no field can have. -/
def checkDecl (owner : String) (f : FieldDecl) : Except Error Unit :=
  match f.tag.filter (· < 0), f.shape.undeclarable? with
  | some tag, _ => .error (.negativeTag f.name owner tag)
  | none, some t => .error (.undeclarableType f.name owner t)
  | none, none => .ok ()

/-- Whether a field needs a default: a peer may omit it and it may not be null. -/
def needsDefault (compatible : Bool) (f : Field) : Bool :=
  compatible && !f.nullable && !f.hasDefault && !f.type.isEnum &&
    !(f.shape.isNamed && f.type = .unknown)

/-- Refuses a constant that names no member of the field's enumeration. -/
def checkOrdinal (r : Registry) (owner : String) (f : Field) : Except Error Unit :=
  match f.constant, f.shape with
  | some (.enum ordinal), .named name =>
    match r.enum? name with
    | some e =>
      if ordinal < e.members.length then .ok ()
      else .error (.defaultOrdinal ordinal f.name owner name)
    | none => .ok ()
  | _, _ => .ok ()

/-- Refuses an unusable constant and a missing default. -/
def checkDefault (r : Registry) (owner : String) (compatible : Bool) (f : Field) :
    Except Error Unit := do
  match f.constant with
  | some c =>
    let _ ← c.materialize f.shape
    r.checkOrdinal owner f
  | none => pure ()
  if needsDefault compatible f then .error (.defaultRequired f.name owner) else .ok ()

/-- Checks fields one after the other, given the tags of earlier ones. -/
def checkFields (r : Registry) (owner : String) (compatible : Bool) :
    List Int → List Field → Except Error Unit
  | _, [] => .ok ()
  | tags, f :: rest => do
    match f.tag with
    | some tag => if tags.contains tag then .error (.duplicateTag tag owner) else .ok ()
    | none => .ok ()
    r.checkDefault owner compatible f
    checkFields r owner compatible (f.tag.toList ++ tags) rest

/-- Builds one struct. -/
def build (r : Registry) (config : Config) (name : String) (entry : StructEntry) :
    Except Error StructType := do
  let chain ← r.chain name entry.decl
  (chain.flatMap (·.fields)).forM (checkDecl name)
  let fields := resolveFields (r.lookup config.compatible) config.trackRef chain
  r.checkFields name config.compatible [] fields
  StructType.build name entry.id entry.decl.isAbstract fields config.compatible

/-- Builds every struct. -/
def rebuild (r : Registry) (config : Config) : Except Error Registry := do
  let structs ← r.structs.mapM fun (name, entry) => do
    let built ← r.build config name entry
    return (name, { entry with built := some built })
  return { r with structs }

/-- The type of records that were never registered: every field is dynamic and may be null. -/
def adhocStruct (r : Registry) (config : Config) (record : Record) : Except Error StructType :=
  let decl : StructDecl :=
    { naming := .ofNames "" record.typeName
      parent := none
      isAbstract := false
      fields := record.fields.names.map fun name =>
        { FieldDecl.ofShape name .dynamic with nullable := true } }
  let fields := resolveFields (r.lookup config.compatible) config.trackRef [decl]
  StructType.build record.typeName none false fields config.compatible

/-- What a registration comes to: its result, or an error, and the registry afterwards. -/
abbrev Outcome (α : Type) := Except Error α × Registry

/-- Gives an identifier, if there is one, to the type of a name. -/
def claim (r : Registry) (id : Option Nat) (name : String) : Except Error Registry :=
  match id with
  | none => .ok r
  | some id =>
    match r.ids.claim id name with
    | .ok ids => .ok { r with ids }
    | .error owner => .error (.idTaken id name owner)

/-- Leaves an identifier, if there is one, without owner. -/
def release (r : Registry) (id : Option Nat) : Registry :=
  match id with
  | none => r
  | some id => { r with ids := r.ids.release id }

/-- Takes a type out and leaves its identifier without owner. -/
def withdraw (r : Registry) (name : String) (id : Option Nat) : Registry :=
  { r with
    structs := r.structs.filter (·.1 ≠ name)
    enums := r.enums.filter (·.1 ≠ name) }.release id

/-- Builds every struct after a type has joined, and takes the type out again if that fails. -/
def settle (r : Registry) (config : Config) (name : String) (id : Option Nat) : Outcome Unit :=
  match r.rebuild config with
  | .ok r' => (.ok (), r')
  | .error e =>
    let back := r.withdraw name id
    match back.rebuild config with
    | .ok r' => (.error e, r')
    | .error e' => (.error e', back)

/-- Adds a struct that is not built yet. -/
def addStruct (r : Registry) (id : Option Nat) (decl : StructDecl) : Registry :=
  { r with structs := r.structs ++ [(decl.qualifiedName, ⟨decl, id, none⟩)] }

/-- Adds an enumeration. -/
def addEnum (r : Registry) (id : Option Nat) (decl : EnumDecl) : Registry :=
  { r with enums := r.enums ++ [(decl.qualifiedName, EnumType.ofDecl id decl)] }

/-- Registers a struct under an identifier or by name. -/
def registerStruct (r : Registry) (config : Config) (id : Option Nat) (decl : StructDecl) :
    Outcome Unit :=
  let name := decl.qualifiedName
  if r.contains name then (.error (.alreadyRegistered name), r)
  else
    match r.claim id name with
    | .error e => (.error e, r)
    | .ok r' => (r'.addStruct id decl).settle config name id

/-- Registers an enumeration under an identifier or by name. -/
def registerEnum (r : Registry) (config : Config) (id : Option Nat) (decl : EnumDecl) :
    Outcome Unit :=
  let name := decl.qualifiedName
  if r.contains name then (.error (.alreadyRegistered name), r)
  else if decl.members = [] then (.error (.noMembers name), r)
  else
    match r.claim id name with
    | .error e => (.error e, r)
    | .ok r' => (r'.addEnum id decl).settle config name id

/-- Registers a type under the identifier that its naming gives, by `register`. -/
def registerAuto (r : Registry) (naming : Naming) (register : Registry → Option Nat → Outcome Unit) :
    Outcome IdAssignment :=
  match naming.explicitId with
  | some id =>
    let (result, r') := register r (some id)
    (result.map fun _ => .explicit id, r')
  | none =>
    if r.contains naming.qualifiedName then (.error (.alreadyRegistered naming.qualifiedName), r)
    else
      let (assignment, ids) := r.ids.assign naming
      match register { r with ids } assignment.id? with
      | (.ok _, r') => (.ok assignment, r')
      | (.error e, r') => (.error e, r'.release assignment.id?)

/-- Registers a struct under its explicit or hashed identifier, or by name if that is taken. -/
def registerStructAuto (r : Registry) (config : Config) (decl : StructDecl) :
    Outcome IdAssignment :=
  r.registerAuto decl.naming fun r id => r.registerStruct config id decl

/-- Registers an enumeration under its explicit or hashed identifier, or by name if that is
taken. -/
def registerEnumAuto (r : Registry) (config : Config) (decl : EnumDecl) : Outcome IdAssignment :=
  r.registerAuto decl.naming fun r id => r.registerEnum config id decl

end Registry

end Graphwire
