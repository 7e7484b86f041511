import Graphwire.Codec.Definitions

/-!
# Types in front of values

A value whose type is not fixed by its declaration is preceded by it: a kind byte, and for
registered types an identifier, two names or a type definition. A value of a declared shape takes
its type from the shape.
-/

namespace Graphwire

set_option autoImplicit false

/-- What the bytes of a value are known to hold. -/
inductive WireType where
  | builtin (type : TypeId)
  | struct (s : StructType) (strict : Bool)
  | peer (p : PeerStruct)
  /-- A member of an enumeration; the number of members is known when it is registered. -/
  | enum (typeName : String) (members : Option Nat)
  deriving Repr

/-- The wire type of a registered enumeration. -/
def EnumType.wire (e : EnumType) : WireType := .enum e.qualifiedName (some e.members.length)

/-- The type of a value that nothing declares. -/
def Graph.inferType? (g : Graph) : Value → Option TypeId
  | .null => none
  | .bool _ => some .bool
  | .int n =>
    some <| match n.kind with
      | .int8 => .int8
      | .int16 => .int16
      | .int32 => .varint32
      | .int64 => .varint64
      | .uint8 => .uint8
      | .uint16 => .uint16
      | .uint32 => .varUint32
      | .uint64 => .varUint64
  | .float32 _ => some .float32
  | .float64 _ => some .float64
  | .string _ => some .string
  | .binary _ => some .binary
  | .date _ => some .date
  | .timestamp _ => some .timestamp
  | .duration _ => some .duration
  | .enum .. => none
  | .handle h =>
    match g.node h with
    | .list _ => some .list
    | .set _ => some .set
    | .map _ => some .map
    | .record _ => none

/-- Whether values of the type are preceded by nothing but its code. -/
def TypeId.isWireBuiltin (t : TypeId) : Bool := t.builtin?.isSome || t.isContainer

/-- The kind byte of a type. -/
def TypeId.encode (t : TypeId) : List UInt8 := [t.code.toUInt8]

/-- The wire type of a declared shape. -/
def Environment.declaredType (env : Environment) : Shape → Except Error WireType
  | .scalar t => .ok (.builtin t)
  | .list _ => .ok (.builtin .list)
  | .set _ => .ok (.builtin .set)
  | .map .. => .ok (.builtin .map)
  | .named name =>
    match env.registry.named? name with
    | some (.struct s) => .ok (.struct s true)
    | some (.enum e) => .ok e.wire
    | none => .error (.typeUnregistered name)
  | .dynamic => .error .undeclaredType

namespace Write

/-- Two names. -/
def names (package typeName : String) : List UInt8 := Encode.text package ++ Encode.text typeName

/-- The struct that a record is written as. In compatible mode a record of an unregistered type
may be written by its own fields, which then must be the same for all records of the type. -/
def recordType (env : Environment) (record : Record) : Write StructType := do
  match env.registry.struct? record.typeName with
  | some s => return s
  | none =>
    if env.config.requireRegistration || !env.config.compatible then
      throw (.recordUnregistered record.typeName)
    let state ← get
    match state.adhoc.lookup record.typeName with
    | some s =>
      if s.fields.length = record.fields.size && s.fields.all fun f => record.contains f.name then
        return s
      else throw (.fieldSetsDiffer record.typeName)
    | none => do
      let s ← (env.registry.adhocStruct env.config record : Except Error StructType)
      set { state with adhoc := (record.typeName, s) :: state.adhoc }
      return s

/-- The type of a value, and how the value is written. -/
def typeInfo (env : Environment) (g : Graph) (v : Value) : Write (List UInt8 × WireType) := do
  match g.asRecord? v, v with
  | some record, _ => do
    let s ← recordType env record
    let identity ←
      if s.kind = .struct then pure (Encode.varuint32 (s.id.getD 0))
      else if s.kind = .namedStruct then pure (names s.package s.typeName)
      else definition s
    return (s.kind.encode ++ identity, .struct s !s.isCompatible)
  | none, .enum typeName _ =>
    match env.registry.enum? typeName with
    | some e =>
      return (e.kind.encode ++ e.id.elim (names e.package e.typeName) Encode.varuint32, e.wire)
    | none =>
      if env.config.requireRegistration then throw (.enumUnregistered typeName)
      else
        let (package, name) := splitQualified typeName
        return (TypeId.namedEnum.encode ++ names package name, .enum typeName none)
  | none, _ =>
    match g.inferType? v with
    | some t => return (t.encode, .builtin t)
    | none => throw .nullTypeInfo

end Write

namespace Read

/-- A text whose size is checked before it is read. -/
def text (limits : SizeLimits) : Read String := do
  let (encoding, length) ← decode Decode.textHeader
  check (limits.check .string length)
  decode (Decode.textPayload encoding length)

/-- What a name or an identifier in front of a value refers to. An unknown enumeration is admitted
where `lenient`. -/
def referredType (named : Option NamedType) (name : String) (lenient : Bool) :
    Except Error WireType :=
  match named with
  | some (.struct s) =>
    if s.isCompatible then .error (.strictInfoForCompatible s.qualifiedName)
    else .ok (.struct s true)
  | some (.enum e) => .ok e.wire
  | none => if lenient then .ok (.enum name none) else .error (.typeUnregistered name)

/-- Refuses a struct where an enumeration was announced, and the other way round. -/
def checkKind (kind : TypeId) (wire : WireType) : Except Error WireType :=
  match wire with
  | .struct s _ => if kind.isEnum then .error (.enumInfoForStruct s.qualifiedName) else .ok wire
  | .enum typeName _ =>
    if kind = .struct ∨ kind = .namedStruct then .error (.structInfoForEnum typeName)
    else .ok wire
  | _ => .ok wire

/-- Reads the type in front of a value. -/
def typeInfo (env : Environment) : Read WireType := do
  let kind : TypeId := ⟨← decode Decode.octet⟩
  let lenient := !env.config.requireRegistration && kind.isEnum
  if kind = .struct ∨ kind = .enum then do
    let id ← decode Decode.varuint32
    let wire ← check (referredType (env.registry.byId? id) s!"type#{id}" lenient)
    check (checkKind kind wire)
  else if kind = .namedStruct ∨ kind = .namedEnum then do
    let package ← text env.config.limits
    let typeName ← text env.config.limits
    let named := env.registry.byName? package typeName
    let wire ← check (referredType named (qualify package typeName) lenient)
    check (checkKind kind wire)
  else if kind = .compatibleStruct ∨ kind = .namedCompatibleStruct then do
    let p ← definition env.registry
    if p.own.isNone && env.config.requireRegistration then throw (.typeUnregistered p.typeName)
    return .peer p
  else if kind.isWireBuiltin then return .builtin kind
  else throw (.unsupportedTypeInfo kind)

end Read

end Graphwire
