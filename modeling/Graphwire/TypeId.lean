import Graphwire.Number.Integer

/-!
# Type codes

The number that names a type on the wire. Codes up to 56 have a meaning; any other 32-bit code can
still be met in a payload. Predicates sort the codes into primitives, containers and registered
kinds, and `Builtin` says how the values of a built-in scalar type are laid out.
-/

namespace Graphwire

set_option autoImplicit false

/-- A type code. -/
structure TypeId where
  code : Nat
  deriving DecidableEq, Repr, Inhabited

namespace TypeId

def unknown : TypeId := ⟨0⟩
def bool : TypeId := ⟨1⟩
def int8 : TypeId := ⟨2⟩
def int16 : TypeId := ⟨3⟩
def int32 : TypeId := ⟨4⟩
def varint32 : TypeId := ⟨5⟩
def int64 : TypeId := ⟨6⟩
def varint64 : TypeId := ⟨7⟩
def taggedInt64 : TypeId := ⟨8⟩
def uint8 : TypeId := ⟨9⟩
def uint16 : TypeId := ⟨10⟩
def uint32 : TypeId := ⟨11⟩
def varUint32 : TypeId := ⟨12⟩
def uint64 : TypeId := ⟨13⟩
def varUint64 : TypeId := ⟨14⟩
def taggedUint64 : TypeId := ⟨15⟩
def float8 : TypeId := ⟨16⟩
def float16 : TypeId := ⟨17⟩
def bfloat16 : TypeId := ⟨18⟩
def float32 : TypeId := ⟨19⟩
def float64 : TypeId := ⟨20⟩
def string : TypeId := ⟨21⟩
def list : TypeId := ⟨22⟩
def set : TypeId := ⟨23⟩
def map : TypeId := ⟨24⟩
def enum : TypeId := ⟨25⟩
def namedEnum : TypeId := ⟨26⟩
def struct : TypeId := ⟨27⟩
def compatibleStruct : TypeId := ⟨28⟩
def namedStruct : TypeId := ⟨29⟩
def namedCompatibleStruct : TypeId := ⟨30⟩
def ext : TypeId := ⟨31⟩
def namedExt : TypeId := ⟨32⟩
def union : TypeId := ⟨33⟩
def typedUnion : TypeId := ⟨34⟩
def namedUnion : TypeId := ⟨35⟩
def duration : TypeId := ⟨37⟩
def timestamp : TypeId := ⟨38⟩
def date : TypeId := ⟨39⟩
def binary : TypeId := ⟨41⟩

/-- The labels of the codes that have a meaning, in the order of the codes. -/
def labels : List String :=
  ["UNKNOWN", "BOOL", "INT8", "INT16", "INT32", "VARINT32", "INT64", "VARINT64", "TAGGED_INT64",
   "UINT8", "UINT16", "UINT32", "VAR_UINT32", "UINT64", "VAR_UINT64", "TAGGED_UINT64", "FLOAT8",
   "FLOAT16", "BFLOAT16", "FLOAT32", "FLOAT64", "STRING", "LIST", "SET", "MAP", "ENUM",
   "NAMED_ENUM", "STRUCT", "COMPATIBLE_STRUCT", "NAMED_STRUCT", "NAMED_COMPATIBLE_STRUCT", "EXT",
   "NAMED_EXT", "UNION", "TYPED_UNION", "NAMED_UNION", "NONE", "DURATION", "TIMESTAMP", "DATE",
   "DECIMAL", "BINARY", "ARRAY", "BOOL_ARRAY", "INT8_ARRAY", "INT16_ARRAY", "INT32_ARRAY",
   "INT64_ARRAY", "UINT8_ARRAY", "UINT16_ARRAY", "UINT32_ARRAY", "UINT64_ARRAY", "FLOAT8_ARRAY",
   "FLOAT16_ARRAY", "BFLOAT16_ARRAY", "FLOAT32_ARRAY", "FLOAT64_ARRAY"]

/-- The label of a code, absent for codes without a meaning. -/
def label? (t : TypeId) : Option String := labels[t.code]?

/-- The label of a code, or its number. -/
def label (t : TypeId) : String := t.label?.getD (toString t.code)

/-- Codes below this bound are reserved for built-in types. -/
def reserved : Nat := 72

def isPrimitive (t : TypeId) : Bool := 1 ≤ t.code && t.code ≤ 20

/-- Integers written with fewer bytes when they are small. -/
def isCompressed (t : TypeId) : Bool :=
  [varint32, varint64, taggedInt64, varUint32, varUint64, taggedUint64].contains t

/-- Bytes of a primitive value in memory, none for other types. -/
def primitiveSize (t : TypeId) : Nat :=
  if [bool, int8, uint8, float8].contains t then 1
  else if [int16, uint16, float16, bfloat16].contains t then 2
  else if [int32, varint32, uint32, varUint32, float32].contains t then 4
  else if t.isPrimitive then 8
  else 0

def isEnum (t : TypeId) : Bool := [enum, namedEnum].contains t

def isUnion (t : TypeId) : Bool := [union, typedUnion, namedUnion].contains t

def isStruct (t : TypeId) : Bool :=
  [struct, compatibleStruct, namedStruct, namedCompatibleStruct].contains t

/-- Types whose values may be of a type that the declaration does not name. -/
def isPolymorphic (t : TypeId) : Bool := t.isStruct || [ext, namedExt, unknown].contains t

/-- Kinds of types that a program registers. -/
def isUser (t : TypeId) : Bool :=
  t.isEnum || t.isUnion || t.isStruct || [ext, namedExt].contains t

def isContainer (t : TypeId) : Bool := [list, set, map].contains t

/-- Built-in types other than containers. -/
def isInternal (t : TypeId) : Bool :=
  t ≠ unknown && t.code < reserved && !t.isUser && !t.isContainer

/-- The general name of a type, whatever its encoding. -/
def typeName (t : TypeId) : String :=
  if t = bool then "bool"
  else if t = int8 then "int8"
  else if t = int16 then "int16"
  else if t = int32 ∨ t = varint32 then "int32"
  else if t = int64 ∨ t = varint64 ∨ t = taggedInt64 then "int64"
  else if t = uint8 then "uint8"
  else if t = uint16 then "uint16"
  else if t = uint32 ∨ t = varUint32 then "uint32"
  else if t = uint64 ∨ t = varUint64 ∨ t = taggedUint64 then "uint64"
  else if t = float32 then "float32"
  else if t = float64 then "float64"
  else if t = string then "string"
  else if t = binary then "binary"
  else if t = date then "date"
  else if t = timestamp then "timestamp"
  else if t = duration then "duration"
  else if t = list then "list"
  else if t = set then "set"
  else if t = map then "map"
  else if t.isEnum then "enum"
  else if t.isStruct then "struct"
  else "unknown"

end TypeId

/-- How an integer is laid out: in full, as groups of seven bits, or with a tag bit that chooses
between four and nine bytes. -/
inductive IntLayout where
  | fixed | groups | tagged
  deriving DecidableEq, Repr, Inhabited

/-- The layout of a built-in scalar type. -/
inductive Builtin where
  | bool
  | int (kind : IntKind) (layout : IntLayout)
  | float32
  | float64
  | string
  | binary
  | date
  | timestamp
  | duration
  deriving DecidableEq, Repr, Inhabited

/-- The layout that a type code stands for, absent for codes that no scalar value has. -/
def TypeId.builtin? (t : TypeId) : Option Builtin :=
  match t.code with
  | 1 => some .bool
  | 2 => some (.int .int8 .fixed)
  | 3 => some (.int .int16 .fixed)
  | 4 => some (.int .int32 .fixed)
  | 5 => some (.int .int32 .groups)
  | 6 => some (.int .int64 .fixed)
  | 7 => some (.int .int64 .groups)
  | 8 => some (.int .int64 .tagged)
  | 9 => some (.int .uint8 .fixed)
  | 10 => some (.int .uint16 .fixed)
  | 11 => some (.int .uint32 .fixed)
  | 12 => some (.int .uint32 .groups)
  | 13 => some (.int .uint64 .fixed)
  | 14 => some (.int .uint64 .groups)
  | 15 => some (.int .uint64 .tagged)
  | 19 => some .float32
  | 20 => some .float64
  | 21 => some .string
  | 37 => some .duration
  | 38 => some .timestamp
  | 39 => some .date
  | 41 => some .binary
  | _ => none

/-- Whether a field may be declared with the type as its scalar type. -/
def TypeId.isDeclarable (t : TypeId) : Bool := t.builtin?.isSome

end Graphwire
