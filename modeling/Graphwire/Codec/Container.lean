import Graphwire.Codec.Marked

/-!
# Lists, sets and maps

A container is its length and, unless it is empty, a header for its elements and the elements; a
map has one header for its keys and one for its values. The header says whether the elements carry
reference markers, whether any is null, and whether their type is the declared one.
-/

namespace Graphwire

set_option autoImplicit false

/-- What holds for all elements of a container. -/
structure ElementHeader where
  tracked : Bool
  hasNull : Bool
  declared : Bool
  deriving DecidableEq, Repr

namespace ElementHeader

def toNat (h : ElementHeader) : Nat :=
  (if h.tracked then 1 else 0) + (if h.hasNull then 2 else 0) + (if h.declared then 4 else 0)

/-- The header of a byte with no other bits set. -/
def ofNat? (n : Nat) : Option ElementHeader :=
  if n < 8 then some ⟨n % 2 = 1, n / 2 % 2 = 1, n / 4 % 2 = 1⟩ else none

/-- Reading back what was written. -/
theorem ofNat?_toNat (h : ElementHeader) : ofNat? h.toNat = some h := by
  rcases h with ⟨_ | _, _ | _, _ | _⟩ <;> rfl

def encode (h : ElementHeader) : List UInt8 := [h.toNat.toUInt8]

def refMode (h : ElementHeader) : RefMode := .ofFlags h.hasNull h.tracked

end ElementHeader

namespace Environment

/-- Whether elements of a shape are written without their type. -/
def isDeclared (env : Environment) : Shape → Bool
  | .scalar _ | .list _ | .set _ | .map .. => true
  | .named name =>
    !env.config.compatible &&
      match env.registry.named? name with
      | some (.enum _) => true
      | some (.struct s) => s.id.isSome && !s.isAbstract
      | none => false
  | .dynamic => false

/-- Whether elements of a shape may be nodes that occur more than once. -/
def mayShare (env : Environment) : Shape → Bool
  | .scalar _ => false
  | .named name => (env.registry.enum? name).isNone
  | _ => true

/-- The header of elements of a shape, if one is declared. -/
def elementHeader (env : Environment) (shape : Option Shape) (elements : List Value) :
    ElementHeader :=
  { tracked := env.config.trackRef && shape.all env.mayShare
    hasNull := elements.any Value.isNull
    declared := shape.any env.isDeclared }

end Environment

namespace Write

/-- An element. -/
def element (env : Environment) (g : Graph) (payload : WritePayload) (header : ElementHeader)
    (shape : Option Shape) (v : Value) : Write (List UInt8) :=
  marked env g payload header.refMode (!header.declared) (shape.getD .dynamic) v

/-- The elements of a list or a set. -/
def items (env : Environment) (g : Graph) (payload : WritePayload) (shape : Shape)
    (elements : List Value) : Write (List UInt8) := do
  let length := Encode.varuint32 elements.length
  if elements = [] then return length
  else
    let part := shape.parts.1
    let header := env.elementHeader part elements
    let bytes ← concat (element env g payload header part) elements
    return length ++ header.encode ++ bytes

/-- The entries of a map. -/
def entries (env : Environment) (g : Graph) (payload : WritePayload) (shape : Shape)
    (pairs : List (Value × Value)) : Write (List UInt8) := do
  let length := Encode.varuint32 pairs.length
  if pairs = [] then return length
  else
    let (keyShape, valueShape) := shape.parts
    let keyHeader := env.elementHeader keyShape (pairs.map (·.1))
    let valueHeader := env.elementHeader valueShape (pairs.map (·.2))
    let entry (pair : Value × Value) : Write (List UInt8) := do
      let key ← element env g payload keyHeader keyShape pair.1
      let value ← element env g payload valueHeader valueShape pair.2
      return key ++ value
    let bytes ← concat entry pairs
    return length ++ keyHeader.encode ++ valueHeader.encode ++ bytes

end Write

namespace Read

/-- Reads a header. Elements can be of the declared type only where one is known. -/
def elementHeader (shape : Option Shape) : Read ElementHeader := do
  let byte ← decode Decode.octet
  match ElementHeader.ofNat? byte with
  | none => throw (.invalidElementHeader byte)
  | some header =>
    if header.declared && shape.all (· = .dynamic) then throw .undeclaredElements
    else return header

/-- Reads an element. -/
def element (env : Environment) (payload : ReadPayload) (header : ElementHeader)
    (shape : Option Shape) : Read Value :=
  marked env payload header.refMode (!header.declared) (shape.getD .dynamic)

/-- Reads a list or a set. -/
def items (env : Environment) (payload : ReadPayload) (node : List Value → Node) (shape : Shape)
    (slot : Option Nat) : Read Value := do
  let length ← decode Decode.varuint32
  check (env.config.limits.check .collection length)
  let h ← alloc (node [])
  publish slot (.handle h)
  if length = 0 then return .handle h
  else
    let part := shape.parts.1
    let header ← elementHeader part
    let elements ← many (element env payload header part) length
    setNode h (node elements)
    return .handle h

/-- Reads a map. -/
def entries (env : Environment) (payload : ReadPayload) (shape : Shape) (slot : Option Nat) :
    Read Value := do
  let length ← decode Decode.varuint32
  check (env.config.limits.check .map length)
  let h ← alloc (.map [])
  publish slot (.handle h)
  if length = 0 then return .handle h
  else
    let (keyShape, valueShape) := shape.parts
    let keyHeader ← elementHeader keyShape
    let valueHeader ← elementHeader valueShape
    let entry : Read (Value × Value) := do
      let key ← element env payload keyHeader keyShape
      let value ← element env payload valueHeader valueShape
      return (key, value)
    let pairs ← many entry length
    setNode h (.map pairs)
    return .handle h

end Read

end Graphwire
