import Graphwire.Error
import Graphwire.Schema.Field

/-!
# Values of constant defaults

The value that a constant stands for in a field of a given shape. Integers become the integer or
floating-point type of the field, an enumeration constant a member of the field's type, and the
empty containers fresh nodes.
-/

namespace Graphwire

set_option autoImplicit false

/-- The integer format that a type code stands for. -/
def TypeId.intKind? (t : TypeId) : Option IntKind :=
  match t.builtin? with
  | some (.int kind _) => some kind
  | _ => none

/-- An integer as a value of the given type, absent when it does not fit. -/
def Value.ofInt? (t : TypeId) (n : Int) : Option Value := do
  let kind ← t.intKind?
  let m ← Integer.ofInt? kind n
  return .int m

namespace Template

/-- A value without nodes. -/
def ofScalar (v : Value) : Template := ⟨.empty, v⟩

/-- A single node. -/
def ofNode (n : Node) : Template := ⟨⟨#[n]⟩, .handle ⟨0⟩⟩

end Template

namespace Constant

/-- An integer constant as a number of the given type. -/
def ofNumber (n : Int) (t : TypeId) : Except Error Value :=
  let rounded := (BinaryFormat.binary64.ofInt n).toUInt64
  match t.builtin? with
  | some .float32 => .ok (.float32 (narrow rounded))
  | some .float64 => .ok (.float64 rounded)
  | _ => ((Value.ofInt? t n).map Except.ok).getD (.error (.defaultOverflow n t))

/-- A value for fields of one scalar type and for dynamic ones. -/
def scalarFor (c : Constant) (t : TypeId) (v : Value) (shape : Shape) : Except Error Template :=
  if shape = .scalar t ∨ shape = .dynamic then .ok (.ofScalar v)
  else .error (.defaultMismatch c shape)

/-- The value of a constant in a field of the given shape. -/
def materialize (c : Constant) (shape : Shape) : Except Error Template :=
  match c, shape with
  | bool b, _ => c.scalarFor .bool (.bool b) shape
  | int n, .scalar t => (ofNumber n t).map .ofScalar
  | int n, .dynamic =>
    ((Integer.ofInt? .int64 n).map fun m => Except.ok (.ofScalar (.int m))).getD
      (.error (.defaultMismatch c shape))
  | uint n, .scalar t => (ofNumber n t).map .ofScalar
  | uint n, .dynamic =>
    ((Integer.ofInt? .uint64 n).map fun m => Except.ok (.ofScalar (.int m))).getD
      (.error (.defaultMismatch c shape))
  | float bits, .scalar t =>
    if t = .float32 then .ok (.ofScalar (.float32 (narrow bits)))
    else c.scalarFor .float64 (.float64 bits) shape
  | float bits, _ => c.scalarFor .float64 (.float64 bits) shape
  | string s, _ => c.scalarFor .string (.string s) shape
  | binary bytes, _ => c.scalarFor .binary (.binary bytes) shape
  | date day, _ => c.scalarFor .date (.date day) shape
  | timestamp t, _ => c.scalarFor .timestamp (.timestamp t) shape
  | duration d, _ => c.scalarFor .duration (.duration d) shape
  | enum ordinal, .named name => .ok (.ofScalar (.enum name ordinal))
  | emptyList, .list _ | emptyList, .dynamic => .ok (.ofNode (.list []))
  | emptySet, .set _ | emptySet, .dynamic => .ok (.ofNode (.set []))
  | emptyMap, .map .. | emptyMap, .dynamic => .ok (.ofNode (.map []))
  | _, _ => .error (.defaultMismatch c shape)

end Constant

namespace Field

/-- The value of a field that a peer did not send: its constant, a copy of its template, or the
first member of an enumeration that may not be null. Absent when the field stays unset. -/
def missingValue (f : Field) : Except Error (Option Template) :=
  match f.constant, f.template with
  | some c, _ => (c.materialize f.shape).map some
  | none, some t => .ok (some t)
  | none, none =>
    match f.shape with
    | .named name =>
      .ok (if f.type.isEnum && !f.nullable then some (.ofScalar (.enum name 0)) else none)
    | _ => .ok none

end Field

end Graphwire
