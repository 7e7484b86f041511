import Graphwire.Codec.TypeInfo

/-!
# Scalar values

The bytes of built-in scalar values. An integer is written as any integer type that holds its
numeric value, and a binary32 number as a binary64 one; every other value must be of the type that
it is written as.
-/

namespace Graphwire

set_option autoImplicit false

open Calendar (Day Instant Span)

/-- The value of another kind than the expected one. -/
def Graph.mismatch {α : Type} (g : Graph) (expected : String) (v : Value) : Except Error α :=
  .error (.kindMismatch expected (g.kindName v))

/-- A number or truth value as a value of the given type. -/
def Graph.coerce (g : Graph) (t : TypeId) (v : Value) : Except Error Value :=
  match t.builtin?, v with
  | some .bool, .bool _ => .ok v
  | some .bool, _ => g.mismatch "bool" v
  | some .float32, .float32 _ => .ok v
  | some .float32, _ => g.mismatch "float32" v
  | some .float64, .float64 _ => .ok v
  | some .float64, .float32 bits => .ok (.float64 (widen bits))
  | some .float64, _ => g.mismatch "float64" v
  | _, _ =>
    match v.asInt? with
    | none => g.mismatch "an integer" v
    | some n => ((Value.ofInt? t n).map Except.ok).getD (.error (.integerOverflow n t))

namespace Encode

/-- An integer in one of the layouts of its kind. -/
def integer (kind : IntKind) (layout : IntLayout) (n : Int) : List UInt8 :=
  match layout with
  | .fixed => signed kind.bytes n
  | .groups =>
    if kind.bytes = 8 then if kind.isSigned then varint64 n else varuint64 n.toNat
    else if kind.isSigned then varint32 n else varuint32 n.toNat
  | .tagged => if kind.isSigned then taggedInt64 n else taggedUint64 n.toNat

/-- A number or truth value of the given type. -/
def scalar (t : TypeId) (v : Value) : Except Error (List UInt8) :=
  match t.builtin?, v with
  | some .bool, .bool b => .ok (bool b)
  | some (.int kind layout), .int n =>
    if n.kind = kind then .ok (integer kind layout n.val) else .error (.unwritableScalar t)
  | some .float32, .float32 bits => .ok (littleEndian 4 bits.toNat)
  | some .float64, .float64 bits => .ok (littleEndian 8 bits.toNat)
  | _, _ => .error (.unwritableScalar t)

/-- A day as a count of 32 bits. -/
def day (d : Day) : Except Error (List UInt8) :=
  if IntKind.int32.minValue ≤ d.count ∧ d.count ≤ IntKind.int32.maxValue then
    .ok (signed 4 d.count)
  else .error (.dateOverflow d)

/-- An instant in microseconds of 64 bits. -/
def instant (t : Instant) : Except Error (List UInt8) :=
  if IntKind.int64.minValue ≤ t.micros ∧ t.micros ≤ IntKind.int64.maxValue then
    .ok (signed 8 t.micros)
  else .error (.timestampOverflow t)

/-- A span as seconds and nanoseconds. -/
def span (d : Span) : List UInt8 := varint64 d.seconds ++ signed 4 d.subsecond

end Encode

/-- The bytes of a scalar value as a value of the given type. -/
def Graph.encodeScalar (g : Graph) (t : TypeId) (v : Value) : Except Error (List UInt8) :=
  match t.builtin?, v with
  | some .string, .string s => .ok (Encode.text s)
  | some .binary, .binary bytes => .ok (Encode.binary bytes)
  | some .date, .date d => Encode.day d
  | some .timestamp, .timestamp instant => Encode.instant instant
  | some .duration, .duration d => .ok (Encode.span d)
  | some .string, _ | some .binary, _ | some .date, _ | some .timestamp, _ | some .duration, _ =>
    g.mismatch t.typeName v
  | _, _ => do
    let coerced ← g.coerce t v
    Encode.scalar t coerced

namespace Decode

/-- An integer in one of the layouts of its kind. -/
def integer (kind : IntKind) (layout : IntLayout) : Decode Value := do
  let n : Int ←
    match layout with
    | .fixed => if kind.isSigned then signed kind.bytes else Int.ofNat <$> littleEndian kind.bytes
    | .groups =>
      if kind.bytes = 8 then if kind.isSigned then varint64 else Int.ofNat <$> varuint64
      else if kind.isSigned then varint32 else Int.ofNat <$> varuint32
    | .tagged => if kind.isSigned then taggedInt64 else Int.ofNat <$> taggedUint64
  return .int (.wrap kind n)

def float32 : Decode Value := do
  return .float32 (← littleEndian 4).toUInt32

def float64 : Decode Value := do
  return .float64 (← littleEndian 8).toUInt64

/-- A day, if the calendar has it. -/
def day : Decode Value := do
  let count ← signed 4
  match Day.ofCount? count with
  | some d => return .date d
  | none => throw (.dateOutOfRange count)

/-- An instant, if the calendar has it. -/
def instant : Decode Value := do
  let micros ← signed 8
  match Instant.ofNanos? (micros * 1000) with
  | some t => return .timestamp t
  | none => throw (.timestampOutOfRange micros)

/-- The span of seconds and nanoseconds; the seconds alone must be a span, too. -/
def spanOfParts (seconds nanos : Int) : Except Error Span :=
  if 1000000000 ≤ nanos.natAbs then .error (.nanosOutOfRange nanos)
  else
    let whole := seconds * Calendar.nanosPerSecond
    match Span.ofNanos? whole, Span.ofNanos? (whole + nanos) with
    | some _, some d => .ok d
    | _, _ => .error (.durationOutOfRange seconds)

def span : Decode Value := do
  let seconds ← varint64
  let nanos ← signed 4
  match spanOfParts seconds nanos with
  | .ok d => return .duration d
  | .error e => throw e

/-- A number or truth value of fixed width. -/
def fixedScalar (t : TypeId) : Decode Value :=
  match t.builtin? with
  | some .bool => .bool <$> bool
  | some (.int kind .fixed) => integer kind .fixed
  | some .float32 => float32
  | some .float64 => float64
  | _ => throw (.variableWidthScalar t)

end Decode

/-- Reads a scalar value of the given type. -/
def Read.scalar (limits : SizeLimits) (t : TypeId) : Read Value :=
  match t.builtin? with
  | some .bool => decode (.bool <$> Decode.bool)
  | some (.int kind layout) => decode (Decode.integer kind layout)
  | some .float32 => decode Decode.float32
  | some .float64 => decode Decode.float64
  | some .string => .string <$> text limits
  | some .binary => do
    let size ← decode Decode.varuint32
    check (limits.check .binary size)
    let bytes ← decode (Decode.bytes size)
    return .binary bytes
  | some .date => decode Decode.day
  | some .timestamp => decode Decode.instant
  | some .duration => decode Decode.span
  | none => throw (.unreadableBuiltin t)

end Graphwire
