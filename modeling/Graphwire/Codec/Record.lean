import Graphwire.Codec.Container

/-!
# Records

The payload of a record is the version hash of its type, in strict mode, and its fields in canonical
order. There are two ways to go through the fields, with the same bytes: one field after the other,
or along the plan of the type, where a run of fixed-width fields is one block. A record of a peer's
struct with another layout is read by the peer's fields: the value of a field that we have too is
kept, the others are dropped, and our fields that the peer lacks get their defaults.
-/

namespace Graphwire

set_option autoImplicit false

/-- Whether the value of a field is preceded by its type. -/
def Field.hasTypeInfo (f : Field) (compatible : Bool) : Bool :=
  f.dynamic || (compatible && f.shape.isNamed)

/-- The bytes of a value of fixed width. -/
def Value.fixedBytes : Value → List UInt8
  | .bool b => Encode.bool b
  | .int n => Encode.signed n.kind.bytes n.val
  | .float32 bits => Encode.littleEndian 4 bits.toNat
  | .float64 bits => Encode.littleEndian 8 bits.toNat
  | _ => []

/-- A block of a width that starts with the given bytes; what they leave free is zero. -/
def block (width : Nat) (bytes : List UInt8) : List UInt8 :=
  bytes.take width ++ List.replicate (width - bytes.length) 0

namespace Write

/-- A field of a record. -/
def field (env : Environment) (g : Graph) (payload : WritePayload) (s : StructType) (r : Record)
    (f : Field) : Write (List UInt8) := do
  let v := r.value f.name
  if f.refMode = .none && v.isNull then throw (.fieldMissing f.name r.typeName)
  else marked env g payload f.refMode (f.hasTypeInfo s.isCompatible) f.shape v

/-- The bytes of a fixed-width field. -/
def fixedField (g : Graph) (r : Record) (f : Field) : Except Error (List UInt8) := do
  let v := r.value f.name
  if v.isNull then throw (.fieldMissing f.name r.typeName)
  let coerced ← g.coerce f.type v
  return coerced.fixedBytes

/-- The fields of a run as one block. -/
def fixedRun (g : Graph) (s : StructType) (r : Record) (positions : List Nat) (width : Nat) :
    Except Error (List UInt8) := do
  let pieces ← (positions.filterMap fun i => s.fields[i]?).mapM (fixedField g r)
  return block width pieces.flatten

/-- A step of the plan. -/
def step (env : Environment) (g : Graph) (payload : WritePayload) (s : StructType) (r : Record) :
    PlanStep → Write (List UInt8)
  | .run positions width => (fixedRun g s r positions width : Except Error (List UInt8))
  | .field position => concat (field env g payload s r) s.fields[position]?.toList

/-- The fields of a record, in the way that the settings ask for. -/
def fields (env : Environment) (g : Graph) (payload : WritePayload) (s : StructType) (r : Record) :
    Write (List UInt8) :=
  match env.config.strategy with
  | .interpreted => concat (field env g payload s r) s.fields
  | .compiled => concat (step env g payload s r) s.plan

/-- The payload of a record. -/
def record (env : Environment) (g : Graph) (payload : WritePayload) (s : StructType) (strict : Bool)
    (r : Record) : Write (List UInt8) := do
  let bytes ← fields env g payload s r
  return (if strict then Encode.signed 4 s.version else []) ++ bytes

end Write

namespace Read

/-- Sets a field of a record. -/
def setField (h : Handle) (name : String) (v : Value) : Read Unit :=
  modify fun s =>
    match s.graph.node h with
    | .record r => { s with graph := s.graph.set h (.record (r.set name v)) }
    | _ => s

/-- Notes that a null was read for a field. -/
def noteNull (h : Handle) (name : String) : Read Unit :=
  modify fun s => { s with nulls := s.nulls ++ [(h, name)] }

/-- Reads a field into a record; a null leaves it unset. -/
def field (env : Environment) (payload : ReadPayload) (s : StructType) (h : Handle) (f : Field) :
    Read Unit := do
  let v ← marked env payload f.refMode (f.hasTypeInfo s.isCompatible) f.shape
  if v.isNull then noteNull h f.name
  else setField h f.name v

/-- The values of fixed-width fields in a block. -/
def blockValues : List Field → List UInt8 → Except Error (List (String × Value))
  | [], _ => .ok []
  | f :: rest, bytes => do
    let width := f.type.primitiveSize
    match (Decode.fixedScalar f.type).run (.ofBytes (bytes.take width)) with
    | .ok v _ => do
      let others ← blockValues rest (bytes.drop width)
      return (f.name, v) :: others
    | .error e _ => .error e

/-- Reads a step of the plan into a record. -/
def step (env : Environment) (payload : ReadPayload) (s : StructType) (h : Handle) :
    PlanStep → Read Unit
  | .run positions width => do
    let bytes ← decode (Decode.bytes width)
    let values ← check (blockValues (positions.filterMap fun i => s.fields[i]?) bytes)
    each (fun (name, v) => setField h name v) values
  | .field position => each (field env payload s h) s.fields[position]?.toList

/-- Reads the fields of a record, in the way that the settings ask for. -/
def fields (env : Environment) (payload : ReadPayload) (s : StructType) (h : Handle) : Read Unit :=
  match env.config.strategy with
  | .interpreted => each (field env payload s h) s.fields
  | .compiled => each (step env payload s h) s.plan

/-- A new record behind a reference number, if there is one. -/
def newRecord (typeName : String) (slot : Option Nat) : Read Handle := do
  let h ← alloc (.record (.ofType typeName))
  publish slot (.handle h)
  return h

/-- Reads a record that is laid out as our struct. -/
def record (env : Environment) (payload : ReadPayload) (s : StructType) (strict : Bool)
    (slot : Option Nat) : Read Value := do
  if strict then
    let version ← decode (Decode.signed 4)
    check (checkVersion version s.version s.qualifiedName)
  let h ← newRecord s.qualifiedName slot
  fields env payload s h
  return .handle h

/-- Notes that a field gets a default, whose nodes come next. -/
def noteFilling (h : Handle) (name : String) (t : Template) : Read Unit :=
  modify fun s => { s with filled := s.filled ++ [⟨h, name, t, s.graph.size⟩] }

/-- Sets a field that the payload leaves out to its default. -/
def fillMissing (h : Handle) (f : Field) : Read Unit := do
  match ← check f.missingValue with
  | some t => do
    noteFilling h f.name t
    let v ← instantiate t
    setField h f.name v
  | none => return ()

/-- Notes that a field was read for nothing. -/
def noteDropped : Read Unit :=
  modify fun s => { s with dropped := s.dropped + 1 }

/-- Keeps the value of a peer's field: under our field, or under its own name in a record of a
struct that we do not have. A null for a field of ours that may not be null counts as left out. The
value of a field that our struct does not have is dropped. -/
def keepField (p : PeerStruct) (h : Handle) (f : PeerField) (v : Value) : Read Unit :=
  match p.own, f.own.bind fun i => p.own.bind fun s => s.fields[i]? with
  | some _, some own =>
    if v.isNull then do
      noteNull h own.name
      if own.nullable then return () else fillMissing h own
    else setField h own.name v
  | none, none => if v.isNull then return () else setField h f.name v
  | _, _ => noteDropped

/-- Reads a field of a peer's struct. -/
def peerField (env : Environment) (payload : ReadPayload) (p : PeerStruct) (h : Handle)
    (f : PeerField) : Read Unit := do
  let v ← marked env payload f.refMode f.typed f.shape
  keepField p h f v

/-- Reads a record by the fields of a peer's struct. -/
def reconciled (env : Environment) (payload : ReadPayload) (p : PeerStruct) (slot : Option Nat) :
    Read Value := do
  let h ← newRecord p.typeName slot
  each (peerField env payload p h) p.fields
  each (fillMissing h) ((p.own.elim [] fun s => p.missing.filterMap fun i => s.fields[i]?))
  return .handle h

/-- Reads a record of a peer's struct. -/
def peerRecord (env : Environment) (payload : ReadPayload) (p : PeerStruct) (slot : Option Nat) :
    Read Value :=
  match p.sameLayout, p.own with
  | true, some s => record env payload s false slot
  | _, _ => reconciled env payload p slot

end Read

end Graphwire
