import Graphwire.Instance

/-!
# Readers that watch reference numbers

A reader comes to reference numbers in three ways: it reads a marker, it looks up a number that it has
read, and it closes a number when the value behind it is complete. Everything else that it does with a
value is the same whatever it does there. So readers are given here by these three steps, and by what is
read at a place, and the reader of frames is the one with the plain steps. The watchful steps are those of
a reader that looks around first, and calls for help where something is amiss: when it reads a marker
while a number has no value yet, when it looks up a number that was reserved but has no value, and when it
closes a number that a node does not stand behind already. Numbers start over after 32 bits, so it looks at
the numbers of 32 bits, and stops to expect nodes behind their numbers once all have been reserved and more
are asked for.
-/

namespace Graphwire

set_option autoImplicit false

/-- A reader of values at places, by the marker and the type that are expected there. -/
abbrev ReadPlace := RefMode → Bool → Shape → Read Value

/-! ## Numbers -/

/-- What a reader does at reference numbers. -/
structure Numbering where
  /-- Reads a marker. -/
  marker : Read RefFlag
  /-- The value behind a number that was read. -/
  lookup : Nat → Read Value
  /-- Puts a value that is complete behind its number. -/
  close : Nat → Value → Read Unit

namespace Numbering

/-- What the reader of frames does. -/
def plain : Numbering where
  marker := Read.decode Decode.refFlag
  lookup := Read.resolve
  close number v := Read.publish (some number) v

/-- Reads a value at a place. -/
def place (n : Numbering) (env : Environment) (payload : ReadPayload) : ReadPlace :=
  fun mode hasType shape => do
    if mode = .none then Read.typed env payload hasType shape none
    else
      let flag ← n.marker
      match flag, mode with
      | .null, _ => return .null
      | .notNull, _ => Read.typed env payload hasType shape none
      | .ref, .tracking => do
        let number ← Read.decode Decode.varuint32
        n.lookup number
      | .newRef, .tracking => do
        let number ← Read.reserve
        let v ← Read.typed env payload hasType shape (some number)
        n.close number v
        return v
      | flag, _ => throw (.untrackedRefFlag flag)

end Numbering

/-! ## Nodes -/

namespace ReadPlace

variable (env : Environment) (place : ReadPlace)

/-- Reads an element of a container. -/
def element (header : ElementHeader) (shape : Option Shape) : Read Value :=
  place header.refMode (!header.declared) (shape.getD .dynamic)

/-- Reads a list or a set. -/
def items (node : List Value → Node) (shape : Shape) (slot : Option Nat) : Read Value := do
  let length ← Read.decode Decode.varuint32
  Read.check (env.config.limits.check .collection length)
  let h ← Read.alloc (node [])
  Read.publish slot (.handle h)
  if length = 0 then return .handle h
  else
    let part := shape.parts.1
    let header ← Read.elementHeader part
    let elements ← Read.many (place.element header part) length
    Read.setNode h (node elements)
    return .handle h

/-- Reads a map. -/
def entries (shape : Shape) (slot : Option Nat) : Read Value := do
  let length ← Read.decode Decode.varuint32
  Read.check (env.config.limits.check .map length)
  let h ← Read.alloc (.map [])
  Read.publish slot (.handle h)
  if length = 0 then return .handle h
  else
    let (keyShape, valueShape) := shape.parts
    let keyHeader ← Read.elementHeader keyShape
    let valueHeader ← Read.elementHeader valueShape
    let entry : Read (Value × Value) := do
      let key ← place.element keyHeader keyShape
      let value ← place.element valueHeader valueShape
      return (key, value)
    let pairs ← Read.many entry length
    Read.setNode h (.map pairs)
    return .handle h

/-- Reads a container of the given type. -/
def container (t : TypeId) (shape : Shape) (slot : Option Nat) : Read Value :=
  if t = .map then place.entries env shape slot
  else place.items env (if t = .set then .set else .list) shape slot

/-- Reads a field into a record; a null leaves it unset. -/
def field (s : StructType) (h : Handle) (f : Field) : Read Unit := do
  let v ← place f.refMode (f.hasTypeInfo s.isCompatible) f.shape
  if v.isNull then Read.noteNull h f.name
  else Read.setField h f.name v

/-- Reads a step of the plan into a record. -/
def step (s : StructType) (h : Handle) : PlanStep → Read Unit
  | .run positions width => do
    let bytes ← Read.decode (Decode.bytes width)
    let values ← Read.check (Read.blockValues (positions.filterMap fun i => s.fields[i]?) bytes)
    Read.each (fun (name, v) => Read.setField h name v) values
  | .field position => Read.each (place.field s h) s.fields[position]?.toList

/-- Reads the fields of a record, in the way that the settings ask for. -/
def fields (s : StructType) (h : Handle) : Read Unit :=
  match env.config.strategy with
  | .interpreted => Read.each (place.field s h) s.fields
  | .compiled => Read.each (place.step s h) s.plan

/-- Reads a record that is laid out as our struct. -/
def record (s : StructType) (strict : Bool) (slot : Option Nat) : Read Value := do
  if strict then
    let version ← Read.decode (Decode.signed 4)
    Read.check (checkVersion version s.version s.qualifiedName)
  let h ← Read.newRecord s.qualifiedName slot
  place.fields env s h
  return .handle h

/-- Reads a field of a peer's struct. -/
def peerField (p : PeerStruct) (h : Handle) (f : PeerField) : Read Unit := do
  let v ← place f.refMode f.typed f.shape
  Read.keepField p h f v

/-- Reads a record by the fields of a peer's struct. -/
def reconciled (p : PeerStruct) (slot : Option Nat) : Read Value := do
  let h ← Read.newRecord p.typeName slot
  Read.each (place.peerField p h) p.fields
  Read.each (Read.fillMissing h)
    (p.own.elim [] fun s => p.missing.filterMap fun i => s.fields[i]?)
  return .handle h

/-- Reads a record of a peer's struct. -/
def peerRecord (p : PeerStruct) (slot : Option Nat) : Read Value :=
  match p.sameLayout, p.own with
  | true, some s => place.record env s false slot
  | _, _ => place.reconciled p slot

/-- Reads a payload, given the reader of places one level further in. -/
def layer (inner : Option ReadPlace) : ReadPayload := fun wire shape slot =>
  match wire with
  | .builtin t =>
    if t.isContainer then do (← Read.check (env.descend inner)).container env t shape slot
    else Read.scalar env.config.limits t
  | .struct s strict => do (← Read.check (env.descend inner)).record env s strict slot
  | .peer p => do (← Read.check (env.descend inner)).peerRecord env p slot
  | .enum typeName members => do
    let ordinal ← Read.decode Decode.varuint32
    if members.all (ordinal < ·) then return .enum typeName ordinal
    else throw (.notAMember ordinal typeName)

end ReadPlace

/-! ## Frames -/

namespace Numbering

/-- Reads a payload with at most the given number of levels. -/
def payload (n : Numbering) (env : Environment) : Nat → ReadPayload
  | 0 => ReadPlace.layer env none
  | levels + 1 => ReadPlace.layer env (some (n.place env (n.payload env levels)))

/-- Reads a whole frame. -/
def frame (n : Numbering) (env : Environment) (mode : RefMode) : Read Value := do
  let isNull ← Read.decode Decode.head
  let v ← if isNull then pure .null
    else n.place env (n.payload env env.config.maxDepth) mode true .dynamic
  let remaining := (← get).reader.remaining
  if remaining ≠ 0 then throw (.trailingBytes remaining)
  return v

end Numbering

end Graphwire
