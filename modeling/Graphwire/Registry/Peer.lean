import Graphwire.Definition.Reconciliation
import Graphwire.Registry.Basic

/-!
# Structs of a peer

A type definition that was received, together with our struct of that identity. It says for each
field of the peer how its value is read and under which of our fields it is kept. Received
definitions are kept under their headers.
-/

namespace Graphwire

set_option autoImplicit false

/-- How a field of a peer is read. -/
structure PeerField where
  /-- The position of our field, absent when the value is dropped. -/
  own : Option Nat
  name : String
  shape : Shape
  nullable : Bool
  tracked : Bool
  /-- Whether the value is preceded by its type. -/
  typed : Bool
  deriving Repr

def PeerField.refMode (f : PeerField) : RefMode := .ofFlags f.nullable f.tracked

/-- A struct as a peer describes it. -/
structure PeerStruct where
  definition : TypeDefinition
  /-- The name that records of the struct get. -/
  typeName : String
  /-- Our struct of that identity. -/
  own : Option StructType
  /-- Whether our struct has the same definition, so that its plan applies. -/
  sameLayout : Bool
  fields : List PeerField
  /-- The positions of our fields that the peer does not have. -/
  missing : List Nat
  deriving Repr

/-- Our struct of an identity. -/
def Registry.structOf? (r : Registry) (identity : TypeIdentity) : Option StructType :=
  let named :=
    match identity with
    | .id id => r.byId? id
    | .names package typeName => r.byName? package typeName
  match named with
  | some (.struct s) => some s
  | _ => none

/-- The name of a type that is not registered. -/
def TypeIdentity.text : TypeIdentity → String
  | id n => s!"type#{n}"
  | names package typeName => qualify package typeName

/-- How the field of an entry is read, given the position of the field it was matched with. -/
def PeerField.ofEntry (own : Option StructType) (e : FieldEntry) (matched : Option Nat) :
    PeerField :=
  let field : Option Field := own.bind fun s => matched.bind fun i => s.fields[i]?
  { own := matched
    name := e.key
    shape := field.elim e.type.toShape (·.shape)
    nullable := e.type.nullable
    tracked := e.type.tracked
    typed := e.type.type = .unknown || e.type.type.isUser }

/-- A received definition under its header. -/
def PeerStruct.ofDefinition (r : Registry) (header : Int) (d : TypeDefinition) : PeerStruct :=
  let own := r.structOf? d.identity
  let reconciliation : Reconciliation :=
    match own with
    | some s => d.reconcile s.fields
    | none => ⟨d.fields.map fun _ => none, []⟩
  { definition := d
    typeName := own.elim d.identity.text (·.qualifiedName)
    own
    sameLayout := own.any fun s => s.header? = some header
    fields := d.fields.zipWith (PeerField.ofEntry own) reconciliation.matched
    missing := reconciliation.missing }

/-- Received definitions under their headers. -/
structure DefinitionCache where
  entries : List (Int × PeerStruct)

namespace DefinitionCache

def empty : DefinitionCache := ⟨[]⟩

/-- The most definitions that are kept. -/
def capacity : Nat := 8192

def get? (c : DefinitionCache) (header : Int) : Option PeerStruct := c.entries.lookup header

/-- Keeps a definition while there is room. -/
def add (c : DefinitionCache) (header : Int) (p : PeerStruct) : DefinitionCache :=
  if c.entries.length < capacity then ⟨(header, p) :: c.entries⟩ else c

theorem mem_of_get? {c : DefinitionCache} {header : Int} {p : PeerStruct}
    (h : c.get? header = some p) : (header, p) ∈ c.entries := by
  obtain ⟨before, after, same, -⟩ := List.lookup_eq_some_iff.1 h
  simp [same]

theorem mem_add {c : DefinitionCache} {header : Int} {p : PeerStruct} {e : Int × PeerStruct}
    (h : e ∈ (c.add header p).entries) : e = (header, p) ∨ e ∈ c.entries := by
  unfold add at h
  split at h
  · exact List.mem_cons.1 h
  · exact .inr h

end DefinitionCache

end Graphwire
