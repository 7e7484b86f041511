import Graphwire.Reference.Table
import Graphwire.Registry.Peer

/-!
# Writing and reading

What a writer and a reader remember during one call. The writer knows the handles and the type
definitions that it has written, and the types of records that were never registered. The reader
has a position in the input, the graph that it builds, the values behind reference numbers, the
definitions received during the call, and a cache of definitions that outlives the call. It also
notes where definitions stood in the input, which fields got a default and how many were dropped;
reading does not depend on these notes.
-/

namespace Graphwire

set_option autoImplicit false

/-- What values are written and read by: the registered types and the settings. -/
structure Environment where
  registry : Registry
  config : Config

/-- What a writer remembers. -/
structure WriteState where
  seen : SeenHandles
  /-- The types whose definitions were sent, in the order of their numbers. -/
  sent : List String
  /-- The structs made up for records of unregistered types. -/
  adhoc : List (String × StructType)

def WriteState.initial : WriteState := ⟨.empty, [], []⟩

/-- A step of writing. -/
abbrev Write := StateT WriteState (Except Error)

/-- Writes one thing after the other. -/
def Write.concat {α : Type} (write : α → Write (List UInt8)) : List α → Write (List UInt8)
  | [] => return []
  | a :: rest => do
    let first ← write a
    let others ← concat write rest
    return first ++ others

/-- A field of a record that the input left out, and the default that it got instead. -/
structure Filling where
  record : Handle
  field : String
  default : Template
  /-- The number of nodes before those of the default were added. -/
  offset : Nat
  deriving DecidableEq, Repr

/-- What a reader remembers. -/
structure ReadState where
  reader : Reader
  graph : Graph
  slots : Slots
  /-- The definitions received during the call, in the order of their numbers. -/
  received : List PeerStruct
  /-- The headers of definitions that were met during the call, each with the reader after it. -/
  met : List (Int × Reader)
  /-- The fields that got defaults during the call. -/
  filled : List Filling
  /-- The fields of ours that a null was read for during the call, each with its record. -/
  nulls : List (Handle × String)
  /-- The number of fields that were read and dropped during the call. -/
  dropped : Nat
  cache : DefinitionCache

def ReadState.ofBytes (bytes : List UInt8) (cache : DefinitionCache) : ReadState :=
  ⟨.ofBytes bytes, .empty, .empty, [], [], [], [], 0, cache⟩

/-- A step of reading values. -/
abbrev Read := EStateM Error ReadState

namespace Read

/-- A step that only reads bytes. -/
def decode {α : Type} (d : Decode α) : Read α := fun s =>
  match d s.reader with
  | .ok a r => .ok a { s with reader := r }
  | .error e r => .error e { s with reader := r }

/-- A check that reads nothing. -/
def check {α : Type} (result : Except Error α) : Read α :=
  match result with
  | .ok a => pure a
  | .error e => throw e

/-- Adds a node to the graph. -/
def alloc (n : Node) : Read Handle :=
  modifyGet fun s => let (h, g) := s.graph.alloc n; (h, { s with graph := g })

/-- Replaces a node of the graph. -/
def setNode (h : Handle) (n : Node) : Read Unit :=
  modify fun s => { s with graph := s.graph.set h n }

/-- Copies a template into the graph. -/
def instantiate (t : Template) : Read Value :=
  modifyGet fun s => let (v, g) := t.instantiate s.graph; (v, { s with graph := g })

/-- Puts a value behind a reference number, if there is one. -/
def publish (slot : Option Nat) (v : Value) : Read Unit :=
  match slot with
  | none => pure ()
  | some number => modify fun s => { s with slots := s.slots.fill number v }

/-- Reads the same thing a number of times. -/
def many {α : Type} (one : Read α) : Nat → Read (List α)
  | 0 => return []
  | n + 1 => do
    let first ← one
    let others ← many one n
    return first :: others

/-- Does one thing after the other. -/
def each {α : Type} (one : α → Read Unit) : List α → Read Unit
  | [] => return ()
  | a :: rest => do
    one a
    each one rest

end Read

end Graphwire
