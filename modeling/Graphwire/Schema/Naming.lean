import Graphwire.Hash.Murmur
import Graphwire.Number.Power
import Graphwire.Text.Utf8

/-!
# Names and identifiers of types

A type is known by its package and its name, which joined by a dot make its qualified name. Its
identifier is given explicitly or is a hash of the qualified name, in which an alias takes the
place of the name. Within a table of identifiers each has one owner; a type whose hash is already
owned is known by name only.
-/

namespace Graphwire

set_option autoImplicit false

/-- Package and name joined by a dot, or the name alone. -/
def qualify (package name : String) : String :=
  if package = "" then name else package ++ "." ++ name

/-- What stands before and after the last dot. -/
def splitQualified (name : String) : String × String :=
  let reversed := name.toList.reverse
  let last := reversed.takeWhile (· ≠ '.')
  match reversed.dropWhile (· ≠ '.') with
  | [] => ("", name)
  | _ :: front => (String.ofList front.reverse, String.ofList last.reverse)

/-- The identifier that a qualified name hashes to, a number of 31 bits. -/
def hashedId (name : String) : Nat := (Murmur.hash32 (Utf8.encode name) 0).toNat % 2 ^ 31

/-- How a declared type is named. -/
structure Naming where
  package : String
  packageAlias : Option String
  typeName : String
  typeAlias : Option String
  explicitId : Option Nat
  deriving DecidableEq, Repr

namespace Naming

/-- A naming without aliases and identifier. -/
def ofNames (package typeName : String) : Naming := ⟨package, none, typeName, none, none⟩

/-- The text that is hashed for an identifier. -/
def idSource (n : Naming) : String := qualify n.package (n.typeAlias.getD n.typeName)

/-- The package and the name that a type is registered with. -/
def registrationName (n : Naming) : String × String := (n.package, n.typeName)

def qualifiedName (n : Naming) : String := qualify n.package n.typeName

end Naming

/-- The identifier that a type got. -/
inductive IdAssignment where
  | explicit (id : Nat)
  | generated (id : Nat) (source : String)
  | byName
  deriving DecidableEq, Repr

namespace IdAssignment

def id? : IdAssignment → Option Nat
  | explicit id => some id
  | generated id _ => some id
  | byName => none

def isGenerated : IdAssignment → Bool
  | generated .. => true
  | _ => false

end IdAssignment

/-- The owners of identifiers. -/
structure IdTable where
  entries : List (Nat × String)
  deriving DecidableEq, Repr

namespace IdTable

def empty : IdTable := ⟨[]⟩

/-- The qualified name of the type that owns an identifier. -/
def owner? (t : IdTable) (id : Nat) : Option String := t.entries.lookup id

/-- Gives an identifier to an owner unless it has one. -/
def claimFree (t : IdTable) (id : Nat) (owner : String) : IdTable :=
  if (t.owner? id).isSome then t else ⟨(id, owner) :: t.entries⟩

/-- Gives an identifier to an owner; another owner keeps it and is told. -/
def claim (t : IdTable) (id : Nat) (owner : String) : Except String IdTable :=
  match t.owner? id with
  | some holder => if holder = owner then .ok t else .error holder
  | none => .ok ⟨(id, owner) :: t.entries⟩

/-- Leaves an identifier without owner. -/
def release (t : IdTable) (id : Nat) : IdTable := ⟨t.entries.filter (·.1 ≠ id)⟩

/-- Assigns an identifier to a type: its explicit one, or its hashed one unless that is owned. -/
def assign (t : IdTable) (n : Naming) : IdAssignment × IdTable :=
  match n.explicitId with
  | some id => (.explicit id, t.claimFree id n.qualifiedName)
  | none =>
    let id := hashedId n.idSource
    if (t.owner? id).isSome then (.byName, t)
    else (.generated id n.idSource, t.claimFree id n.qualifiedName)

end IdTable

end Graphwire
