import Graphwire.Definition.Basic

/-!
# Matching a peer's fields

The fields of a peer's definition are matched one after the other with the fields of our type of
that name. An entry meets the first field of its key that no earlier entry was matched with; they
match if their field types agree. Fields that no entry matches are missing.
-/

namespace Graphwire

set_option autoImplicit false

/-- For each entry of a definition the position of the matching field, and the positions of the
fields without one. -/
structure Reconciliation where
  matched : List (Option Nat)
  missing : List Nat
  deriving DecidableEq, Repr

/-- Whether an entry stands for a field: the same tag, or no tags and the same name. -/
def FieldEntry.standsFor (e : FieldEntry) (f : Field) : Bool :=
  match e.tag with
  | some tag => f.tag = some tag
  | none => f.tag = none && f.name = e.name

/-- The position of the first untaken field that an entry stands for, if their types agree. -/
def FieldEntry.match? (e : FieldEntry) (fields : List Field) (taken : List Nat) : Option Nat :=
  match fields.zipIdx.find? fun (f, i) => !taken.contains i && e.standsFor f with
  | some (f, i) => if f.fieldType.agrees e.type then some i else none
  | none => none

/-- Matches entries with fields, given the positions that are taken already. -/
def matchEntries (fields : List Field) : List FieldEntry → List Nat → List (Option Nat)
  | [], _ => []
  | e :: rest, taken =>
    let found := e.match? fields taken
    found :: matchEntries fields rest (found.toList ++ taken)

/-- Matches the entries of a definition with canonical fields. -/
def TypeDefinition.reconcile (d : TypeDefinition) (fields : List Field) : Reconciliation :=
  let matched := matchEntries fields d.fields []
  ⟨matched, (List.range fields.length).filter fun i => !matched.contains (some i)⟩

end Graphwire
