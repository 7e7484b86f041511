import Graphwire.Schema.Order

/-!
# Field plans

A plan groups the canonical fields into runs of adjacent fixed-width primitives, which are written
as one block, and single fields.
-/

namespace Graphwire

set_option autoImplicit false

/-- The width of a field whose bytes are neither optional nor of varying length. -/
def Field.fixedWidth? (f : Field) : Option Nat :=
  match f.shape with
  | .scalar t =>
    match t.builtin? with
    | some .bool | some (.int _ .fixed) | some .float32 | some .float64 =>
      if f.refMode = .none && !f.dynamic then some t.primitiveSize else none
    | _ => none
  | _ => none

/-- A step of a plan, by positions of canonical fields. -/
inductive PlanStep where
  | run (fields : List Nat) (width : Nat)
  | field (position : Nat)
  deriving DecidableEq, Repr

/-- A run as a step, unless it is empty. -/
def PlanStep.ofRun (fields : List Nat) (width : Nat) : List PlanStep :=
  if fields = [] then [] else [.run fields width]

/-- The steps for the fields from a position on, after a run that is still pending. -/
def planFrom (position : Nat) (pending : List Nat) (width : Nat) : List Field → List PlanStep
  | [] => PlanStep.ofRun pending width
  | f :: rest =>
    match f.fixedWidth? with
    | some w => planFrom (position + 1) (pending ++ [position]) (width + w) rest
    | none =>
      PlanStep.ofRun pending width ++ .field position :: planFrom (position + 1) [] 0 rest

/-- The plan of canonical fields. -/
def fieldPlan (fields : List Field) : List PlanStep := planFrom 0 [] 0 fields

end Graphwire
