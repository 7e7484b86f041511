import Graphwire.Proofs.Peers
import Graphwire.Proofs.Receiving

/-!
# Positions in graphs

A value stands in a graph where steps lead from the root: to an element, to the key or the value of an
entry, or to a field. With the steps a writer knows how the value is used there: whether references are
tracked, and the shape that is declared. A node that is tracked is written once, where it is met first,
so the shape that is declared there settles how the values in it are used. A peer finds the same
elements and entries, and under its own fields what was sent for the fields that correspond to them.
-/

namespace Graphwire

set_option autoImplicit false

/-! ## Steps -/

/-- The way from a node to a value that it holds. -/
inductive Step where
  | item (index : Nat)
  | key (index : Nat)
  | value (index : Nat)
  | field (name : String)
  deriving DecidableEq, Repr

/-- The value that a step leads to. -/
def Node.follow? : Node → Step → Option Value
  | .list vs, .item i | .set vs, .item i => vs[i]?
  | .map pairs, .key i => pairs[i]?.map (·.1)
  | .map pairs, .value i => pairs[i]?.map (·.2)
  | .record r, .field name => r.get? name
  | _, _ => none

/-- The value that steps lead to. -/
def Graph.along (g : Graph) : Value → List Step → Option Value
  | v, [] => some v
  | v, step :: rest => (g.nodeOf? v).bind fun n => (n.follow? step).bind fun part => g.along part rest

theorem Graph.along_append {g : Graph} {v u : Value} {path : List Step} (h : g.along v path = some u)
    (step : Step) : g.along v (path ++ [step]) = (g.nodeOf? u).bind (·.follow? step) := by
  induction path generalizing v with
  | nil =>
    cases h
    simp only [List.nil_append, along, Option.bind_fun_some]
  | cons first path ih =>
    simp only [along, Option.bind_eq_some_iff] at h
    obtain ⟨n, node, part, found, onward⟩ := h
    simp only [List.cons_append, along, node, found, Option.bind_some, ih onward]

/-! ## How values are used -/

/-- How a value is written: whether references are tracked, and the shape that is declared. -/
structure Use where
  tracked : Bool
  shape : Shape
  value : Value
  deriving DecidableEq, Repr

namespace Environment

/-- The struct that a record is written as. -/
def structFor? (env : Environment) (r : Record) : Option StructType :=
  match env.registry.struct? r.typeName with
  | some s => some s
  | none => (env.registry.adhocStruct env.config r).toOption

/-- How an element is used, given the shape that is declared for it, if any. -/
def elementUse (env : Environment) (part : Option Shape) (v : Value) : Use :=
  ⟨env.config.trackRef && part.all env.mayShare, part.getD .dynamic, v⟩

/-- How the key and the value of the entry at a position are used. -/
def entryUses (env : Environment) (shape : Shape) (i : Nat) (pair : Value × Value) :
    List (Step × Use) :=
  [(.key i, env.elementUse shape.parts.1 pair.1), (.value i, env.elementUse shape.parts.2 pair.2)]

end Environment

/-- How the value of a field is used. -/
def Field.use (r : Record) (f : Field) : Use := ⟨f.tracked, f.shape, r.value f.name⟩

/-- The values of a node of a shape in the order in which they are written, each with the step there and
how it is used. -/
def Environment.uses (env : Environment) (shape : Shape) : Node → List (Step × Use)
  | .list vs | .set vs => vs.mapIdx fun i v => (.item i, env.elementUse shape.parts.1 v)
  | .map pairs => (pairs.mapIdx (env.entryUses shape)).flatten
  | .record r => (env.structFor? r).elim [] fun s => s.fields.map fun f => (.field f.name, f.use r)

/-! ## Numbers -/

/-- Goes on from the nodes with a number to those that get one with a value: the node of the value if it
is tracked and has none yet, then what is found on entering the node. -/
def Use.note (use : Use) (enter : List (Handle × Shape) → List (Handle × Shape))
    (numbered : List (Handle × Shape)) : List (Handle × Shape) :=
  match use.value with
  | .handle h =>
    if use.tracked && numbered.any (·.1 = h) then numbered
    else enter (if use.tracked then numbered ++ [(h, use.shape)] else numbered)
  | _ => numbered

namespace Environment

/-- Goes on from the nodes with a number to those that get one within a node, at most `levels` levels
further in. -/
def enter (env : Environment) (g : Graph) : Nat → Use → List (Handle × Shape) → List (Handle × Shape)
  | 0, _, numbered => numbered
  | levels + 1, use, numbered =>
    match use.value with
    | .handle h =>
      (env.uses use.shape (g.node h)).foldl
        (fun numbered part => part.2.note (env.enter g levels part.2) numbered) numbered
    | _ => numbered

/-- How the value at the root is used. -/
def rootUse (env : Environment) (v : Value) : Use := ⟨env.config.trackRef, .dynamic, v⟩

/-- The nodes that get a number, in the order of their numbers, each with the shape that is declared
where it is met first. -/
def numbers (env : Environment) (g : Graph) (v : Value) : List (Handle × Shape) :=
  (env.rootUse v).note (env.enter g env.config.maxDepth (env.rootUse v)) []

/-- The shape that a node is written under where it is used: for a tracked one that of its first use. -/
def shapeOf (env : Environment) (g : Graph) (v : Value) (tracked : Bool) (shape : Shape) (h : Handle) :
    Shape :=
  if tracked then ((env.numbers g v).lookup h).getD shape else shape

end Environment

/-! ## Positions of peers -/

/-- What identifies a struct to peers. -/
def StructType.identity (s : StructType) : TypeIdentity := s.id.elim (.names s.package s.typeName) .id

/-- Whether a peer finds under one step what a node of a writer has under another one: elements and
entries at their positions, and the value of a field under the field that corresponds to it. -/
inductive Environment.Counterpart (W R : Environment) : Node → Step → Step → Prop where
  | item (n : Node) (i : Nat) : Counterpart W R n (.item i) (.item i)
  | key (n : Node) (i : Nat) : Counterpart W R n (.key i) (.key i)
  | value (n : Node) (i : Nat) : Counterpart W R n (.value i) (.value i)
  | field {r : Record} {s ours : StructType} {f own : Field} (written : W.structFor? r = some s)
      (known : R.registry.structOf? s.identity = some ours) (sent : f ∈ s.fields)
      (kept : own ∈ ours.fields) (corresponds : f.Corresponds own) :
      Counterpart W R (.record r) (.field f.name) (.field own.name)

namespace Environment.Counterpart

variable {W R : Environment} {n : Node} {i : Nat} {step' : Step}

theorem eq_item (h : W.Counterpart R n (.item i) step') : step' = .item i := by
  cases h
  rfl

theorem eq_key (h : W.Counterpart R n (.key i) step') : step' = .key i := by
  cases h
  rfl

theorem eq_value (h : W.Counterpart R n (.value i) step') : step' = .value i := by
  cases h
  rfl

theorem eq_field {r : Record} {name : String} (h : W.Counterpart R (.record r) (.field name) step') :
    ∃ s ours f own, W.structFor? r = some s ∧ R.registry.structOf? s.identity = some ours ∧
      f ∈ s.fields ∧ f.name = name ∧ own ∈ ours.fields ∧ f.Corresponds own ∧
        step' = .field own.name := by
  cases h with
  | field written known sent kept corresponds =>
    exact ⟨_, _, _, _, written, known, sent, rfl, kept, corresponds, rfl⟩

end Environment.Counterpart

/-- Whether steps lead a writer from the root to a value that is used in a way, and other steps lead a
peer to what it made of the value. -/
inductive Environment.Position (W R : Environment) (g : Graph) (v : Value) :
    List Step → List Step → Use → Prop where
  | root : Position W R g v [] [] (W.rootUse v)
  | step {path path' : List Step} {tracked : Bool} {shape : Shape} {h : Handle} {step step' : Step}
      {use : Use} (above : Position W R g v path path' ⟨tracked, shape, .handle h⟩)
      (part : (step, use) ∈ W.uses (W.shapeOf g v tracked shape h) (g.node h))
      (counterpart : W.Counterpart R (g.node h) step step') :
      Position W R g v (path ++ [step]) (path' ++ [step']) use

end Graphwire
