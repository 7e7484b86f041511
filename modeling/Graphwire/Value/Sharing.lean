import Graphwire.Value.Basic

/-!
# Shared nodes

The handles that a walk through a value meets more than once. The walk goes into a node when it
meets it first, so it is over once every node of the graph was entered.
-/

namespace Graphwire

set_option autoImplicit false

/-- The values that a node holds, in order. -/
def Node.contents : Node → List Value
  | .list items | .set items => items
  | .map entries => entries.flatMap fun (k, v) => [k, v]
  | .record r => r.fields.entries.map (·.2)

theorem Node.mem_contents_map {pairs : List (Value × Value)} {v : Value} :
    v ∈ (Node.map pairs).contents ↔ ∃ pair ∈ pairs, v = pair.1 ∨ v = pair.2 := by
  simp [contents]

/-- A map holds its keys and its values. -/
theorem Node.forall_contents_map {pairs : List (Value × Value)} {P : Value → Prop} :
    (∀ v ∈ (Node.map pairs).contents, P v) ↔ ∀ pair ∈ pairs, P pair.1 ∧ P pair.2 := by
  constructor
  · intro all pair member
    exact ⟨all _ (mem_contents_map.2 ⟨pair, member, .inl rfl⟩),
      all _ (mem_contents_map.2 ⟨pair, member, .inr rfl⟩)⟩
  · intro sides v within
    obtain ⟨pair, member, rfl | rfl⟩ := mem_contents_map.1 within
    · exact (sides pair member).1
    · exact (sides pair member).2

namespace Graph

/-- The handles that a walk has met, and those that it has met again, latest first. -/
structure Walk where
  met : List Handle
  again : List Handle
  deriving DecidableEq, Repr

/-- Goes on with a walk through the given values, entering at most `left` levels of nodes. -/
def walk (g : Graph) : Nat → Walk → List Value → Walk
  | 0, w, _ => w
  | left + 1, w, values =>
    values.foldl (fun w v =>
      match v with
      | .handle h =>
        if w.met.contains h then { w with again := h :: w.again }
        else g.walk left { w with met := h :: w.met } (g.node h).contents
      | _ => w) w

/-- The handles that a value reaches in more than one way, in the order in which they are met. -/
def sharedHandles (g : Graph) (v : Value) : List Handle :=
  let w := g.walk (g.size + 1) ⟨[], []⟩ [v]
  w.met.reverse.filter w.again.contains

end Graph

end Graphwire
