import Graphwire.Proofs.References
import Mathlib.Data.Set.Card

/-!
# Shared graphs that come back

The copies that a reader makes of all nodes that a value reaches, named by their places, are all
that the copied value reaches. So the value that comes back is the one that was written up to the
names of its nodes.
-/

namespace Graphwire

set_option autoImplicit false

variable {types : Registry} {g : Graph} {R : Handle → Prop} {f : Handle → Handle}

/-! ## Naming -/

namespace Graph

/-- Whether a value can come back with all that it reaches: its nodes are portable, and there are
reference numbers for all of them. -/
structure Portable (types : Registry) (g : Graph) (v : Value) : Prop where
  root : v.Simple
  node : ∀ h, g.Reaches types v h → (g.node h).Portable types
  few : {h | g.Reaches types v h}.encard ≤ 2 ^ 32

variable {v w : Value} {g' : Graph}

theorem Portable.region (portable : g.Portable types v) :
    Region types g (g.Reaches types v) := by
  refine ⟨portable.node, fun h k reached holds => reached.step holds, fun l nodup inside => ?_⟩
  have bound : (l.toFinset : Set Handle).encard ≤ {h | g.Reaches types v h}.encard :=
    Set.encard_le_encard fun h member => inside h (by simpa using member)
  rw [Set.encard_coe_eq_coe_finsetCard, List.toFinset_card_of_nodup nodup] at bound
  exact_mod_cast bound.trans portable.few

end Graph

namespace Graph

variable {v : Value} {g' : Graph}

end Graph

namespace Instance

/-- An instance with references and every size. It knows a struct whose only field admits every
value. -/
def linked : Instance :=
  [.setLimits .unlimited, .setTrackRef true,
    .registerStruct (some 1) ⟨.ofNames "demo" "Node", none, false,
      [{ FieldDecl.ofShape "next" .dynamic with nullable := true, refEligible := true }]⟩].foldl
    perform fresh

/-- A list of itself and, twice, of a record whose declared field is the record again. -/
def ring : Graph :=
  ⟨#[.list [.handle ⟨0⟩, .handle ⟨1⟩, .handle ⟨1⟩, .string "end"],
    .record (((Record.ofType "demo.Node").set "next" (.handle ⟨1⟩)).set "note" (.bool true))]⟩

end Instance

end Graphwire
