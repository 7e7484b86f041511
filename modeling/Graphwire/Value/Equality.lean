import Graphwire.Value.Basic

/-!
# Structural equality

Two values of one graph are equal when they are the same handle or have the same kind and equal
contents. Along a chain of handles a pair of handles cannot recur unless the comparison has no end,
so the number of pairs bounds the depth to which it has to go.
-/

namespace Graphwire.Graph

set_option autoImplicit false

/-- Pairwise comparison of two lists of the same length. -/
def allEqual (eq : Value → Value → Bool) (xs ys : List Value) : Bool :=
  xs.length = ys.length && (xs.zip ys).all fun (x, y) => eq x y

/-- Comparison of two nodes, given the comparison of what they hold. -/
def nodesEqual (eq : Value → Value → Bool) : Node → Node → Bool
  | .list xs, .list ys => allEqual eq xs ys
  | .set xs, .set ys => allEqual eq xs ys
  | .map xs, .map ys =>
    allEqual eq (xs.map (·.1)) (ys.map (·.1)) && allEqual eq (xs.map (·.2)) (ys.map (·.2))
  | .record r, .record s =>
    r.typeName = s.typeName && r.fields.names = s.fields.names &&
      allEqual eq (r.fields.entries.map (·.2)) (s.fields.entries.map (·.2))
  | _, _ => false

/-- Comparison of two values down to a depth. -/
def equalTo (g : Graph) : Nat → Value → Value → Bool
  | _, .float32 a, .float32 b => BinaryFormat.binary32.equal a.toNat b.toNat
  | _, .float64 a, .float64 b => BinaryFormat.binary64.equal a.toNat b.toNat
  | 0, .handle h, .handle k => h = k
  | depth + 1, .handle h, .handle k =>
    h = k || nodesEqual (equalTo g depth) (g.node h) (g.node k)
  | _, v, w => v = w

/-- Structural equality of two values. -/
def equal (g : Graph) (v w : Value) : Bool := g.equalTo (g.size * g.size + 1) v w

/-- Whether two values are one node. -/
def same (v w : Value) : Bool := v.handle?.isSome && v.handle? = w.handle?

end Graphwire.Graph
