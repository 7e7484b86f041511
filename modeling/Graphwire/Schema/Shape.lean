import Graphwire.Text.Quoted
import Graphwire.TypeId

/-!
# Declared shapes

The shape that a field or the element of a container is declared with.
-/

namespace Graphwire

set_option autoImplicit false

/-- A declared shape. `named` refers to a struct or an enumeration by its qualified name, and
`dynamic` admits every value. -/
inductive Shape where
  | scalar (type : TypeId)
  | list (element : Shape)
  | set (element : Shape)
  | map (key value : Shape)
  | named (name : String)
  | dynamic
  deriving DecidableEq, Repr, Inhabited

namespace Shape

/-- The text of a shape. -/
def text : Shape → String
  | scalar t => "Primitive(" ++ t.label ++ ")"
  | list e => "List(" ++ e.text ++ ")"
  | set e => "Set(" ++ e.text ++ ")"
  | map k v => "Map(" ++ k.text ++ ", " ++ v.text ++ ")"
  | named name => "Named(" ++ Text.quoted name ++ ")"
  | dynamic => "Dynamic"

/-- The shapes of a container's parts: of its elements, or of its keys and its values. -/
def parts : Shape → Option Shape × Option Shape
  | list e | set e => (some e, none)
  | map k v => (some k, some v)
  | _ => (none, none)

/-- Whether the shape refers to a type by name. -/
def isNamed : Shape → Bool
  | named _ => true
  | _ => false

/-- The first scalar type within the shape that cannot be declared. -/
def undeclarable? : Shape → Option TypeId
  | scalar t => if t.isDeclarable then none else some t
  | list e | set e => e.undeclarable?
  | map k v => k.undeclarable?.or v.undeclarable?
  | _ => none

end Shape

end Graphwire
