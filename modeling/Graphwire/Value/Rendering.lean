import Graphwire.Number.Shortest
import Graphwire.Text.Quoted
import Graphwire.Time.Rendering
import Graphwire.Value.Basic

/-!
# Texts of values

A readable form of a value and everything it holds. Beyond eight levels of nodes two dots stand
for the rest, so values that contain themselves have a text too.
-/

namespace Graphwire.Graph

set_option autoImplicit false

/-- Numbers between brackets. -/
def bytesText (bytes : List UInt8) : String :=
  "[" ++ ", ".intercalate (bytes.map fun b => toString b.toNat) ++ "]"

/-- The text of a value, given the text of nodes. -/
def textWith (nodeText : Handle → String) : Value → String
  | .null => "Null"
  | .bool b => s!"Bool({b})"
  | .int n => s!"{n.kind.title}({n.val})"
  | .float32 bits => s!"Float32({Decimal.text .binary32 bits.toNat})"
  | .float64 bits => s!"Float64({Decimal.text .binary64 bits.toNat})"
  | .string s => s!"String({Text.quoted s})"
  | .binary bytes => s!"Binary({bytesText bytes})"
  | .date day => s!"Date({day.text})"
  | .timestamp t => "Timestamp(" ++ t.text " " ++ ")"
  | .duration d => s!"Duration({d.text})"
  | .enum name ordinal => "Enum(" ++ name ++ "#" ++ toString ordinal ++ ")"
  | .handle h => nodeText h

/-- The text of a node, given the text of values. -/
def nodeTextWith (text : Value → String) : Node → String
  | .list items => "List[" ++ ", ".intercalate (items.map text) ++ "]"
  | .set items => "Set\x7b" ++ ", ".intercalate (items.map text) ++ "\x7d"
  | .map entries =>
    "Map\x7b" ++ ", ".intercalate (entries.map fun (k, v) => text k ++ ": " ++ text v) ++ "\x7d"
  | .record r =>
    if r.fields.entries = [] then r.typeName
    else
      r.typeName ++ " \x7b " ++
        ", ".intercalate (r.fields.entries.map fun (name, v) => name ++ ": " ++ text v) ++ " \x7d"

/-- The text of a value with the given number of levels left. -/
def textTo (g : Graph) : Nat → Value → String
  | 0 => textWith fun _ => ".."
  | levels + 1 => textWith fun h => nodeTextWith (g.textTo levels) (g.node h)

/-- The text of a value. -/
def text (g : Graph) (v : Value) : String := g.textTo 8 v

end Graphwire.Graph
