import Graphwire.Value.Basic
import Graphwire.Wire.Number

/-!
# Reference numbers

During one call nodes are numbered in the order in which they are first met. The writer knows the
handles that have a number, the reader the values behind the numbers. A reader reserves the number
when it reads the marker, and puts the node behind it before it reads what the node holds, so that
the contents can refer back to it. Numbers have 32 bits: after the last one they start over, and a value
takes the place of the one that had its number before.
-/

namespace Graphwire

set_option autoImplicit false

/-- Handles in the order in which they were first written. The place of a handle is its number. -/
structure SeenHandles where
  handles : List Handle
  deriving DecidableEq, Repr

def SeenHandles.empty : SeenHandles := ⟨[]⟩

/-- A marker byte. -/
def RefFlag.encode (f : RefFlag) : List UInt8 := Encode.signed 1 f.code

/-- The marker of a value, and whether the value is complete with it: null, or a node that was
written before. Other nodes get the next number. -/
def SeenHandles.mark (s : SeenHandles) (v : Value) : (Bool × List UInt8) × SeenHandles :=
  match v.handle? with
  | none => if v.isNull then ((true, RefFlag.null.encode), s) else ((false, RefFlag.notNull.encode), s)
  | some h =>
    match s.handles.idxOf? h with
    | some number => ((true, RefFlag.ref.encode ++ Encode.varuint32 number), s)
    | none => ((false, RefFlag.newRef.encode), ⟨s.handles ++ [h]⟩)

/-- The values behind reference numbers; a reserved number has none yet. -/
structure Slots where
  values : Array (Option Value)
  deriving DecidableEq, Repr

namespace Slots

def empty : Slots := ⟨#[]⟩

/-- Reserves the next number, of which 32 bits are kept. -/
def reserve (s : Slots) : Nat × Slots := (s.values.size % 2 ^ 32, ⟨s.values.push none⟩)

/-- As long as there are numbers, the next one is the count of those that were reserved. -/
theorem number_reserve {s : Slots} (few : s.values.size < 2 ^ 32) : s.reserve.1 = s.values.size :=
  Nat.mod_eq_of_lt few

/-- Puts a value behind a reserved number. -/
def fill (s : Slots) (number : Nat) (v : Value) : Slots :=
  ⟨s.values.setIfInBounds number (some v)⟩

/-- The value behind a number. -/
def resolve (s : Slots) (number : Nat) : Except Error Value :=
  match s.values[number]? with
  | some (some v) => .ok v
  | some none => .error (.referencePending number)
  | none => .error (.referenceUnknown number s.values.size)

end Slots

/-- Reads a marker. -/
def Decode.refFlag : Decode RefFlag := do
  let code ← signed 1
  match RefFlag.ofCode? code with
  | some flag => pure flag
  | none => throw (.invalidRefFlag code)

end Graphwire
