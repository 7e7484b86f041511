import Graphwire.Number.Power

/-!
# Fixed-width integers

The eight integer types and integers that lie in the range of their type.
-/

namespace Graphwire

set_option autoImplicit false

/-- A fixed-width integer type. -/
inductive IntKind where
  | int8 | int16 | int32 | int64 | uint8 | uint16 | uint32 | uint64
  deriving DecidableEq, Repr, Inhabited

namespace IntKind

/-- The width in bytes. -/
def bytes : IntKind → Nat
  | int8 | uint8 => 1
  | int16 | uint16 => 2
  | int32 | uint32 => 4
  | int64 | uint64 => 8

def isSigned : IntKind → Bool
  | int8 | int16 | int32 | int64 => true
  | _ => false

/-- The number of values. -/
def modulus (k : IntKind) : Nat := 256 ^ k.bytes

def minValue (k : IntKind) : Int := if k.isSigned then -(k.modulus / 2 : Nat) else 0

def maxValue (k : IntKind) : Int := if k.isSigned then (k.modulus / 2 : Nat) - 1 else k.modulus - 1

/-- The kind's name. -/
def name : IntKind → String
  | int8 => "int8"
  | int16 => "int16"
  | int32 => "int32"
  | int64 => "int64"
  | uint8 => "uint8"
  | uint16 => "uint16"
  | uint32 => "uint32"
  | uint64 => "uint64"

/-- The kind's name as a constructor of values. -/
def title : IntKind → String
  | int8 => "Int8"
  | int16 => "Int16"
  | int32 => "Int32"
  | int64 => "Int64"
  | uint8 => "UInt8"
  | uint16 => "UInt16"
  | uint32 => "UInt32"
  | uint64 => "UInt64"

end IntKind

/-- An integer in the range of its type. -/
structure Integer where
  kind : IntKind
  val : Int
  inRange : kind.minValue ≤ val ∧ val ≤ kind.maxValue
  deriving DecidableEq, Repr

/-- The integer of a kind with a given value, absent when the value does not fit. -/
def Integer.ofInt? (kind : IntKind) (val : Int) : Option Integer :=
  if h : kind.minValue ≤ val ∧ val ≤ kind.maxValue then some ⟨kind, val, h⟩ else none

theorem IntKind.maxValue_eq (k : IntKind) : k.maxValue = k.minValue + k.modulus - 1 := by
  cases k <;> decide

/-- The integer of a kind that is congruent to a given one modulo the number of values. -/
def Integer.wrap (kind : IntKind) (val : Int) : Integer :=
  ⟨kind, (val - kind.minValue) % kind.modulus + kind.minValue, by
    have positive : (0 : Int) < kind.modulus := by cases kind <;> decide
    have := Int.emod_nonneg (val - kind.minValue) (Int.ne_of_gt positive)
    have := Int.emod_lt_of_pos (val - kind.minValue) positive
    rw [kind.maxValue_eq]
    omega⟩

/-- An integer in range is wrapped to itself. -/
theorem Integer.val_wrap {kind : IntKind} {val : Int} (low : kind.minValue ≤ val)
    (high : val ≤ kind.maxValue) : (Integer.wrap kind val).val = val := by
  rw [kind.maxValue_eq] at high
  simp only [Integer.wrap]
  rw [Int.emod_eq_of_lt (by omega) (by omega)]
  omega

theorem Integer.ofInt?_val (n : Integer) : Integer.ofInt? n.kind n.val = some n := by
  simp [Integer.ofInt?, n.inRange]

theorem Integer.ofInt?_eq_some_iff {kind : IntKind} {val : Int} {n : Integer} :
    Integer.ofInt? kind val = some n ↔ n.kind = kind ∧ n.val = val := by
  constructor
  · intro h
    simp only [Integer.ofInt?] at h
    split at h
    · cases h; exact ⟨rfl, rfl⟩
    · cases h
  · rintro ⟨rfl, rfl⟩
    exact n.ofInt?_val

end Graphwire
