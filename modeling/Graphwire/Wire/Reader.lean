import Graphwire.Error

/-!
# Reading bytes

A reader is a position in a byte sequence. A decoder moves the reader on and gives a value, or
refuses and says where the reader stands then. A request for more bytes than are left moves nothing.
-/

namespace Graphwire

set_option autoImplicit false

/-- A position in a byte sequence: how many bytes were read, and the bytes that are left. -/
structure Reader where
  position : Nat
  rest : List UInt8
  deriving DecidableEq, Repr

namespace Reader

/-- The start of a byte sequence. -/
def ofBytes (bytes : List UInt8) : Reader := ⟨0, bytes⟩

/-- The length of the whole sequence. -/
def total (r : Reader) : Nat := r.position + r.rest.length

/-- The number of bytes that are left. -/
def remaining (r : Reader) : Nat := r.rest.length

end Reader

/-- The first `n` elements and the others, absent when there are fewer. -/
def splitExactly {α : Type} : Nat → List α → Option (List α × List α)
  | 0, xs => some ([], xs)
  | _ + 1, [] => none
  | n + 1, x :: xs => (splitExactly n xs).map fun (front, back) => (x :: front, back)

theorem splitExactly_append {α : Type} (front back : List α) :
    splitExactly front.length (front ++ back) = some (front, back) := by
  induction front with
  | nil => rfl
  | cons x xs ih => simp [splitExactly, ih]

theorem splitExactly_eq_some_iff {α : Type} {n : Nat} {xs front back : List α} :
    splitExactly n xs = some (front, back) ↔ front.length = n ∧ xs = front ++ back := by
  constructor
  · intro h
    induction n generalizing xs front with
    | zero => simp only [splitExactly, Option.some.injEq, Prod.mk.injEq] at h; simp [← h.1, ← h.2]
    | succ n ih =>
      cases xs with
      | nil => simp [splitExactly] at h
      | cons x xs =>
        simp only [splitExactly, Option.map_eq_some_iff, Prod.mk.injEq, Prod.exists] at h
        obtain ⟨f, b, split, rfl, rfl⟩ := h
        have := ih split
        simp [this.1, this.2]
  · rintro ⟨rfl, rfl⟩
    exact splitExactly_append front back

theorem splitExactly_eq_none_iff {α : Type} {n : Nat} {xs : List α} :
    splitExactly n xs = none ↔ xs.length < n := by
  induction n generalizing xs with
  | zero => simp [splitExactly]
  | succ n ih => cases xs <;> simp [splitExactly, ih]

/-- A step of reading. -/
abbrev Decode := EStateM Error Reader

namespace Decode

/-- The next `n` bytes. -/
def bytes (n : Nat) : Decode (List UInt8) := do
  let r ← get
  match splitExactly n r.rest with
  | some (front, back) => do
    set (Reader.mk (r.position + n) back)
    return front
  | none => throw (.outOfBounds r.position n r.total)

/-- The next byte. -/
def octet : Decode Nat := do
  let r ← get
  match r.rest with
  | b :: rest => do
    set (Reader.mk (r.position + 1) rest)
    return b.toNat
  | [] => throw (.outOfBounds r.position 1 r.total)

/-- Moves over `n` bytes. -/
def skip (n : Nat) : Decode Unit := do
  let _ ← bytes n

/-- Reads a whole byte sequence, with the reader of the outer sequence left where it is. -/
def within {α : Type} (bytes : List UInt8) (inner : Decode α) : Decode α :=
  match inner.run (.ofBytes bytes) with
  | .ok a _ => pure a
  | .error e _ => throw e

end Decode

end Graphwire
