import Graphwire.Error

/-!
# Configuration

The settings of an instance and the sizes that it admits.
-/

namespace Graphwire

set_option autoImplicit false

/-- Ceilings on sizes read from a payload; an absent one admits every size. -/
structure SizeLimits where
  binary : Option Nat
  string : Option Nat
  collection : Option Nat
  map : Option Nat
  deriving DecidableEq, Repr

namespace SizeLimits

/-- 64 MiB for binaries and a million elements or entries. -/
def standard : SizeLimits :=
  { binary := some (64 * 1024 * 1024), string := none, collection := some 1000000,
    map := some 1000000 }

def unlimited : SizeLimits := ⟨none, none, none, none⟩

/-- The ceiling on a kind of size. -/
def ceiling (limits : SizeLimits) : LimitKind → Option Nat
  | .collection => limits.collection
  | .map => limits.map
  | .string => limits.string
  | .binary => limits.binary

/-- Refuses a size above its ceiling. -/
def check (limits : SizeLimits) (kind : LimitKind) (size : Nat) : Except Error Unit :=
  match limits.ceiling kind with
  | some limit => if limit < size then .error (.sizeLimit kind size limit) else .ok ()
  | none => .ok ()

end SizeLimits

/-- How the fields of a record are walked: one by one, or along the plan of the type. -/
inductive Strategy where
  | interpreted
  | compiled
  deriving DecidableEq, Repr

/-- The settings of an instance. -/
structure Config where
  /-- Whether type definitions travel with records, so that peers may differ in their fields. -/
  compatible : Bool
  trackRef : Bool
  maxDepth : Nat
  limits : SizeLimits
  requireRegistration : Bool
  strategy : Strategy
  deriving DecidableEq, Repr

/-- Strict mode without references, fifty levels, registration required, plans followed. -/
def Config.standard : Config :=
  { compatible := false, trackRef := false, maxDepth := 50, limits := .standard,
    requireRegistration := true, strategy := .compiled }

end Graphwire
