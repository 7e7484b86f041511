/-!
# Reference markers

A value that may be null or may occur more than once is preceded by a marker: for a null, for a
number that stands for a node written before, for a value without number, or for a node that gets
the next number.
-/

namespace Graphwire

set_option autoImplicit false

/-- The marker in front of a value that may be null or shared. -/
inductive RefFlag where
  | null
  | ref
  | notNull
  | newRef
  deriving DecidableEq, Repr

namespace RefFlag

/-- The signed byte that stands for a marker. -/
def code : RefFlag → Int
  | null => -3
  | ref => -2
  | notNull => -1
  | newRef => 0

def ofCode? (n : Int) : Option RefFlag :=
  if n = -3 then some null
  else if n = -2 then some ref
  else if n = -1 then some notNull
  else if n = 0 then some newRef
  else none

/-- The label of a marker. -/
def label : RefFlag → String
  | null => "Null"
  | ref => "Ref"
  | notNull => "NotNullValue"
  | newRef => "RefValue"

/-- Every marker is read back from its byte. -/
theorem ofCode?_code (f : RefFlag) : ofCode? f.code = some f := by
  cases f <;> rfl

end RefFlag

/-- What precedes a value: nothing, a null marker, or a reference marker. -/
inductive RefMode where
  | none
  | nullOnly
  | tracking
  deriving DecidableEq, Repr

/-- Tracking includes the null marker. -/
def RefMode.ofFlags (nullable tracked : Bool) : RefMode :=
  if tracked then .tracking else if nullable then .nullOnly else .none

end Graphwire
