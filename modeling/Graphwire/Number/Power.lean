/-!
# Powers

Powers with natural exponents are those of the core library, whatever else is imported.
-/

namespace Graphwire

set_option autoImplicit false

@[default_instance 20000]
instance (priority := 20000) natPow {α : Type} [NatPow α] : Pow α Nat := instPowNat

end Graphwire
