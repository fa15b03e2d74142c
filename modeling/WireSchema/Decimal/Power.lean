/-!
# Powers of two and of ten

The two scales between which decimal text and binary patterns are compared.
-/

namespace WireSchema.Decimal

set_option autoImplicit false

def twoTo (n : Nat) : Nat := Nat.pow 2 n

def tenTo (n : Nat) : Nat := Nat.pow 10 n

end WireSchema.Decimal
