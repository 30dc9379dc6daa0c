/-!
# Powers

The powers of two and of ten among the natural numbers.
-/

set_option autoImplicit false

namespace Candid

def twoTo (exponent : Nat) : Nat :=
  Nat.pow 2 exponent

def tenTo (exponent : Nat) : Nat :=
  Nat.pow 10 exponent

end Candid
