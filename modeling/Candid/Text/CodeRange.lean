/-!
# Ranges of code points

A character class given as its ranges of code points, in ascending order.
-/

set_option autoImplicit false

namespace Candid

/-- Ranges of code points, both ends included, in ascending order. -/
abbrev CodeRanges := List (Nat × Nat)

/-- Whether one of the ranges holds the code point; the search ends at the first range above it. -/
def CodeRanges.contains (ranges : CodeRanges) (code : Nat) : Bool :=
  match ranges with
  | [] => false
  | (least, greatest) :: rest =>
    if code < least then false else code ≤ greatest || CodeRanges.contains rest code

end Candid
