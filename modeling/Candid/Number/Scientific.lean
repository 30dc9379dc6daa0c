import Candid.Number.Numeral
import Candid.Number.Shortest

/-!
# The text of a floating-point number

A number is written with the fewest digits that read back, positionally over a range of magnitudes
and in scientific form outside it. `Scientific.Layout` holds the choices.
-/

set_option autoImplicit false

namespace Candid

namespace Scientific

/-- The choices that a written number follows: the decimal exponents from `leastPositional` up to,
but not including, `firstScientific` are written positionally; an exponent has a sign and at least
`exponentDigits` digits. -/
structure Layout where
  leastPositional : Int
  firstScientific : Int
  exponentDigits : Nat

/-- Magnitudes from `10 ^ -4` to below `10 ^ 16` are positional; exponents have two digits. -/
def Layout.standard : Layout := ⟨-4, 16, 2⟩

def zeros (count : Nat) : Text :=
  List.replicate count '0'

/-- The significant digits of a decimal and its exponent in scientific form. The digits have no
zeros at their end, except that zero itself is one digit. -/
def significant (decimal : Decimal) : Text × Int :=
  let digits := Numeral.ofNat decimal.digits
  let kept := (digits.reverse.dropWhile (· = '0')).reverse
  (if kept.isEmpty then zeros 1 else kept, (digits.length : Int) - 1 + decimal.exponent)

/-- Digits with the point placed for the exponent; a whole number keeps one zero behind the
point. -/
def positional (digits : Text) (exponent : Int) : Text :=
  if exponent < 0 then "0.".toList ++ zeros ((-exponent).toNat - 1) ++ digits
  else
    let whole := exponent.toNat + 1
    if digits.length ≤ whole then digits ++ zeros (whole - digits.length) ++ ".0".toList
    else digits.take whole ++ '.' :: digits.drop whole

def exponential (layout : Layout) (digits : Text) (exponent : Int) : Text :=
  let power := Numeral.ofNat exponent.natAbs
  let mantissa :=
    match digits with
    | first :: second :: others => first :: '.' :: second :: others
    | short => short
  mantissa ++ 'e' :: (if exponent < 0 then '-' else '+') ::
    (zeros (layout.exponentDigits - power.length) ++ power)

def render (layout : Layout) (decimal : Decimal) : Text :=
  let (digits, exponent) := significant decimal
  if layout.leastPositional ≤ exponent ∧ exponent < layout.firstScientific then
    positional digits exponent
  else exponential layout digits exponent

end Scientific

namespace Binary64

def finiteText (negative : Bool) (exponent : Fin 2047) (fraction : Fin fractionCount) : Text :=
  let decimal := Shortest.decimal (significand exponent fraction) (scale exponent)
  let digits := Scientific.render Scientific.Layout.standard decimal
  if negative then '-' :: digits else digits

def text : Binary64 → Text
  | .finite negative exponent fraction => finiteText negative exponent fraction
  | .infinite negative => if negative then "-inf".toList else "inf".toList
  | .nan => "nan".toList

end Binary64

end Candid
