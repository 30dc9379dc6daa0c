import Candid.Number.Power

/-!
# Binary64 numbers

The floating-point numbers of 64 bits as exact values: sign, exponent field and fraction field of a
finite number, the two infinities, and one not-a-number. Every finite number of the format is exactly
one member of the type. Decimals are rounded to the nearest number, a half to the even neighbour.
-/

set_option autoImplicit false

namespace Candid

/-- The number of fractions that share an exponent. -/
def fractionCount : Nat :=
  twoTo 52

inductive Binary64 where
  | finite (negative : Bool) (exponent : Fin 2047) (fraction : Fin fractionCount)
  | infinite (negative : Bool)
  | nan
  deriving DecidableEq, Repr

namespace Binary64

def isFinite : Binary64 → Bool
  | .finite .. => true
  | _ => false

/-- The integer that the significand field stands for: normal numbers have a hidden leading one. -/
def significand (exponent : Fin 2047) (fraction : Fin fractionCount) : Nat :=
  if exponent.val = 0 then fraction.val else fractionCount + fraction.val

def scale (exponent : Fin 2047) : Int :=
  (max exponent.val 1 : Nat) - 1075

def wholePart (significand : Nat) (scale : Int) : Nat :=
  if 0 ≤ scale then significand * twoTo scale.toNat else significand / twoTo (-scale).toNat

def isWhole (significand : Nat) (scale : Int) : Bool :=
  0 ≤ scale || significand % twoTo (-scale).toNat == 0

def isInteger : Binary64 → Bool
  | .finite _ exponent fraction => isWhole (significand exponent fraction) (scale exponent)
  | _ => false

/-- The number without its fractional part, toward zero; `none` where it is not finite. -/
def truncate? : Binary64 → Option Int
  | .finite negative exponent fraction =>
    let whole := wholePart (significand exponent fraction) (scale exponent)
    some (if negative then -(whole : Int) else whole)
  | _ => none

/-- The quotient rounded to the nearest integer, a half to the even one. -/
def roundedQuotient (numerator denominator : Nat) : Nat :=
  let quotient := numerator / denominator
  let rest := numerator % denominator
  if 2 * rest < denominator then quotient
  else if denominator < 2 * rest then quotient + 1
  else if quotient % 2 = 0 then quotient else quotient + 1

/-- The finite number with the given significand and scale, or infinity above the range. The
significand is below twice `fractionCount`, and at least `fractionCount` unless the scale is the least one. -/
def ofParts (negative : Bool) (significand : Nat) (scale : Int) : Binary64 :=
  let field := if significand < fractionCount then 0 else (scale + 1075).toNat
  if h : field < 2047 then
    .finite negative ⟨field, h⟩ ⟨significand % fractionCount, Nat.mod_lt _ (by decide)⟩
  else .infinite negative

def scaled (numerator denominator : Nat) (scale : Int) : Nat × Nat :=
  if 0 ≤ scale then (numerator, denominator * twoTo scale.toNat)
  else (numerator * twoTo (-scale).toNat, denominator)

/-- The scale at which a positive quotient is at least `fractionCount` and less than twice that. -/
def leadingScale (numerator denominator : Nat) : Int :=
  let estimate : Int := (numerator.log2 : Int) - denominator.log2 - 52
  let ratio := scaled numerator denominator estimate
  if ratio.1 < ratio.2 * fractionCount then estimate - 1 else estimate

def ofQuotient (negative : Bool) (numerator denominator : Nat) : Binary64 :=
  let scale := max (leadingScale numerator denominator) (-1074)
  let ratio := scaled numerator denominator scale
  let significand := roundedQuotient ratio.1 ratio.2
  if significand = 2 * fractionCount then ofParts negative fractionCount (scale + 1)
  else ofParts negative significand scale

def zero (negative : Bool) : Binary64 :=
  .finite negative 0 ⟨0, by decide⟩

/-- The number nearest to `digits · 10 ^ exponent`. Decimals far outside the range are decided by
their magnitude, so that no power beyond the range is computed. -/
def ofDecimal (negative : Bool) (digits : Nat) (exponent : Int) : Binary64 :=
  if digits = 0 then zero negative
  else
    let magnitude : Int := (Nat.toDigits 10 digits).length + exponent
    if 310 < magnitude then .infinite negative
    else if magnitude < -330 then zero negative
    else if 0 ≤ exponent then ofQuotient negative (digits * tenTo exponent.toNat) 1
    else ofQuotient negative digits (tenTo (-exponent).toNat)

end Binary64

end Candid
