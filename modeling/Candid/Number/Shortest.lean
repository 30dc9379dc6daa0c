import Candid.Number.Binary64

/-!
# Shortest decimals

The decimal of fewest digits that rounds back to a given binary64 number, and of those the nearest.
For a finite number the decimals that round to it form an interval, its ends included exactly when
the significand is even. The decimal grids are tried from the coarsest to the finest; on each the
two neighbours of the number decide, since an interval around the number that holds any grid point
holds one of these.
-/

set_option autoImplicit false

namespace Candid

structure Decimal where
  digits : Nat
  exponent : Int
  deriving DecidableEq, Repr

namespace Shortest

/-- A positive number with the interval of decimals that round to it, all over one denominator. -/
structure Target where
  center : Nat
  low : Nat
  high : Nat
  denominator : Nat
  closed : Bool

/-- The target of `significand · 2 ^ scale`. Distances are counted in quarters of the unit in the
last place, since the gap below a power of two is half the gap above it. -/
def Target.ofParts (significand : Nat) (scale : Int) : Target :=
  let isPower := significand = fractionCount ∧ -1074 < scale
  let below := if isPower then 1 else 2
  let quarter := scale - 2
  let factor := twoTo quarter.toNat
  { center := 4 * significand * factor
    low := (4 * significand - below) * factor
    high := (4 * significand + 2) * factor
    denominator := twoTo (-quarter).toNat
    closed := significand % 2 = 0 }

def Target.holds (target : Target) (numerator denominator : Nat) : Bool :=
  let point := numerator * target.denominator
  if target.closed then
    target.low * denominator ≤ point && point ≤ target.high * denominator
  else
    target.low * denominator < point && point < target.high * denominator

/-- The neighbour of the target on the grid of `10 ^ exponent` that rounds to it: the nearer one if
both do, the even one if they are equally near. -/
def Target.onGrid? (target : Target) (exponent : Int) : Option Nat :=
  let up := tenTo exponent.toNat
  let down := tenTo (-exponent).toNat
  let lower := target.center * down / (target.denominator * up)
  let upper := lower + 1
  match target.holds (lower * up) down, target.holds (upper * up) down with
  | true, false => some lower
  | false, true => some upper
  | false, false => none
  | true, true =>
    let twice := 2 * target.center * down
    let middle := (lower + upper) * up * target.denominator
    if twice < middle then some lower
    else if middle < twice then some upper
    else if lower % 2 = 0 then some lower else some upper

/-- The exponent of the coarsest grid worth trying: the decimal length of the number. -/
def Target.decimalLength (target : Target) : Int :=
  if target.denominator ≤ target.center then
    (Nat.toDigits 10 (target.center / target.denominator)).length
  else
    1 - ((Nat.toDigits 10 (target.denominator / target.center)).length : Int)

def Target.search (target : Target) (exponent : Int) : (grids : Nat) → Decimal
  | 0 => ⟨target.center / target.denominator, 0⟩
  | grids + 1 =>
    match target.onGrid? exponent with
    | some digits => ⟨digits, exponent⟩
    | none => target.search (exponent - 1) grids

end Shortest

/-- The shortest decimal that rounds back to `significand · 2 ^ scale`. Seventeen digits always
suffice. -/
def Shortest.decimal (significand : Nat) (scale : Int) : Decimal :=
  if significand = 0 then ⟨0, 0⟩
  else
    let target := Target.ofParts significand scale
    target.search (target.decimalLength - 1) 18

end Candid
