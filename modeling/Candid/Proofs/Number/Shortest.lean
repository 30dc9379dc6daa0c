import Candid.Number.Shortest
import Candid.Proofs.Number.Rounding
import Mathlib.Data.Nat.Cast.Order.Field

/-!
# The shortest decimal rounds back

The decimal that is found for a finite number stands in the interval of the number. On the finest of the
grids that are tried the interval is wider than a step, so one of the two neighbours of the number is in
it.
-/

set_option autoImplicit false

namespace Candid

def Decimal.value (decimal : Decimal) : ℚ :=
  decimal.digits * 10 ^ decimal.exponent

/-- A decimal is zero in one way only. -/
def Decimal.IsProper (decimal : Decimal) : Prop :=
  decimal.digits = 0 → decimal.exponent = 0

namespace Shortest

open Binary64

theorem cast_pow_toNat {base : Nat} (some : 0 < base) (exponent : Int) :
    ((base ^ exponent.toNat : Nat) : ℚ) = (base : ℚ) ^ exponent * (base ^ (-exponent).toNat : Nat) := by
  have nonzero : (base : ℚ) ≠ 0 := by exact_mod_cast Nat.ne_of_gt some
  rw [Nat.cast_pow, Nat.cast_pow, ← zpow_natCast, ← zpow_natCast, ← zpow_add₀ nonzero]
  congr 1
  omega

section Interval

variable {significand : Nat} {scale : Int}

theorem cast_quarter : ((twoTo (scale - 2).toNat : Nat) : ℚ) =
    2 ^ scale / 4 * (twoTo (-(scale - 2)).toNat : Nat) := by
  have shape := @cast_pow_toNat 2 (by decide) (scale - 2)
  have quarter : (2 : ℚ) ^ (scale - 2) = 2 ^ scale / 4 := by
    rw [zpow_sub₀ (by norm_num)]
    norm_num
  rw [Nat.cast_ofNat, quarter] at shape
  exact shape

/-- Quarters of the unit in the last place, compared with a quotient over the denominator of the target. -/
theorem quarters_le {quarters numerator denominator : Nat} (some : 0 < denominator) :
    (quarters * twoTo (scale - 2).toNat * denominator ≤ numerator * twoTo (-(scale - 2)).toNat ↔
        (quarters / 4 * 2 ^ scale : ℚ) ≤ numerator / denominator) ∧
      (numerator * twoTo (-(scale - 2)).toNat ≤ quarters * twoTo (scale - 2).toNat * denominator ↔
        (numerator / denominator : ℚ) ≤ quarters / 4 * 2 ^ scale) := by
  have divisor : (0 : ℚ) < denominator := by exact_mod_cast some
  have unit : (0 : ℚ) < (twoTo (-(scale - 2)).toNat : Nat) := by
    exact_mod_cast Nat.pow_pos (by decide)
  have factor : (0 : ℚ) < (twoTo (-(scale - 2)).toNat : Nat) * denominator := by positivity
  have left : ((quarters * twoTo (scale - 2).toNat * denominator : Nat) : ℚ) =
      quarters / 4 * 2 ^ scale * ((twoTo (-(scale - 2)).toNat : Nat) * denominator) := by
    rw [Nat.cast_mul, Nat.cast_mul, cast_quarter]
    ring
  have right : ((numerator * twoTo (-(scale - 2)).toNat : Nat) : ℚ) =
      numerator / denominator * ((twoTo (-(scale - 2)).toNat : Nat) * denominator) := by
    rw [Nat.cast_mul]
    field_simp
  constructor
  · rw [← @Nat.cast_le ℚ, left, right, mul_le_mul_iff_left₀ factor]
  · rw [← @Nat.cast_le ℚ, left, right, mul_le_mul_iff_left₀ factor]

/-- The first of the quarters that belong to the interval, or end it. -/
theorem quarters_low (positive : 0 < significand) :
    ((4 * significand - (if significand = fractionCount ∧ -1074 < scale then 1 else 2) : Nat) : ℚ) / 4 =
      significand - gapBelow significand scale := by
  unfold gapBelow
  split
  · rw [Nat.cast_sub (by omega)]
    push_cast
    ring
  · rw [Nat.cast_sub (by omega)]
    push_cast
    ring

theorem quarters_high : ((4 * significand + 2 : Nat) : ℚ) / 4 = significand + 1 / 2 := by
  push_cast
  ring

/-- The target holds the quotients in the interval of its number. -/
theorem holds_iff (positive : 0 < significand) {numerator denominator : Nat} (some : 0 < denominator) :
    (Target.ofParts significand scale).holds numerator denominator = true ↔
      RoundsTo (numerator / denominator) significand scale := by
  obtain ⟨lowLe, lowGe⟩ := @quarters_le scale
    (4 * significand - (if significand = fractionCount ∧ -1074 < scale then 1 else 2)) numerator
    denominator some
  obtain ⟨highGe, highLe⟩ := @quarters_le scale (4 * significand + 2) numerator denominator some
  rw [quarters_low positive] at lowLe lowGe
  rw [quarters_high] at highGe highLe
  unfold Target.holds Target.ofParts
  simp only [decide_eq_true_eq]
  split
  · rename_i even
    simp only [Bool.and_eq_true, decide_eq_true_eq, lowLe, highLe]
    exact ⟨fun inside => ⟨inside.1, inside.2, fun odd => by omega⟩,
      fun rounds => ⟨rounds.low, rounds.high⟩⟩
  · rename_i odd
    have odd : significand % 2 = 1 := by omega
    simp only [Bool.and_eq_true, decide_eq_true_eq, ← Nat.not_le, lowGe, highGe, not_le]
    exact ⟨fun inside => ⟨inside.1.le, inside.2.le, fun _ => ⟨inside.1.ne, inside.2.ne⟩⟩,
      fun rounds => ⟨lt_of_le_of_ne rounds.low (rounds.odd odd).1,
        lt_of_le_of_ne rounds.high (rounds.odd odd).2⟩⟩

theorem cast_center :
    ((Target.ofParts significand scale).center : ℚ) =
      significand * 2 ^ scale * (Target.ofParts significand scale).denominator := by
  have shape : (Target.ofParts significand scale).center =
      4 * significand * twoTo (scale - 2).toNat := rfl
  have below : (Target.ofParts significand scale).denominator = twoTo (-(scale - 2)).toNat := rfl
  rw [shape, below, Nat.cast_mul, Nat.cast_mul, cast_quarter]
  push_cast
  ring

theorem onGrid_holds {target : Target} {exponent : Int} {digits : Nat}
    (found : target.onGrid? exponent = some digits) :
    target.holds (digits * tenTo exponent.toNat) (tenTo (-exponent).toNat) = true := by
  unfold Target.onGrid? at found
  simp only at found
  split at found
  · cases found
    assumption
  · cases found
    assumption
  · cases found
  · split at found
    · cases found
      assumption
    · split at found
      · cases found
        assumption
      · split at found <;> cases found <;> assumption

theorem cast_grid (digits : Nat) (exponent : Int) :
    ((digits * tenTo exponent.toNat : Nat) / (tenTo (-exponent).toNat : Nat) : ℚ) =
      digits * 10 ^ exponent := by
  have some : ((tenTo (-exponent).toNat : Nat) : ℚ) ≠ 0 := by
    exact_mod_cast Nat.ne_of_gt (tenTo_pos _)
  rw [div_eq_iff some, Nat.cast_mul, mul_assoc]
  exact congrArg (fun power : ℚ => digits * power) (@cast_pow_toNat 10 (by decide) exponent)

theorem roundsTo_of_onGrid (positive : 0 < significand) {exponent : Int} {digits : Nat}
    (found : (Target.ofParts significand scale).onGrid? exponent = some digits) :
    RoundsTo (digits * 10 ^ exponent) significand scale := by
  have holds := (holds_iff positive (tenTo_pos _)).mp (onGrid_holds found)
  rwa [cast_grid] at holds

theorem roundsTo_of_lt {point : ℚ}
    (low : (significand - gapBelow significand scale) * 2 ^ scale < point)
    (high : point < (significand + 1 / 2) * 2 ^ scale) : RoundsTo point significand scale :=
  ⟨low.le, high.le, fun _ => ⟨low.ne, high.ne⟩⟩

theorem le_gapBelow (significand : Nat) (scale : Int) : 1 / 4 ≤ gapBelow significand scale := by
  unfold gapBelow
  split <;> norm_num

/-- The neighbour below a number on a grid, and the one above it. -/
theorem neighbours (exponent : Int) :
    let target := Target.ofParts significand scale
    let lower := target.center * tenTo (-exponent).toNat / (target.denominator * tenTo exponent.toNat)
    (lower * 10 ^ exponent : ℚ) ≤ significand * 2 ^ scale ∧
      (significand * 2 ^ scale : ℚ) < (lower + 1) * 10 ^ exponent := by
  intro target lower
  have divisor : 0 < target.denominator * tenTo exponent.toNat :=
    Nat.mul_pos (Nat.pow_pos (by decide)) (tenTo_pos _)
  have below := Nat.div_mul_le_self (target.center * tenTo (-exponent).toNat)
    (target.denominator * tenTo exponent.toNat)
  have above := Nat.lt_mul_of_div_lt (Nat.lt_succ_self lower) divisor
  have factor : (0 : ℚ) < target.denominator * (tenTo (-exponent).toNat : Nat) := by
    have first : (0 : ℚ) < target.denominator := by exact_mod_cast Nat.pow_pos (by decide)
    have second : (0 : ℚ) < (tenTo (-exponent).toNat : Nat) := by exact_mod_cast tenTo_pos _
    exact mul_pos first second
  have step : ((tenTo exponent.toNat : Nat) : ℚ) = 10 ^ exponent * (tenTo (-exponent).toNat : Nat) :=
    @cast_pow_toNat 10 (by decide) exponent
  have center : (target.center : ℚ) = significand * 2 ^ scale * target.denominator := cast_center
  constructor
  · refine le_of_mul_le_mul_right ?_ factor
    have cast : ((lower * (target.denominator * tenTo exponent.toNat) : Nat) : ℚ) ≤
        (target.center * tenTo (-exponent).toNat : Nat) := by exact_mod_cast below
    rw [Nat.cast_mul, Nat.cast_mul, Nat.cast_mul, center, step] at cast
    linarith
  · refine lt_of_mul_lt_mul_right ?_ factor.le
    have cast : ((target.center * tenTo (-exponent).toNat : Nat) : ℚ) <
        ((lower + 1) * (target.denominator * tenTo exponent.toNat) : Nat) := by exact_mod_cast above
    rw [Nat.cast_mul, Nat.cast_mul, Nat.cast_mul, center, step] at cast
    push_cast at cast
    linarith

/-- A grid with a step below three quarters of the unit in the last place has a point in the interval. -/
theorem onGrid_ne_none (positive : 0 < significand) {exponent : Int}
    (fine : (10 : ℚ) ^ exponent < 3 / 4 * 2 ^ scale) :
    (Target.ofParts significand scale).onGrid? exponent ≠ none := by
  have unit : (0 : ℚ) < 2 ^ scale := by positivity
  have gap := mul_le_mul_of_nonneg_right (le_gapBelow significand scale) unit.le
  obtain ⟨below, above⟩ := @neighbours significand scale exponent
  intro none
  unfold Target.onGrid? at none
  simp only at none
  split at none
  · cases none
  · cases none
  · rename_i lowerOut upperOut
    have outside {digits : Nat} (out : (Target.ofParts significand scale).holds
        (digits * tenTo exponent.toNat) (tenTo (-exponent).toNat) = false) :
        ¬ RoundsTo (digits * 10 ^ exponent) significand scale := by
      rw [← cast_grid, ← holds_iff positive (tenTo_pos _), out]
      simp
    have lower := outside lowerOut
    have upper := outside upperOut
    generalize (Target.ofParts significand scale).center * tenTo (-exponent).toNat /
      ((Target.ofParts significand scale).denominator * tenTo exponent.toNat) = digits at *
    push_cast at upper
    have lowerEnd : (digits * 10 ^ exponent : ℚ) ≤
        (significand - gapBelow significand scale) * 2 ^ scale := by
      by_contra inside
      exact lower (roundsTo_of_lt (not_le.mp inside) (by linarith))
    have upperEnd : ((significand : ℚ) + 1 / 2) * 2 ^ scale ≤ (digits + 1) * 10 ^ exponent := by
      by_contra inside
      exact upper (roundsTo_of_lt (by linarith) (not_le.mp inside))
    linarith
  · split at none
    · cases none
    · split at none
      · cases none
      · split at none <;> cases none

/-- No number is below the first place of its decimal length. -/
theorem decimalLength_le (positive : 0 < significand) :
    (10 : ℚ) ^ ((Target.ofParts significand scale).decimalLength - 1) ≤ significand * 2 ^ scale := by
  generalize shape : Target.ofParts significand scale = target
  have center : (target.center : ℚ) = significand * 2 ^ scale * target.denominator :=
    shape ▸ cast_center
  have some : 0 < target.denominator := shape ▸ Nat.pow_pos (by decide)
  have core : 0 < target.center := by
    rw [← shape]
    exact Nat.mul_pos (Nat.mul_pos (by decide) positive) (Nat.pow_pos (by decide))
  have divisor : (0 : ℚ) < target.denominator := by exact_mod_cast some
  have whole : (significand * 2 ^ scale : ℚ) = target.center / target.denominator := by
    rw [eq_div_iff divisor.ne', center]
  rw [whole]
  unfold Target.decimalLength
  split
  · rename_i large
    have quotient : 0 < target.center / target.denominator := Nat.div_pos large some
    exact le_trans (length_toDigits_spec quotient).1 Nat.cast_div_le
  · rename_i small
    have quotient : 0 < target.denominator / target.center := Nat.div_pos (by omega) core
    have short := (length_toDigits_spec quotient).2
    generalize (Nat.toDigits 10 (target.denominator / target.center)).length = length at short
    have level : 1 - (length : Int) - 1 = -(length : Int) := by omega
    rw [zpow_natCast] at short
    have next : target.denominator / target.center < 10 ^ length := by exact_mod_cast short
    have cast : (target.denominator : ℚ) ≤ 10 ^ length * target.center := by
      exact_mod_cast (Nat.lt_mul_of_div_lt next core).le
    rw [level, zpow_neg, zpow_natCast, inv_le_iff_one_le_mul₀ (by positivity), div_mul_eq_mul_div,
      one_le_div divisor, mul_comm]
    exact cast

/-- The search ends in the interval, if one of its grids has a point there. -/
theorem roundsTo_search (positive : 0 < significand) {exponent : Int} {grids : Nat}
    (fine : ∃ further < grids,
      (Target.ofParts significand scale).onGrid? (exponent - (further : Nat)) ≠ none) :
    RoundsTo (((Target.ofParts significand scale).search exponent grids).digits *
      10 ^ ((Target.ofParts significand scale).search exponent grids).exponent) significand scale := by
  induction grids generalizing exponent with
  | zero =>
      obtain ⟨_, impossible, _⟩ := fine
      cases impossible
  | succ grids ih =>
      rw [Target.search]
      split
      · rename_i digits found
        exact roundsTo_of_onGrid positive found
      · rename_i missed
        obtain ⟨further, within, hit⟩ := fine
        cases further with
        | zero => exact absurd (by simpa using missed) hit
        | succ further =>
            refine ih ⟨further, by omega, ?_⟩
            have same : exponent - 1 - (further : Int) = exponent - ((further + 1 : Nat) : Int) := by
              omega
            rwa [same]

/-- The shortest decimal of a number stands in the interval of the number. -/
theorem roundsTo_decimal (parts : IsParts significand scale) :
    RoundsTo (decimal significand scale).value significand scale := by
  rw [decimal, if_neg (Nat.ne_of_gt parts.positive)]
  refine roundsTo_search parts.positive ⟨17, by decide, onGrid_ne_none parts.positive ?_⟩
  have unit : (0 : ℚ) < 2 ^ scale := by positivity
  have least := @decimalLength_le significand scale parts.positive
  have bound : (significand : ℚ) ≤ 2 * fractionCount := by exact_mod_cast parts.bound.le
  have size : (fractionCount : ℚ) = 4503599627370496 := rfl
  have step : (10 : ℚ) ^ ((Target.ofParts significand scale).decimalLength - 1 - (17 : Nat)) =
      10 ^ ((Target.ofParts significand scale).decimalLength - 1) / 10 ^ 17 := by
    rw [zpow_sub₀ (by norm_num), zpow_natCast]
  rw [step, div_lt_iff₀ (by positivity)]
  have slack := mul_le_mul_of_nonneg_right bound unit.le
  rw [size] at slack
  norm_num at slack ⊢
  linarith

end Interval

section Fields

variable {exponent : Fin 2047} {fraction : Fin fractionCount}

theorem decimal_zero (scale : Int) : decimal 0 scale = ⟨0, 0⟩ :=
  rfl

theorem decimal_proper (exponent : Fin 2047) (fraction : Fin fractionCount) :
    (decimal (significand exponent fraction) (scale exponent)).IsProper := by
  by_cases zero : significand exponent fraction = 0
  · rw [zero, decimal_zero]
    exact fun _ => rfl
  · have parts := isParts_fields zero
    have above := (roundsTo_decimal parts).gt parts
    have some : (0 : ℚ) < 2 ^ (scale exponent - 1) := by positivity
    intro none
    rw [Decimal.value, none, Nat.cast_zero, zero_mul] at above
    linarith

/-- Every decimal of the value of the shortest one is rounded to the number. -/
theorem ofDecimal_of_value {digits : Nat} {power : Int} (value : (digits * 10 ^ power : ℚ) =
      (decimal (significand exponent fraction) (scale exponent)).value) (negative : Bool) :
    ofDecimal negative digits power = .finite negative exponent fraction := by
  by_cases zero : significand exponent fraction = 0
  · have nothing : digits = 0 := by
      rw [zero, decimal_zero, Decimal.value, Nat.cast_zero, zero_mul] at value
      have unit : (0 : ℚ) < 10 ^ power := by positivity
      exact_mod_cast (mul_eq_zero.mp value).resolve_right unit.ne'
    have fields : exponent.val = 0 ∧ fraction.val = 0 := by
      unfold significand at zero
      split at zero
      · exact ⟨by assumption, zero⟩
      · have some : 0 < fractionCount := by decide
        omega
    rw [ofDecimal, if_pos nothing, Binary64.zero]
    simp only [Binary64.finite.injEq, Fin.ext_iff, true_and]
    exact ⟨fields.1.symm, fields.2.symm⟩
  · have parts := isParts_fields zero
    rw [ofDecimal_of_roundsTo parts (value ▸ roundsTo_decimal parts), ofParts_fields]

end Fields

end Shortest

end Candid
