import Candid.Number.Binary64
import Mathlib.Algebra.Order.Field.Power
import Mathlib.Data.Rat.Defs
import Mathlib.Tactic.FieldSimp
import Mathlib.Tactic.Linarith
import Mathlib.Tactic.Positivity
import Mathlib.Tactic.Ring

/-!
# Rounding to a binary64 number

Every decimal in the interval around a finite number is rounded to this number. The ends of the
interval belong to it exactly when the significand is even, and the gap below a power of two is half the
gap above it.
-/

set_option autoImplicit false

namespace Candid.Binary64

/-- A quotient is rounded to `whole` if it is no further away than a half, and a half only if `whole`
is even. -/
theorem roundedQuotient_eq {numerator denominator whole : Nat} (some : 0 < denominator)
    (low : 2 * (whole * denominator) ≤ 2 * numerator + denominator)
    (high : 2 * numerator ≤ 2 * (whole * denominator) + denominator)
    (even : whole % 2 = 1 → 2 * (whole * denominator) ≠ 2 * numerator + denominator ∧
      2 * numerator ≠ 2 * (whole * denominator) + denominator) :
    roundedQuotient numerator denominator = whole := by
  have split := Nat.div_add_mod' numerator denominator
  have rest := Nat.mod_lt numerator some
  have near : whole = numerator / denominator ∨ whole = numerator / denominator + 1 := by
    rcases Nat.lt_trichotomy whole (numerator / denominator) with less | same | more
    · have below := Nat.mul_le_mul_right denominator (Nat.succ_le_of_lt less)
      rw [Nat.succ_mul] at below
      omega
    · exact .inl same
    · refine .inr (Nat.le_antisymm ?_ more)
      by_contra far
      have above := Nat.mul_le_mul_right denominator (Nat.succ_le_of_lt (Nat.not_le.mp far))
      simp only [Nat.succ_mul] at above
      omega
  unfold roundedQuotient
  simp only
  rcases near with rfl | rfl
  · split_ifs <;> omega
  · rw [Nat.add_mul, Nat.one_mul] at low high even
    split_ifs <;> omega

theorem twoTo_toNat {exponent : Int} (natural : 0 ≤ exponent) :
    (twoTo exponent.toNat : ℚ) = 2 ^ exponent := by
  obtain ⟨exponent, rfl⟩ := Int.eq_ofNat_of_zero_le natural
  simp [twoTo]

theorem tenTo_toNat {exponent : Int} (natural : 0 ≤ exponent) :
    (tenTo exponent.toNat : ℚ) = 10 ^ exponent := by
  obtain ⟨exponent, rfl⟩ := Int.eq_ofNat_of_zero_le natural
  simp [tenTo]

theorem tenTo_pos (exponent : Nat) : 0 < tenTo exponent :=
  Nat.pow_pos (by decide)

theorem cast_fractionCount : (fractionCount : ℚ) = 2 ^ (52 : Int) := by
  norm_num [fractionCount, twoTo]

section Quotient

variable {numerator denominator : Nat}

theorem scaled_spec (some : 0 < denominator) (scale : Int) :
    0 < (scaled numerator denominator scale).2 ∧
      ((scaled numerator denominator scale).1 : ℚ) =
        numerator / denominator / 2 ^ scale * (scaled numerator denominator scale).2 := by
  have nonzero : (denominator : ℚ) ≠ 0 := by exact_mod_cast Nat.ne_of_gt some
  unfold scaled
  split
  · rename_i natural
    refine ⟨Nat.mul_pos some (Nat.pow_pos (by decide)), ?_⟩
    simp only [Nat.cast_mul, twoTo_toNat natural]
    field_simp
  · rename_i negative
    refine ⟨some, ?_⟩
    simp only [Nat.cast_mul, twoTo_toNat (Int.neg_nonneg_of_nonpos (Int.le_of_not_le negative)),
      zpow_neg]
    field_simp

theorem log2_spec {number : Nat} (some : 0 < number) :
    (2 : ℚ) ^ (number.log2 : Int) ≤ number ∧ (number : ℚ) < 2 ^ ((number.log2 : Int) + 1) := by
  constructor
  · rw [zpow_natCast]
    exact_mod_cast Nat.log2_self_le (Nat.ne_of_gt some)
  · rw [← Nat.cast_succ, zpow_natCast]
    exact_mod_cast Nat.lt_log2_self

theorem leadingScale_spec (positive : 0 < numerator) (some : 0 < denominator) :
    (2 : ℚ) ^ (leadingScale numerator denominator + 52) ≤ numerator / denominator ∧
      (numerator / denominator : ℚ) < 2 ^ (leadingScale numerator denominator + 53) := by
  obtain ⟨numeratorLow, numeratorHigh⟩ := log2_spec positive
  obtain ⟨denominatorLow, denominatorHigh⟩ := log2_spec some
  have divisor : (0 : ℚ) < denominator := by exact_mod_cast some
  have two : (2 : ℚ) ≠ 0 := by norm_num
  have low : (2 : ℚ) ^ ((numerator.log2 : Int) - (denominator.log2 + 1)) ≤ numerator / denominator := by
    rw [zpow_sub₀ two]
    exact div_le_div₀ (by positivity) numeratorLow divisor denominatorHigh.le
  have high : (numerator / denominator : ℚ) < 2 ^ ((numerator.log2 : Int) + 1 - denominator.log2) := by
    rw [zpow_sub₀ two]
    exact div_lt_div₀ numeratorHigh denominatorLow (by positivity) (by positivity)
  unfold leadingScale
  simp only
  generalize size : (numerator.log2 : Int) - denominator.log2 - 52 = estimate
  obtain ⟨below, ratio⟩ := @scaled_spec numerator _ some estimate
  have within : (scaled numerator denominator estimate).1 <
      (scaled numerator denominator estimate).2 * fractionCount ↔
        (numerator / denominator : ℚ) < 2 ^ (estimate + 52) := by
    have below : (0 : ℚ) < (scaled numerator denominator estimate).2 := by exact_mod_cast below
    rw [← @Nat.cast_lt ℚ, ratio, Nat.cast_mul, cast_fractionCount, mul_comm, mul_lt_mul_iff_right₀ below,
      div_lt_iff₀ (by positivity), ← zpow_add₀ two, add_comm]
  split
  · rename_i small
    constructor
    · convert low using 2
      omega
    · convert within.mp small using 2
      omega
  · rename_i large
    constructor
    · exact not_lt.mp fun small => large (within.mpr small)
    · convert high using 2
      omega

end Quotient

/-- A ratio that is no further away from a significand than a half is rounded to it. -/
theorem roundedQuotient_of_ratio {numerator denominator significand : Nat} {ratio : ℚ}
    (some : 0 < denominator) (same : (numerator : ℚ) = ratio * denominator)
    (low : significand - 1 / 2 ≤ ratio) (high : ratio ≤ significand + 1 / 2)
    (odd : significand % 2 = 1 → significand - 1 / 2 ≠ ratio ∧ ratio ≠ significand + 1 / 2) :
    roundedQuotient numerator denominator = significand := by
  have divisor : (0 : ℚ) < denominator := by exact_mod_cast some
  have below := mul_le_mul_of_nonneg_right low divisor.le
  have above := mul_le_mul_of_nonneg_right high divisor.le
  refine roundedQuotient_eq some ?_ ?_ fun parity => ?_
  · have bound : (2 * (significand * denominator) : ℚ) ≤ 2 * numerator + denominator := by linarith
    exact_mod_cast bound
  · have bound : (2 * numerator : ℚ) ≤ 2 * (significand * denominator) + denominator := by linarith
    exact_mod_cast bound
  · obtain ⟨notLow, notHigh⟩ := odd parity
    constructor
    · intro tie
      have point : (2 * (significand * denominator) : ℚ) = 2 * numerator + denominator := by
        exact_mod_cast tie
      refine notLow (mul_right_cancel₀ divisor.ne' ?_)
      linarith
    · intro tie
      have point : (2 * numerator : ℚ) = 2 * (significand * denominator) + denominator := by
        exact_mod_cast tie
      refine notHigh (mul_right_cancel₀ divisor.ne' ?_)
      linarith

/-- A significand and a scale that a finite number other than zero may have. -/
structure IsParts (significand : Nat) (scale : Int) : Prop where
  positive : 0 < significand
  bound : significand < 2 * fractionCount
  least : -1074 ≤ scale
  greatest : scale ≤ 971
  normal : fractionCount ≤ significand ∨ scale = -1074

/-- How far below a number its interval begins, in units of the last place. -/
def gapBelow (significand : Nat) (scale : Int) : ℚ :=
  if significand = fractionCount ∧ -1074 < scale then 1 / 4 else 1 / 2

structure RoundsTo (point : ℚ) (significand : Nat) (scale : Int) : Prop where
  low : (significand - gapBelow significand scale) * 2 ^ scale ≤ point
  high : point ≤ (significand + 1 / 2) * 2 ^ scale
  odd : significand % 2 = 1 → (significand - gapBelow significand scale) * 2 ^ scale ≠ point ∧
    point ≠ (significand + 1 / 2) * 2 ^ scale

section Interval

variable {point : ℚ} {significand : Nat} {scale : Int}

theorem gapBelow_le (significand : Nat) (scale : Int) : gapBelow significand scale ≤ 1 / 2 := by
  unfold gapBelow
  split <;> norm_num

theorem gapBelow_of_odd (odd : significand % 2 = 1) : gapBelow significand scale = 1 / 2 := by
  refine if_neg fun power => ?_
  have even : fractionCount % 2 = 0 := by decide
  omega

theorem RoundsTo.lt (rounds : RoundsTo point significand scale) (parts : IsParts significand scale) :
    point < 2 ^ (scale + 53) := by
  have unit : (0 : ℚ) < 2 ^ scale := by positivity
  have bound : (significand : ℚ) + 1 ≤ 2 * fractionCount := by exact_mod_cast parts.bound
  have power : (2 : ℚ) ^ (scale + 53) = 2 * fractionCount * 2 ^ scale := by
    rw [cast_fractionCount, zpow_add₀ (by norm_num)]
    norm_num [mul_comm]
  rw [power]
  have high := rounds.high
  have slack := mul_le_mul_of_nonneg_right bound unit.le
  linarith

/-- A quotient just below a power of two has the scale below that of the power; any other quotient in
the interval of a number has the scale of the number. -/
theorem leadingScale_of_roundsTo {numerator denominator : Nat} (positive : 0 < numerator)
    (some : 0 < denominator) (parts : IsParts significand scale)
    (rounds : RoundsTo (numerator / denominator) significand scale) :
    max (leadingScale numerator denominator) (-1074) = scale ∨
      (significand = fractionCount ∧ max (leadingScale numerator denominator) (-1074) = scale - 1) := by
  obtain ⟨from_, upTo⟩ := leadingScale_spec positive some
  have base : (1 : ℚ) < 2 := by norm_num
  have unit : (0 : ℚ) < 2 ^ scale := by positivity
  have power : (2 : ℚ) ^ (scale + 52) = fractionCount * 2 ^ scale := by
    rw [cast_fractionCount, zpow_add₀ (by norm_num), mul_comm]
  have least := parts.least
  have notAbove : leadingScale numerator denominator ≤ scale := by
    have order := (zpow_lt_zpow_iff_right₀ base).mp (lt_of_le_of_lt from_ (rounds.lt parts))
    omega
  rcases parts.normal with normal | rfl
  · by_cases below : (numerator / denominator : ℚ) < 2 ^ (scale + 52)
    · have start : (significand - 1 / 2 : ℚ) * 2 ^ scale ≤ numerator / denominator :=
        le_trans (mul_le_mul_of_nonneg_right
          (by linarith [gapBelow_le significand scale]) unit.le) rounds.low
      have power_of_two : significand = fractionCount := by
        by_contra other
        have more : (fractionCount : ℚ) + 1 ≤ significand := by
          exact_mod_cast Nat.lt_of_le_of_ne normal (Ne.symm other)
        have slack := mul_le_mul_of_nonneg_right more unit.le
        linarith
      have half : (2 : ℚ) ^ (scale + 51) < numerator / denominator := by
        have double : (2 : ℚ) ^ (scale + 52) = 2 ^ (scale + 51) * 2 := by
          rw [← zpow_add_one₀ (by norm_num), add_assoc]
          rfl
        have large : (2 : ℚ) ≤ fractionCount := by exact_mod_cast (by decide : 2 ≤ fractionCount)
        have slack := mul_le_mul_of_nonneg_right large unit.le
        rw [power_of_two] at start
        linarith
      have above := (zpow_lt_zpow_iff_right₀ base).mp (lt_trans half upTo)
      have under := (zpow_lt_zpow_iff_right₀ base).mp (lt_of_le_of_lt from_ below)
      by_cases lowest : scale = -1074
      · exact .inl (by omega)
      · exact .inr ⟨power_of_two, by omega⟩
    · have order := (zpow_lt_zpow_iff_right₀ base).mp (lt_of_le_of_lt (not_lt.mp below) upTo)
      exact .inl (by omega)
  · exact .inl (by omega)

/-- A quotient in the interval of a number is rounded to the number. -/
theorem ofQuotient_of_roundsTo {numerator denominator : Nat} (positive : 0 < numerator)
    (some : 0 < denominator) (parts : IsParts significand scale)
    (rounds : RoundsTo (numerator / denominator) significand scale) (negative : Bool) :
    ofQuotient negative numerator denominator = ofParts negative significand scale := by
  have unit : (0 : ℚ) < 2 ^ scale := by positivity
  unfold ofQuotient
  simp only
  rcases leadingScale_of_roundsTo positive some parts rounds with level | ⟨rfl, below⟩
  · rw [level]
    obtain ⟨divisor, ratio⟩ := @scaled_spec numerator _ some scale
    have rounded : roundedQuotient (scaled numerator denominator scale).1
        (scaled numerator denominator scale).2 = significand := by
      refine roundedQuotient_of_ratio divisor ratio ?_ ?_ fun odd => ?_
      · rw [le_div_iff₀ unit]
        exact le_trans (mul_le_mul_of_nonneg_right
          (by linarith [gapBelow_le significand scale]) unit.le) rounds.low
      · rw [div_le_iff₀ unit]
        exact rounds.high
      · have ends := rounds.odd odd
        rw [gapBelow_of_odd odd] at ends
        rw [ne_eq, ne_eq, eq_div_iff unit.ne', div_eq_iff unit.ne']
        exact ends
    rw [rounded, if_neg (Nat.ne_of_lt parts.bound)]
  · -- The quotient is below the power of two, so it is cut more finely and rounded up to the power.
    rw [below]
    obtain ⟨divisor, ratio⟩ := @scaled_spec numerator _ some (scale - 1)
    have halved : (2 : ℚ) ^ scale = 2 ^ (scale - 1) * 2 := by
      rw [← zpow_add_one₀ (by norm_num), Int.sub_add_cancel]
    have finer : (0 : ℚ) < 2 ^ (scale - 1) := by positivity
    have lowest : -1074 < scale := by omega
    have low := rounds.low
    rw [gapBelow, if_pos ⟨rfl, lowest⟩, halved] at low
    have high : (numerator / denominator : ℚ) < 2 * fractionCount * 2 ^ (scale - 1) := by
      have bound := (leadingScale_spec positive some).2
      have level : leadingScale numerator denominator + 53 ≤ scale - 1 + 53 := by omega
      refine lt_of_lt_of_le bound (le_trans (zpow_le_zpow_right₀ (by norm_num) level) ?_)
      rw [zpow_add₀ (by norm_num), cast_fractionCount]
      norm_num [mul_comm]
    have rounded : roundedQuotient (scaled numerator denominator (scale - 1)).1
        (scaled numerator denominator (scale - 1)).2 = 2 * fractionCount := by
      refine roundedQuotient_of_ratio divisor ratio ?_ ?_ fun odd => by omega
      · rw [le_div_iff₀ finer]
        push_cast
        linarith
      · rw [div_le_iff₀ finer]
        push_cast
        linarith
    rw [rounded, if_pos rfl, Int.sub_add_cancel]

theorem RoundsTo.gt (rounds : RoundsTo point significand scale) (parts : IsParts significand scale) :
    2 ^ (scale - 1) ≤ point := by
  have unit : (0 : ℚ) < 2 ^ scale := by positivity
  have positive : (1 : ℚ) ≤ significand := by exact_mod_cast parts.positive
  have half : (2 : ℚ) ^ (scale - 1) = 1 / 2 * 2 ^ scale := by
    rw [zpow_sub_one₀ (by norm_num)]
    ring
  rw [half]
  exact le_trans (mul_le_mul_of_nonneg_right
    (by linarith [gapBelow_le significand scale]) unit.le) rounds.low

/-- Powers of ten beyond the range of the finite numbers. -/
theorem greatest_lt : (2 : ℚ) ^ (1024 : Int) < 10 ^ (309 : Int) := by
  have natural : 2 ^ 1024 < 10 ^ 309 := by decide +kernel
  rw [zpow_ofNat, zpow_ofNat]
  exact_mod_cast natural

theorem lt_least : (10 : ℚ) ^ (-324 : Int) < 2 ^ (-1075 : Int) := by
  have natural : 2 ^ 1075 < 10 ^ 324 := by decide +kernel
  rw [zpow_neg, zpow_neg, zpow_ofNat, zpow_ofNat, inv_lt_inv₀ (by positivity) (by positivity)]
  exact_mod_cast natural

theorem length_toDigits_spec {digits : Nat} (some : 0 < digits) :
    (10 : ℚ) ^ (((Nat.toDigits 10 digits).length : Int) - 1) ≤ digits ∧
      (digits : ℚ) < 10 ^ ((Nat.toDigits 10 digits).length : Int) := by
  have length : 0 < (Nat.toDigits 10 digits).length := Nat.length_toDigits_pos
  constructor
  · obtain ⟨others, more⟩ := Nat.exists_eq_add_of_lt length
    have size : ((Nat.toDigits 10 digits).length : Int) - 1 = (others : Int) := by omega
    have low : 10 ^ others ≤ digits := by
      by_contra less
      cases others with
      | zero => omega
      | succ others =>
          have short := (Nat.length_toDigits_le_iff (by decide) (by omega)).mpr (Nat.not_le.mp less)
          omega
    rw [size, zpow_natCast]
    exact_mod_cast low
  · have high := (Nat.length_toDigits_le_iff (by decide) length).mp (Nat.le_refl _)
    rw [zpow_natCast]
    exact_mod_cast high

/-- A decimal in the interval of a number is rounded to the number. -/
theorem ofDecimal_of_roundsTo {digits : Nat} {exponent : Int} (parts : IsParts significand scale)
    (rounds : RoundsTo (digits * 10 ^ exponent) significand scale) (negative : Bool) :
    ofDecimal negative digits exponent = ofParts negative significand scale := by
  have above := rounds.gt parts
  have below := rounds.lt parts
  have positive : 0 < digits := by
    by_contra none
    have zero : digits = 0 := by omega
    have some : (0 : ℚ) < 2 ^ (scale - 1) := by positivity
    rw [zero, Nat.cast_zero, zero_mul] at above
    linarith
  obtain ⟨long, short⟩ := length_toDigits_spec positive
  have unit : (0 : ℚ) < 10 ^ exponent := by positivity
  have ten : (1 : ℚ) < 10 := by norm_num
  have notLarge : ((Nat.toDigits 10 digits).length : Int) + exponent ≤ 310 := by
    have cap : (2 : ℚ) ^ (scale + 53) < 10 ^ (309 : Int) := by
      have greatest : scale + 53 ≤ 1024 := by linarith [parts.greatest]
      exact lt_of_le_of_lt (zpow_le_zpow_right₀ (by norm_num) greatest) greatest_lt
    have size : (10 : ℚ) ^ (((Nat.toDigits 10 digits).length : Int) - 1 + exponent) ≤
        digits * 10 ^ exponent := by
      rw [zpow_add₀ (by norm_num)]
      exact mul_le_mul_of_nonneg_right long unit.le
    have order := (zpow_lt_zpow_iff_right₀ ten).mp (lt_of_le_of_lt size (lt_trans below cap))
    omega
  have notSmall : -330 ≤ ((Nat.toDigits 10 digits).length : Int) + exponent := by
    have floor : (10 : ℚ) ^ (-324 : Int) < 2 ^ (scale - 1) := by
      have least : -1075 ≤ scale - 1 := by linarith [parts.least]
      exact lt_of_lt_of_le lt_least (zpow_le_zpow_right₀ (by norm_num) least)
    have size : (digits * 10 ^ exponent : ℚ) <
        10 ^ (((Nat.toDigits 10 digits).length : Int) + exponent) := by
      rw [zpow_add₀ (by norm_num)]
      exact mul_lt_mul_of_pos_right short unit
    have order := (zpow_lt_zpow_iff_right₀ ten).mp (lt_trans floor (lt_of_le_of_lt above size))
    omega
  unfold ofDecimal
  simp only
  rw [if_neg (Nat.ne_of_gt positive), if_neg (Int.not_lt.mpr notLarge),
    if_neg (Int.not_lt.mpr notSmall)]
  split
  · rename_i natural
    refine ofQuotient_of_roundsTo (Nat.mul_pos positive (tenTo_pos _)) Nat.one_pos parts ?_ negative
    rwa [Nat.cast_mul, tenTo_toNat natural, Nat.cast_one, div_one]
  · rename_i negativePower
    refine ofQuotient_of_roundsTo positive (tenTo_pos _) parts ?_ negative
    rwa [tenTo_toNat (by omega), zpow_neg, div_inv_eq_mul]

/-- The fields of a finite number other than zero are its parts. -/
theorem isParts_fields {exponent : Fin 2047} {fraction : Fin fractionCount}
    (some : Binary64.significand exponent fraction ≠ 0) :
    IsParts (Binary64.significand exponent fraction) (Binary64.scale exponent) := by
  have field := exponent.isLt
  have bound := fraction.isLt
  by_cases least : exponent.val = 0
  · simp only [Binary64.significand, Binary64.scale, least, ↓reduceIte] at some ⊢
    exact ⟨Nat.pos_of_ne_zero some, by omega, by omega, by omega, .inr (by omega)⟩
  · simp only [Binary64.significand, Binary64.scale, if_neg least] at some ⊢
    exact ⟨Nat.pos_of_ne_zero some, by omega, by omega, by omega, .inl (by omega)⟩

theorem ofParts_fields (negative : Bool) (exponent : Fin 2047) (fraction : Fin fractionCount) :
    ofParts negative (Binary64.significand exponent fraction) (Binary64.scale exponent) =
      .finite negative exponent fraction := by
  have bound := fraction.isLt
  have field : (if Binary64.significand exponent fraction < fractionCount then 0
      else (Binary64.scale exponent + 1075).toNat) = exponent.val := by
    unfold Binary64.significand Binary64.scale
    by_cases least : exponent.val = 0
    · simp only [least, ↓reduceIte, if_pos bound]
    · rw [if_neg least, if_neg (by omega)]
      omega
  have rest : Binary64.significand exponent fraction % fractionCount = fraction.val := by
    unfold Binary64.significand
    split
    · exact Nat.mod_eq_of_lt bound
    · rw [Nat.add_mod_left, Nat.mod_eq_of_lt bound]
  unfold ofParts
  simp only
  rw [dif_pos (by rw [field]; exact exponent.isLt)]
  simp only [finite.injEq, Fin.ext_iff, true_and]
  exact ⟨field, rest⟩

end Interval

end Candid.Binary64
