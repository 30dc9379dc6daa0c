import Candid.Proofs.Number.Rounding

/-!
# Whole numbers

What a finite number stands for, as an exact fraction. A number stands for an integer exactly when it
passes for whole, and then it is this integer that is left when the fraction is taken off.
-/

set_option autoImplicit false

namespace Candid.Binary64

def rational? : Binary64 → Option ℚ
  | .finite negative exponent fraction =>
    let size : ℚ := significand exponent fraction * 2 ^ scale exponent
    some (if negative then -size else size)
  | _ => none

/-- A scaled significand passes for whole, with a whole part, exactly if it is that natural number. -/
theorem isWhole_and_wholePart {significand whole : Nat} {scale : Int} :
    isWhole significand scale = true ∧ wholePart significand scale = whole ↔
      (significand : ℚ) * 2 ^ scale = whole := by
  unfold isWhole wholePart
  by_cases natural : 0 ≤ scale
  · rw [if_pos natural, ← twoTo_toNat natural]
    simp only [natural, decide_true, Bool.true_or, true_and]
    exact_mod_cast Iff.rfl
  · obtain ⟨places, positive, rfl⟩ : ∃ places : Nat, 0 < places ∧ scale = -places :=
      ⟨scale.natAbs, by omega, by omega⟩
    have unit : (0 : ℚ) < twoTo places := by
      exact_mod_cast (Nat.pow_pos (by decide) : 0 < 2 ^ places)
    have power : (2 : ℚ) ^ (-(places : Int)) = (twoTo places : ℚ)⁻¹ := by
      rw [zpow_neg, ← twoTo_toNat (by omega), Int.toNat_natCast]
    rw [if_neg natural, neg_neg, Int.toNat_natCast, power, ← div_eq_mul_inv, div_eq_iff unit.ne']
    simp only [natural, decide_false, Bool.false_or, beq_iff_eq]
    constructor
    · rintro ⟨even, rfl⟩
      have split := Nat.div_add_mod' significand (twoTo places)
      rw [even, Nat.add_zero] at split
      exact_mod_cast split.symm
    · intro same
      have same : significand = whole * twoTo places := by exact_mod_cast same
      have some : 0 < twoTo places := by exact_mod_cast unit
      rw [same]
      exact ⟨Nat.mul_mod_left _ _, Nat.mul_div_cancel _ some⟩

/-- A number stands for an integer exactly if it passes for whole and this integer is its whole part. -/
theorem rational?_eq_some_int {number : Binary64} {whole : Int} :
    number.rational? = some (whole : ℚ) ↔
      number.isInteger = true ∧ number.truncate? = some whole := by
  cases number with
  | infinite | nan => simp [rational?, isInteger]
  | finite negative exponent fraction =>
      have parts (size : Nat) := @isWhole_and_wholePart (significand exponent fraction) size
        (scale exponent)
      simp only [rational?, isInteger, truncate?, Option.some.injEq]
      constructor
      · intro same
        have natural : (significand exponent fraction : ℚ) * 2 ^ scale exponent = whole.natAbs := by
          have positive : (0 : ℚ) ≤ significand exponent fraction * 2 ^ scale exponent := by positivity
          rw [Nat.cast_natAbs, Int.cast_abs, ← same]
          split
          · rw [abs_neg, abs_of_nonneg positive]
          · rw [abs_of_nonneg positive]
        obtain ⟨passes, part⟩ := (parts _).mpr natural
        rw [part, passes]
        refine ⟨rfl, ?_⟩
        rw [natural] at same
        rw [← @Int.cast_inj ℚ, Int.cast_ite, Int.cast_neg, Int.cast_natCast, same]
      · rintro ⟨passes, part⟩
        have size := (parts _).mp ⟨passes, rfl⟩
        rw [size, ← part]
        split <;> push_cast <;> rfl

theorem isFinite_of_rational? {number : Binary64} {value : ℚ} (exact : number.rational? = some value) :
    number.isFinite = true := by
  cases number with
  | finite => rfl
  | infinite | nan => cases exact

end Candid.Binary64
