import Candid.Number.Scientific
import Candid.Proofs.Number.Numeral
import Candid.Proofs.Number.Shortest
import Mathlib.Data.List.DropRight

/-!
# Digits of a floating-point number

The significant digits of a decimal are its digits without the zeros at their end, so together with the
exponent they have the value of the decimal. They do not begin with zero, except for the single digit of
zero itself.
-/

set_option autoImplicit false

namespace Candid

namespace Scientific

open Numeral

/-- The value of digits of which the first has the given place. -/
def placedValue (digits : Text) (exponent : Int) : ℚ :=
  ofDigits (digitValues digits) * 10 ^ (exponent + 1 - digits.length)

/-- Digits that may be significant: there is one, and the first is zero for zero only. -/
structure IsSignificant (digits : Text) (exponent : Int) : Prop where
  decimal : ∀ c ∈ digits, c.isDigit = true
  nonempty : digits ≠ []
  front : digits.head? = some '0' → digits = ['0'] ∧ exponent = 0

theorem isDigit_of_mem_zeros {count : Nat} {c : Char} (member : c ∈ zeros count) :
    c.isDigit = true := by
  rw [List.eq_of_mem_replicate member]
  rfl

theorem digitValues_zeros (count : Nat) : digitValues (zeros count) = List.replicate count 0 := by
  simp [digitValues, zeros]

theorem ofDigits_append_zeros (digits : Text) (count : Nat) :
    ofDigits (digitValues (digits ++ zeros count)) = ofDigits (digitValues digits) * 10 ^ count := by
  rw [digitValues_append, ofDigits_append, digitValues_zeros, ofDigits_zeros, List.length_replicate,
    Nat.add_zero]

theorem ofDigits_zeros_append (count : Nat) (digits : Text) :
    ofDigits (digitValues (zeros count ++ digits)) = ofDigits (digitValues digits) := by
  rw [digitValues_append, ofDigits_append, digitValues_zeros, ofDigits_zeros, Nat.zero_mul,
    Nat.zero_add]

/-- The digits of a number end with the zeros that are not significant. -/
theorem exists_zeros (digits : Text) :
    ∃ count, digits = digits.rdropWhile (· = '0') ++ zeros count := by
  have tail : digits.rtakeWhile (· = '0') = zeros (digits.rtakeWhile (· = '0')).length :=
    List.eq_replicate_iff.mpr ⟨rfl, fun c member => by simpa using List.mem_rtakeWhile_imp member⟩
  refine ⟨(digits.rtakeWhile (· = '0')).length, ?_⟩
  rw [← tail, List.rdropWhile_append_rtakeWhile]

section Significant

variable {decimal : Decimal} (proper : decimal.IsProper)

include proper

theorem significant_isSignificant :
    IsSignificant (significant decimal).1 (significant decimal).2 ∧
      placedValue (significant decimal).1 (significant decimal).2 = decimal.value := by
  have kept : significant decimal =
      (if ((ofNat decimal.digits).rdropWhile (· = '0')).isEmpty then zeros 1
        else (ofNat decimal.digits).rdropWhile (· = '0'),
        ((ofNat decimal.digits).length : Int) - 1 + decimal.exponent) := rfl
  rw [kept]
  by_cases zero : decimal.digits = 0
  · have value : decimal.value = 0 := by simp [Decimal.value, zero]
    rw [value, zero, proper zero]
    have none : ofDigits (digitValues (zeros 1)) = 0 := rfl
    show IsSignificant (zeros 1) 0 ∧ placedValue (zeros 1) 0 = 0
    refine ⟨⟨fun c member => isDigit_of_mem_zeros member, List.cons_ne_nil _ _,
      fun _ => ⟨rfl, rfl⟩⟩, ?_⟩
    rw [placedValue, none, Nat.cast_zero, zero_mul]
  · obtain ⟨c, rest, shape, first⟩ := exists_front_ofNat zero
    have front := List.rdropWhile_prefix (· = '0') (ofNat decimal.digits)
    have some : (ofNat decimal.digits).rdropWhile (· = '0') ≠ [] := by
      rw [ne_eq, List.rdropWhile_eq_nil_iff, shape]
      intro all
      exact first (by simpa using all c (by simp))
    rw [if_neg (by simpa using some)]
    refine ⟨⟨fun d member => isDigit_of_mem_ofNat (front.subset member), some, ?_⟩, ?_⟩
    · intro leading
      obtain ⟨tail, whole⟩ := front
      obtain ⟨d, others, digits⟩ := List.exists_cons_of_ne_nil some
      rw [digits] at leading whole
      rw [shape] at whole
      cases whole
      exact absurd (Option.some.inj leading) first
    · obtain ⟨count, whole⟩ := exists_zeros (ofNat decimal.digits)
      generalize (ofNat decimal.digits).rdropWhile (· = '0') = significant at whole
      have number : decimal.digits = ofDigits (digitValues significant) * 10 ^ count := by
        rw [← ofDigits_append_zeros, ← whole, ofDigits_ofNat]
      have size : (ofNat decimal.digits).length = significant.length + count := by
        rw [whole, List.length_append, zeros, List.length_replicate]
      have level : ((ofNat decimal.digits).length : Int) - 1 + decimal.exponent + 1 -
          significant.length = count + decimal.exponent := by
        rw [size]
        omega
      rw [placedValue, level, Decimal.value, number, zpow_add₀ (by norm_num), zpow_natCast]
      push_cast
      ring

end Significant

end Scientific

end Candid
