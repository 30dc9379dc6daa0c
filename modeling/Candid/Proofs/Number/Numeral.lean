import Candid.Number.Numeral
import Candid.Number.Power
import Candid.Proofs.Text.Character
import Mathlib.Data.List.Induction
import Mathlib.Data.Nat.Digits.Defs
import Mathlib.Tactic.Ring

/-!
# Digits of a numeral

The number that digit values spell is below the power of ten of their count, so a number that was read
within the digit limit can be written within it. The digits of a number spell the number, and the first
of them is zero for zero only.
-/

set_option autoImplicit false

namespace Candid.Numeral

theorem ofDigits_concat (digits : List Nat) (digit : Nat) :
    ofDigits (digits ++ [digit]) = 10 * ofDigits digits + digit := by
  simp [ofDigits]

theorem ofDigits_append (digits others : List Nat) :
    ofDigits (digits ++ others) = ofDigits digits * 10 ^ others.length + ofDigits others := by
  induction others using List.reverseRecOn with
  | nil => simp [ofDigits]
  | append_singleton others digit ih =>
      rw [← List.append_assoc, ofDigits_concat, ih, ofDigits_concat, List.length_append,
        List.length_singleton, Nat.pow_succ]
      ring

theorem ofDigits_zeros (count : Nat) : ofDigits (List.replicate count 0) = 0 := by
  induction count with
  | zero => rfl
  | succ count ih => rw [List.replicate_succ', ofDigits_concat, ih]

theorem ofDigits_lt {digits : List Nat} (decimal : ∀ digit ∈ digits, digit < 10) :
    ofDigits digits < 10 ^ digits.length := by
  induction digits using List.reverseRecOn with
  | nil => decide
  | append_singleton digits digit ih =>
      have front := ih fun other member => decimal other (by simp [member])
      have last := decimal digit (by simp)
      rw [ofDigits_concat, List.length_append, List.length_singleton, Nat.pow_succ]
      omega

def digitValues (digits : Text) : List Nat :=
  digits.map fun c => c.toNat - '0'.toNat

theorem digitValues_append (digits others : Text) :
    digitValues (digits ++ others) = digitValues digits ++ digitValues others :=
  List.map_append

theorem length_digitValues (digits : Text) : (digitValues digits).length = digits.length :=
  List.length_map _

theorem ofDigits_ofNat (number : Nat) : ofDigits (digitValues (ofNat number)) = number := by
  rw [ofDigits, digitValues, List.foldl_map]
  exact Nat.ofDigitChars_toDigits (by decide) (by decide)

theorem isDigit_of_mem_ofNat {number : Nat} {c : Char} (member : c ∈ ofNat number) :
    c.isDigit = true :=
  Nat.isDigit_of_mem_toDigits (by decide) (by decide) member

theorem ofNat_zero : ofNat 0 = ['0'] :=
  Nat.toDigits_zero 10

/-- The numeral of a number that is not zero does not begin with zero. -/
theorem exists_front_ofNat {number : Nat} (some : number ≠ 0) :
    ∃ c rest, ofNat number = c :: rest ∧ c ≠ '0' := by
  induction number using Nat.strongRecOn with
  | ind number ih =>
      have digits : ∀ digit < 10, digit ≠ 0 → Nat.digitChar digit ≠ '0' := by decide
      by_cases small : number < 10
      · exact ⟨Nat.digitChar number, [], Nat.toDigits_of_lt_base small, digits number small some⟩
      · obtain ⟨c, rest, shape, front⟩ := ih (number / 10) (by omega) (by omega)
        refine ⟨c, rest ++ [Nat.digitChar (number % 10)], ?_, front⟩
        rw [ofNat, Nat.toDigits_of_base_le (by decide) (by omega)]
        rw [ofNat] at shape
        rw [shape, List.cons_append]

theorem length_ofNat_le {number digits : Nat} (some : 0 < digits) :
    (ofNat number).length ≤ digits ↔ number < 10 ^ digits :=
  Nat.length_toDigits_le_iff (by decide) some

theorem length_ofNat_of_value {negative : Bool} {digits : List Nat} {number : Int}
    (decimal : ∀ digit ∈ digits, digit < 10) (read : value negative digits = .ok number) :
    (ofNat number.natAbs).length ≤ digitLimit := by
  have bound := ofDigits_lt decimal
  unfold value at read
  split at read
  · cases read
  · rename_i within
    have size : number.natAbs = ofDigits digits := by
      split at read <;> cases read <;> simp
    rw [length_ofNat_le (by decide), size]
    exact Nat.lt_of_lt_of_le bound (Nat.pow_le_pow_right (by decide) (by omega))

/-- The digits of a text are as many as its characters, and none of these is a hyphen. -/
theorem length_of_digits {text : Text} {digits : List Nat} (found : digits? text = some digits) :
    digits.length = text.length ∧ '-' ∉ text := by
  have all : text.mapM digitValue? = some digits := by
    unfold digits? at found
    split at found
    · cases found
    · exact found
  clear found
  induction text generalizing digits with
  | nil =>
      cases all
      simp
  | cons c text ih =>
      simp only [List.mapM_cons, Option.bind_eq_bind, Option.bind_eq_some_iff] at all
      obtain ⟨digit, first, others, further, same⟩ := all
      cases same
      obtain ⟨size, free⟩ := ih further
      refine ⟨by simp [size], ?_⟩
      rw [List.mem_cons, not_or]
      refine ⟨?_, free⟩
      rintro rfl
      have none : digitValue? '-' = Option.none := by decide
      cases none.symm.trans first

theorem exists_tail (text : Text) : ∃ tail, text = withoutFinalLineFeed text ++ tail := by
  unfold withoutFinalLineFeed
  split
  · rename_i feed
    have some : text ≠ [] := by
      rintro rfl
      cases feed
    exact ⟨[text.getLast some], (List.dropLast_concat_getLast some).symm⟩
  · exact ⟨[], (List.append_nil text).symm⟩

section Reading

theorem digits?_ofNat (number : Nat) :
    digits? (ofNat number) = some (digitValues (ofNat number)) := by
  have some : ofNat number ≠ [] := Nat.toDigits_ne_nil
  have each : ∀ text : Text, (∀ c ∈ text, c.isDigit = true) →
      text.mapM digitValue? = Option.some (digitValues text) := by
    intro text decimal
    induction text with
    | nil => rfl
    | cons c text ih =>
        have first := digitValue?_of_decimal (decimal c List.mem_cons_self)
        have others := ih fun d member => decimal d (List.mem_cons_of_mem c member)
        rw [List.mapM_cons, first, others]
        rfl
  have filled : (ofNat number).isEmpty = false := List.isEmpty_eq_false_iff.mpr some
  rw [digits?, filled]
  exact each _ fun c => isDigit_of_mem_ofNat

theorem hyphen_not_mem_ofNat (number : Nat) : '-' ∉ ofNat number := by
  intro member
  have digit := isDigit_of_mem_ofNat member
  cases digit

theorem signed?_ofInt (number : Int) :
    signed? (ofInt number) = some (decide (number < 0), digitValues (ofNat number.natAbs)) := by
  unfold ofInt
  split
  · rename_i below
    rw [signed?, digits?_ofNat]
    simp [below]
  · rename_i natural
    have some : ofNat number.natAbs ≠ [] := Nat.toDigits_ne_nil
    obtain ⟨c, rest, shape⟩ := List.exists_cons_of_ne_nil some
    have other : c ≠ '-' := by
      rintro rfl
      exact hyphen_not_mem_ofNat number.natAbs (by simp [shape])
    have bare : signed? (ofNat number.natAbs) = (digits? (ofNat number.natAbs)).map (false, ·) := by
      rw [shape, signed?]
      intro behind same
      cases same
      exact other rfl
    simp [bare, digits?_ofNat, natural]

theorem withoutFinalLineFeed_ofInt (number : Int) :
    withoutFinalLineFeed (ofInt number) = ofInt number := by
  have free : '\n' ∉ ofInt number := by
    have digits : '\n' ∉ ofNat number.natAbs := by
      intro member
      have digit := isDigit_of_mem_ofNat member
      cases digit
    unfold ofInt
    split
    · simpa using digits
    · exact digits
  unfold withoutFinalLineFeed
  split
  · rename_i feed
    exact absurd (List.mem_of_getLast? (by simpa using feed)) free
  · rfl

theorem read?_ofInt {number : Int} (limited : (ofNat number.natAbs).length ≤ digitLimit) :
    read? (ofInt number) = some (.ok number) := by
  have short : ¬ digitLimit < (digitValues (ofNat number.natAbs)).length := by
    rw [length_digitValues]
    omega
  have signed : (if number < 0 then -(number.natAbs : Int) else number.natAbs) = number := by
    split <;> omega
  rw [read?, withoutFinalLineFeed_ofInt, signed?_ofInt]
  simp only [Option.map_some, value, if_neg short, ofDigits_ofNat, decide_eq_true_eq,
    Option.some.injEq]
  rw [← apply_ite Except.ok, signed]

end Reading

end Candid.Numeral
