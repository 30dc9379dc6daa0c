import Candid.Json.Writer
import Candid.Proofs.Json.Decoded
import Candid.Proofs.Number.Scientific

/-!
# Reading numbers

A written number is read back to its end, if what stands behind it cannot belong to a number. The text
of a floating-point number has the value of its shortest decimal, and so it is rounded to the number.
-/

set_option autoImplicit false

namespace Candid.Json

namespace Reader

open Numeral

/-- No part of a number stands in front. -/
def EndsNumber (rest : Text) : Prop :=
  ∀ c ∈ rest.head?, c.isDigit = false ∧ c ≠ '.' ∧ c ≠ 'e' ∧ c ≠ 'E'

structure IsDigits (digits : Text) : Prop where
  decimal : ∀ c ∈ digits, c.isDigit = true
  nonempty : digits ≠ []

/-- Digits that a number may begin with: a single zero, or digits of which the first is not zero. -/
structure IsWhole (digits : Text) : Prop extends IsDigits digits where
  front : digits.head? = some '0' → digits = ['0']

inductive IsPower : Int → Text → Prop where
  | positive {digits : Text} : IsDigits digits →
      IsPower (ofDigits (digitValues digits)) ('e' :: '+' :: digits)
  | negative {digits : Text} : IsDigits digits →
      IsPower (-ofDigits (digitValues digits)) ('e' :: '-' :: digits)

/-- The text makes a floating-point number of the whole digits in front of it: it holds the digits
behind the point and a power of ten, or one of the two. -/
inductive IsFloatTail : Text → Int → Text → Prop where
  | fraction {parts : Text} : IsDigits parts → IsFloatTail parts 0 ('.' :: parts)
  | power {power : Int} {text : Text} : IsPower power text → IsFloatTail [] power text
  | both {parts text : Text} {power : Int} : IsDigits parts → IsPower power text →
      IsFloatTail parts power ('.' :: (parts ++ text))

section Parts

variable {digits rest : Text}

theorem digitRun_append (decimal : ∀ c ∈ digits, c.isDigit = true)
    (ends : ∀ c ∈ rest.head?, c.isDigit = false) :
    digitRun (digits ++ rest) = (digitValues digits, rest) := by
  obtain ⟨taken, left⟩ := span_eq decimal ends
  rw [digitRun, taken, left, digitValues]

theorem digitValues_ne_nil (nonempty : digits ≠ []) : digitValues digits ≠ [] := by
  simpa [digitValues] using nonempty

theorem wholeDigits_append (whole : IsWhole digits) (ends : ∀ c ∈ rest.head?, c.isDigit = false) :
    wholeDigits? (digits ++ rest) = some (digitValues digits, rest) := by
  obtain ⟨c, others, rfl⟩ := List.exists_cons_of_ne_nil whole.nonempty
  by_cases zero : c = '0'
  · subst zero
    cases whole.front rfl
    rfl
  · have run := digitRun_append whole.decimal ends
    rw [List.cons_append] at run ⊢
    unfold wholeDigits?
    split
    · rename_i same
      cases same
      exact absurd rfl zero
    · rw [run]
      split
      · rename_i none
        exact absurd (congrArg Prod.fst none) (digitValues_ne_nil whole.nonempty)
      · rfl

theorem fraction_of_no_point {text : Text} (other : text.head? ≠ some '.') :
    fraction text = ([], text) := by
  unfold fraction
  split
  · exact absurd rfl other
  · rfl

theorem fraction_append (some : IsDigits digits) (ends : ∀ c ∈ rest.head?, c.isDigit = false) :
    fraction ('.' :: (digits ++ rest)) = (digitValues digits, rest) := by
  rw [fraction, digitRun_append some.decimal ends]
  split
  · rename_i none
    exact absurd (congrArg Prod.fst none) (digitValues_ne_nil some.nonempty)
  · rfl

theorem exponent_of_no_mark {text : Text} (small : text.head? ≠ some 'e')
    (capital : text.head? ≠ some 'E') : exponent? text = (none, text) := by
  unfold exponent?
  simp only
  split
  · exact absurd rfl small
  · exact absurd rfl capital
  · rfl

theorem exponent_append {power : Int} {text : Text} (scaled : IsPower power text)
    (ends : ∀ c ∈ rest.head?, c.isDigit = false) : exponent? (text ++ rest) = (some power, rest) := by
  have found {digits : Text} (some : IsDigits digits) : ∃ digit others,
      digitValues digits = digit :: others ∧ digitRun (digits ++ rest) = (digit :: others, rest) := by
    obtain ⟨digit, others, shape⟩ := List.exists_cons_of_ne_nil (digitValues_ne_nil some.nonempty)
    exact ⟨digit, others, shape, by rw [digitRun_append some.decimal ends, shape]⟩
  cases scaled with
  | positive some =>
      obtain ⟨digit, others, values, run⟩ := found some
      simp only [List.cons_append, exponent?, run, values, Int.one_mul]
  | negative some =>
      obtain ⟨digit, others, values, run⟩ := found some
      simp only [List.cons_append, exponent?, run, values, Int.neg_mul, Int.one_mul]

end Parts

section Numbers

variable {negative : Bool} {digits rest : Text}

theorem EndsNumber.digit (ends : EndsNumber rest) : ∀ c ∈ rest.head?, c.isDigit = false :=
  fun c front => (ends c front).1

theorem EndsNumber.fraction (ends : EndsNumber rest) : Reader.fraction rest = ([], rest) :=
  fraction_of_no_point fun front => (ends '.' front).2.1 rfl

theorem EndsNumber.exponent (ends : EndsNumber rest) : exponent? rest = (none, rest) :=
  exponent_of_no_mark (fun front => (ends 'e' front).2.2.1 rfl)
    (fun front => (ends 'E' front).2.2.2 rfl)

theorem number_of_integer (whole : IsWhole digits) (ends : EndsNumber rest) {number : Int}
    (found : Numeral.value negative (digitValues digits) = .ok number) :
    number? negative (digits ++ rest) = some (.ok (.integer number, rest)) := by
  rw [number?, wholeDigits_append whole ends.digit, Option.map_some]
  simp only [ends.fraction, ends.exponent, found]

theorem number_of_parts {text after behind : Text} {whole parts : List Nat} {power : Option Int}
    (front : wholeDigits? text = some (whole, behind)) {middle : Text}
    (fractional : fraction behind = (parts, middle)) (scaled : exponent? middle = (power, after))
    (float : parts ≠ [] ∨ power ≠ none) (negative : Bool) :
    number? negative text = some (.ok (.float (.ofDecimal negative (ofDigits (whole ++ parts))
      (power.getD 0 - parts.length)), after)) := by
  rw [number?, front, Option.map_some]
  simp only [fractional, scaled]
  split
  · rename_i same
    cases same
    simp at float
  · rename_i same
    cases same
    rfl

/-- Whole digits with a fraction or a power of ten behind them are a floating-point number. -/
theorem number_of_tail (whole : IsWhole digits) {parts tail : Text} {power : Int}
    (float : IsFloatTail parts power tail) (ends : EndsNumber rest) (negative : Bool) :
    number? negative (digits ++ tail ++ rest) = some (.ok (.float (.ofDecimal negative
      (ofDigits (digitValues (digits ++ parts))) (power - parts.length)), rest)) := by
  have notDigit (mark : Char) (others : Text) (other : mark.isDigit = false) :
      ∀ c ∈ (mark :: others).head?, c.isDigit = false := by
    rintro c ⟨⟩
    exact other
  have marked {power : Int} {text : Text} (scaled : IsPower power text) :
      ∃ others, text ++ rest = 'e' :: others := by
    cases scaled <;> exact ⟨_, rfl⟩
  rw [List.append_assoc, digitValues_append, ← length_digitValues parts]
  cases float with
  | fraction some =>
      exact number_of_parts (wholeDigits_append whole (notDigit '.' _ rfl))
        (fraction_append some ends.digit) ends.exponent (.inl (digitValues_ne_nil some.nonempty)) _
  | power scaled =>
      have back := exponent_append scaled ends.digit
      obtain ⟨others, mark⟩ := marked scaled
      rw [mark] at back ⊢
      exact number_of_parts (wholeDigits_append whole (notDigit 'e' _ rfl))
        (fraction_of_no_point (by simp)) back (.inr (by simp)) _
  | both some scaled =>
      have back := exponent_append scaled ends.digit
      obtain ⟨others, mark⟩ := marked scaled
      rw [List.cons_append, List.append_assoc]
      rw [mark] at back ⊢
      exact number_of_parts (wholeDigits_append whole (notDigit '.' _ rfl))
        (fraction_append some (notDigit 'e' _ rfl)) back (.inr (by simp)) _

theorem plain_of_digit {c : Char} (digit : c.isDigit = true) (rest : Text) :
    plain (c :: rest) =
      (number? false (c :: rest)).getD (.error (.flawed .expectedValue (c :: rest))) := by
  have other (d : Char) (letter : d.isDigit = false) : d ≠ c := by
    rintro rfl
    cases letter.symm.trans digit
  have noWord : ∀ word ∈ words, word.1.after? (c :: rest) = none := by
    simp [words, Text.after?, other 'n' (by decide), other 't' (by decide),
      other 'f' (by decide), other 'N' (by decide), other 'I' (by decide),
      other '-' (by decide)]
  have noSign : (c :: rest).head? ≠ some '-' := by simpa using (other '-' (by decide)).symm
  rw [plain_of_no_word noWord, if_neg noSign]

theorem plain_of_signed_digit {c : Char} (digit : c.isDigit = true) (rest : Text) :
    plain ('-' :: c :: rest) =
      (number? true (c :: rest)).getD (.error (.flawed .expectedValue ('-' :: c :: rest))) := by
  have other : 'I' ≠ c := by
    rintro rfl
    cases digit
  have noWord : ∀ word ∈ words, word.1.after? ('-' :: c :: rest) = none := by
    simp [words, Text.after?, other]
  rw [plain_of_no_word noWord, List.head?_cons, if_pos rfl, List.tail_cons]

end Numbers

theorem isDigits_ofNat (number : Nat) : IsDigits (Numeral.ofNat number) :=
  ⟨fun _ => Numeral.isDigit_of_mem_ofNat, Nat.toDigits_ne_nil⟩

theorem isWhole_ofNat (number : Nat) : IsWhole (Numeral.ofNat number) where
  toIsDigits := isDigits_ofNat number
  front := by
    intro zero
    by_cases none : number = 0
    · rw [none, Numeral.ofNat_zero]
    · obtain ⟨c, rest, shape, other⟩ := Numeral.exists_front_ofNat none
      rw [shape] at zero
      exact absurd (Option.some.inj zero) other

end Reader

namespace Reader

open Numeral Scientific

section Float

variable {digits : Text} {exponent : Int}

theorem isWhole_of_isSignificant (significant : IsSignificant digits exponent) : IsWhole digits where
  decimal := significant.decimal
  nonempty := significant.nonempty
  front zero := (significant.front zero).1

theorem IsDigits.append {front back : Text} (some : IsDigits back)
    (decimal : ∀ c ∈ front, c.isDigit = true) : IsDigits (front ++ back) where
  decimal c member := (List.mem_append.mp member).elim (decimal c) (some.decimal c)
  nonempty := by simp [some.nonempty]

theorem isDigits_zero : IsDigits ['0'] where
  decimal c member := by
    rw [List.mem_singleton.mp member]
    rfl
  nonempty := List.cons_ne_nil _ _

/-- The text is whole digits with a fraction or a power of ten behind them, and has the value. -/
def Spells (text : Text) (value : ℚ) : Prop :=
  ∃ whole parts power tail, text = whole ++ tail ∧ IsWhole whole ∧ IsFloatTail parts power tail ∧
    (ofDigits (digitValues (whole ++ parts)) * 10 ^ (power - parts.length) : ℚ) = value

theorem positional_spells (significant : IsSignificant digits exponent) :
    Spells (positional digits exponent) (placedValue digits exponent) := by
  have whole := isWhole_of_isSignificant significant
  unfold positional placedValue
  split
  · -- Zeros stand between the point and the digits.
    rename_i negative
    generalize places : (-exponent).toNat - 1 = count
    refine ⟨['0'], zeros count ++ digits, 0, _, rfl, ⟨isDigits_zero, fun _ => rfl⟩,
      .fraction (whole.toIsDigits.append fun _ => isDigit_of_mem_zeros), ?_⟩
    have front : ['0'] ++ (zeros count ++ digits) = zeros (count + 1) ++ digits := rfl
    have level : 0 - ((zeros count ++ digits).length : Int) = exponent + 1 - digits.length := by
      rw [List.length_append, zeros, List.length_replicate]
      omega
    rw [front, ofDigits_zeros_append, level]
  · rename_i natural
    simp only
    split
    · -- Zeros stand between the digits and the point.
      generalize places : exponent.toNat + 1 - digits.length = count
      refine ⟨digits ++ zeros count, ['0'], 0, _, rfl, ⟨⟨?_, by simp [significant.nonempty]⟩, ?_⟩,
        .fraction isDigits_zero, ?_⟩
      · intro c member
        exact (List.mem_append.mp member).elim (significant.decimal c) isDigit_of_mem_zeros
      · intro zero
        obtain ⟨c, others, rfl⟩ := List.exists_cons_of_ne_nil significant.nonempty
        obtain ⟨single, rfl⟩ := significant.front zero
        rw [single, ← places, single]
        rfl
      · have back : digits ++ zeros count ++ ['0'] = digits ++ zeros (count + 1) := by
          rw [List.append_assoc, zeros, zeros, List.replicate_succ']
        have level : exponent + 1 - digits.length = ((count + 1 : Nat) : Int) + (0 - (1 : Nat)) := by
          omega
        rw [back, ofDigits_append_zeros, level, zpow_add₀ (by norm_num), zpow_natCast,
          List.length_singleton]
        push_cast
        ring
    · -- The point stands among the digits.
      rename_i long
      have some : digits.drop (exponent.toNat + 1) ≠ [] := fun none =>
        long (List.drop_eq_nil_iff.mp none)
      refine ⟨digits.take (exponent.toNat + 1), digits.drop (exponent.toNat + 1), 0, _, rfl,
        ⟨⟨fun c member => significant.decimal c (List.mem_of_mem_take member), ?_⟩, ?_⟩,
        .fraction ⟨fun c member => significant.decimal c (List.mem_of_mem_drop member), some⟩, ?_⟩
      · simp [significant.nonempty]
      · intro zero
        obtain ⟨c, others, rfl⟩ := List.exists_cons_of_ne_nil significant.nonempty
        have single := (significant.front (by simpa using zero)).1
        rw [single] at long
        exact absurd (Nat.le_add_left 1 _) long
      · have level : 0 - ((digits.drop (exponent.toNat + 1)).length : Int) =
            exponent + 1 - digits.length := by
          rw [List.length_drop]
          omega
        rw [List.take_append_drop, level]

theorem exponential_spells (layout : Layout) (significant : IsSignificant digits exponent) :
    Spells (exponential layout digits exponent) (placedValue digits exponent) := by
  have power : IsPower exponent ('e' :: (if exponent < 0 then '-' else '+') ::
      (zeros (layout.exponentDigits - (ofNat exponent.natAbs).length) ++ ofNat exponent.natAbs)) := by
    generalize layout.exponentDigits - (ofNat exponent.natAbs).length = count
    have some : IsDigits (zeros count ++ ofNat exponent.natAbs) :=
      (isDigits_ofNat _).append fun _ => isDigit_of_mem_zeros
    have number : ofDigits (digitValues (zeros count ++ ofNat exponent.natAbs)) = exponent.natAbs := by
      rw [ofDigits_zeros_append, ofDigits_ofNat]
    split
    · have shape := IsPower.negative some
      rw [number] at shape
      convert shape using 1
      omega
    · have shape := IsPower.positive some
      rw [number] at shape
      convert shape using 1
      omega
  obtain ⟨first, others, rfl⟩ := List.exists_cons_of_ne_nil significant.nonempty
  have whole : IsWhole [first] := by
    refine ⟨⟨fun c member => significant.decimal c ?_, by simp⟩, fun zero => ?_⟩
    · exact List.mem_cons.mpr (.inl (List.mem_singleton.mp member))
    · rw [Option.some.inj zero]
  have level : exponent - (others.length : Int) = exponent + 1 - (first :: others).length := by
    rw [List.length_cons]
    omega
  cases others with
  | nil => exact ⟨[first], [], exponent, _, rfl, whole, .power power, by rw [level]; rfl⟩
  | cons second others =>
      refine ⟨[first], second :: others, exponent, _, rfl, whole, .both ⟨fun c member => ?_, ?_⟩ power,
        by rw [level]; rfl⟩
      · exact significant.decimal c (List.mem_cons_of_mem first member)
      · simp

/-- The text of a decimal has the value of the decimal. -/
theorem render_spells (layout : Layout) {decimal : Decimal} (proper : decimal.IsProper) :
    Spells (render layout decimal) decimal.value := by
  obtain ⟨significant, value⟩ := significant_isSignificant proper
  rw [← value]
  unfold render
  simp only
  split
  · exact positional_spells significant
  · exact exponential_spells layout significant

end Float

end Reader

section Written

variable {rest : Text}

open Reader

theorem plain_word {word : Text} {value : Value} (member : (word, value) ∈ words) :
    plain (word ++ rest) = .ok (value, rest) := by
  simp only [words, List.mem_cons, List.not_mem_nil, or_false, Prod.mk.injEq] at member
  rcases member with ⟨rfl, rfl⟩ | ⟨rfl, rfl⟩ | ⟨rfl, rfl⟩ | ⟨rfl, rfl⟩ | ⟨rfl, rfl⟩ | ⟨rfl, rfl⟩ <;> rfl

theorem plain_writeInteger {number : Int} {text : Text} (written : writeInteger number = .ok text)
    (ends : EndsNumber rest) : plain (text ++ rest) = .ok (.integer number, rest) := by
  have within : (Numeral.ofNat number.natAbs).length ≤ digitLimit ∧ text = Numeral.ofInt number := by
    unfold writeInteger Numeral.write at written
    split at written
    · exact ⟨by assumption, (Except.ok.inj written).symm⟩
    · cases written
  obtain ⟨short, rfl⟩ := within
  have whole := isWhole_ofNat number.natAbs
  have value (negative : Bool) : Numeral.value negative (Numeral.digitValues (Numeral.ofNat number.natAbs)) =
      .ok (if negative then -(number.natAbs : Int) else number.natAbs) := by
    rw [Numeral.value, Numeral.length_digitValues, if_neg (Nat.not_lt.mpr short),
      Numeral.ofDigits_ofNat]
    split <;> rfl
  obtain ⟨c, others, digits⟩ := List.exists_cons_of_ne_nil whole.nonempty
  have digit : c.isDigit = true := whole.decimal c (by simp [digits])
  unfold Numeral.ofInt
  split
  · have read := number_of_integer whole ends (value true)
    rw [digits, List.cons_append] at read ⊢
    rw [List.cons_append, plain_of_signed_digit digit, read]
    have same : -(number.natAbs : Int) = number := by omega
    simp only [↓reduceIte, same, Option.getD_some]
  · have read := number_of_integer whole ends (value false)
    rw [digits, List.cons_append] at read ⊢
    rw [plain_of_digit digit, read]
    have same : (number.natAbs : Int) = number := by omega
    simp only [Bool.false_eq_true, ↓reduceIte, same, Option.getD_some]

theorem plain_writeFloat {policy : NonFinite} {number : Binary64} {text : Text}
    (written : writeFloat policy number = .ok text) (ends : EndsNumber rest) :
    plain (text ++ rest) = .ok (.float number, rest) := by
  cases number with
  | finite negative exponent fraction =>
      cases written
      obtain ⟨whole, parts, power, tail, shape, front, float, value⟩ :=
        render_spells Scientific.Layout.standard (Shortest.decimal_proper exponent fraction)
      obtain ⟨c, others, digits⟩ := List.exists_cons_of_ne_nil front.nonempty
      have digit : c.isDigit = true := front.decimal c (by simp [digits])
      have read := number_of_tail front float ends negative
      rw [Shortest.ofDecimal_of_value value, digits, List.cons_append, List.cons_append] at read
      simp only [Binary64.text, Binary64.finiteText, shape, digits]
      cases negative with
      | true =>
          simp only [↓reduceIte, List.cons_append]
          rw [plain_of_signed_digit digit, read]
          rfl
      | false =>
          simp only [Bool.false_eq_true, ↓reduceIte, List.cons_append]
          rw [plain_of_digit digit, read]
          rfl
  | infinite negative =>
      cases policy with
      | written => cases negative <;> cases written <;> exact plain_word (by simp [words])
      | _ => cases written
  | nan =>
      cases policy with
      | written =>
          cases written
          exact plain_word (by simp [words])
      | _ => cases written

end Written

end Candid.Json
