import Candid.Proofs.Argument.Converted
import Candid.Proofs.Argument.Spelling
import Candid.Proofs.Fragment.Rendered
import Candid.Proofs.Number.Numeral
import Candid.Proofs.Number.Whole

/-!
# Spellings of integers

An integer of a type without a width is spelled natively, as its numeral, or as the finite number that
equals it. Native integers and numerals come together in one form, on both sides of `10 ^ 19`: short
integers are native and long ones are text. Whole floating-point numbers become native integers of any
size, so they join that form below `10 ^ 19` only.
-/

set_option autoImplicit false

namespace Candid.Argument

open Json
open Relation (ReflTransGen)

inductive SpellsInteger (number : Int) : Value → Prop where
  | native : SpellsInteger number (.integer number)
  | numeral : SpellsInteger number (.text (Numeral.ofInt number))
  | float {float : Binary64} : float.rational? = some (number : ℚ) → SpellsInteger number (.float float)

def canonicalInteger (number : Int) : Value :=
  if number.natAbs < tenTo nativeDigits then .integer number else .text (Numeral.ofInt number)

/-- The value spells an integer whose numeral is within the digit limit, and no long one as a
floating-point number. -/
structure SpellsWithin (number : Int) (value : Value) : Prop where
  spells : SpellsInteger number value
  limited : (Numeral.ofNat number.natAbs).length ≤ digitLimit
  short : ∀ float, value = .float float → number.natAbs < tenTo nativeDigits

/-- The leaf is a type of integers without a width. -/
def IsUnbounded (leaf : Text) : Prop :=
  ∃ scalar, Scalar.ofText? leaf = some scalar ∧ scalar.isUnbounded = true

section Scalars

variable {number : Int} {value : Value} {leaf : Text}

theorem numeralLength_ofInt (number : Int) :
    numeralLength (Numeral.ofInt number) = (Numeral.ofNat number.natAbs).length := by
  have bare : (Numeral.ofNat number.natAbs).dropWhile (· = '-') = Numeral.ofNat number.natAbs := by
    rw [List.dropWhile_eq_self_iff]
    intro some
    simp only [decide_eq_true_eq]
    intro hyphen
    exact Numeral.hyphen_not_mem_ofNat number.natAbs (hyphen ▸ List.getElem_mem some)
  unfold Numeral.ofInt numeralLength
  split
  · simp [bare]
  · rw [bare]

theorem nativeDigits_lt_numeralLength_iff (number : Int) :
    nativeDigits < numeralLength (Numeral.ofInt number) ↔ ¬ number.natAbs < tenTo nativeDigits := by
  rw [numeralLength_ofInt, ← Nat.not_le, Numeral.length_ofNat_le (by decide)]
  rfl

theorem asUnbounded_of_spells (within : SpellsWithin number value) (path : Text) :
    asUnbounded value path = .ok (canonicalInteger number) := by
  obtain ⟨spells, limited, short⟩ := within
  unfold canonicalInteger
  cases spells with
  | native =>
      simp only [asUnbounded, Numeral.write, if_pos limited]
      split <;> rfl
  | numeral =>
      simp only [asUnbounded, Numeral.read?_ofInt limited, nativeDigits_lt_numeralLength_iff,
        ite_not]
      split <;> rfl
  | @float float exact =>
      obtain ⟨whole, part⟩ := Binary64.rational?_eq_some_int.mp exact
      simp only [asUnbounded, Binary64.isFinite_of_rational? exact, whole, part, if_pos (short float rfl),
        ↓reduceIte, Option.getD_some]

theorem convert_of_unbounded (unbounded : IsUnbounded leaf) (value : Value) (path : Text) :
    convert (.leaf leaf) value path = asUnbounded value path := by
  obtain ⟨scalar, named, size⟩ := unbounded
  simp only [convert, convertLeaf, named]
  cases scalar with
  | nat | int => rfl
  | _ => cases size

theorem check_of_spells (unbounded : IsUnbounded leaf) (spells : SpellsInteger number value)
    (strict : Bool) (path : Text) : check strict (.leaf leaf) value path = [] := by
  obtain ⟨scalar, named, size⟩ := unbounded
  simp only [check, checkLeaf, named]
  cases scalar with
  | nat | int => cases spells <;> rfl
  | _ => cases size

end Scalars

/-- One integer in the first value, which a walk along the type through options, sequences and records
comes to, is spelled in another way in the second. -/
inductive RespellsInteger : Outline → Value → Value → Prop where
  | integer {leaf : Text} {number : Int} {value other : Value} :
      IsUnbounded leaf → SpellsWithin number value → SpellsWithin number other →
      RespellsInteger (.leaf leaf) value other
  | opt {inner : Outline} {value other : Value} :
      RespellsInteger inner value other → RespellsInteger (.opt inner) value other
  | item {inner : Outline} {items : List Value} {item other : Value} (index : Nat) :
      items[index]? = some item → RespellsInteger inner item other →
      RespellsInteger (.vec inner) (.list items) (.list (items.set index other))
  | named {fields : List (Text × Outline)} {members : List (Text × Value)} {member other : Value}
      (name : Text) :
      Dictionary.find? name members = some member →
      (∀ field ∈ fields, field.1 = name → RespellsInteger field.2 member other) →
      RespellsInteger (.record fields) (.object members) (.object (Dictionary.put name other members))
  | placed {fields : List (Text × Outline)} {field : Text × Outline} {items : List Value}
      {item other : Value} (index : Nat) :
      fields[index]? = some field → items[index]? = some item → RespellsInteger field.2 item other →
      RespellsInteger (.record fields) (.list items) (.list (items.set index other))

theorem SpellsInteger.isNull {number : Int} {value : Value} (spells : SpellsInteger number value) :
    value.isNull = false := by
  cases spells <;> rfl

theorem RespellsInteger.isNull {outline : Outline} {value other : Value}
    (respells : RespellsInteger outline value other) : value.isNull = false ∧ other.isNull = false := by
  induction respells with
  | integer _ first second => exact ⟨first.spells.isNull, second.spells.isNull⟩
  | opt _ ih => exact ih
  | item | named | placed => exact ⟨rfl, rfl⟩

/-- Another spelling of one integer changes nothing. -/
theorem RespellsInteger.sameOutcome {outline : Outline} {value other : Value}
    (respells : RespellsInteger outline value other) : SameOutcome outline value other := by
  induction respells with
  | integer unbounded first second =>
      constructor
      · intro path
        rw [convert_of_unbounded unbounded, convert_of_unbounded unbounded,
          asUnbounded_of_spells first, asUnbounded_of_spells second]
      · intro strict path
        rw [check_of_spells unbounded first.spells, check_of_spells unbounded second.spells]
  | opt respells ih =>
      obtain ⟨first, second⟩ := respells.isNull
      exact SameOutcome.opt first second ih
  | item index place _ ih => exact SameOutcome.vec (forall₂_set (SameOutcome.refl _) place ih)
  | @named fields members member other name found _ ih =>
      apply SameOutcome.object
      intro field declared
      by_cases same : field.1 = name
      · rw [same, found, Dictionary.find?_put_self]
        exact .some (ih field declared same)
      · rw [Dictionary.find?_put_of_ne (Ne.symm same)]
        cases Dictionary.find? field.1 members with
        | none => exact .none
        | some value => exact .some (.refl _ value)
  | @placed fields field items item other index declared place _ ih =>
      apply SameOutcome.list (List.length_set ..).symm
      intro position another first second typed held put
      by_cases same : index = position
      · subst same
        rw [List.getElem?_set_self (List.getElem?_eq_some_iff.mp place).1] at put
        cases declared.symm.trans typed
        cases place.symm.trans held
        cases put
        exact ih
      · rw [List.getElem?_set_ne same, held] at put
        cases put
        exact .refl _ _

section Decoding

theorem solid_of_digits {digits : Text} (some : digits ≠ [])
    (decimal : ∀ c ∈ digits, c.isDigit = true) : digits.Solid := by
  have solid {c : Char} (member : c ∈ digits) : isBlank c = false :=
    isBlank_of_isDigit (isDigit_of_decimal (decimal c member))
  obtain ⟨c, rest, shape⟩ := List.exists_cons_of_ne_nil some
  have last := List.dropLast_concat_getLast some
  exact ⟨⟨c, rest, shape, solid (by simp [shape])⟩,
    _, _, last.symm, solid (List.getLast_mem some)⟩

theorem looksLikeJson_of_digit {text : Text} {c : Char} (last : text.getLast? = some c)
    (digit : c.isDigit = true) : looksLikeJson text = false := by
  have other {d : Char} (noDigit : d.isDigit = false) : c ≠ d := by
    rintro rfl
    cases digit.symm.trans noDigit
  have noWord : text ∉ ["null".toList, "true".toList, "false".toList] := by
    intro member
    simp only [List.mem_cons, List.not_mem_nil, or_false] at member
    rcases member with rfl | rfl | rfl
    · exact other (d := 'l') (by decide) (Option.some.inj last).symm
    · exact other (d := 'e') (by decide) (Option.some.inj last).symm
    · exact other (d := 'e') (by decide) (Option.some.inj last).symm
  have brace : c ≠ '\x7d' := other (by decide)
  have bracket : c ≠ ']' := other (by decide)
  simp only [looksLikeJson, last, List.contains_eq_mem, decide_eq_false noWord]
  simp [brace, bracket]

theorem preParse_ofInt (number : Int) :
    preParse (.text (Numeral.ofInt number)) = .text (Numeral.ofInt number) := by
  have some : Numeral.ofNat number.natAbs ≠ [] := Nat.toDigits_ne_nil
  have decimal : ∀ c ∈ Numeral.ofNat number.natAbs, c.isDigit = true :=
    fun c => Numeral.isDigit_of_mem_ofNat
  have digits := solid_of_digits some decimal
  have solid : (Numeral.ofInt number).Solid := by
    unfold Numeral.ofInt
    split
    · obtain ⟨rest, c, shape, noBlank⟩ := digits.back
      exact ⟨⟨'-', _, rfl, by decide⟩, '-' :: rest, c, by rw [shape]; rfl, noBlank⟩
    · exact digits
  obtain ⟨c, last, digit⟩ : ∃ c, (Numeral.ofInt number).getLast? = Option.some c ∧
      c.isDigit = true := by
    refine ⟨(Numeral.ofNat number.natAbs).getLast some, ?_, decimal _ (List.getLast_mem some)⟩
    unfold Numeral.ofInt
    split
    · rw [List.getLast?_cons, List.getLast?_eq_some_getLast some]
      rfl
    · exact List.getLast?_eq_some_getLast some
  simp only [preParse, solid.trim, looksLikeJson_of_digit last digit, Bool.false_eq_true, ↓reduceIte]

end Decoding

theorem SpellsInteger.preParse {number : Int} {value : Value} (spells : SpellsInteger number value) :
    preParse value = value := by
  cases spells with
  | numeral => exact preParse_ofInt number
  | native | float => rfl

theorem RespellsInteger.preParse {outline : Outline} {value other : Value}
    (respells : RespellsInteger outline value other) :
    preParse value = value ∧ Argument.preParse other = other := by
  induction respells with
  | integer _ first second => exact ⟨first.spells.preParse, second.spells.preParse⟩
  | opt _ ih => exact ih
  | item | named | placed => exact ⟨rfl, rfl⟩

theorem RespellsInteger.buildValue {type : Text} {value other : Value}
    (respells : RespellsInteger (.ofText type) value other) :
    buildValue type value = Argument.buildValue type other := by
  obtain ⟨first, second⟩ := respells.preParse
  rw [Argument.buildValue, Argument.buildValue, first, second]
  exact respells.sameOutcome.converted []

end Candid.Argument
