import Candid.Proofs.Argument.Built
import Candid.Proofs.Form.Mention
import Candid.Proofs.Fragment.Within
import Candid.Proofs.Json.Inverse

/-!
# Built arguments

What a supported form builds is valid, unless a list or an object is given for an integer without a
width. In a supported form the walk of a value meets no variant, for the keyword of one would be a word
of the type text. The only exception is a keyword with a letter behind it that is of words and of no
name: there the keyword is read, but it is no word of its own.
-/

set_option autoImplicit false

namespace Candid

open Argument Json

namespace Text

/-- No letter or digit stands right behind the word for variants, except those of names. -/
def DelimitsVariants (text : Text) : Prop :=
  ∀ front word back, text = front ++ (word ++ back) → word.lowerLatin = "variant".toList →
    ∀ c ∈ back.head?, isWordCharacter c = true → isNamePart c = true

/-- So it is in an ASCII text, where the letters and digits are those of names. -/
theorem delimitsVariants_of_ascii {text : Text} (ascii : ∀ c ∈ text, c.toNat < 128) :
    text.DelimitsVariants := by
  rintro front word back rfl _ c head letter
  have here := ascii c (by simp [List.mem_of_mem_head? head])
  have named := forall_ascii (p := fun c => isNamePart c || !isWordCharacter c) (by decide +kernel)
    here
  simpa [letter] using named

end Text

section Types

variable {type inner outer : Text}

theorem leadingWord_ne_variant (plain : type.namesUnsupported = false)
    (delimits : type.DelimitsVariants) (within : inner.Within type) :
    leadingWord inner.trim ≠ "variant".toList := by
  intro leads
  obtain ⟨word, rest, shape, spelt, parts, ends⟩ :=
    @exists_leadingWord inner (by rw [leads]; decide)
  rw [leads] at spelt
  obtain ⟨front, back, whole, starts, stops⟩ := (Text.Within.trim inner).trans within
  rw [shape, List.append_assoc] at whole
  have begins : Text.endsInWord front.getLast? = false := by
    cases word with
    | nil => cases spelt
    | cons c word =>
        rw [shape] at starts
        exact starts c rfl (parts c List.mem_cons_self)
  have next : ∀ c ∈ (rest ++ back).head?, isNamePart c = false := by
    cases rest with
    | nil => exact stops
    | cons c rest => exact ends
  have apart : Text.beginsWithWord (rest ++ back) = false := by
    cases head : (rest ++ back).head? with
    | none => simp [Text.beginsWithWord, head]
    | some c =>
        cases letter : isWordCharacter c with
        | false => simp [Text.beginsWithWord, head, letter]
        | true =>
            have part := delimits front word _ whole spelt c head letter
            exact absurd (part.symm.trans (next c head)) (by decide)
  have mentioned : type.Mentions unsupportedWords :=
    ⟨front, word, rest ++ back, whole,
      ⟨"variant".toList, by decide, (Text.spells_iff_of_name parts).mpr spelt⟩, begins, apart⟩
  exact absurd ((Text.namesUnsupported_iff.mpr mentioned).symm.trans plain) (by decide)

/-- With a letter behind it that is of no name, the keyword is read, and yet it is no word. -/
example : Text.namesUnsupported "variant\u00e9 \x7b A \x7d".toList = false ∧
    leadingWord "variant\u00e9 \x7b A \x7d".toList = "variant".toList := by
  decide +kernel

/-- The walk of a value along a type expression meets the types of expressions within it. -/
theorem exists_within_of_meets {outline : Outline} {value part : Value}
    (meets : Meets (.ofText outer) value outline part) :
    ∃ inner, inner.Within outer ∧ outline = .ofText inner := by
  generalize read : Outline.ofText outer = source at meets
  induction meets generalizing outer with
  | here => exact ⟨outer, .refl outer, read.symm⟩
  | opt _ ih =>
      rw [Outline.ofText_eq] at read
      split_ifs at read with leads
      cases read
      obtain ⟨inner, within, same⟩ := ih rfl
      exact ⟨inner, within.trans (within_innerType leads (by decide)), same⟩
  | item _ _ ih =>
      rw [Outline.ofText_eq] at read
      split_ifs at read with _ leads
      cases read
      obtain ⟨inner, within, same⟩ := ih rfl
      exact ⟨inner, within.trans (within_innerType leads (by decide)), same⟩
  | named declared _ _ ih =>
      rw [Outline.ofText_eq] at read
      split_ifs at read
      cases read
      obtain ⟨field, inside, rfl⟩ := List.mem_map.mp declared
      obtain ⟨inner, within, same⟩ := ih rfl
      exact ⟨inner, within.trans ((within_recordFields inside).trans (.trim outer)), same⟩
  | placed _ declared _ _ ih =>
      rw [Outline.ofText_eq] at read
      split_ifs at read
      cases read
      obtain ⟨field, inside, rfl⟩ := List.mem_map.mp (List.mem_of_getElem? declared)
      obtain ⟨inner, within, same⟩ := ih rfl
      exact ⟨inner, within.trans ((within_recordFields inside).trans (.trim outer)), same⟩

theorem not_meets_variant (plain : type.namesUnsupported = false) (delimits : type.DelimitsVariants)
    {cases : List (Text × Option Outline)} {value part : Value} :
    ¬ Meets (.ofText type) value (.variant cases) part := by
  intro meets
  obtain ⟨inner, within, read⟩ := exists_within_of_meets meets
  have other := leadingWord_ne_variant plain delimits within
  rw [Outline.ofText_eq] at read
  split_ifs at read

end Types

namespace Form

variable {form : Form}

theorem namesUnsupported_of_isSupported (supported : form.isSupported = true) :
    ∀ type ∈ form.argTypes, type.namesUnsupported = false := by
  intro type member
  have none := List.any_eq_false.mp ((Bool.not_eq_true' _).mp supported) type member
  exact Bool.eq_false_iff.mpr none

/-- A built text is that of a value, which is read again; where there are no arguments it is empty. -/
theorem exists_value_of_buildJson {raws : List Value} {text : Text}
    (built : form.buildJson raws = .ok text) :
    form.argTypes = [] ∧ raws = [] ∧ text = [] ∨
      ∃ value, Argument.build form.argTypes raws = .ok value ∧
        value.write (.compact .refused) = .ok text := by
  have built := mapError_eq_ok.mp built
  unfold Argument.buildJson at built
  split at built
  · rename_i none
    split at built <;> cases built
    rename_i empty
    exact .inl ⟨List.isEmpty_iff.mp none, List.isEmpty_iff.mp empty, rfl⟩
  · obtain ⟨value, found, written⟩ := bind_eq_ok.mp built
    exact .inr ⟨value, found, mapError_eq_ok.mp written⟩

/-- A text that a supported form of distinct field names builds is valid, in either mode, exactly if no
list or object is given for an integer without a width. -/
theorem validate_buildJson_iff {raws : List Value} {text : Text}
    (supported : form.isSupported = true)
    (delimits : ∀ type ∈ form.argTypes, type.DelimitsVariants)
    (distinct : ∀ entry ∈ form.argTypes.zip raws,
      DistinctFields (.ofText entry.1) (preParse entry.2))
    (named : ∀ raw ∈ raws, raw.DistinctNames)
    (shallow : ∀ value, form.build raws = .ok value → value.nesting ≤ Reader.depthLimit)
    (built : form.buildJson raws = .ok text) (strict : Bool) :
    form.validate strict text = [] ↔
      ∀ entry ∈ form.argTypes.zip raws, PlainNumerals (.ofText entry.1) (preParse entry.2) := by
  have fillable : ∀ entry ∈ form.argTypes.zip raws, Fillable (.ofText entry.1) (preParse entry.2) := by
    intro entry inside
    have member := (List.of_mem_zip inside).1
    have plain := namesUnsupported_of_isSupported supported entry.1 member
    exact ⟨distinct entry inside, fun _ _ => not_meets_variant plain (delimits entry.1 member)⟩
  rcases exists_value_of_buildJson built with ⟨none, _, rfl⟩ | ⟨value, found, written⟩
  · refine iff_of_true ?_ (by simp [none])
    rw [validate, none]
    rfl
  · have within := shallow value (mapError_eq_ok.mpr found)
    have decoded := read_write (Style.isBlank_compact .refused)
      (distinctNames_of_build named found) within written
    rw [validate, validate_of_read decoded]
    exact checkValue_of_build fillable found

/-- The text of a list becomes a record of one natural number, and the record is valid. -/
theorem validate_buildJson_record :
    let form : Form := ⟨["record \x7b a : nat \x7d".toList]⟩
    let raws : List Value := [.text "[1]".toList]
    form.isSupported = true ∧
      (∀ type ∈ form.argTypes, type.DelimitsVariants) ∧
      (∀ entry ∈ form.argTypes.zip raws, DistinctFields (.ofText entry.1) (preParse entry.2)) ∧
      (∀ raw ∈ raws, raw.DistinctNames) ∧
      (∀ value, form.build raws = .ok value → value.nesting ≤ Reader.depthLimit) ∧
      form.buildJson raws = .ok "\x7b\"a\":1\x7d".toList ∧
      (∀ entry ∈ form.argTypes.zip raws, PlainNumerals (.ofText entry.1) (preParse entry.2)) ∧
      ∀ strict, form.validate strict "\x7b\"a\":1\x7d".toList = [] := by
  intro form raws
  have supported : form.isSupported = true := by decide +kernel
  have delimits : ∀ type ∈ form.argTypes, type.DelimitsVariants := by
    refine List.forall_mem_singleton.mpr (Text.delimitsVariants_of_ascii fun c member => ?_)
    have ascii : "record \x7b a : nat \x7d".toList.all (fun c => decide (c.toNat < 128)) = true := by
      decide +kernel
    exact of_decide_eq_true (List.all_eq_true.mp ascii c member)
  have decoded : preParse (.text "[1]".toList) = .list [.integer 1] := rfl
  have distinct : ∀ entry ∈ form.argTypes.zip raws,
      DistinctFields (.ofText entry.1) (preParse entry.2) := by
    refine List.forall_mem_singleton.mpr ?_
    rw [ofText_record_nat]
    refine distinctFields_record (by decide) ?_ _
    intro field declared part
    cases List.mem_singleton.mp declared
    exact distinctFields_leaf _ part
  have named : ∀ raw ∈ raws, raw.DistinctNames :=
    List.forall_mem_singleton.mpr (Value.IsLeaf.distinctNames trivial)
  have value : Argument.build form.argTypes raws = .ok (.object [("a".toList, .integer 1)]) := by
    simp only [form, raws, Argument.build, buildValues, buildValue, ofText_record_nat, decoded]
    rfl
  have shallow : ∀ value, form.build raws = .ok value → value.nesting ≤ Reader.depthLimit := by
    intro other found
    cases value.symm.trans (mapError_eq_ok.mp found)
    decide
  have built : form.buildJson raws = .ok "\x7b\"a\":1\x7d".toList := by
    refine mapError_eq_ok.mpr ?_
    rw [Argument.buildJson, value]
    rfl
  have plain : ∀ entry ∈ form.argTypes.zip raws,
      PlainNumerals (.ofText entry.1) (preParse entry.2) := by
    refine List.forall_mem_singleton.mpr ?_
    rw [ofText_record_nat, decoded]
    intro leaf part meets unbounded
    cases meets with
    | placed index declared held meets =>
        cases index with
        | zero =>
            cases declared
            cases held
            cases meets
            trivial
        | succ index => cases declared
  exact ⟨supported, delimits, distinct, named, shallow, built, plain, fun strict =>
    (validate_buildJson_iff supported delimits distinct named shallow built strict).mpr plain⟩

/-- The text of a list becomes a list where a natural number is asked for, and is found at fault. -/
theorem validate_buildJson_list :
    let form : Form := ⟨["nat".toList]⟩
    let raws : List Value := [.text "[1]".toList]
    form.isSupported = true ∧
      (∀ entry ∈ form.argTypes.zip raws, DistinctFields (.ofText entry.1) (preParse entry.2)) ∧
      form.buildJson raws = .ok "[1]".toList ∧
      ∀ strict, (form.validate strict "[1]".toList).map Finding.message =
        ["(root) expected number or numeric string".toList] := by
  intro form raws
  have decoded : Json.read "[1]".toList = .ok (.list [.integer 1]) := rfl
  refine ⟨by decide +kernel, ?_, ?_, fun strict => ?_⟩
  · refine List.forall_mem_singleton.mpr ?_
    rw [Outline.ofText_nat]
    exact distinctFields_leaf _ _
  · refine mapError_eq_ok.mpr ?_
    simp only [form, raws, Argument.buildJson, Argument.build, buildValues, buildValue,
      Outline.ofText_nat]
    rfl
  · rw [validate, validate_of_read decoded]
    simp only [form, checkValue, Outline.ofText_nat]
    rfl

end Form

end Candid
