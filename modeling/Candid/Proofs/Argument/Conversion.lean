import Candid.Argument.Convert
import Candid.Proofs.Argument.Fits
import Candid.Proofs.Dictionary
import Candid.Proofs.Json.Decoded

/-!
# Conversion of values that fit

A decoded value that fits a type is converted, and the result fits the type again. The checker and the
converter walk the value on the same ways, so what has to hold of the records on these ways is said by
one relation.
-/

set_option autoImplicit false

namespace Candid.Argument

open Json

/-- The walk of a value along a type meets the second type with the second value. Payloads of
variants are not walked into. -/
inductive Meets : Outline → Value → Outline → Value → Prop where
  | here (outline : Outline) (value : Value) : Meets outline value outline value
  | opt {inner other : Outline} {value part : Value} :
      Meets inner value other part → Meets (.opt inner) value other part
  | item {inner other : Outline} {items : List Value} {item part : Value} :
      item ∈ items → Meets inner item other part → Meets (.vec inner) (.list items) other part
  | named {fields : List (Text × Outline)} {field : Text × Outline}
      {members : List (Text × Value)} {member part : Value} {other : Outline} :
      field ∈ fields → Dictionary.find? field.1 members = some member →
      Meets field.2 member other part → Meets (.record fields) (.object members) other part
  | placed {fields : List (Text × Outline)} {field : Text × Outline} {items : List Value}
      {item part : Value} {other : Outline} (index : Nat) :
      fields[index]? = some field → items[index]? = some item →
      Meets field.2 item other part → Meets (.record fields) (.list items) other part

def FiniteFloats (value : Value) : Prop :=
  ∀ number, value.Holds (.float number) → number.isFinite = true

/-- The records that the walk meets have distinct field names. -/
def DistinctFields (outline : Outline) (value : Value) : Prop :=
  ∀ fields part, Meets outline value (.record fields) part → (fields.map (·.1)).Nodup

/-- The objects that the walk meets for records have all the fields. -/
def CompleteObjects (outline : Outline) (value : Value) : Prop :=
  ∀ fields members, Meets outline value (.record fields) (.object members) →
    ∀ field ∈ fields, field.1 ∈ Dictionary.names members

theorem DistinctFields.below {outline inner : Outline} {value part : Value}
    (distinct : DistinctFields outline value)
    (walk : ∀ {other last}, Meets inner part other last → Meets outline value other last) :
    DistinctFields inner part :=
  fun fields last met => distinct fields last (walk met)

section Numerals

theorem length_le_numeralLength {front : Text} (bare : '-' ∉ front) (tail : Text) :
    front.length ≤ numeralLength (front ++ tail) := by
  cases front with
  | nil => simp
  | cons c rest =>
      have other : c ≠ '-' := fun same => bare (by simp [same])
      simp [numeralLength, other]

theorem length_digits_le {content : Text} {negative : Bool} {digits : List Nat}
    (signed : Numeral.signed? (Numeral.withoutFinalLineFeed content) = some (negative, digits)) :
    digits.length ≤ numeralLength content := by
  obtain ⟨tail, shape⟩ := Numeral.exists_tail content
  unfold Numeral.signed? at signed
  split at signed
  · rename_i rest front
    obtain ⟨_, found, same⟩ := Option.map_eq_some_iff.mp signed
    cases same
    obtain ⟨size, bare⟩ := Numeral.length_of_digits found
    have bound := length_le_numeralLength bare tail
    rw [shape, front]
    have hyphen : numeralLength ('-' :: rest ++ tail) = numeralLength (rest ++ tail) := by
      simp [numeralLength]
    omega
  · obtain ⟨_, found, same⟩ := Option.map_eq_some_iff.mp signed
    cases same
    obtain ⟨size, bare⟩ := Numeral.length_of_digits found
    have bound := length_le_numeralLength bare tail
    rw [← shape] at bound
    omega

theorem nativeDigits_lt_of_error {content : Text} {limit : DigitLimitError}
    (read : Numeral.read? content = some (.error limit)) :
    nativeDigits < numeralLength content := by
  obtain ⟨⟨negative, digits⟩, signed, refused⟩ := Option.map_eq_some_iff.mp read
  have long : digitLimit < digits.length := by
    unfold Numeral.value at refused
    simp only at refused
    split at refused
    · assumption
    · split at refused <;> cases refused
  have enough : nativeDigits < digitLimit := by decide
  have bound := length_digits_le signed
  omega

end Numerals

section Scalars

variable {value : Value} {path : Text}

theorem violationUnless_eq_nil {fits : Bool} {problem : Problem} :
    violationUnless fits path problem = [] ↔ fits = true := by
  cases fits <;> simp [violationUnless]

theorem asUnbounded_of_fits (limited : value.Limited) (finite : FiniteFloats value)
    (fits : (value.isNumber || value.isText) = true) :
    ∃ converted, asUnbounded value path = .ok converted ∧
      (converted.isNumber || converted.isText) = true := by
  cases value with
  | integer number =>
      simp only [asUnbounded]
      split
      · exact ⟨_, rfl, rfl⟩
      · have within := limited number (.self _)
        rw [Numeral.write, if_pos within]
        exact ⟨_, rfl, rfl⟩
  | float number =>
      have finite := finite number (.self _)
      simp only [asUnbounded, finite, ↓reduceIte]
      split <;> exact ⟨_, rfl, rfl⟩
  | text content =>
      simp only [asUnbounded]
      split
      · exact ⟨_, rfl, rfl⟩
      · rename_i decoded read
        split
        · exact ⟨_, rfl, rfl⟩
        · rename_i short
          cases decoded with
          | ok number => exact ⟨_, rfl, rfl⟩
          | error limit => exact absurd (nativeDigits_lt_of_error read) short
  | _ => cases fits

theorem asInteger_of_fits (finite : FiniteFloats value) (fits : value.isNumber = true) :
    ∃ converted, asInteger value path = .ok converted ∧ converted.isNumber = true := by
  cases value with
  | integer number => exact ⟨_, rfl, rfl⟩
  | float number =>
      have finite := finite number (.self _)
      cases number with
      | finite negative exponent fraction => exact ⟨_, rfl, rfl⟩
      | _ => cases finite
  | _ => cases fits

theorem convertScalar_of_fits {scalar : Scalar} (limited : value.Limited) (finite : FiniteFloats value)
    (fits : checkScalar scalar value [] = []) :
    ∃ converted, convertScalar scalar value path = .ok converted ∧
      checkScalar scalar converted [] = [] := by
  cases scalar with
  | text | principal =>
      simp only [checkScalar, violationUnless_eq_nil] at fits
      cases value with
      | null | text => exact ⟨_, rfl, rfl⟩
      | _ => cases fits
  | bool =>
      simp only [checkScalar, violationUnless_eq_nil] at fits
      cases value with
      | bool => exact ⟨_, rfl, rfl⟩
      | _ => cases fits
  | float32 | float64 =>
      simp only [checkScalar, violationUnless_eq_nil] at fits
      cases value with
      | integer => exact ⟨_, rfl, rfl⟩
      | float number =>
          have finite := finite number (.self _)
          refine ⟨.float number, ?_, rfl⟩
          simp [convertScalar, asFloat, finite]
      | _ => cases fits
  | nat | int =>
      simp only [checkScalar, violationUnless_eq_nil] at fits ⊢
      exact asUnbounded_of_fits limited finite fits
  | _ =>
      simp only [checkScalar, violationUnless_eq_nil] at fits ⊢
      exact asInteger_of_fits finite fits

end Scalars

structure Convertible (outline : Outline) (value : Value) : Prop where
  limited : value.Limited
  finite : FiniteFloats value
  distinct : DistinctFields outline value
  complete : CompleteObjects outline value

theorem Convertible.below {outline inner : Outline} {value part : Value}
    (convertible : Convertible outline value)
    (walk : ∀ {other last}, Meets inner part other last → Meets outline value other last)
    (holds : ∀ {last}, part.Holds last → value.Holds last) : Convertible inner part where
  limited number inside := convertible.limited number (holds inside)
  finite number inside := convertible.finite number (holds inside)
  distinct fields last met := convertible.distinct fields last (walk met)
  complete fields members met := convertible.complete fields members (walk met)

section Containers

variable {strict : Bool} {fields : List (Text × Outline)}

def Converts (strict : Bool) (outline : Outline) (value : Value) : Prop :=
  ∀ path, ∃ converted, convert outline value path = .ok converted ∧ Fits strict outline converted

theorem convertItems_of_each {convertItem : Value → Text → Except Error Value}
    {fits : Value → Prop} {items : List Value}
    (each : ∀ item ∈ items, ∀ path, ∃ converted,
      convertItem item path = .ok converted ∧ fits converted) (path : Text) (index : Nat) :
    ∃ converted, convertItems convertItem path index items = .ok converted ∧
      ∀ item ∈ converted, fits item := by
  induction items generalizing index with
  | nil => exact ⟨[], rfl, by simp⟩
  | cons item items ih =>
      obtain ⟨first, found, fits⟩ := each item (by simp) (itemPath path index)
      obtain ⟨others, further, all⟩ := ih (fun item member => each item (by simp [member])) (index + 1)
      refine ⟨first :: others, ?_, List.forall_mem_cons.mpr ⟨fits, all⟩⟩
      simp only [convertItems, found, further]
      rfl

/-- The entries are named as the fields in order, and have values that are good for them. -/
abbrev Entries (good : Text × Outline → Value → Prop) :
    List (Text × Outline) → List (Text × Value) → Prop :=
  List.Forall₂ fun field entry => entry.1 = field.1 ∧ good field entry.2

theorem convertNamed_of_each {good : Text × Outline → Value → Prop}
    {members : List (Text × Value)}
    (each : ∀ field ∈ fields, ∃ member, Dictionary.find? field.1 members = some member ∧
      ∀ path, ∃ converted, convert field.2 member path = .ok converted ∧ good field converted)
    (path : Text) :
    ∃ converted, convertNamed fields members path = .ok converted ∧
      Entries good fields converted := by
  induction fields with
  | nil => exact ⟨[], by simp only [convertNamed], .nil⟩
  | cons field rest ih =>
      obtain ⟨name, type⟩ := field
      obtain ⟨member, found, converts⟩ := each (name, type) (by simp)
      obtain ⟨first, here, fits⟩ := converts (fieldPath path name)
      obtain ⟨others, further, all⟩ := ih fun field member => each field (by simp [member])
      refine ⟨(name, first) :: others, ?_, .cons ⟨rfl, fits⟩ all⟩
      simp only at found here
      simp only [convertNamed, found, here, further]
      rfl

theorem convertListed_of_each {good : Text × Outline → Value → Prop} {items : List Value}
    (each : List.Forall₂ (fun field item => ∀ path, ∃ converted,
      convert field.2 item path = .ok converted ∧ good field converted) fields items)
    (path : Text) :
    ∃ converted, convertListed fields items path = .ok converted ∧
      Entries good fields converted := by
  induction each with
  | nil => exact ⟨[], by simp only [convertListed], .nil⟩
  | @cons field item rest items converts _ ih =>
      obtain ⟨name, type⟩ := field
      obtain ⟨first, here, fits⟩ := converts (fieldPath path name)
      obtain ⟨others, further, all⟩ := ih
      refine ⟨(name, first) :: others, ?_, .cons ⟨rfl, fits⟩ all⟩
      simp only at here
      simp only [convertListed, here, further]
      rfl

abbrev FitsEach (strict : Bool) : List (Text × Outline) → List (Text × Value) → Prop :=
  Entries fun field value => Fits strict field.2 value

theorem Entries.names {good : Text × Outline → Value → Prop} {entries : List (Text × Value)}
    (fits : Entries good fields entries) :
    entries.map (·.1) = fields.map (·.1) := by
  induction fits with
  | nil => rfl
  | cons both _ ih => simp only [List.map_cons, both.1, ih]

/-- Entries for the fields of a record of distinct names are an object that fits the record. -/
theorem FitsEach.record {entries : List (Text × Value)} (fits : FitsEach strict fields entries)
    (distinct : (fields.map (·.1)).Nodup) :
    Fits strict (.record fields) (.object (Dictionary.ofList entries)) := by
  have names : (entries.map (·.1)).Nodup := Entries.names fits ▸ distinct
  rw [Dictionary.ofList_of_nodup names]
  refine fits_record.mpr (.inl ⟨entries, rfl, fun field member => ?_⟩)
  obtain ⟨entry, inside, same, here⟩ := exists_right_of_forall₂ fits member
  rw [← same, Dictionary.find?_of_mem names inside]
  exact here

theorem leaf_of_fits {leaf : Text} {value : Value} (limited : value.Limited)
    (finite : FiniteFloats value) (fits : Fits strict (.leaf leaf) value) :
    Converts strict (.leaf leaf) value := by
  intro path
  have shape := fits_leaf.mp fits
  cases scalar : Scalar.ofText? leaf with
  | some scalar =>
      simp only [scalar] at shape
      obtain ⟨converted, found, again⟩ := convertScalar_of_fits limited finite shape
      refine ⟨converted, by simp only [convert, convertLeaf, scalar]; exact found, ?_⟩
      rw [fits_leaf, scalar]
      exact again
  | none =>
      cases shorthand : isBlob leaf with
      | false =>
          exact ⟨value, by simp [convert, convertLeaf, scalar, shorthand], fits⟩
      | true =>
          simp only [scalar] at shape
          obtain ⟨items, rfl, numbers⟩ := shape shorthand
          have each : ∀ item ∈ items, ∀ path, ∃ converted,
              convertScalar .nat8 item path = .ok converted ∧ converted.isNumber = true :=
            fun item member path => asInteger_of_fits
              (fun number inside => finite number (.item member inside)) (numbers item member)
          obtain ⟨converted, found, all⟩ := convertItems_of_each each path 0
          refine ⟨.list converted, ?_, ?_⟩
          · simp only [convert, convertLeaf, scalar, shorthand, convertSequence, found, ↓reduceIte]
            rfl
          · rw [fits_leaf, scalar]
            exact fun _ => ⟨converted, rfl, all⟩

end Containers

/-- A value that fits a type is converted, and the result fits the type. -/
theorem converts_of_fits {strict : Bool} {outline : Outline} {value : Value}
    (convertible : Convertible outline value) (fits : Fits strict outline value) :
    Converts strict outline value := by
  induction outline using Outline.induction generalizing value with
  | opt inner ih =>
      intro path
      rcases fits_opt.mp fits with null | inner
      · cases value with
        | null => exact ⟨.null, by simp only [convert], fits⟩
        | _ => cases null
      · obtain ⟨converted, found, again⟩ := ih (convertible.below .opt id) inner path
        cases value with
        | null => exact ⟨.null, by simp only [convert], fits⟩
        | _ => exact ⟨converted, by simpa only [convert] using found, fits_opt.mpr (.inr again)⟩
  | vec inner ih =>
      obtain ⟨items, rfl, each⟩ := fits_vec.mp fits
      have converts : ∀ item ∈ items, Converts strict inner item := fun item member =>
        ih (convertible.below (.item member) (.item member)) (each item member)
      intro path
      obtain ⟨converted, found, all⟩ := convertItems_of_each converts path 0
      refine ⟨.list converted, ?_, fits_vec.mpr ⟨converted, rfl, all⟩⟩
      simp only [convert, convertSequence, found]
      rfl
  | record fields ih =>
      intro path
      have distinct := convertible.distinct fields value (.here _ _)
      by_cases none : fields.isEmpty = true
      · cases List.isEmpty_iff.mp none
        refine ⟨.object [], by simp only [convert]; rfl, ?_⟩
        exact fits_record.mpr (.inl ⟨[], rfl, by rintro _ ⟨⟩⟩)
      have finish {entries : List (Text × Value)} (each : FitsEach strict fields entries) :=
        each.record distinct
      rcases fits_record.mp fits with ⟨members, rfl, named⟩ | ⟨items, rfl, listed⟩
      · have each : ∀ field ∈ fields, ∃ member,
            Dictionary.find? field.1 members = some member ∧ Converts strict field.2 member := by
          intro field member
          have here := named field member
          cases found : Dictionary.find? field.1 members with
          | none =>
              have there := convertible.complete fields members (.here _ _) field member
              exact absurd there (Dictionary.find?_eq_none.mp found)
          | some value =>
              rw [found] at here
              have inside := Dictionary.mem_of_find? found
              exact ⟨value, rfl,
                ih field member (convertible.below (.named member found) (.member inside)) here⟩
        obtain ⟨entries, found, all⟩ := convertNamed_of_each each path
        refine ⟨_, ?_, finish all⟩
        simp only [convert, none, found]
        rfl
      · have each : List.Forall₂ (fun field item => Converts strict field.2 item) fields items := by
          obtain ⟨size, each⟩ := List.forall₂_iff_get.mp listed
          refine List.forall₂_iff_get.mpr ⟨size, fun index inside within => ?_⟩
          have item := List.getElem_mem within
          refine ih _ (List.getElem_mem inside) (convertible.below ?_ (.item item))
            (each index inside within)
          exact .placed index (List.getElem?_eq_getElem inside) (List.getElem?_eq_getElem within)
        obtain ⟨entries, found, all⟩ := convertListed_of_each each path
        refine ⟨_, ?_, finish all⟩
        simp only [convert, none, listed.length_eq, found, ne_eq, not_true_eq_false,
          Bool.false_eq_true, ↓reduceIte]
        rfl
  | variant cases ih =>
      intro path
      exact ⟨value, by simp only [convert], fits⟩
  | leaf leaf => exact leaf_of_fits convertible.limited convertible.finite fits

/-- A decoded value without infinities in which every object that is met for a record has all its
fields is converted if the checker finds nothing wrong with it, and then finds nothing wrong with the
result. -/
theorem convert_of_check {strict : Bool} {type source : Text} {value : Value}
    (decoded : Json.read source = .ok value) (finite : FiniteFloats value)
    (distinct : DistinctFields (.ofText type) value)
    (complete : CompleteObjects (.ofText type) value)
    (accepted : check strict (.ofText type) value [] = []) :
    ∃ converted, convert (.ofText type) value [] = .ok converted ∧
      check strict (.ofText type) converted [] = [] :=
  converts_of_fits ⟨limited_of_read decoded, finite, distinct, complete⟩ accepted []

theorem ofText_record_nat :
    Outline.ofText "record \x7b a : nat \x7d".toList =
      .record [("a".toList, .leaf "nat".toList)] := by
  have fields : recordFields (Text.trim "record \x7b a : nat \x7d".toList) =
      [⟨"a".toList, "nat".toList⟩] := by decide
  rw [Outline.ofText_of_record (by decide), fields, List.map_singleton, Outline.ofText_nat]

/-- A list of one number fits a record of one natural number, and becomes an object that fits it. -/
theorem convert_of_check_positional :
    Json.read "[1]".toList = .ok (.list [.integer 1]) ∧ FiniteFloats (.list [.integer 1]) ∧
      DistinctFields (.ofText "record \x7b a : nat \x7d".toList) (.list [.integer 1]) ∧
      CompleteObjects (.ofText "record \x7b a : nat \x7d".toList) (.list [.integer 1]) ∧
      check true (.ofText "record \x7b a : nat \x7d".toList) (.list [.integer 1]) [] = [] ∧
      ∃ converted,
        convert (.ofText "record \x7b a : nat \x7d".toList) (.list [.integer 1]) [] =
          .ok converted ∧
        check true (.ofText "record \x7b a : nat \x7d".toList) converted [] = [] := by
  have decoded : Json.read "[1]".toList = .ok (.list [.integer 1]) := rfl
  have finite : FiniteFloats (.list [.integer 1]) := by
    intro number holds
    cases holds with
    | item inside holds =>
        cases List.mem_singleton.mp inside
        cases holds
  have met {fields : List (Text × Outline)} {part : Value}
      (meets : Meets (.record [("a".toList, .leaf "nat".toList)]) (.list [.integer 1])
        (.record fields) part) :
      fields = [("a".toList, .leaf "nat".toList)] ∧ part = .list [.integer 1] := by
    cases meets with
    | here => exact ⟨rfl, rfl⟩
    | placed index field item meets =>
        match index, field with
        | 0, rfl => cases meets
  have distinct : DistinctFields (.ofText "record \x7b a : nat \x7d".toList)
      (.list [.integer 1]) := by
    rw [ofText_record_nat]
    intro fields part meets
    rw [(met meets).1]
    decide
  have complete : CompleteObjects (.ofText "record \x7b a : nat \x7d".toList)
      (.list [.integer 1]) := by
    rw [ofText_record_nat]
    intro fields members meets
    cases (met meets).2
  have accepted : check true (.ofText "record \x7b a : nat \x7d".toList)
      (.list [.integer 1]) [] = [] := by
    rw [ofText_record_nat]
    rfl
  exact ⟨decoded, finite, distinct, complete, accepted,
    convert_of_check decoded finite distinct complete accepted⟩
end Candid.Argument
