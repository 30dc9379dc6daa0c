import Candid.Argument.Check
import Candid.Argument.Convert
import Candid.Argument.Example
import Mathlib.Data.List.Forall2

/-!
# Outlines of the same meaning

Two outlines have the same meaning if every value is checked and converted alike against both, and
they have the same example. Each form passes this on from the types in it.
-/

set_option autoImplicit false

namespace Candid.Argument

open Json

/-- No walk over values tells the outlines apart. -/
structure SameMeaning (outline other : Outline) : Prop where
  optional : outline.isOptional = other.isOptional
  checked (strict : Bool) (value : Value) (path : Text) :
    check strict outline value path = check strict other value path
  converted (value : Value) (path : Text) : convert outline value path = convert other value path
  shown : exampleOf outline = exampleOf other

abbrev SameFields : List (Text × Outline) → List (Text × Outline) → Prop :=
  List.Forall₂ fun field other => field.1 = other.1 ∧ SameMeaning field.2 other.2

abbrev SameCases : List (Text × Option Outline) → List (Text × Option Outline) → Prop :=
  List.Forall₂ fun item other => item.1 = other.1 ∧ Option.Rel SameMeaning item.2 other.2

namespace SameMeaning

theorem refl (outline : Outline) : SameMeaning outline outline :=
  ⟨rfl, fun _ _ _ => rfl, fun _ _ => rfl, rfl⟩

section Fields

variable {fields others : List (Text × Outline)} (same : SameFields fields others)

include same

theorem checkNamed_congr (strict : Bool) (members : List (Text × Value)) (path : Text) :
    checkNamed strict fields members path = checkNamed strict others members path := by
  induction same with
  | nil => rfl
  | @cons field other _ _ both _ ih =>
      obtain ⟨name, type⟩ := field
      obtain ⟨_, type'⟩ := other
      obtain ⟨rfl, meaning⟩ := both
      have checked := meaning.checked strict
      simp only at checked
      simp only [checkNamed, ih, meaning.optional, checked]

theorem checkListed_congr (strict : Bool) (items : List Value) (path : Text) :
    checkListed strict fields items path = checkListed strict others items path := by
  induction same generalizing items with
  | nil => rfl
  | cons both _ ih =>
      obtain ⟨name, meaning⟩ := both
      cases items with
      | nil => simp only [checkListed]
      | cons item items => simp only [checkListed, ih, meaning.checked, name]

theorem convertNamed_congr (members : List (Text × Value)) (path : Text) :
    convertNamed fields members path = convertNamed others members path := by
  induction same with
  | nil => rfl
  | cons both _ ih =>
      obtain ⟨name, meaning⟩ := both
      simp only [convertNamed, ih, meaning.converted, name]

theorem convertListed_congr (items : List Value) (path : Text) :
    convertListed fields items path = convertListed others items path := by
  induction same generalizing items with
  | nil => rfl
  | cons both _ ih =>
      obtain ⟨name, meaning⟩ := both
      cases items with
      | nil => simp only [convertListed]
      | cons item items => simp only [convertListed, ih, meaning.converted, name]

theorem exampleFields_congr : exampleFields fields = exampleFields others := by
  induction same with
  | nil => rfl
  | cons both _ ih =>
      obtain ⟨name, meaning⟩ := both
      simp only [exampleFields, ih, meaning.shown, name]

end Fields

section Cases

variable {cases others : List (Text × Option Outline)} (same : SameCases cases others)

include same

theorem caseNames_congr : cases.map (·.1) = others.map (·.1) := by
  induction same with
  | nil => rfl
  | cons both _ ih => simp only [List.map_cons, ih, both.1]

theorem checkCase_congr (names : List Text) (name : Text) (payload : Value) (path : Text) :
    checkCase cases names name payload path = checkCase others names name payload path := by
  induction same with
  | nil => rfl
  | @cons item other _ _ both _ ih =>
      obtain ⟨caseName, type⟩ := item
      obtain ⟨_, type'⟩ := other
      obtain ⟨rfl, meaning⟩ := both
      cases meaning with
      | none => simp only [checkCase, ih]
      | some meaning => simp only [checkCase, ih, meaning.checked]

theorem exampleCase_congr : exampleCase cases = exampleCase others := by
  cases same with
  | nil => rfl
  | @cons item other _ _ both _ =>
      obtain ⟨caseName, type⟩ := item
      obtain ⟨_, type'⟩ := other
      obtain ⟨rfl, meaning⟩ := both
      cases meaning with
      | none => simp only [exampleCase]
      | some meaning => simp only [exampleCase, meaning.shown]

end Cases

variable {inner other : Outline}

theorem opt (same : SameMeaning inner other) : SameMeaning (.opt inner) (.opt other) where
  optional := rfl
  checked strict value path := by simp only [check, same.checked]
  converted value path := by simp only [convert, same.converted]
  shown := by simp only [exampleOf]

theorem vec (same : SameMeaning inner other) : SameMeaning (.vec inner) (.vec other) where
  optional := rfl
  checked strict value path := by
    have items : check strict inner = check strict other := by
      funext value path
      exact same.checked strict value path
    simp only [check, items]
  converted value path := by
    have items : convert inner = convert other := by
      funext value path
      exact same.converted value path
    simp only [convert, items]
  shown := by simp only [exampleOf, same.shown]

theorem record {fields others : List (Text × Outline)} (same : SameFields fields others) :
    SameMeaning (.record fields) (.record others) where
  optional := rfl
  checked strict value path := by
    simp only [check, same.length_eq, checkNamed_congr same, checkListed_congr same]
  converted value path := by
    have empty : fields.isEmpty = others.isEmpty := by
      cases same <;> rfl
    simp only [convert, empty, same.length_eq, convertNamed_congr same, convertListed_congr same]
  shown := by simp only [exampleOf, exampleFields_congr same]

theorem variant {cases others : List (Text × Option Outline)} (same : SameCases cases others) :
    SameMeaning (.variant cases) (.variant others) where
  optional := rfl
  checked strict value path := by
    simp only [check, caseNames_congr same, checkCase_congr same]
  converted value path := by simp only [convert]
  shown := by simp only [exampleOf, exampleCase_congr same]

/-- The shorthand for bytes is a sequence of bytes. -/
theorem bytes {name : Text} (shorthand : isBlob name = true) :
    SameMeaning (.leaf name) (.vec (.leaf Scalar.nat8.name)) := by
  have noScalar : Scalar.ofText? name = none := by
    have spelt : name.trim.lowerLatin = blobName := by simpa [isBlob] using shorthand
    rw [Scalar.ofText?, spelt]
    decide
  have byte : Scalar.ofText? Scalar.nat8.name = some .nat8 := by decide
  constructor
  · rfl
  · intro strict value path
    simp only [check, checkLeaf, noScalar, shorthand, byte, ↓reduceIte]
  · intro value path
    simp only [convert, convertLeaf, noScalar, shorthand, byte, ↓reduceIte]
  · simp only [exampleOf, leafExample, noScalar, shorthand, byte, scalarExample, ↓reduceIte]

end SameMeaning

end Candid.Argument
