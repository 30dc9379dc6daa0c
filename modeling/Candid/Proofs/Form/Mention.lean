import Candid.Form
import Candid.Proofs.Alias.Normal
import Candid.Proofs.Number.Numeral
import Candid.Proofs.Text.WordSearch

/-!
# Words without form input

Whether the text of an outline mentions a word that forms have no input for is told by its labels and
leaves, and by whether a variant stands in it: no other part of the text is of words. Resolving over
the empty table changes none of this.
-/

set_option autoImplicit false

namespace Candid

def Text.namesUnsupported (text : Text) : Bool :=
  containsWord unsupportedWords none text

namespace Text

theorem lettered_unsupportedWords : Lettered unsupportedWords := by
  have all : unsupportedWords.all (fun word => !word.isEmpty && word.all isNamePart) = true := by
    decide
  intro word member
  have here := List.all_eq_true.mp all word member
  simpa using here

theorem namesUnsupported_iff {text : Text} :
    text.namesUnsupported = true ↔ text.Mentions unsupportedWords :=
  containsWord_iff fun word member => (lettered_unsupportedWords word member).1

section Parts

variable {c : Char} {text : Text}

/-- A name mentions such a word exactly if it is one in lower case. -/
theorem namesUnsupported_iff_of_name (parts : ∀ c ∈ text, isNamePart c = true) :
    text.namesUnsupported = true ↔ text.lowerLatin ∈ unsupportedWords :=
  namesUnsupported_iff.trans (mentions_iff_of_name parts)

theorem namesUnsupported_append (wordless : isWordCharacter c = false) (text rest : Text) :
    namesUnsupported (text ++ c :: rest) = (text.namesUnsupported || namesUnsupported rest) :=
  containsWord_append lettered_unsupportedWords wordless text rest

theorem namesUnsupported_cons (wordless : isWordCharacter c = false) (text : Text) :
    namesUnsupported (c :: text) = text.namesUnsupported :=
  containsWord_cons lettered_unsupportedWords wordless text

theorem namesUnsupported_unquoted (label : Text) :
    label.unquoted.namesUnsupported = label.namesUnsupported :=
  containsWord_unquoted lettered_unsupportedWords label

theorem namesUnsupported_keyword (keyword text : Text) :
    namesUnsupported (keyword ++ ' ' :: text) =
      (keyword.namesUnsupported || text.namesUnsupported) :=
  namesUnsupported_append (by decide) keyword text

theorem namesUnsupported_of_unmatched
    (unmatched : ∀ word ∈ unsupportedWords, ∀ letter ∈ word, ∀ c ∈ text,
      matchesLetter letter c = false) : text.namesUnsupported = false :=
  containsWord_of_unmatched (fun word member => (lettered_unsupportedWords word member).1) unmatched

theorem namesUnsupported_ofNat (number : Nat) :
    Text.namesUnsupported (Numeral.ofNat number) = false := by
  refine namesUnsupported_of_unmatched fun word known letter inside c member => ?_
  have digit : c.isDigit = true := Numeral.isDigit_of_mem_ofNat member
  have ascii : c.toNat < 128 :=
    toNat_lt_of_isNamePart (by simp [isNamePart, Char.isAlphanum, digit])
  have all := forall_ascii
    (p := fun c => !c.isDigit || unsupportedWords.all (·.all (!matchesLetter · c)))
    (by decide +kernel) ascii
  simp only [digit, Bool.not_true, Bool.false_or, List.all_eq_true] at all
  simpa using all word known letter inside

/-- The shorthand for bytes is none of the words, also between blanks. -/
theorem namesUnsupported_of_isBlob (shorthand : isBlob text = true) :
    text.namesUnsupported = false := by
  refine namesUnsupported_of_unmatched fun word known letter inside c member => ?_
  have part := (lettered_unsupportedWords word known).2 letter inside
  have spelt : text.trim.lowerLatin = blobName := by simpa [isBlob] using shorthand
  obtain ⟨front, back, shape, frontBlank, backBlank⟩ := exists_trim text
  rw [shape, List.mem_append, List.mem_append] at member
  rcases member with before | within | behind
  · exact matchesLetter_of_wordless part (isWordCharacter_of_isBlank (frontBlank c before))
  · have lower : c.toLower ∈ blobName := spelt ▸ List.mem_map_of_mem within
    have ascii : c.toNat < 128 := by
      have parts : ∀ d ∈ blobName, isNamePart d = true := List.all_eq_true.mp (by decide)
      exact toNat_lt_of_isNamePart (isNamePart_of_toLower (parts _ lower))
    have all := forall_ascii
      (p := fun c => !blobName.contains c.toLower || unsupportedWords.all (·.all (!matchesLetter · c)))
      (by decide +kernel) ascii
    simp only [List.contains_iff_mem.mpr lower, Bool.not_true, Bool.false_or, List.all_eq_true] at all
    simpa using all word known letter inside
  · exact matchesLetter_of_wordless part (isWordCharacter_of_isBlank (backBlank c behind))

theorem namesUnsupported_joined (members : List Text) :
    namesUnsupported (joined "; ".toList members) = members.any namesUnsupported := by
  induction members with
  | nil => rfl
  | cons first rest ih =>
      cases rest with
      | nil => simp
      | cons second rest =>
          have parted := namesUnsupported_append (c := ';') (by decide) first
            (' ' :: joined "; ".toList (second :: rest))
          rw [namesUnsupported_cons (by decide), ih] at parted
          rw [joined_cons, List.any_cons]
          exact parted

theorem namesUnsupported_braced (keyword : Text) (members : List Text) :
    namesUnsupported (braced keyword members) =
      (keyword.namesUnsupported || members.any namesUnsupported) := by
  have between : namesUnsupported (renderedBody members) = members.any namesUnsupported := by
    cases members with
    | nil => rfl
    | cons member members =>
        rw [renderedBody, namesUnsupported_cons (by decide), namesUnsupported_append (by decide),
          namesUnsupported_joined]
        exact Bool.or_false _
  rw [braced_eq, namesUnsupported_append (by decide), namesUnsupported_append (by decide),
    namesUnsupported_append (by decide), between]
  simp [namesUnsupported, containsWord]

theorem namesUnsupported_field (field : FieldText) :
    field.render.namesUnsupported =
      (field.name.namesUnsupported || field.type.namesUnsupported) := by
  have parted := namesUnsupported_append (c := ' ') (by decide) field.name (':' :: ' ' :: field.type)
  rw [namesUnsupported_cons (by decide), namesUnsupported_cons (by decide)] at parted
  rw [FieldText.render, List.append_assoc]
  exact parted

end Parts

end Text

namespace Outline

mutual

/-- Whether a variant stands in the outline, or one of its labels and leaves mentions a word that forms
have no input for. -/
def namesUnsupported : Outline → Bool
  | .opt inner => inner.namesUnsupported
  | .vec inner => inner.namesUnsupported
  | .record fields => fieldsNameUnsupported fields
  | .variant _ => true
  | .leaf text => text.namesUnsupported

def fieldsNameUnsupported : List (Text × Outline) → Bool
  | [] => false
  | (name, type) :: rest =>
    name.namesUnsupported || type.namesUnsupported || fieldsNameUnsupported rest

end

theorem fieldsNameUnsupported_eq (fields : List (Text × Outline)) :
    fieldsNameUnsupported fields =
      fields.any fun field => field.1.namesUnsupported || field.2.namesUnsupported := by
  induction fields with
  | nil => rfl
  | cons field rest ih => rw [fieldsNameUnsupported, ih, List.any_cons]

/-- The text of an outline mentions the words that the outline does. -/
theorem namesUnsupported_render (outline : Outline) :
    outline.render.namesUnsupported = outline.namesUnsupported := by
  induction outline using Outline.induction with
  | opt inner ih => exact (Text.namesUnsupported_keyword "opt".toList inner.render).trans ih
  | vec inner ih => exact (Text.namesUnsupported_keyword "vec".toList inner.render).trans ih
  | record fields ih =>
      have plain : Text.namesUnsupported "record".toList = false := by decide +kernel
      rw [render, Text.namesUnsupported_braced, plain, renderFields_eq, Bool.false_or,
        namesUnsupported, fieldsNameUnsupported_eq, List.map_map, List.any_map, Bool.eq_iff_iff,
        List.any_eq_true, List.any_eq_true]
      refine exists_congr fun field => and_congr_right fun member => ?_
      simp only [Function.comp_apply, Text.namesUnsupported_field, ih field member]
  | variant cases =>
      have named : Text.namesUnsupported "variant".toList = true := by decide +kernel
      rw [render, Text.namesUnsupported_braced, named]
      rfl
  | leaf text => rfl

end Outline

namespace Alias

mutual

theorem Expands.namesUnsupported : {outline expanded : Outline} → Expands [] outline expanded →
    expanded.namesUnsupported = outline.namesUnsupported
  | _, _, .opt inner => inner.namesUnsupported
  | _, _, .vec inner => inner.namesUnsupported
  | _, _, .record fields => fields.namesUnsupported
  | _, _, .variant _ => rfl
  | _, _, .declared found _ _ => by cases found
  | _, _, .bytes _ shorthand => (Text.namesUnsupported_of_isBlob shorthand).symm
  | _, _, .kept _ _ => rfl

theorem ExpandsFields.namesUnsupported : {fields expanded : List (Text × Outline)} →
    ExpandsFields [] fields expanded →
    Outline.fieldsNameUnsupported expanded = Outline.fieldsNameUnsupported fields
  | _, _, .nil => rfl
  | _, _, .cons type rest => by
      rw [Outline.fieldsNameUnsupported, Outline.fieldsNameUnsupported, type.namesUnsupported,
        rest.namesUnsupported]

end

/-- Resolving over the empty table keeps what the outline of the text mentions. -/
theorem namesUnsupported_resolve (text : Text) :
    ∃ normal, resolve [] false text = .ok normal ∧
      normal.namesUnsupported = (Outline.ofText text).namesUnsupported := by
  obtain ⟨expanded, found, expands⟩ := expand_nil text
  refine ⟨expanded.render, by rw [resolve, found]; rfl, ?_⟩
  rw [Outline.namesUnsupported_render, expands.namesUnsupported]

end Alias

end Candid
