import Candid.Proofs.Fragment.Row
import Candid.Proofs.Fragment.Split
import Candid.Proofs.Text.WordSearch

/-!
# Types within a type expression

The types that an expression is taken apart into stand in its text, between characters that are of no
word: blanks, brackets and separators. Behind a keyword any character may stand that is of no name, but
then no name begins there. So a name in front of such a type is a name of the whole text.
-/

set_option autoImplicit false

namespace Candid

namespace Text

/-- The text stands in another one: a name at its front begins there, and one at its end ends there. -/
def Within (inner outer : Text) : Prop :=
  ∃ front back, outer = front ++ (inner ++ back) ∧
    (∀ c ∈ inner.head?, isNamePart c = true → endsInWord front.getLast? = false) ∧
    ∀ c ∈ back.head?, isNamePart c = false

theorem isNamePart_of_wordless {c : Char} (wordless : isWordCharacter c = false) :
    isNamePart c = false := by
  cases part : isNamePart c with
  | false => rfl
  | true => exact absurd ((isWordCharacter_of_isNamePart part).symm.trans wordless) (by decide)

namespace Within

variable {inner middle outer : Text}

theorem refl (text : Text) : Within text text :=
  ⟨[], [], by simp, fun _ _ _ => rfl, by simp⟩

theorem trans (first : Within inner middle) (second : Within middle outer) : Within inner outer := by
  obtain ⟨front, back, rfl, starts, ends⟩ := first
  obtain ⟨before, behind, rfl, begins, stops⟩ := second
  refine ⟨before ++ front, back ++ behind, by simp, fun c head part => ?_, fun c head => ?_⟩
  · cases front with
    | nil => simpa using begins c (by simpa using .inl head) part
    | cons d front =>
        have own := starts c head part
        rw [List.getLast?_append, List.getLast?_cons]
        rwa [List.getLast?_cons] at own
  · cases back with
    | nil => exact stops c (by simpa using head)
    | cons d back => exact ends c (by simpa using head)

/-- Between characters that are of no word, a text stands in the whole. -/
theorem between {front back : Text} (before : ∀ c ∈ front.getLast?, isWordCharacter c = false)
    (behind : ∀ c ∈ back.head?, isWordCharacter c = false) (inner : Text) :
    Within inner (front ++ (inner ++ back)) := by
  refine ⟨front, back, rfl, fun _ _ _ => ?_, fun c head => isNamePart_of_wordless (behind c head)⟩
  cases last : front.getLast? with
  | none => rfl
  | some c => exact before c last

theorem before_mark {mark : Char} (wordless : isWordCharacter mark = false) (text rest : Text) :
    Within text (text ++ mark :: rest) := by
  have within := @between [] (mark :: rest) (by simp) (by simpa using wordless) text
  rwa [List.nil_append] at within

theorem behind_mark {mark : Char} (wordless : isWordCharacter mark = false) (text rest : Text) :
    Within rest (text ++ mark :: rest) := by
  have within := @between (text ++ [mark]) [] (by simpa using wordless) (by simp) rest
  rwa [List.append_nil, List.append_assoc, List.singleton_append] at within

theorem trim (text : Text) : Within text.trim text := by
  obtain ⟨front, back, shape, before, behind⟩ := text.exists_trim
  have within := @between front back
    (fun c last => isWordCharacter_of_isBlank (before c (List.mem_of_getLast? last)))
    (fun c head => isWordCharacter_of_isBlank (behind c (List.mem_of_mem_head? head))) text.trim
  rwa [← shape] at within

end Within

end Text

open Text

section Cuts

variable {text : Text}

theorem cut?_eq_some {mark : Char} {before behind : Text}
    (cut : Text.cut? mark text = some (before, behind)) : text = before ++ mark :: behind := by
  induction text generalizing before with
  | nil => cases cut
  | cons c rest ih =>
      rw [Text.cut?] at cut
      split at cut
      · rename_i same
        cases cut
        rw [same, List.nil_append]
      · obtain ⟨⟨first, second⟩, found, same⟩ := Option.map_eq_some_iff.mp cut
        cases same
        rw [ih found, List.cons_append]

theorem beforeLast?_eq_some {mark : Char} {before : Text}
    (cut : text.beforeLast? mark = some before) : ∃ behind, text = before ++ mark :: behind := by
  unfold Text.beforeLast? at cut
  split at cut
  · cases cut
  · rename_i c rest found
    cases cut
    have same : c = mark := by
      have stop := List.head?_dropWhile_not (fun c => decide (c ≠ mark)) text.reverse
      rw [found] at stop
      simpa using stop
    have whole := List.takeWhile_append_dropWhile (p := fun c => decide (c ≠ mark)) (l := text.reverse)
    rw [found, same] at whole
    refine ⟨(text.reverse.takeWhile fun c => decide (c ≠ mark)).reverse, ?_⟩
    have turned := congrArg List.reverse whole
    simpa using turned.symm

theorem within_bracedBody {body : Text} (found : bracedBody? text = some body) :
    body.Within text := by
  obtain ⟨⟨before, behind⟩, opened, closed⟩ := Option.bind_eq_some_iff.mp found
  obtain ⟨last, shape⟩ := beforeLast?_eq_some closed
  have whole := cut?_eq_some opened
  have inside : body.Within behind := by
    rw [shape]
    exact .before_mark (by decide) body last
  have outside : behind.Within text.trim := by
    rw [whole]
    exact .behind_mark (by decide) before behind
  exact inside.trans (outside.trans (.trim text))

theorem within_splitTopLevel {text part : Text} (member : part ∈ splitTopLevel ';' text) :
    part.Within text := by
  rcases Nesting.marked_cases ';' .start text with none | ⟨front, rest, rfl, none, separates⟩
  · rw [splitTopLevel_of_unmarked none] at member
    have only : part = text.trim := by simpa using (List.mem_filter.mp member).1
    exact only ▸ .trim text
  · rw [splitTopLevel_of_marked (marked_of_separates (by decide) none separates rest),
      List.mem_append] at member
    rcases member with first | later
    · have only : part = front.trim := by simpa using (List.mem_filter.mp first).1
      exact only ▸ (Within.trim front).trans (.before_mark (by decide) front rest)
    · exact (within_splitTopLevel later).trans (.behind_mark (by decide) front rest)
termination_by text.length

theorem within_partitionTopLevel {label type : Text}
    (cut : partitionTopLevel? ':' text = some (label, type)) : type.Within text := by
  obtain ⟨⟨front, rest⟩, found, same⟩ := Option.map_eq_some_iff.mp cut
  cases same
  rcases Nesting.marked_cases ':' .start text with none | ⟨before, behind, rfl, none, separates⟩
  · rw [none, cutAtMark_unmarked] at found
    cases found
  · rw [marked_of_separates (by decide) none separates, cutAtMark_append,
      Nesting.marked_map_fst] at found
    cases found
    exact (Within.trim rest).trans (.behind_mark (by decide) front rest)

theorem within_recordFields {field : FieldText} (member : field ∈ recordFields text) :
    field.type.Within text := by
  obtain ⟨position, inside, rfl⟩ := List.mem_mapIdx.mp member
  have part := List.getElem_mem inside
  generalize (memberParts text)[position] = piece at part
  have within : piece.Within text := by
    unfold memberParts at part
    split at part
    · cases part
    · rename_i found
      exact (within_splitTopLevel part).trans (within_bracedBody found)
  unfold FieldText.ofPart
  split
  · exact within
  · rename_i cut
    split
    · exact within
    · exact (within_partitionTopLevel cut).trans within

theorem within_withoutAngles (text : Text) : (withoutAngles text).Within text := by
  unfold withoutAngles
  split
  · rename_i angled
    simp only [Bool.and_eq_true, beq_iff_eq] at angled
    obtain ⟨rest, rfl⟩ := List.head?_eq_some_iff.mp angled.1
    obtain ⟨front, shape⟩ := List.getLast?_eq_some_iff.mp angled.2
    refine (Within.trim _).trans ?_
    cases front with
    | nil => cases shape
    | cons c front =>
        obtain ⟨rfl, rfl⟩ := List.cons.inj shape
        have inside : Text.Within front (front ++ ['>']) := .before_mark (by decide) front []
        have outside : Text.Within (front ++ ['>']) ('<' :: (front ++ ['>'])) :=
          .behind_mark (by decide) [] _
        simpa using inside.trans outside
  · exact .refl text

/-- The word in front of an expression, in the letters that it has there. -/
theorem exists_leadingWord (some : leadingWord text.trim ≠ []) :
    ∃ word rest, text.trim = word ++ rest ∧ word.lowerLatin = leadingWord text.trim ∧
      (∀ c ∈ word, isNamePart c = true) ∧ ∀ c ∈ rest.head?, isNamePart c = false := by
  rw [leadingWord, trimStart_trim] at some
  rw [leadingWord, trimStart_trim]
  split at some
  · exact absurd rfl some
  · rename_i c rest shape
    split at some
    · rename_i begins
      obtain ⟨parts, ends⟩ := @all_of_span isNamePart rest _ _ rfl rfl
      refine ⟨c :: rest.takeWhile isNamePart, rest.dropWhile isNamePart, ?_, ?_, ?_, ends⟩
      · rw [shape, List.cons_append, List.takeWhile_append_dropWhile]
      · simp only [begins, ↓reduceIte]
      · exact List.forall_mem_cons.mpr ⟨isNamePart_of_isNameStart begins, parts⟩
    · exact absurd rfl some

/-- Behind the keyword in front stands the type that it wraps. -/
theorem within_innerType {keyword : Text} (leads : leadingWord text.trim = keyword)
    (some : keyword ≠ []) : (innerType keyword text.trim).Within text := by
  have front := isPrefixOf_of_leadingWord leads
  rw [Text.trimStart_trim] at front
  obtain ⟨word, rest, shape, spelt, _, ends⟩ := exists_leadingWord (leads ▸ some)
  have size : keyword.length = word.length := by
    rw [← leads, ← spelt, Text.lowerLatin, List.length_map]
  have behind : rest.Within text.trim := by
    refine ⟨word, [], by simpa using shape, fun c head part => ?_, by simp⟩
    exact absurd (part.symm.trans (ends c head)) (by decide)
  have inner : innerType keyword text.trim = withoutAngles rest.trim := by
    simp only [innerType, Text.trim_trim, front, ↓reduceIte]
    rw [shape, size, List.drop_left]
  rw [inner]
  exact (within_withoutAngles rest.trim).trans ((Within.trim rest).trans
    (behind.trans (.trim text)))

end Cuts

end Candid
