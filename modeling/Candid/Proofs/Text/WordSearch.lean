import Candid.Proofs.Text.Character
import Candid.Text.WordSearch
import Mathlib.Data.List.Forall2

/-!
# Words found in a text

The word search finds exactly the texts in which a word is spelt, in whatever case, between characters
that are not of words. No letter matches such a character, so the search takes a text apart at each of
them: a word stands in the whole exactly if it stands on one of the two sides.
-/

set_option autoImplicit false

namespace Candid

theorem isWordCharacter_of_isBlank {c : Char} (blank : isBlank c = true) :
    isWordCharacter c = false := by
  have noWord : ∀ code ∈ blankCodes, letterOrDigitRanges.contains code = false ∧ code ≠ '_'.toNat := by
    decide +kernel
  obtain ⟨noLetter, other⟩ := noWord c.toNat (mem_blankCodes blank)
  have noLine : c ≠ '_' := fun same => other (congrArg Char.toNat same)
  simp [isWordCharacter, isLetterOrDigit, noLetter, noLine]

/-- A letter is matched in both cases, and by characters of words that are of no name. -/
theorem eq_or_other_of_matchesLetter {letter c : Char} (fits : Text.matchesLetter letter c = true) :
    c.toLower = letter ∨ isWordCharacter c = true ∧ isNamePart c = false := by
  simp only [Text.matchesLetter, Bool.or_eq_true, beq_iff_eq] at fits
  refine fits.imp_right fun variant => ?_
  have known : Text.caseVariants.all
      (fun entry => entry.2.all fun d => isWordCharacter d && !isNamePart d) = true := by
    decide +kernel
  cases found : Text.caseVariants.lookup letter with
  | none => simp [found] at variant
  | some variants =>
      rw [found] at variant
      obtain ⟨before, behind, shape, _⟩ := List.lookup_eq_some_iff.mp found
      have each := List.all_eq_true.mp known (letter, variants) (by simp [shape])
      have here := List.all_eq_true.mp each c (by simpa using variant)
      simpa using here

theorem isWordCharacter_of_matchesLetter {letter c : Char} (part : isNamePart letter = true)
    (fits : Text.matchesLetter letter c = true) : isWordCharacter c = true := by
  rcases eq_or_other_of_matchesLetter fits with rfl | ⟨word, _⟩
  · exact isWordCharacter_of_isNamePart (isNamePart_of_toLower part)
  · exact word

theorem matchesLetter_of_wordless {letter c : Char} (part : isNamePart letter = true)
    (wordless : isWordCharacter c = false) : Text.matchesLetter letter c = false := by
  cases fits : Text.matchesLetter letter c with
  | false => rfl
  | true => exact absurd ((isWordCharacter_of_matchesLetter part fits).symm.trans wordless) (by decide)

namespace Text

/-- The characters match the letters of the word one by one, whatever their case. -/
def Spells (word spelt : Text) : Prop :=
  List.Forall₂ (fun letter c => matchesLetter letter c = true) word spelt

/-- One of the words is spelt in the text as a word of its own. -/
def Mentions (words : List Text) (text : Text) : Prop :=
  ∃ before spelt behind, text = before ++ (spelt ++ behind) ∧ (∃ word ∈ words, Spells word spelt) ∧
    endsInWord before.getLast? = false ∧ beginsWithWord behind = false

theorem wordInFront_iff {word text : Text} :
    wordInFront word text = true ↔
      ∃ spelt behind, text = spelt ++ behind ∧ Spells word spelt ∧ beginsWithWord behind = false := by
  induction word generalizing text with
  | nil => simp [wordInFront, Spells]
  | cons letter word ih =>
      cases text with
      | nil => simp [wordInFront, Spells]
      | cons c rest =>
          simp only [wordInFront, Bool.and_eq_true, ih]
          constructor
          · rintro ⟨fits, spelt, behind, rfl, spells, ends⟩
            exact ⟨c :: spelt, behind, rfl, .cons fits spells, ends⟩
          · rintro ⟨_, behind, shape, spells, ends⟩
            cases spells with
            | cons fits spells =>
                obtain ⟨rfl, rfl⟩ := List.cons.inj shape
                exact ⟨fits, _, behind, rfl, spells, ends⟩

section Words

variable {words : List Text} {previous : Option Char}

/-- The search finds a word behind a character exactly if one is spelt as a word of its own. -/
theorem containsWord_iff_of_previous (solid : ∀ word ∈ words, word ≠ []) {text : Text} :
    containsWord words previous text = true ↔
      ∃ before spelt behind, text = before ++ (spelt ++ behind) ∧
        (∃ word ∈ words, Spells word spelt) ∧ endsInWord (before.getLast?.or previous) = false ∧
        beginsWithWord behind = false := by
  induction text generalizing previous with
  | nil =>
      simp only [containsWord, Bool.false_eq_true, false_iff]
      rintro ⟨_, spelt, _, shape, ⟨word, member, spells⟩, _⟩
      cases spells with
      | nil => exact solid [] member rfl
      | cons => simp at shape
  | cons c rest ih =>
      simp only [containsWord, Bool.or_eq_true, Bool.and_eq_true, Bool.not_eq_true',
        List.any_eq_true, ih, wordInFront_iff]
      constructor
      · rintro (⟨apart, word, member, spelt, behind, shape, spells, ends⟩ |
          ⟨before, spelt, behind, rfl, named, apart, ends⟩)
        · exact ⟨[], spelt, behind, shape, ⟨word, member, spells⟩, by simpa using apart, ends⟩
        · exact ⟨c :: before, spelt, behind, rfl, named, getLast?_or_cons c before ▸ apart, ends⟩
      · rintro ⟨before, spelt, behind, shape, ⟨word, member, spells⟩, apart, ends⟩
        cases before with
        | nil => exact .inl ⟨by simpa using apart, word, member, spelt, behind, shape, spells, ends⟩
        | cons d before =>
            obtain ⟨rfl, rfl⟩ := List.cons.inj shape
            rw [getLast?_or_cons] at apart
            exact .inr ⟨before, spelt, behind, rfl, ⟨word, member, spells⟩, apart, ends⟩

/-- The search finds a word exactly if the text mentions one. -/
theorem containsWord_iff (solid : ∀ word ∈ words, word ≠ []) {text : Text} :
    containsWord words none text = true ↔ Mentions words text := by
  have found := @containsWord_iff_of_previous words none solid text
  simpa [Mentions] using found

/-- A name spells the word that it is in lower case. -/
theorem spells_iff_of_name {word text : Text} (parts : ∀ c ∈ text, isNamePart c = true) :
    Spells word text ↔ text.lowerLatin = word := by
  constructor
  · intro spells
    induction spells with
    | nil => rfl
    | @cons letter c word text fits _ ih =>
        rcases eq_or_other_of_matchesLetter fits with rfl | ⟨_, other⟩
        · exact congrArg (c.toLower :: ·) (ih fun d member => parts d (by simp [member]))
        · exact absurd ((parts c (by simp)).symm.trans other) (by decide)
  · rintro rfl
    clear parts
    induction text with
    | nil => exact .nil
    | cons c text ih => exact .cons (by simp [matchesLetter]) ih

/-- A name is one word, so it mentions no other. -/
theorem mentions_iff_of_name {text : Text} (parts : ∀ c ∈ text, isNamePart c = true) :
    text.Mentions words ↔ text.lowerLatin ∈ words := by
  constructor
  · rintro ⟨before, spelt, behind, shape, ⟨word, member, spells⟩, starts, ends⟩
    have character : ∀ c ∈ text, isWordCharacter c = true :=
      fun c member => isWordCharacter_of_isNamePart (parts c member)
    have front : before = [] := by
      cases last : before.getLast? with
      | none => exact List.getLast?_eq_none_iff.mp last
      | some c =>
          have inside := character c (by simp [shape, List.mem_of_getLast? last])
          rw [last, endsInWord, Option.any_some, inside] at starts
          cases starts
    have back : behind = [] := by
      cases behind with
      | nil => rfl
      | cons c rest =>
          have inside := character c (by simp [shape])
          rw [beginsWithWord, List.head?_cons, Option.any_some, inside] at ends
          cases ends
    rw [front, back, List.nil_append, List.append_nil] at shape
    rw [shape] at parts ⊢
    rwa [(spells_iff_of_name parts).mp spells]
  · intro member
    exact ⟨[], text, [], by simp, ⟨_, member, (spells_iff_of_name parts).mpr rfl⟩, rfl, rfl⟩

/-- Nothing is found where no letter of the words is matched. -/
theorem containsWord_of_unmatched (solid : ∀ word ∈ words, word ≠ []) {text : Text}
    (unmatched : ∀ word ∈ words, ∀ letter ∈ word, ∀ c ∈ text, matchesLetter letter c = false) :
    containsWord words none text = false := by
  refine Bool.eq_false_iff.mpr fun found => ?_
  obtain ⟨before, _, behind, shape, ⟨word, member, spells⟩, _⟩ := (containsWord_iff solid).mp found
  cases spells with
  | nil => exact solid [] member rfl
  | @cons letter c _ _ fits _ =>
      have other := unmatched _ member letter (by simp) c (by simp [shape])
      exact absurd (fits.symm.trans other) (by decide)

/-- Words of a letter at least, and of characters of names only. -/
def Lettered (words : List Text) : Prop :=
  ∀ word ∈ words, word ≠ [] ∧ ∀ letter ∈ word, isNamePart letter = true

variable {c : Char}

theorem wordInFront_append (wordless : isWordCharacter c = false) {word : Text}
    (parts : ∀ letter ∈ word, isNamePart letter = true) (text rest : Text) :
    wordInFront word (text ++ c :: rest) = wordInFront word text := by
  induction word generalizing text with
  | nil => cases text <;> simp [wordInFront, beginsWithWord, wordless]
  | cons letter word ih =>
      cases text with
      | nil =>
          have other := matchesLetter_of_wordless (parts letter (by simp)) wordless
          simp [wordInFront, other]
      | cons d text =>
          simp only [List.cons_append, wordInFront]
          rw [ih fun letter member => parts letter (by simp [member])]

/-- A word stands in a text exactly if it stands on one side of a character that is not of words. -/
theorem containsWord_append (lettered : Lettered words) (wordless : isWordCharacter c = false)
    (text rest : Text) :
    containsWord words previous (text ++ c :: rest) =
      (containsWord words previous text || containsWord words none rest) := by
  induction text generalizing previous with
  | nil =>
      have none : words.any (fun word => wordInFront word (c :: rest)) = false := by
        refine List.any_eq_false.mpr fun word member => ?_
        obtain ⟨solid, parts⟩ := lettered word member
        obtain ⟨letter, others, rfl⟩ := List.exists_cons_of_ne_nil solid
        have same := wordInFront_append wordless parts [] rest
        rw [List.nil_append] at same
        simp [same, wordInFront.eq_2]
      have behind : containsWord words (some c) rest = containsWord words Option.none rest := by
        cases rest <;> simp [containsWord, endsInWord, wordless]
      simp [containsWord, none, behind]
  | cons d text ih =>
      have front : words.any (fun word => wordInFront word (d :: (text ++ c :: rest))) =
          words.any (fun word => wordInFront word (d :: text)) := by
        rw [Bool.eq_iff_iff, List.any_eq_true, List.any_eq_true]
        refine exists_congr fun word => and_congr_right fun member => ?_
        rw [← List.cons_append, wordInFront_append wordless (lettered word member).2]
      rw [List.cons_append, containsWord, containsWord, ih, front, Bool.or_assoc]

theorem containsWord_cons (lettered : Lettered words) (wordless : isWordCharacter c = false)
    (text : Text) : containsWord words none (c :: text) = containsWord words none text := by
  have parted := @containsWord_append words none c lettered wordless [] text
  simpa [containsWord] using parted

theorem exists_of_isQuoted {label : Text} (quoted : label.isQuoted = true) :
    ∃ inner, label = '"' :: (inner ++ ['"']) := by
  simp only [isQuoted, Bool.and_eq_true, beq_iff_eq, decide_eq_true_eq] at quoted
  obtain ⟨⟨long, opens⟩, closes⟩ := quoted
  obtain ⟨rest, rfl⟩ := List.head?_eq_some_iff.mp opens
  obtain ⟨front, shape⟩ := List.getLast?_eq_some_iff.mp closes
  cases front with
  | nil => simp_all
  | cons c inner =>
      obtain ⟨rfl, rfl⟩ := List.cons.inj shape
      exact ⟨inner, rfl⟩

/-- The quotes of a label are not of words. -/
theorem containsWord_unquoted (lettered : Lettered words) (label : Text) :
    containsWord words none label.unquoted = containsWord words none label := by
  unfold unquoted
  split
  · rename_i quoted
    obtain ⟨inner, rfl⟩ := exists_of_isQuoted quoted
    have quote : isWordCharacter '"' = false := by decide
    rw [containsWord_cons lettered quote, containsWord_append lettered quote]
    simp [containsWord]
  · rfl

end Words

end Text

end Candid
