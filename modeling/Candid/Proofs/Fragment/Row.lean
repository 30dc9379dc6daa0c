import Candid.Fragment.Outline
import Candid.Proofs.Grammar.Completeness
import Candid.Proofs.Lexing.Extent

/-!
# Type expressions over rows

What the readers of type expressions find in the text of a row of lexemes: the word in front, the type
behind a keyword with and without angle brackets, and the body between braces.
-/

set_option autoImplicit false

namespace Candid

namespace Text

theorem cut?_append {mark : Char} {text : Text} (absent : mark ∉ text) (rest : Text) :
    cut? mark (text ++ mark :: rest) = some (text, rest) := by
  induction text with
  | nil => simp [cut?]
  | cons c text ih =>
      have other : c ≠ mark := fun same => absent (by simp [same])
      simp [cut?, other, ih fun inside => absent (by simp [inside])]

theorem beforeLast?_append {mark : Char} (text : Text) {rest : Text} (absent : mark ∉ rest) :
    beforeLast? mark (text ++ mark :: rest) = some text := by
  have others : ∀ c ∈ rest.reverse, decide (c ≠ mark) = true := by
    intro c member
    have other : c ≠ mark := by
      rintro rfl
      exact absent (List.mem_reverse.mp member)
    simpa using other
  have shape : (text ++ mark :: rest).reverse = rest.reverse ++ mark :: text.reverse := by simp
  rw [beforeLast?, shape, List.dropWhile_append_of_pos others]
  simp

end Text

/-- The outline of an expression, by the word that leads it. -/
theorem Outline.ofText_eq (expression : Text) :
    ofText expression =
      if leadingWord expression.trim = "opt".toList then
        .opt (ofText (innerType "opt".toList expression.trim))
      else if leadingWord expression.trim = "vec".toList then
        .vec (ofText (innerType "vec".toList expression.trim))
      else if leadingWord expression.trim = "record".toList then
        .record ((recordFields expression.trim).map fun field => (field.name, ofText field.type))
      else if leadingWord expression.trim = "variant".toList then
        .variant ((variantCases expression.trim).map fun item =>
          (item.name, item.type.map ofText))
      else .leaf expression.trim := by
  split
  · exact ofText_of_opt (by assumption)
  split
  · exact ofText_of_vec (by assumption)
  split
  · exact ofText_of_record (by assumption)
  split
  · exact ofText_of_variant (by assumption)
  · refine ofText_of_leaf ?_
    simp only [List.mem_cons, List.not_mem_nil, or_false, not_or]
    exact ⟨by assumption, by assumption, by assumption, by assumption⟩

theorem Outline.ofText_trim (expression : Text) : ofText expression.trim = ofText expression := by
  rw [ofText_eq expression.trim, ofText_eq expression, Text.trim_trim]

theorem memberParts_trim (expression : Text) : memberParts expression.trim = memberParts expression := by
  simp only [memberParts, bracedBody?, Text.trim_trim]

theorem recordFields_trim (expression : Text) :
    recordFields expression.trim = recordFields expression := by
  rw [recordFields, recordFields, memberParts_trim]

theorem variantCases_trim (expression : Text) :
    variantCases expression.trim = variantCases expression := by
  rw [variantCases, variantCases, memberParts_trim]

theorem leadingWord_append {c : Char} {tail rest : Text} (start : isNameStart c = true)
    (parts : ∀ d ∈ tail, isNamePart d = true) (ends : ∀ d ∈ rest.head?, isNamePart d = false) :
    leadingWord (c :: tail ++ rest) = Text.lowerLatin (c :: tail) := by
  have solid := isBlank_of_isNamePart (isNamePart_of_isNameStart start)
  have span := (span_eq parts ends).1
  rw [leadingWord, List.cons_append, Text.trimStart_cons_of_not_blank solid]
  simp only [start, ↓reduceIte, span]

namespace Idl

theorem Form.of_punctuation {kind : TokenKind} {text : Text} (form : Form kind text) {c : Char}
    (punctuation : Lexeme.punctuation? c = some kind) : text = [c] := by
  unfold Lexeme.punctuation? at punctuation
  cases form with
  | quoted | number | arrow => split at punctuation <;> cases punctuation
  | word =>
      unfold TokenKind.ofWord at punctuation
      split at punctuation <;> split at punctuation <;> cases punctuation
  | mark other =>
      unfold Lexeme.punctuation? at other
      split at other <;> cases other <;> split at punctuation <;> simp_all

def TokenKind.isWord : TokenKind → Bool
  | .identifier => true
  | .reserved _ => true
  | _ => false

theorem Form.of_word {kind : TokenKind} {text : Text} (form : Form kind text)
    (word : kind.isWord = true) :
    ∃ c tail, text = c :: tail ∧ isNameStart c = true ∧ (∀ d ∈ tail, isNamePart d = true) ∧
      kind = TokenKind.ofWord text := by
  cases form with
  | quoted | number | arrow => cases word
  | @word c tail start parts => exact ⟨c, tail, rfl, start, parts, rfl⟩
  | mark punctuation =>
      unfold Lexeme.punctuation? at punctuation
      split at punctuation <;> cases punctuation <;> cases word

theorem Form.of_reserved {word : Reserved} {text : Text} (form : Form (.reserved word) text) :
    text = word.text := by
  obtain ⟨_, _, _, _, _, kind⟩ := form.of_word rfl
  unfold TokenKind.ofWord at kind
  split at kind
  · rename_i found search
    cases kind
    have same := List.find?_some search
    simp only [beq_iff_eq] at same
    exact same.symm
  · cases kind

theorem Reserved.lowerLatin_text (word : Reserved) : word.text.lowerLatin = word.text := by
  cases word <;> rfl

theorem Form.leftAngle {kind : TokenKind} {tail : Text} (form : Form kind ('<' :: tail)) :
    kind = .leftAngle := by
  cases form with
  | number digit => exact absurd digit (by decide)
  | word start => exact absurd start (by decide)
  | mark punctuation => cases punctuation; rfl

variable {source : Text} {row : List Lexeme} {tokens others : List Token} {token : Token}

theorem Covers.trim_spelling (covers : Covers source row tokens) (clean : Clean source) :
    (spelling row).trim = spelling (trimmed row) :=
  Idl.trim_spelling (covers.sound clean)

/-- A word in front is the word that leads the expression. -/
theorem Covers.leadingWord (covers : Covers source row (token :: others)) (clean : Clean source)
    (word : token.kind.isWord = true) :
    ∃ rest, (spelling row).trim = token.text ++ spelling rest ∧
      Candid.leadingWord (spelling row).trim = token.text.lowerLatin ∧
      Form token.kind token.text ∧ Covers source rest others := by
  obtain ⟨rest, shape, form, bounded, further⟩ := covers.trimmed_cons clean
  obtain ⟨c, tail, spelt, start, parts, kind⟩ := form.of_word word
  have whole : (spelling row).trim = token.text ++ spelling rest := by
    rw [covers.trim_spelling clean, shape]
    rfl
  refine ⟨rest, whole, ?_, form, further⟩
  rw [kind] at bounded
  rw [whole, spelt]
  exact leadingWord_append start parts (bounded_ofWord.mp bounded)

theorem Covers.innerType {keyword : Reserved} (covers : Covers source row (token :: others))
    (clean : Clean source) (fits : token.kind = .reserved keyword) :
    ∃ rest, Candid.leadingWord (spelling row).trim = keyword.text ∧
      Candid.innerType keyword.text (spelling row).trim = withoutAngles (spelling rest).trim ∧
      Covers source rest others := by
  obtain ⟨rest, whole, leads, form, further⟩ := covers.leadingWord clean (by rw [fits]; rfl)
  rw [fits] at form
  rw [form.of_reserved] at whole leads
  rw [Reserved.lowerLatin_text] at leads
  have front := isPrefixOf_of_leadingWord leads
  rw [Text.trimStart_trim] at front
  refine ⟨rest, leads, ?_, further⟩
  simp only [Candid.innerType, Text.trim_trim, front, ↓reduceIte]
  rw [whole, List.drop_left]

theorem Covers.unbracketed (covers : Covers source row tokens) (clean : Clean source)
    (opening : Opening tokens) : (spelling row).trim.head? ≠ some '<' := by
  obtain ⟨token, others, rfl, opens⟩ := opening
  obtain ⟨rest, shape, form, _, _⟩ := covers.trimmed_cons clean
  rw [covers.trim_spelling clean, shape]
  obtain ⟨⟨c, tail, spelt, _⟩, _⟩ := form.solid
  rw [spelt] at form
  simp only [spelling_cons, spelt, List.cons_append, List.head?_cons, ne_eq, Option.some.injEq]
  rintro rfl
  rw [form.leftAngle] at opens
  cases opens

/-- A type that does not begin with an angle bracket stands without brackets. -/
theorem Covers.withoutAngles_of_opening (covers : Covers source row tokens) (clean : Clean source)
    (opening : Opening tokens) : withoutAngles (spelling row).trim = (spelling row).trim := by
  simp [withoutAngles, covers.unbracketed clean opening]

theorem Covers.withoutAngles_of_angles {last : Token}
    (covers : Covers source row (token :: (tokens ++ [last]))) (clean : Clean source)
    (opens : token.kind = .leftAngle) (closes : last.kind = .rightAngle) :
    ∃ middle, withoutAngles (spelling row).trim = (spelling middle).trim ∧
      Covers source middle tokens := by
  obtain ⟨middle, shape, between⟩ := covers.trimmed_between clean
  have openForm := covers.form clean token (by simp)
  have closeForm := covers.form clean last (by simp)
  rw [opens] at openForm
  rw [closes] at closeForm
  have whole : (spelling row).trim = '<' :: (spelling middle ++ ['>']) := by
    rw [covers.trim_spelling clean, shape]
    simp [openForm.of_punctuation (c := '<') rfl, closeForm.of_punctuation (c := '>') rfl]
  refine ⟨middle, ?_, between⟩
  rw [whole, withoutAngles]
  simp [List.getLast?_cons]

/-- No character of layout is a bracket. -/
theorem Covers.blank_of_mem (covers : Covers source row []) (clean : Clean source) :
    ∀ c ∈ spelling row, Lexeme.isBlankLayout c = true := by
  intro c member
  obtain ⟨lexeme, inside, here⟩ := List.mem_flatMap.mp member
  rcases covers.sound clean lexeme inside with ⟨d, rfl, blank⟩ | ⟨kind, text, rfl, _⟩
  · rwa [List.mem_singleton.mp here]
  · cases covers.layout clean _ inside

/-- Between braces behind a keyword stands the body. -/
theorem Covers.bracedBody {keyword : Reserved} {opening closing : Token}
    (covers : Covers source row (token :: opening :: (tokens ++ [closing])))
    (clean : Clean source) (fits : token.kind = .reserved keyword)
    (opens : opening.kind = .leftBrace) (closes : closing.kind = .rightBrace) :
    ∃ body, Candid.leadingWord (spelling row).trim = keyword.text ∧
      bracedBody? (spelling row).trim = some (spelling body) ∧ Covers source body tokens := by
  have openForm := covers.form clean opening (by simp)
  have closeForm := covers.form clean closing (by simp)
  rw [opens] at openForm
  rw [closes] at closeForm
  obtain ⟨rest, whole, leads, form, further⟩ := covers.leadingWord clean (by rw [fits]; rfl)
  rw [fits] at form
  rw [form.of_reserved] at whole leads
  rw [Reserved.lowerLatin_text] at leads
  have further : Covers source rest ([] ++ opening :: (tokens ++ [closing])) := further
  obtain ⟨blanks, inner, rfl, before, within⟩ := further.cut
  obtain ⟨body, back, rfl, between, behind⟩ := within.cut
  refine ⟨body, leads, ?_, between⟩
  have shape : (spelling row).trim =
      (keyword.text ++ spelling blanks) ++ '{' :: (spelling body ++ '}' :: spelling back) := by
    rw [whole]
    simp [openForm.of_punctuation (c := '{') rfl, closeForm.of_punctuation (c := '}') rfl]
  have noOpening : '{' ∉ keyword.text ++ spelling blanks := by
    rw [List.mem_append, not_or]
    refine ⟨by cases keyword <;> decide, fun member => ?_⟩
    exact absurd (before.blank_of_mem clean _ member) (by decide)
  have noClosing : '}' ∉ spelling back := fun member =>
    absurd (behind.blank_of_mem clean _ member) (by decide)
  rw [bracedBody?, Text.trim_trim, shape, Text.cut?_append noOpening]
  exact Text.beforeLast?_append _ noClosing

end Idl

end Candid
