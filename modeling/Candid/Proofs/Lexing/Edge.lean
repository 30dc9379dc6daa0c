import Candid.Proofs.Fragment.Row
import Candid.Proofs.Lexing.Comment

/-!
# Edges of words

No layout begins with a character of a word. Layout in front of a token does not end with one either, for
the one layout that may, a line comment, stands in front of a line feed. So a name between layout and a
mark is a word of its own.
-/

set_option autoImplicit false

namespace Candid

namespace Idl

theorem isWordCharacter_of_isBlankLayout {c : Char} (blank : Lexeme.isBlankLayout c = true) :
    isWordCharacter c = false := by
  simp only [Lexeme.isBlankLayout, Bool.or_eq_true, beq_iff_eq] at blank
  rcases blank with ((rfl | rfl) | rfl) | rfl <;> decide

theorem layout_of_speltTokens {row : List Lexeme} (legal : ∀ lexeme ∈ row, lexeme.kind ≠ .illegal)
    (none : speltTokens row = []) : ∀ lexeme ∈ row, lexeme.kind = .layout := by
  intro lexeme member
  cases kind : lexeme.kind with
  | layout => rfl
  | illegal => exact absurd kind (legal lexeme member)
  | token kind =>
      have absent := List.filterMap_eq_nil_iff.mp none lexeme member
      simp_all

section Layout

variable {rest : Text}

theorem Lexeme.Stands.wordless_head {text : Text} (stands : Lexeme.Stands ⟨.layout, text⟩ rest) :
    ∃ c tail, text = c :: tail ∧ isWordCharacter c = false := by
  rcases layout_of_stands stands with ⟨c, rfl, blank⟩ | ⟨tail, rfl⟩ | ⟨tail, rfl⟩
  · exact ⟨c, [], rfl, isWordCharacter_of_isBlankLayout blank⟩
  · exact ⟨'/', '/' :: tail, rfl, by decide⟩
  · exact ⟨'/', '*' :: tail, rfl, by decide⟩

theorem block_last {lexeme : Lexeme} (stands : lexeme.Stands rest)
    (block : lexeme.isBlockComment = true) : ∃ front, lexeme.text = front ++ ['/'] := by
  obtain ⟨inside, shape, closed⟩ := block_of_stands stands block
  obtain ⟨front, mark⟩ := closeComment?_suffix closed
  refine ⟨'/' :: '*' :: (front ++ ['*']), ?_⟩
  rw [shape, ← mark]
  simp

theorem Lexeme.Stands.wordless_last {text : Text} (stands : Lexeme.Stands ⟨.layout, text⟩ rest)
    (solid : ¬ Blanked rest) : ∃ front c, text = front ++ [c] ∧ isWordCharacter c = false := by
  rcases layout_of_stands stands with ⟨c, rfl, blank⟩ | ⟨tail, rfl⟩ | ⟨tail, rfl⟩
  · exact ⟨[], c, rfl, isWordCharacter_of_isBlankLayout blank⟩
  · exact absurd (blanked_of_line stands rfl) solid
  · obtain ⟨front, shape⟩ := block_last stands rfl
    exact ⟨front, '/', shape, by decide⟩

theorem wordless_head_of_layout {row : List Lexeme} (stand : Stand row rest)
    (layout : ∀ lexeme ∈ row, lexeme.kind = .layout)
    (behind : ∀ c ∈ rest.head?, isWordCharacter c = false) :
    ∀ c ∈ (spelling row ++ rest).head?, isWordCharacter c = false := by
  cases row with
  | nil => exact behind
  | cons lexeme row =>
      obtain ⟨kind, text⟩ := lexeme
      cases layout _ List.mem_cons_self
      obtain ⟨c, tail, rfl, wordless⟩ := stand.1.wordless_head
      simpa using wordless

/-- Layout in front of a text that does not begin with a blank does not end with a character of a word. -/
theorem wordless_last_of_layout {row : List Lexeme} (stand : Stand row rest)
    (layout : ∀ lexeme ∈ row, lexeme.kind = .layout) (solid : ¬ Blanked rest) (some : row ≠ []) :
    ∃ front c, spelling row = front ++ [c] ∧ isWordCharacter c = false := by
  -- Only the last lexeme stands in front of the text, and it decides.
  obtain ⟨⟨kind, text⟩, shape⟩ : ∃ last, row = row.dropLast ++ [last] :=
    ⟨row.getLast some, (List.dropLast_concat_getLast some).symm⟩
  rw [shape] at stand layout ⊢
  cases layout ⟨kind, text⟩ (by simp)
  obtain ⟨_, stands, _⟩ := stand_append.mp stand
  obtain ⟨front, c, rfl, wordless⟩ := stands.wordless_last (by simpa using solid)
  exact ⟨spelling row.dropLast ++ front, c, by simp, wordless⟩

end Layout

/-- Two words do not stand side by side. -/
theorem apart_of_words {first second : TokenKind} {word name : Text} {gap others : List Lexeme}
    (stand : Stand (⟨.token first, word⟩ :: (gap ++ ⟨.token second, name⟩ :: others)) [])
    (firstWord : first.isWord = true) (secondWord : second.isWord = true) : spelling gap ≠ [] := by
  intro none
  obtain ⟨stands, further⟩ := stand
  obtain ⟨form, bounded⟩ := form_of_stands stands
  obtain ⟨_, _, _, _, _, kind⟩ := form.of_word firstWord
  obtain ⟨_, nameStands, _⟩ := stand_append.mp further
  obtain ⟨c, tail, spelt, start, _⟩ := (form_of_stands nameStands).1.of_word secondWord
  rw [kind] at bounded
  have noPart := bounded_ofWord.mp bounded c (by simp [none, spelt])
  rw [isNamePart_of_isNameStart start] at noPart
  cases noPart

/-- The head of a definition among the tokens of a row is the word `type`, the name and the equals sign
with layout between. -/
theorem exists_head_of_tokensOf {row : List Lexeme} {line offset : Nat}
    {keyword name equals : Token} {before tokens : List Token} (stand : Stand row [])
    (legal : ∀ lexeme ∈ row, lexeme.kind ≠ .illegal) (word : keyword.kind = .reserved .typeWord)
    (fits : name.kind = .identifier) (sign : equals.kind = .equals)
    (cut : tokensOf line offset row = before ++ keyword :: name :: equals :: tokens) :
    ∃ lead gap space others,
      row = lead ++ ⟨.token (.reserved .typeWord), "type".toList⟩ ::
        (gap ++ ⟨.token .identifier, name.text⟩ :: (space ++ ⟨.token .equals, ['=']⟩ :: others)) ∧
      tokensOf line offset lead = before ∧
      (∀ lexeme ∈ gap, lexeme.kind = .layout) ∧ (∀ lexeme ∈ space, lexeme.kind = .layout) ∧
      name.offset = offset + (spelling lead).length + (4 + (spelling gap).length) ∧
      ∃ line, tokensOf line (name.offset + name.text.length + (spelling space).length + 1) others =
        tokens := by
  have keywordForm : Form keyword.kind keyword.text := form_of_stand stand (by rw [cut]; simp)
  have equalsForm : Form equals.kind equals.text := form_of_stand stand (by rw [cut]; simp)
  obtain ⟨lead, behind, rfl, same, start, _, cut⟩ := exists_row_of_tokensOf cut
  rw [← List.nil_append (name :: _)] at cut
  obtain ⟨gap, behind, rfl, noTokens, place, _, cut⟩ := exists_row_of_tokensOf cut
  rw [← List.nil_append (equals :: _)] at cut
  obtain ⟨space, others, rfl, noFurther, finish, line, cut⟩ := exists_row_of_tokensOf cut
  have layout {row : List Lexeme} {line offset : Nat} (none : tokensOf line offset row = [])
      (legal : ∀ lexeme ∈ row, lexeme.kind ≠ .illegal) : ∀ lexeme ∈ row, lexeme.kind = .layout := by
    refine layout_of_speltTokens legal ?_
    rw [← map_spelt_tokensOf, none, List.map_nil]
  rw [word] at keywordForm ⊢
  rw [sign] at equalsForm ⊢
  rw [keywordForm.of_reserved] at place ⊢
  rw [equalsForm.of_punctuation (c := '=') rfl, finish] at cut
  rw [equalsForm.of_punctuation (c := '=') rfl, fits]
  refine ⟨lead, gap, space, others, rfl, same, layout noTokens ?_, layout noFurther ?_, ?_, line, cut⟩
  · exact fun lexeme member => legal lexeme (by simp [member])
  · exact fun lexeme member => legal lexeme (by simp [member])
  · rw [place, start, Nat.add_assoc (_ + _)]
    rfl

end Idl

end Candid
