import Candid.Proofs.Lexing.Trimmed
import Mathlib.Data.List.Basic

/-!
# Rows of lexemes over tokens

A run of the lexemes of a source covers the tokens that stand in it, together with the blanks that
happen to be taken along at its ends. Where the tokens fall into two parts the run does as well, and
without its outer blanks it is the text from the first token to the last.
-/

set_option autoImplicit false

namespace Candid.Idl

/-- The source holds tokens and blank characters only. -/
def Clean (source : Text) : Prop :=
  ∀ lexeme ∈ lexemes source, lexeme.Plain

/-- The row is a run of the lexemes of the source, and these are its tokens. -/
def Covers (source : Text) (row : List Lexeme) (tokens : List Token) : Prop :=
  ∃ before behind line, lexemes source = before ++ (row ++ behind) ∧
    tokensOf line (spelling before).length row = tokens

def written (source : Text) (tokens : List Token) : Text :=
  match tokens.head?, tokens.getLast? with
  | some first, some last => (source.take (last.offset + last.text.length)).drop first.offset
  | _, _ => []

theorem covers_lexemes (source : Text) :
    Covers source (lexemes source) (tokensOf 1 0 (lexemes source)) :=
  ⟨[], [], 1, by simp, rfl⟩

theorem layout_of_tokensOf {row : List Lexeme} (sound : ∀ lexeme ∈ row, lexeme.Sound)
    {line offset : Nat} (none : tokensOf line offset row = []) :
    ∀ lexeme ∈ row, lexeme.isLayout = true := by
  induction row generalizing line offset with
  | nil => simp
  | cons lexeme row ih =>
      rcases sound lexeme (by simp) with ⟨c, rfl, _⟩ | ⟨kind, text, rfl, _⟩
      · have others := ih (fun other member => sound other (by simp [member])) none
        simpa [Lexeme.isLayout] using others
      · cases none

namespace Covers

variable {source : Text} {row : List Lexeme} {tokens others : List Token} {token : Token}

theorem sound (covers : Covers source row tokens) (clean : Clean source) :
    ∀ lexeme ∈ row, lexeme.Sound := by
  obtain ⟨before, behind, _, shape, _⟩ := covers
  have all := sound_of_stand (stand_lexemes source) clean
  intro lexeme member
  exact all lexeme (by simp [shape, member])

theorem form (covers : Covers source row tokens) (clean : Clean source) :
    ∀ token ∈ tokens, Form token.kind token.text := by
  have sound := covers.sound clean
  obtain ⟨_, _, _, _, rfl⟩ := covers
  exact fun token member => form_of_mem_tokensOf sound member

theorem stand (covers : Covers source row tokens) : ∃ rest, Stand row rest := by
  obtain ⟨before, behind, _, shape, _⟩ := covers
  have stand := stand_lexemes source
  rw [shape, stand_append, stand_append] at stand
  exact ⟨_, stand.2.1⟩

theorem spelt (covers : Covers source row tokens) : speltTokens row = tokens.map Token.spelt := by
  obtain ⟨before, _, line, _, same⟩ := covers
  rw [← same, map_spelt_tokensOf]

theorem inside (front back : List Lexeme) {middle : List Lexeme} (first last : List Token)
    {between : List Token}
    (covers : Covers source (front ++ (middle ++ back)) (first ++ (between ++ last)))
    (frontTokens : (speltTokens front).length = first.length)
    (middleTokens : (speltTokens middle).length = between.length) :
    Covers source middle between := by
  obtain ⟨before, behind, line, shape, same⟩ := covers
  have count (line offset : Nat) (row : List Lexeme) :
      (tokensOf line offset row).length = (speltTokens row).length := by
    rw [← map_spelt_tokensOf line offset row, List.length_map]
  rw [tokensOf_append] at same
  have behindFront := (List.append_inj same ((count _ _ _).trans frontTokens)).2
  rw [tokensOf_append] at behindFront
  have middleSame := (List.append_inj behindFront ((count _ _ _).trans middleTokens)).1
  refine ⟨before ++ front, back ++ behind, line + (spelling front).count '\n', ?_, ?_⟩
  · simp [shape]
  · simpa using middleSame

/-- The row falls into the lexeme of a token and the rows in front of it and behind. -/
theorem cut (covers : Covers source row (tokens ++ token :: others)) :
    ∃ front rest, row = front ++ ⟨.token token.kind, token.text⟩ :: rest ∧
      Covers source front tokens ∧ Covers source rest others := by
  have ⟨before, behind, line, shape, same⟩ := covers
  obtain ⟨front, rest, rfl, frontSame, _⟩ := exists_row_of_tokensOf same
  have frontCount : (speltTokens front).length = tokens.length := by
    rw [← frontSame, ← map_spelt_tokensOf, List.length_map]
  have counts := congrArg List.length covers.spelt
  rw [speltTokens_append, List.length_append, List.map_append, List.length_append, frontCount,
    List.length_map] at counts
  have restCount : (speltTokens rest).length = others.length := by
    simpa [speltTokens] using counts
  refine ⟨front, rest, rfl, ?_, ?_⟩
  · exact inside [] _ [] _ (by simpa using covers) rfl frontCount
  · refine inside (front ++ [⟨.token token.kind, token.text⟩]) [] (tokens ++ [token]) []
      (by simpa using covers) ?_ restCount
    rw [speltTokens_append, List.length_append, frontCount]
    simp [speltTokens]

theorem layout (covers : Covers source row []) (clean : Clean source) :
    ∀ lexeme ∈ row, lexeme.isLayout = true := by
  have sound := covers.sound clean
  obtain ⟨_, _, _, _, none⟩ := covers
  exact layout_of_tokensOf sound none

theorem cons (covers : Covers source row (token :: others)) (clean : Clean source) :
    ∃ blanks rest, row = blanks ++ ⟨.token token.kind, token.text⟩ :: rest ∧
      (∀ lexeme ∈ blanks, lexeme.isLayout = true) ∧ Covers source rest others := by
  have covers : Covers source row ([] ++ token :: others) := covers
  obtain ⟨blanks, rest, shape, none, further⟩ := covers.cut
  exact ⟨blanks, rest, shape, none.layout clean, further⟩

theorem of_trimmed (covers : Covers source row tokens) : Covers source (trimmed row) tokens := by
  obtain ⟨front, back, shape, frontLayout, _⟩ := exists_trimmed row
  have count : (speltTokens (trimmed row)).length = tokens.length := by
    rw [speltTokens_trimmed, covers.spelt, List.length_map]
  rw [List.append_assoc] at shape
  refine inside front back [] [] ?_ (by simp [speltTokens_of_layout frontLayout]) count
  rw [← shape]
  simpa using covers

end Covers

/-- A row without outer blanks that is not empty begins and ends with a token. -/
theorem ends_of_trimmed {row : List Lexeme} (sound : ∀ lexeme ∈ row, lexeme.Sound)
    (some : trimmed row ≠ []) :
    (∃ kind text rest, trimmed row = ⟨.token kind, text⟩ :: rest) ∧
      ∃ front kind text, trimmed row = front ++ [⟨.token kind, text⟩] := by
  have tokenOf {lexeme : Lexeme} (member : lexeme ∈ trimmed row)
      (solid : ¬ lexeme.isLayout = true) : ∃ kind text, lexeme = ⟨.token kind, text⟩ := by
    obtain ⟨front, back, shape, _, _⟩ := exists_trimmed row
    rcases sound lexeme (by rw [shape]; simp [member]) with ⟨c, rfl, _⟩ | ⟨kind, text, same, _⟩
    · exact absurd rfl solid
    · exact ⟨kind, text, same⟩
  constructor
  · obtain ⟨first, rest, shape⟩ := List.exists_cons_of_ne_nil some
    have member : first ∈ trimmed row := by simp [shape]
    have front : (trimmed row) <+: row.dropWhile Lexeme.isLayout := by
      rw [trimmed, ← List.reverse_suffix, List.reverse_reverse]
      exact List.dropWhile_suffix _
    obtain ⟨back, whole⟩ := front
    have solid := List.head?_dropWhile_not Lexeme.isLayout row
    rw [← whole, shape] at solid
    obtain ⟨kind, text, rfl⟩ := tokenOf member (by simpa using solid)
    exact ⟨kind, text, rest, shape⟩
  · obtain none | ⟨front, last, shape⟩ := List.eq_nil_or_concat' (trimmed row)
    · exact absurd none some
    have solid := List.head?_dropWhile_not Lexeme.isLayout
      (row.dropWhile Lexeme.isLayout).reverse
    have behind : ((row.dropWhile Lexeme.isLayout).reverse.dropWhile Lexeme.isLayout).reverse =
        front ++ [last] := shape
    rw [List.reverse_eq_iff.mp behind] at solid
    obtain ⟨kind, text, rfl⟩ := tokenOf (show last ∈ trimmed row by simp [shape])
      (by simpa using solid)
    exact ⟨front, kind, text, shape⟩

theorem nil_of_trimmed_front {row blanks rest : List Lexeme}
    (sound : ∀ lexeme ∈ row, lexeme.Sound) (shape : trimmed row = blanks ++ rest)
    (layout : ∀ lexeme ∈ blanks, lexeme.isLayout = true) : blanks = [] := by
  cases blanks with
  | nil => rfl
  | cons blank blanks =>
      obtain ⟨⟨_, _, _, starts⟩, _⟩ := ends_of_trimmed sound (by simp [shape])
      have same := (List.cons.inj (shape.symm.trans starts)).1
      have blank := layout blank (by simp)
      rw [same] at blank
      cases blank

theorem nil_of_trimmed_back {row : List Lexeme} (front : List Lexeme) {blanks : List Lexeme}
    (sound : ∀ lexeme ∈ row, lexeme.Sound) (shape : trimmed row = front ++ blanks)
    (layout : ∀ lexeme ∈ blanks, lexeme.isLayout = true) : blanks = [] := by
  obtain none | ⟨blanks, blank, rfl⟩ := List.eq_nil_or_concat' blanks
  · exact none
  · obtain ⟨_, _, kind, text, ends⟩ := ends_of_trimmed sound (by simp [shape])
    rw [← List.append_assoc] at shape
    have same := (List.append_inj' (shape.symm.trans ends) rfl).2
    have blank := layout blank (by simp)
    rw [List.singleton_inj.mp same] at blank
    cases blank

theorem bounded_of_append {kind : TokenKind} {text rest : Text}
    (bounded : Bounded kind (text ++ rest)) : Bounded kind text := by
  cases text with
  | nil => cases kind <;> simp [Bounded]
  | cons c text => exact bounded_congr (by rfl) bounded

namespace Covers

variable {source : Text} {row : List Lexeme} {tokens others : List Token} {token last : Token}

/-- Without outer blanks the row begins with its first token, which ends there. -/
theorem trimmed_cons (covers : Covers source row (token :: others)) (clean : Clean source) :
    ∃ rest, trimmed row = ⟨.token token.kind, token.text⟩ :: rest ∧
      Form token.kind token.text ∧ Bounded token.kind (spelling rest) ∧
      Covers source rest others := by
  obtain ⟨blanks, rest, shape, layout, further⟩ := covers.of_trimmed.cons clean
  cases nil_of_trimmed_front (covers.sound clean) shape layout
  obtain ⟨behind, stand⟩ := covers.of_trimmed.stand
  rw [shape] at stand
  obtain ⟨form, bounded⟩ := form_of_stands stand.1
  exact ⟨rest, shape, form, bounded_of_append bounded, further⟩

theorem trimmed_single (covers : Covers source row [token]) (clean : Clean source) :
    trimmed row = [⟨.token token.kind, token.text⟩] := by
  obtain ⟨rest, shape, _, _, further⟩ := covers.trimmed_cons clean
  have none := nil_of_trimmed_back [_] (covers.sound clean) shape (further.layout clean)
  rw [shape, none]

/-- Without outer blanks the row begins with its first token and ends with its last. -/
theorem trimmed_between (covers : Covers source row (token :: (tokens ++ [last])))
    (clean : Clean source) :
    ∃ middle, trimmed row = ⟨.token token.kind, token.text⟩ ::
        (middle ++ [⟨.token last.kind, last.text⟩]) ∧ Covers source middle tokens := by
  obtain ⟨rest, shape, _, _, further⟩ := covers.trimmed_cons clean
  obtain ⟨middle, back, rfl, between, none⟩ := further.cut
  have empty := nil_of_trimmed_back
    (⟨.token token.kind, token.text⟩ :: (middle ++ [⟨.token last.kind, last.text⟩]))
    (covers.sound clean) (by simpa using shape) (none.layout clean)
  exact ⟨middle, by rw [shape, empty], between⟩

end Covers

/-- The text from the first token of a row to the last is that of the row without outer blanks. -/
theorem Covers.written_eq {source : Text} {row : List Lexeme} {tokens : List Token}
    (covers : Covers source row tokens) (clean : Clean source) (some : tokens ≠ []) :
    written source tokens = spelling (trimmed row) := by
  have solid : trimmed row ≠ [] := by
    intro none
    have spelt := covers.of_trimmed.spelt
    rw [none] at spelt
    exact some (List.map_eq_nil_iff.mp spelt.symm)
  obtain ⟨⟨_, _, _, starts⟩, front, kind, text, ends⟩ := ends_of_trimmed (covers.sound clean) solid
  obtain ⟨before, behind, line, shape, same⟩ := covers.of_trimmed
  have first : (tokens.head?.map (·.offset)) = Option.some (spelling before).length := by
    rw [← same, starts]
    rfl
  have last : (tokens.getLast?.map fun token => token.offset + token.text.length) =
      Option.some ((spelling before).length + (spelling (trimmed row)).length) := by
    rw [← same, ends, tokensOf_append]
    simp [tokensOf, Nat.add_assoc]
  obtain ⟨token, firstToken, firstPlace⟩ := Option.map_eq_some_iff.mp first
  obtain ⟨other, lastToken, lastPlace⟩ := Option.map_eq_some_iff.mp last
  have whole : source = spelling before ++ (spelling (trimmed row) ++ spelling behind) := by
    rw [← spelling_append, ← spelling_append, ← shape, spelling_lexemes]
  rw [written, firstToken, lastToken]
  simp only [firstPlace, lastPlace]
  conv_lhs => rw [whole]
  rw [← List.append_assoc, ← List.length_append, List.take_left, List.drop_left]

end Candid.Idl
