import Candid.Proofs.Lexing.Trimmed

/-!
# Spelled tokens

A text spells tokens in front of another text if it falls into them and single blanks there. Such texts
are put together piece by piece: a word or a number needs a piece behind it that does not continue it,
and a piece of marks and blanks stands in front of everything.
-/

set_option autoImplicit false

namespace Candid.Idl

/-- In front of the rest, the text falls into tokens of these kinds and spellings and single blanks. -/
def Spells (text rest : Text) (tokens : List (TokenKind × Text)) : Prop :=
  ∃ row, spelling row = text ∧ Stand row rest ∧ (∀ lexeme ∈ row, lexeme.Plain) ∧
    speltTokens row = tokens

theorem Spells.nil (rest : Text) : Spells [] rest [] :=
  ⟨[], rfl, trivial, by simp, rfl⟩

theorem Spells.append {text other rest : Text} {tokens others : List (TokenKind × Text)}
    (first : Spells text (other ++ rest) tokens) (second : Spells other rest others) :
    Spells (text ++ other) rest (tokens ++ others) := by
  obtain ⟨row, rfl, stand, plain, rfl⟩ := first
  obtain ⟨behind, rfl, standBehind, plainBehind, rfl⟩ := second
  exact ⟨row ++ behind, spelling_append row behind, stand_append.mpr ⟨stand, standBehind⟩,
    List.forall_mem_append.mpr ⟨plain, plainBehind⟩, speltTokens_append row behind⟩

theorem Form.spells {kind : TokenKind} {text rest : Text} (form : Form kind text)
    (bounded : Bounded kind rest) : Spells text rest [(kind, text)] :=
  ⟨[⟨.token kind, text⟩], by simp, ⟨form.stands bounded, trivial⟩, by simp [Lexeme.Plain], rfl⟩

/-- Whether a lexeme is a blank or a punctuation mark, which stand in front of everything. -/
def Lexeme.isGlue : Lexeme → Bool
  | ⟨.layout, [c]⟩ => isBlankLayout c
  | ⟨.token kind, [c]⟩ => punctuation? c == some kind
  | ⟨.token kind, text⟩ => kind == .arrow && text == ['-', '>']
  | _ => false

theorem Lexeme.stands_of_isGlue {lexeme : Lexeme} (glue : lexeme.isGlue = true) (rest : Text) :
    lexeme.Stands rest ∧ lexeme.Plain := by
  unfold isGlue at glue
  split at glue
  · exact ⟨stands_blank glue rest, .inr ⟨rfl, _, rfl, glue⟩⟩
  · rename_i kind c
    have mark : punctuation? c = some kind := by simpa using glue
    exact ⟨⟨c, [], rfl, front_of_punctuation mark rest⟩, .inl ⟨kind, rfl⟩⟩
  · simp only [Bool.and_eq_true, beq_iff_eq] at glue
    obtain ⟨rfl, rfl⟩ := glue
    exact ⟨Form.arrow.stands trivial, .inl ⟨.arrow, rfl⟩⟩
  · cases glue

theorem spells_of_glue (row : List Lexeme) (glue : row.all Lexeme.isGlue = true) (rest : Text) :
    Spells (spelling row) rest (speltTokens row) := by
  have each := List.all_eq_true.mp glue
  refine ⟨row, rfl, ?_, fun lexeme member => (Lexeme.stands_of_isGlue (each _ member) rest).2, rfl⟩
  clear glue
  induction row with
  | nil => trivial
  | cons lexeme row ih =>
      exact ⟨(Lexeme.stands_of_isGlue (each _ List.mem_cons_self) _).1,
        ih fun other member => each other (List.mem_cons_of_mem _ member)⟩

abbrev Lexeme.blank : Lexeme := ⟨.layout, [' ']⟩

abbrev Lexeme.word (text : Text) : Lexeme := ⟨.token (TokenKind.ofWord text), text⟩

abbrev Lexeme.mark (kind : TokenKind) (c : Char) : Lexeme := ⟨.token kind, [c]⟩

abbrev Lexeme.arrow : Lexeme := ⟨.token .arrow, ['-', '>']⟩

/-- The text spells the tokens in front of whatever continues no word and no number. -/
def Prints (text : Text) (tokens : List (TokenKind × Text)) : Prop :=
  ∀ rest, Apart rest → Spells text rest tokens

theorem Form.prints {kind : TokenKind} {text : Text} (form : Form kind text) :
    Prints text [(kind, text)] :=
  fun _ apart => form.spells (apart.bounded kind)

theorem Prints.append {text other rest : Text} {tokens others : List (TokenKind × Text)}
    (first : Prints text tokens) (apart : Apart (other ++ rest)) (second : Spells other rest others) :
    Spells (text ++ other) rest (tokens ++ others) :=
  (first _ apart).append second

theorem Spells.of_eq {text other rest : Text} {tokens others : List (TokenKind × Text)}
    (spells : Spells text rest tokens) (sameText : text = other) (sameTokens : tokens = others) :
    Spells other rest others :=
  sameText ▸ sameTokens ▸ spells

theorem Spells.tokens_nil {rest : Text} {tokens : List (TokenKind × Text)}
    (spells : Spells [] rest tokens) : tokens = [] := by
  obtain ⟨row, nothing, stand, _, rfl⟩ := spells
  cases row with
  | nil => rfl
  | cons lexeme row =>
      obtain ⟨⟨c, tail, shape, _⟩, _⟩ := stand
      simp [shape] at nothing

/-- The tokens of a source are those that it spells. -/
theorem tokenStream_of_spells {source : Text} {spelt : List (TokenKind × Text)}
    (spells : Spells source [] spelt) :
    ∃ tokens, tokenStream source = ⟨tokens, none⟩ ∧ tokens.map Token.spelt = spelt := by
  obtain ⟨row, rfl, stand, plain, rfl⟩ := spells
  exact ⟨tokensOf 1 0 row, tokenStream_spelling stand plain,
    map_spelt_tokensOf 1 0 row⟩

/-- The tokens that a front of a source spells are the first of the source. -/
theorem exists_front_of_spells {text rest : Text} {spelt : List (TokenKind × Text)}
    (spells : Spells text rest spelt) :
    ∃ taken more, (tokenStream (text ++ rest)).tokens = taken ++ more ∧
      taken.map Token.spelt = spelt := by
  obtain ⟨row, rfl, stand, plain, rfl⟩ := spells
  have cut := placed_append 1 0 row (lexemes rest)
  rw [placed_eq_map (legal_of_plain plain), ← lexemes_append stand] at cut
  have stream := congrArg TokenStream.ofPlaced cut
  rw [ofPlaced_append] at stream
  exact ⟨_, _, congrArg TokenStream.tokens stream, map_spelt_tokensOf 1 0 row⟩

end Candid.Idl
