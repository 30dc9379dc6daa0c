import Candid.Idl.Lexer
import Candid.Proofs.Lexing.Local

/-!
# Tokens of a row of lexemes

Without illegal characters the tokens of a source are those of its row of lexemes, and a cut between
two tokens is a cut of the row and of the text.
-/

set_option autoImplicit false

namespace Candid.Idl

def tokensOf (line offset : Nat) : List Lexeme → List Token
  | [] => []
  | lexeme :: row =>
    let others := tokensOf (line + lexeme.text.count '\n') (offset + lexeme.text.length) row
    match lexeme.kind with
    | .token kind => ⟨kind, lexeme.text, line, offset⟩ :: others
    | _ => others

theorem tokensOf_append (line offset : Nat) (row others : List Lexeme) :
    tokensOf line offset (row ++ others) = tokensOf line offset row ++
      tokensOf (line + (spelling row).count '\n') (offset + (spelling row).length) others := by
  induction row generalizing line offset with
  | nil => rfl
  | cons lexeme row ih =>
      simp only [List.cons_append, tokensOf, ih, spelling_cons, List.count_append,
        List.length_append, Nat.add_assoc]
      cases lexeme.kind <;> rfl

def Token.spelt (token : Token) : TokenKind × Text :=
  (token.kind, token.text)

def speltTokens (row : List Lexeme) : List (TokenKind × Text) :=
  row.filterMap fun lexeme =>
    match lexeme.kind with
    | .token kind => some (kind, lexeme.text)
    | _ => none

theorem map_spelt_tokensOf (line offset : Nat) (row : List Lexeme) :
    (tokensOf line offset row).map Token.spelt = speltTokens row := by
  induction row generalizing line offset with
  | nil => rfl
  | cons lexeme row ih =>
      obtain ⟨kind, text⟩ := lexeme
      cases kind <;> simp [tokensOf, speltTokens, Token.spelt] <;> exact ih _ _

theorem placed_eq_map {row : List Lexeme} (legal : ∀ lexeme ∈ row, lexeme.kind ≠ .illegal)
    (line offset : Nat) : placed line offset row = (tokensOf line offset row).map .token := by
  induction row generalizing line offset with
  | nil => rfl
  | cons lexeme row ih =>
      have others := ih fun lexeme member => legal lexeme (by simp [member])
      obtain ⟨kind, text⟩ := lexeme
      cases kind with
      | token kind => simp [placed, tokensOf, others]
      | layout => simp [placed, tokensOf, others]
      | illegal => exact absurd rfl (legal _ List.mem_cons_self)

theorem placed_append (line offset : Nat) (row others : List Lexeme) :
    placed line offset (row ++ others) = placed line offset row ++
      placed (line + (spelling row).count '\n') (offset + (spelling row).length) others := by
  induction row generalizing line offset with
  | nil => rfl
  | cons lexeme row ih =>
      obtain ⟨kind, text⟩ := lexeme
      simp only [List.cons_append, placed, ih, spelling_cons, List.count_append,
        List.length_append, Nat.add_assoc]
      cases kind with
      | token kind | layout => rfl
      | illegal => cases text <;> rfl

theorem ofPlaced_append (tokens : List Token) (others : List Placed) :
    TokenStream.ofPlaced (tokens.map .token ++ others) =
      ⟨tokens ++ (TokenStream.ofPlaced others).tokens, (TokenStream.ofPlaced others).stop⟩ := by
  induction tokens with
  | nil => rfl
  | cons token tokens ih => simp [TokenStream.ofPlaced, ih]

theorem ofPlaced_map (tokens : List Token) :
    TokenStream.ofPlaced (tokens.map .token) = ⟨tokens, none⟩ := by
  have whole := ofPlaced_append tokens []
  rwa [List.append_nil, TokenStream.ofPlaced, List.append_nil] at whole

/-- A stream that goes to the end of a row has met no illegal character. -/
theorem legal_of_stop {row : List Lexeme} {rest : Text} (stand : Stand row rest)
    {line offset : Nat} (complete : (TokenStream.ofPlaced (placed line offset row)).stop = none) :
    ∀ lexeme ∈ row, lexeme.kind ≠ .illegal := by
  induction row generalizing line offset with
  | nil => simp
  | cons lexeme row ih =>
      obtain ⟨kind, text⟩ := lexeme
      cases kind with
      | token kind =>
          have others := ih stand.2 (by simpa [placed, TokenStream.ofPlaced] using complete)
          simpa using others
      | layout =>
          have others := ih stand.2 (by simpa [placed] using complete)
          simpa using others
      | illegal =>
          obtain ⟨⟨c, tail, shape, _⟩, _⟩ := stand
          cases shape
          simp [placed, TokenStream.ofPlaced] at complete

theorem tokenStream_of_legal {source : Text}
    (legal : ∀ lexeme ∈ lexemes source, lexeme.kind ≠ .illegal) :
    tokenStream source = ⟨tokensOf 1 0 (lexemes source), none⟩ := by
  rw [tokenStream, placedIn, placed_eq_map legal, ofPlaced_map]

theorem legal_of_plain {row : List Lexeme} (plain : ∀ lexeme ∈ row, lexeme.Plain) :
    ∀ lexeme ∈ row, lexeme.kind ≠ .illegal := by
  intro lexeme member
  rcases plain lexeme member with ⟨kind, same⟩ | ⟨same, _⟩ <;> simp [same]

theorem tokenStream_spelling_of_legal (row : List Lexeme) (stand : Stand row [])
    (legal : ∀ lexeme ∈ row, lexeme.kind ≠ .illegal) :
    tokenStream (spelling row) = ⟨tokensOf 1 0 row, none⟩ := by
  have whole := lexemes_spelling stand
  rw [tokenStream_of_legal (by rwa [whole]), whole]

/-- The tokens of the text of a row of tokens and blanks are those of the row. -/
theorem tokenStream_spelling {row : List Lexeme} (stand : Stand row [])
    (simple : ∀ lexeme ∈ row, lexeme.Plain) :
    tokenStream (spelling row) = ⟨tokensOf 1 0 row, none⟩ :=
  tokenStream_spelling_of_legal row stand (legal_of_plain simple)

theorem tokens_of_legal {source : Text}
    (legal : ∀ lexeme ∈ lexemes source, lexeme.kind ≠ .illegal) :
    tokens source = tokensOf 1 0 (lexemes source) := by
  rw [tokens, placedIn, placed_eq_map legal, List.filterMap_map]
  exact List.filterMap_some

/-- A cut in front of a token is a cut of the row in front of its lexeme. -/
theorem exists_row_of_tokensOf {line offset : Nat} {row : List Lexeme} {before behind : List Token}
    {token : Token} (cut : tokensOf line offset row = before ++ token :: behind) :
    ∃ front others, row = front ++ ⟨.token token.kind, token.text⟩ :: others ∧
      tokensOf line offset front = before ∧ token.offset = offset + (spelling front).length ∧
      ∃ line, tokensOf line (token.offset + token.text.length) others = behind := by
  induction row generalizing line offset before with
  | nil => cases before <;> cases cut
  | cons lexeme row ih =>
      obtain ⟨kind, text⟩ := lexeme
      have further {front others : List Lexeme}
          (shape : row = front ++ ⟨.token token.kind, token.text⟩ :: others) :
          (⟨kind, text⟩ :: row : List Lexeme) =
            (⟨kind, text⟩ :: front) ++ ⟨.token token.kind, token.text⟩ :: others := by
        rw [shape, List.cons_append]
      cases kind with
      | token kind =>
          cases before with
          | nil =>
              simp only [tokensOf, List.nil_append, List.cons.injEq] at cut
              obtain ⟨rfl, rest⟩ := cut
              exact ⟨[], row, rfl, rfl, rfl, _, rest⟩
          | cons first before =>
              simp only [tokensOf, List.cons_append, List.cons.injEq] at cut
              obtain ⟨rfl, rest⟩ := cut
              obtain ⟨front, others, shape, same, place, behind⟩ := ih rest
              refine ⟨_, others, further shape, by simp [tokensOf, same], ?_, behind⟩
              simp [place]
              omega
      | layout | illegal =>
          obtain ⟨front, others, shape, same, place, behind⟩ := ih (by simpa [tokensOf] using cut)
          refine ⟨_, others, further shape, by simp [tokensOf, same], ?_, behind⟩
          simp [place]
          omega

theorem form_of_stand {row : List Lexeme} {rest : Text} (stand : Stand row rest) {line offset : Nat}
    {token : Token} (member : token ∈ tokensOf line offset row) : Form token.kind token.text := by
  induction row generalizing line offset with
  | nil => cases member
  | cons lexeme row ih =>
      obtain ⟨kind, text⟩ := lexeme
      obtain ⟨here, further⟩ := stand
      cases kind with
      | layout | illegal => exact ih further member
      | token kind =>
          rcases List.mem_cons.mp member with rfl | later
          · exact (form_of_stands here).1
          · exact ih further later

theorem mem_tokensOf_of_ofPlaced {row : List Lexeme} {line offset : Nat} {token : Token}
    (member : token ∈ (TokenStream.ofPlaced (placed line offset row)).tokens) :
    token ∈ tokensOf line offset row := by
  induction row generalizing line offset with
  | nil => cases member
  | cons lexeme row ih =>
      obtain ⟨kind, text⟩ := lexeme
      cases kind with
      | layout => exact ih member
      | token kind =>
          rcases List.mem_cons.mp member with rfl | later
          · exact List.mem_cons_self
          · exact List.mem_cons_of_mem _ (ih later)
      | illegal =>
          cases text with
          | nil => exact ih member
          | cons c text => cases member

theorem form_of_tokenStream {source : Text} {token : Token}
    (member : token ∈ (tokenStream source).tokens) : Form token.kind token.text :=
  form_of_stand (stand_lexemes source) (mem_tokensOf_of_ofPlaced member)

end Candid.Idl
