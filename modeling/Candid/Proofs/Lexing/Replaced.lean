import Candid.Proofs.Fragment.Row
import Candid.Proofs.Lexing.Comment

/-!
# Replaced names

A name is replaced by a text that begins with a bracket, ends with a token, and stands elsewhere in
the same source. The lexemes around the name and those of the text are found again: a line comment
keeps the line feed behind it, what closes a block comment is found whatever stands behind, and what
ended the name ends the last token of the text as well.
-/

set_option autoImplicit false

namespace Candid.Idl

def replaced (source : Text) (token : Token) (text : Text) : Text :=
  source.take token.offset ++ text ++ source.drop (token.offset + token.text.length)

/-- The second list is the first with other tokens in the place of a name. -/
def Exchanged (name : Token) (inserted tokens others : List Token) : Prop :=
  name.kind = .identifier ∧ ∃ before behind,
    tokens = before ++ name :: behind ∧ others = before ++ (inserted ++ behind)

theorem Exchanged.around {name : Token} {inserted tokens others : List Token}
    (exchanged : Exchanged name inserted tokens others) (front back : List Token) :
    Exchanged name inserted (front ++ (tokens ++ back)) (front ++ (others ++ back)) := by
  obtain ⟨identifier, before, behind, rfl, rfl⟩ := exchanged
  exact ⟨identifier, front ++ before, behind ++ back, by simp, by simp⟩

def TokenKind.isOpening (kind : TokenKind) : Bool :=
  kind == .leftParen || kind == .leftBrace

/-- The tokens begin with one that opens arguments or a body, and end with one that is no number. -/
def Enclosed (tokens : List Token) : Prop :=
  ∃ first middle last, tokens = first :: (middle ++ [last]) ∧ first.kind.isOpening = true ∧
    last.kind ≠ .number

section Resumed

variable {rest other : Text}

theorem Lexeme.Stands.resume_line {text : Text}
    (stands : Lexeme.Stands ⟨.layout, '/' :: '/' :: text⟩ rest) (same : other.head? = rest.head?) :
    Lexeme.Stands ⟨.layout, '/' :: '/' :: text⟩ other := by
  rw [Lexeme.stands_cons] at stands ⊢
  simp only [Lexeme.front, List.cons_append, reduceIte,
    show Lexeme.isBlankLayout '/' = false from rfl, Bool.false_eq_true, Prod.mk.injEq,
    true_and] at stands ⊢
  obtain ⟨inside, ends⟩ := all_of_span stands.1 stands.2
  exact span_eq inside (by rwa [same])

theorem Lexeme.Stands.resume_block {text : Text}
    (stands : Lexeme.Stands ⟨.layout, '/' :: '*' :: text⟩ rest) :
    Lexeme.Stands ⟨.layout, '/' :: '*' :: text⟩ other := by
  obtain ⟨inside, shape, closed⟩ := block_of_stands stands rfl
  cases shape
  refine ⟨'/', '*' :: text, rfl, ?_⟩
  simp [Lexeme.front, Lexeme.isBlankLayout, closeComment?_congr other closed]

/-- A lexeme stands in front of a text that begins like the one behind it. Where no blank is behind it,
it also stands in front of a text that continues no word and no number. -/
theorem Lexeme.Stands.resume {lexeme : Lexeme} (stands : lexeme.Stands rest)
    (legal : lexeme.kind ≠ .illegal)
    (ends : other.head? = rest.head? ∨ ¬ Blanked rest ∧ Apart other) : lexeme.Stands other := by
  obtain ⟨kind, text⟩ := lexeme
  cases kind with
  | illegal => exact absurd rfl legal
  | token kind => exact stands.change (.inl ⟨kind, rfl⟩) (ends.imp_right And.right)
  | layout =>
      rcases layout_of_stands stands with blank | ⟨inside, rfl⟩ | ⟨inside, rfl⟩
      · exact stands.change (.inr ⟨rfl, blank⟩) (ends.imp_right And.right)
      · rcases ends with same | ⟨solid, _⟩
        · exact stands.resume_line same
        · exact absurd (blanked_of_line stands rfl) solid
      · exact stands.resume_block

theorem Stand.resume {row : List Lexeme} (stand : Stand row rest)
    (legal : ∀ lexeme ∈ row, lexeme.kind ≠ .illegal)
    (ends : other.head? = rest.head? ∨ ¬ Blanked rest ∧ Apart other) : Stand row other := by
  induction row with
  | nil => trivial
  | cons lexeme row ih =>
      refine ⟨stand.1.resume (legal lexeme (by simp)) ?_,
        ih stand.2 fun lexeme member => legal lexeme (by simp [member])⟩
      cases spelling row with
      | nil => exact ends
      | cons c text => exact .inl rfl

/-- What ends a name ends every token that is no number. -/
theorem bounded_of_identifier (bounded : Bounded .identifier rest) {kind : TokenKind}
    (noNumber : kind ≠ .number) : Bounded kind rest := by
  cases kind with
  | number => exact absurd rfl noNumber
  | identifier | reserved => exact bounded
  | _ => trivial

/-- A row that ends with a token, which is no number, stands in front of whatever ends a name. -/
theorem Stand.transfer {row : List Lexeme} {kind : TokenKind} {text : Text}
    (stand : Stand (row ++ [⟨.token kind, text⟩]) rest)
    (legal : ∀ lexeme ∈ row, lexeme.kind ≠ .illegal) (noNumber : kind ≠ .number)
    (bounded : Bounded .identifier other) : Stand (row ++ [⟨.token kind, text⟩]) other := by
  obtain ⟨front, last, _⟩ := stand_append.mp stand
  have some : text ≠ [] := last.ne_nil
  refine stand_append.mpr ⟨front.resume legal (.inl ?_), ?_, trivial⟩
  · simp [List.head?_append_of_ne_nil _ some]
  · exact (form_of_stands last).1.stands (bounded_of_identifier bounded noNumber)

end Resumed

def between (first : Token) (inside : List Lexeme) (last : Token) : List Lexeme :=
  ⟨.token first.kind, first.text⟩ :: (inside ++ [⟨.token last.kind, last.text⟩])

theorem spelling_between (first : Token) (inside : List Lexeme) (last : Token) :
    spelling (between first inside last) = first.text ++ (spelling inside ++ last.text) := by
  simp [between]

section Cut

theorem written_of_offsets {front segment others : List Lexeme} {tokens : List Token}
    {first last : Token} (begins : tokens.head? = some first) (ends : tokens.getLast? = some last)
    (start : first.offset = (spelling front).length)
    (finish : last.offset + last.text.length =
      (spelling front).length + (spelling segment).length) :
    written (spelling (front ++ segment ++ others)) tokens = spelling segment := by
  simp only [written, begins, ends, finish, start]
  rw [spelling_append, spelling_append, ← List.length_append, List.take_left, List.drop_left]

/-- Tokens that stand side by side in a source cut its row in front of the first of them and behind the
last, and the text between the cuts is what is written from the one to the other. -/
theorem exists_between {source : Text} {before middle behind : List Token} {first last : Token}
    (cut : tokensOf 1 0 (lexemes source) = before ++ (first :: (middle ++ [last]) ++ behind)) :
    ∃ front inside others, lexemes source = front ++ (between first inside last ++ others) ∧
      speltTokens inside = middle.map Token.spelt ∧
      written source (first :: (middle ++ [last])) = spelling (between first inside last) := by
  simp only [List.cons_append, List.append_assoc, List.nil_append] at cut
  obtain ⟨front, rest, firstCut, _, start, _, restCut⟩ := exists_row_of_tokensOf cut
  obtain ⟨inside, others, rfl, same, finish, _⟩ := exists_row_of_tokensOf restCut
  have shape : lexemes source = front ++ (between first inside last ++ others) := by
    rw [firstCut, between]
    simp
  refine ⟨front, inside, others, shape, ?_, ?_⟩
  · rw [← same, map_spelt_tokensOf]
  · rw [← spelling_lexemes source, shape, ← List.append_assoc]
    have ends : (first :: (middle ++ [last])).getLast? = some last := by
      rw [← List.cons_append, List.getLast?_concat]
    refine written_of_offsets rfl ends (by omega) ?_
    rw [spelling_between, List.length_append, List.length_append]
    omega

/-- A source is cut at one of its tokens. -/
theorem replaced_of_cut {source : Text} {front others : List Lexeme} {token : Token}
    (cut : lexemes source = front ++ ⟨.token token.kind, token.text⟩ :: others)
    (start : token.offset = (spelling front).length) (text : Text) :
    replaced source token text = spelling front ++ (text ++ spelling others) := by
  have whole : source = (spelling front ++ token.text) ++ spelling others := by
    rw [← spelling_lexemes source, cut]
    simp
  rw [replaced, whole, start, ← List.length_append, List.drop_left, List.append_assoc,
    List.append_assoc, List.take_left]

end Cut

theorem Form.not_blanked {kind : TokenKind} {text : Text} (form : Form kind text) (rest : Text) :
    ¬ Blanked (text ++ rest) := by
  obtain ⟨⟨c, tail, rfl, solid⟩, _⟩ := form.solid
  intro blanked
  have blank := isBlank_of_isBlankLayout (blanked c rfl)
  rw [solid] at blank
  cases blank

theorem Form.apart_of_opening {kind : TokenKind} {text : Text} (form : Form kind text)
    (opening : kind.isOpening = true) (rest : Text) : Apart (text ++ rest) := by
  simp only [TokenKind.isOpening, Bool.or_eq_true, beq_iff_eq] at opening
  rcases opening with rfl | rfl
  · rw [form.of_punctuation (c := '(') rfl]
    exact apart_cons (by decide) (by decide) rest
  · rw [form.of_punctuation (c := '{') rfl]
    exact apart_cons (by decide) (by decide) rest

variable {first last name : Token}

/-- A row that begins with an opening token and ends with a token that is no number takes the place of
a name in another row. -/
theorem stand_replaced {lead inside others : List Lexeme} {rest : Text}
    (leadLegal : ∀ lexeme ∈ lead, lexeme.kind ≠ .illegal)
    (insideLegal : ∀ lexeme ∈ inside, lexeme.kind ≠ .illegal)
    (opening : first.kind.isOpening = true) (noNumber : last.kind ≠ .number)
    (around : Stand (lead ++ ⟨.token .identifier, name.text⟩ :: others) [])
    (segment : Stand (between first inside last) rest) :
    Stand (lead ++ (between first inside last ++ others)) [] := by
  obtain ⟨leadStand, nameStands, othersStand⟩ := stand_append.mp around
  obtain ⟨form, bounded⟩ := form_of_stands nameStands
  rw [List.append_nil] at bounded
  have moved : Stand (between first inside last) (spelling others) :=
    Stand.transfer segment (List.forall_mem_cons.mpr ⟨by simp, insideLegal⟩) noNumber bounded
  refine stand_append.mpr ⟨?_, stand_append.mpr ⟨by rwa [List.append_nil], othersStand⟩⟩
  -- The name is no blank, so no line comment ends in front of it.
  refine leadStand.resume leadLegal (.inr ⟨?_, ?_⟩)
  · simpa using form.not_blanked (spelling others)
  · rw [List.append_nil, spelling_append, spelling_between, List.append_assoc]
    exact (form_of_stands segment.1).1.apart_of_opening opening _

/-- Where a name of a source is replaced by a text of the same source that opens arguments or a body,
the tokens of the text take the place of the name. -/
theorem tokenStream_replaced {source : Text} {tokens inserted others : List Token}
    (stream : tokenStream source = ⟨tokens, none⟩) (inside : inserted <:+: tokens)
    (enclosed : Enclosed inserted) (exchanged : Exchanged name inserted tokens others) :
    ∃ taken, tokenStream (replaced source name (written source inserted)) = ⟨taken, none⟩ ∧
      taken.map Token.spelt = others.map Token.spelt := by
  obtain ⟨identifier, before, behind, here, rfl⟩ := exchanged
  obtain ⟨first, middle, last, rfl, opening, noNumber⟩ := enclosed
  obtain ⟨_, _, there⟩ := inside
  rw [List.append_assoc] at there
  have stand := stand_lexemes source
  have legal := legal_of_stop stand (congrArg TokenStream.stop stream)
  rw [tokenStream_of_legal legal] at stream
  have row : tokensOf 1 0 (lexemes source) = tokens := congrArg TokenStream.tokens stream
  obtain ⟨_, inside, _, segmentCut, insideSpelt, text⟩ := exists_between (row.trans there.symm)
  obtain ⟨lead, rest, nameCut, leadSame, start, _, restSame⟩ :=
    exists_row_of_tokensOf (row.trans here)
  have leadLegal : ∀ lexeme ∈ lead, lexeme.kind ≠ .illegal := fun lexeme member =>
    legal lexeme (by simp [nameCut, member])
  have restLegal : ∀ lexeme ∈ rest, lexeme.kind ≠ .illegal := fun lexeme member =>
    legal lexeme (by simp [nameCut, member])
  have insideLegal : ∀ lexeme ∈ inside, lexeme.kind ≠ .illegal := fun lexeme member =>
    legal lexeme (by simp [segmentCut, between, member])
  have segment := stand
  rw [segmentCut] at segment
  rw [nameCut, identifier] at stand
  have whole := stand_replaced leadLegal insideLegal opening noNumber stand
    (stand_append.mp (stand_append.mp segment).2).1
  have result : replaced source name (written source (first :: (middle ++ [last]))) =
      spelling (lead ++ (between first inside last ++ rest)) := by
    rw [replaced_of_cut nameCut (start.trans (Nat.zero_add _)), text, spelling_append,
      spelling_append]
  rw [result, tokenStream_spelling_of_legal _ whole]
  · refine ⟨_, rfl, ?_⟩
    rw [map_spelt_tokensOf, ← leadSame, ← restSame]
    simp only [List.map_append, List.map_cons, map_spelt_tokensOf, ← insideSpelt]
    simp [between, speltTokens, Token.spelt]
  · simp only [between, List.forall_mem_append, List.forall_mem_cons]
    exact ⟨leadLegal, ⟨by simp, insideLegal, by simp⟩, restLegal⟩

end Candid.Idl
