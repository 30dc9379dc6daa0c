import Candid.Proofs.Lexing.Comment
import Candid.Proofs.Lexing.Mode

/-!
# Layout between tokens

Tokens are written one after the other with layout between them. Whatever the layout is, the scanner
finds just these tokens: layout that is not empty begins with a character that continues no token, and a
comment goes up to its own end, whatever stands behind it.
-/

set_option autoImplicit false

namespace Candid.Idl

/-- A sequence of blanks, line comments with the line feed that ends them, and block comments up to their
first closing mark. -/
inductive Layout : Text → Prop where
  | none : Layout []
  | blank {c : Char} {rest : Text} : Lexeme.isBlankLayout c = true → Layout rest → Layout (c :: rest)
  | lineComment {inside rest : Text} : '\n' ∉ inside → Layout rest →
      Layout ("//".toList ++ inside ++ '\n' :: rest)
  | blockComment {inside rest : Text} : ¬ "*/".toList <:+: inside ++ ['*'] → Layout rest →
      Layout ("/*".toList ++ inside ++ "*/".toList ++ rest)

/-- A token in one of its spellings, with the layout behind it. -/
structure Spaced where
  kind : TokenKind
  text : Text
  gap : Text
  form : Form kind text
  layout : Layout gap

def Spaced.spelt (item : Spaced) : TokenKind × Text :=
  (item.kind, item.text)

def laidOut (items : List Spaced) : Text :=
  items.flatMap fun item => item.text ++ item.gap

/-- In front of the rest, the text falls into tokens of these kinds and spellings and layout. -/
def Yields (text rest : Text) (tokens : List (TokenKind × Text)) : Prop :=
  ∃ row, spelling row = text ∧ Stand row rest ∧ (∀ lexeme ∈ row, lexeme.kind ≠ .illegal) ∧
    speltTokens row = tokens

section Comments

variable {inside rest : Text}

/-- A comment whose inside does not close it earlier is closed by its own mark. -/
theorem closeComment?_of_first (first : ¬ "*/".toList <:+: inside ++ ['*']) :
    Lexeme.closeComment? (inside ++ '*' :: '/' :: rest) = some (inside ++ "*/".toList, rest) := by
  induction inside with
  | nil => rfl
  | cons c inside ih =>
      rw [List.cons_append, List.infix_cons_iff, not_or] at first
      obtain ⟨notHere, later⟩ := first
      have noMark : ∀ behind, c = '*' → inside ++ '*' :: '/' :: rest = '/' :: behind → False := by
        intro behind star slash
        apply notHere
        subst star
        cases inside with
        | nil => cases slash
        | cons d inside =>
            obtain ⟨same, _⟩ := List.cons.inj slash
            subst same
            exact ⟨inside ++ ['*'], rfl⟩
      rw [List.cons_append, Lexeme.closeComment?.eq_3 _ _ noMark, ih later]
      rfl

theorem stands_lineComment (flat : '\n' ∉ inside) :
    Lexeme.Stands ⟨.layout, "//".toList ++ inside⟩ ('\n' :: rest) := by
  have inLine : ∀ d ∈ '/' :: inside, decide (d ≠ '\n') = true := by
    intro d member
    apply decide_eq_true
    intro feed
    subst feed
    exact flat (by simpa using member)
  have feedEnds : ∀ d ∈ ('\n' :: rest).head?, decide (d ≠ '\n') = false := by
    simp
  have span := span_eq inLine feedEnds
  refine ⟨'/', '/' :: inside, rfl, ?_⟩
  simp only [Lexeme.front, show Lexeme.isBlankLayout '/' = false from rfl, Bool.false_eq_true,
    ↓reduceIte, List.cons_append]
  rw [← List.cons_append, span.1, span.2]

theorem stands_blockComment (first : ¬ "*/".toList <:+: inside ++ ['*']) :
    Lexeme.Stands ⟨.layout, "/*".toList ++ inside ++ "*/".toList⟩ rest := by
  refine ⟨'/', '*' :: (inside ++ "*/".toList), rfl, ?_⟩
  have closed : Lexeme.closeComment? (inside ++ '*' :: '/' :: rest) =
      some (inside ++ "*/".toList, rest) := closeComment?_of_first first
  simp only [Lexeme.front, show Lexeme.isBlankLayout '/' = false from rfl, Bool.false_eq_true,
    ↓reduceIte, List.cons_append, List.append_assoc]
  rw [show "*/".toList ++ rest = '*' :: '/' :: rest from rfl, closed]

end Comments

theorem Yields.append {text other rest : Text} {tokens others : List (TokenKind × Text)}
    (first : Yields text (other ++ rest) tokens) (second : Yields other rest others) :
    Yields (text ++ other) rest (tokens ++ others) := by
  obtain ⟨row, rfl, stand, legal, rfl⟩ := first
  obtain ⟨behind, rfl, standBehind, legalBehind, rfl⟩ := second
  exact ⟨row ++ behind, spelling_append row behind, stand_append.mpr ⟨stand, standBehind⟩,
    List.forall_mem_append.mpr ⟨legal, legalBehind⟩, speltTokens_append row behind⟩

theorem Lexeme.Stands.yields_layout {text rest : Text} (stands : Lexeme.Stands ⟨.layout, text⟩ rest) :
    Yields text rest [] :=
  ⟨[⟨.layout, text⟩], by simp, ⟨stands, trivial⟩, by simp, rfl⟩

theorem Form.yields {kind : TokenKind} {text rest : Text} (form : Form kind text)
    (bounded : Bounded kind rest) : Yields text rest [(kind, text)] :=
  ⟨[⟨.token kind, text⟩], by simp, ⟨form.stands bounded, trivial⟩, by simp, rfl⟩

namespace Layout

variable {gap : Text}

theorem yields (layout : Layout gap) (rest : Text) : Yields gap rest [] := by
  induction layout with
  | none => exact ⟨[], rfl, trivial, by simp, rfl⟩
  | @blank c behind blank _ ih => exact (stands_blank blank (behind ++ rest)).yields_layout.append ih
  | @lineComment inside behind flat _ ih =>
      have feed := (stands_blank (c := '\n') rfl (behind ++ rest)).yields_layout
      exact (stands_lineComment flat).yields_layout.append (feed.append ih)
  | blockComment first _ ih => exact (stands_blockComment first).yields_layout.append ih

/-- Layout that is not empty continues no token. -/
theorem apart (layout : Layout gap) (some : gap ≠ []) (rest : Text) : Apart (gap ++ rest) := by
  cases layout with
  | none => exact absurd rfl some
  | blank blank _ =>
      apply Blanked.apart
      simpa [Blanked] using blank
  | lineComment => exact apart_cons (by decide) (by decide) _
  | blockComment => exact apart_cons (by decide) (by decide) _

end Layout

/-- Where the gaps between tokens are not empty, the text falls into the tokens. -/
theorem yields_laidOut (items : List Spaced) (between : ∀ item ∈ items.dropLast, item.gap ≠ []) :
    Yields (laidOut items) [] (items.map Spaced.spelt) := by
  induction items with
  | nil => exact Layout.none.yields []
  | cons item items ih =>
      have gap := item.layout.yields (laidOut items)
      have bounded : Bounded item.kind (item.gap ++ laidOut items) := by
        cases items with
        | nil =>
            -- The last token may stand at the end of the text.
            by_cases some : item.gap = []
            · rw [some]
              exact Apart.bounded (by simp [Apart, laidOut]) item.kind
            · exact (item.layout.apart some _).bounded item.kind
        | cons next items =>
            exact (item.layout.apart (between item (by simp)) _).bounded item.kind
      have further : ∀ other ∈ items.dropLast, other.gap ≠ [] := by
        intro other member
        cases items with
        | nil => cases member
        | cons next items => exact between other (List.mem_cons_of_mem item member)
      have first := (item.form.yields bounded).append gap
      rw [← List.append_nil (laidOut items)] at first
      exact first.append (ih further)

/-- The scanner finds the tokens that a text yields and skips nothing. -/
theorem tokenize_of_yields (scanner : Scanner) {source : Text} {spelt : List (TokenKind × Text)}
    (yields : Yields source [] spelt) :
    (scanner.tokenize source).1.map Token.spelt = spelt ∧
      (scanner.tokenize source).2.skipped = [] := by
  obtain ⟨row, rfl, stand, legal, rfl⟩ := yields
  have whole := lexemes_spelling stand
  obtain ⟨found, passed, _⟩ := scanner.tokenize_eq (spelling row)
  constructor
  · rw [found, map_spelt_tokens, whole]
  · rw [passed, skipped, placedIn, whole, placed_eq_map legal, List.filterMap_map]
    exact List.filterMap_eq_nil_iff.mpr fun _ _ => rfl

theorem form_of_mem_speltTokens {row : List Lexeme} {rest : Text} (stand : Stand row rest)
    {kind : TokenKind} {text : Text} (member : (kind, text) ∈ speltTokens row) : Form kind text := by
  obtain ⟨⟨lexemeKind, spelling⟩, inside, same⟩ := List.mem_filterMap.mp member
  obtain ⟨before, behind, rfl⟩ := List.append_of_mem inside
  obtain ⟨_, stands, _⟩ := stand_append.mp stand
  cases lexemeKind with
  | token other =>
      cases same
      exact (form_of_stands stands).1
  | layout | illegal => cases same

/-- The spellings of a kind are those that the scanner finds in some source. -/
theorem form_iff_found (scanner : Scanner) {kind : TokenKind} {text : Text} :
    Form kind text ↔
      ∃ source, (kind, text) ∈ (scanner.tokenize source).1.map Token.spelt := by
  constructor
  · intro form
    have bounded : Bounded kind [] := Apart.bounded (by simp [Apart]) kind
    refine ⟨text, ?_⟩
    rw [(tokenize_of_yields scanner (form.yields bounded)).1]
    exact List.mem_singleton_self _
  · intro found
    obtain ⟨source, member⟩ := found
    rw [(scanner.tokenize_eq source).1, map_spelt_tokens] at member
    exact form_of_mem_speltTokens (stand_lexemes source) member

/-- A text is found as a single token exactly if it is a spelling of its kind. -/
theorem tokenizeStrict_single_iff (scanner : Scanner) {kind : TokenKind} {text : Text} :
    (∃ last, scanner.tokenizeStrict text = .ok ([⟨kind, text, 1, 0⟩], last)) ↔ Form kind text := by
  rw [scanner.tokenizeStrict_eq_ok_iff]
  constructor
  · intro stream
    have member : (⟨kind, text, 1, 0⟩ : Token) ∈ (tokenStream text).tokens := by
      rw [stream]
      exact List.mem_singleton_self _
    exact form_of_tokenStream member
  · intro form
    have stand : Stand [⟨.token kind, text⟩] [] :=
      ⟨form.stands (Apart.bounded (by simp [Apart]) kind), trivial⟩
    have stream := tokenStream_spelling_of_legal [⟨.token kind, text⟩] stand (by simp)
    rwa [spelling_cons, spelling_nil, List.append_nil] at stream

/-- The tokens are found again, in both modes, whatever layout stands in front of them, between them and
behind them, as long as some stands between any two. -/
theorem tokenize_laidOut (scanner : Scanner) {lead : Text} (layout : Layout lead)
    (items : List Spaced) (between : ∀ item ∈ items.dropLast, item.gap ≠ []) :
    ∃ tokens last, scanner.tokenizeStrict (lead ++ laidOut items) = .ok (tokens, last) ∧
      scanner.tokenize (lead ++ laidOut items) = (tokens, last) ∧
      tokens.map Token.spelt = items.map Spaced.spelt := by
  have front := layout.yields (laidOut items)
  rw [← List.append_nil (laidOut items)] at front
  obtain ⟨spelt, clean⟩ :=
    tokenize_of_yields scanner (front.append (yields_laidOut items between))
  exact ⟨_, _, scanner.tokenizeStrict_of_skipped_nil scanner clean, rfl, spelt⟩

def commentedItems : List Spaced :=
  [⟨.reserved .typeWord, "type".toList, "/*-*/".toList,
      @Form.word 't' "ype".toList (by decide) (List.all_eq_true.mp (by decide)),
      @Layout.blockComment ['-'] [] (by decide) .none⟩,
    ⟨.identifier, "A".toList, " //>\n".toList, @Form.word 'A' [] (by decide) (by simp),
      .blank (by decide) (@Layout.lineComment ['>'] [] (by decide) .none)⟩,
    ⟨.arrow, "->".toList, "\t".toList, .arrow, .blank (by decide) .none⟩,
    ⟨.number, "7".toList, [], @Form.number '7' [] (by decide) (by simp), .none⟩]

theorem tokenize_laidOut_commented :
    Layout "\r\n".toList ∧ (∀ item ∈ commentedItems.dropLast, item.gap ≠ []) ∧
      "\r\n".toList ++ laidOut commentedItems = "\r\ntype/*-*/A //>\n->\t7".toList ∧
      ∃ tokens last,
        Scanner.idle.tokenizeStrict ("\r\n".toList ++ laidOut commentedItems) = .ok (tokens, last) ∧
        Scanner.idle.tokenize ("\r\n".toList ++ laidOut commentedItems) = (tokens, last) ∧
        tokens.map Token.spelt = commentedItems.map Spaced.spelt := by
  have lead : Layout "\r\n".toList := .blank (by decide) (.blank (by decide) .none)
  have between : ∀ item ∈ commentedItems.dropLast, item.gap ≠ [] := by
    simp [commentedItems]
  exact ⟨lead, between, rfl, tokenize_laidOut Scanner.idle lead commentedItems between⟩

end Candid.Idl
