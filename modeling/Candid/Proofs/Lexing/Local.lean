import Candid.Idl.Lexeme
import Candid.Proofs.Text.Character

/-!
# Lexemes in place

A lexeme is found from its own characters and the one behind them, so a row of lexemes is found again
wherever its text stands in front of a character that would not have continued the last of them.
Comments are left out: what ends them may be far away.
-/

set_option autoImplicit false

namespace Candid.Idl

def spelling (row : List Lexeme) : Text :=
  row.flatMap (·.text)

@[simp] theorem spelling_nil : spelling [] = [] := rfl

@[simp] theorem spelling_cons (lexeme : Lexeme) (row : List Lexeme) :
    spelling (lexeme :: row) = lexeme.text ++ spelling row := rfl

@[simp] theorem spelling_append (row others : List Lexeme) :
    spelling (row ++ others) = spelling row ++ spelling others :=
  List.flatMap_append

/-- The lexeme is the first one of its text with `rest` behind it. -/
def Lexeme.Stands (lexeme : Lexeme) (rest : Text) : Prop :=
  ∃ c tail, lexeme.text = c :: tail ∧ Lexeme.front c (tail ++ rest) = (lexeme.kind, tail, rest)

/-- Each lexeme of a row stands in front of those behind it and of `rest`. -/
def Stand : List Lexeme → Text → Prop
  | [], _ => True
  | lexeme :: row, rest => lexeme.Stands (spelling row ++ rest) ∧ Stand row rest

theorem Lexeme.stands_cons {kind : LexemeKind} {c : Char} {tail rest : Text} :
    Lexeme.Stands ⟨kind, c :: tail⟩ rest ↔ Lexeme.front c (tail ++ rest) = (kind, tail, rest) := by
  constructor
  · rintro ⟨_, _, shape, first⟩
    cases shape
    exact first
  · intro first
    exact ⟨c, tail, rfl, first⟩

instance Lexeme.Stands.decidable : (lexeme : Lexeme) → (rest : Text) → Decidable (lexeme.Stands rest)
  | ⟨_, []⟩, _ => .isFalse fun ⟨_, _, shape, _⟩ => by cases shape
  | ⟨_, _ :: _⟩, _ => decidable_of_iff _ stands_cons.symm

instance Stand.decidable : (row : List Lexeme) → (rest : Text) → Decidable (Stand row rest)
  | [], _ => .isTrue trivial
  | _ :: row, rest =>
      have := Stand.decidable row rest
      inferInstanceAs (Decidable (_ ∧ _))

theorem stand_append {row others : List Lexeme} {rest : Text} :
    Stand (row ++ others) rest ↔ Stand row (spelling others ++ rest) ∧ Stand others rest := by
  induction row with
  | nil => simp [Stand]
  | cons lexeme row ih => simp [Stand, ih, and_assoc]

theorem lexemes_append {row : List Lexeme} {rest : Text} (stand : Stand row rest) :
    lexemes (spelling row ++ rest) = row ++ lexemes rest := by
  induction row with
  | nil => rfl
  | cons lexeme row ih =>
      obtain ⟨⟨c, tail, shape, first⟩, others⟩ := stand
      obtain ⟨kind, text⟩ := lexeme
      cases shape
      rw [spelling_cons, List.append_assoc, List.cons_append, lexemes, first]
      simp only [ih others, List.cons_append]

theorem lexemes_spelling {row : List Lexeme} (stand : Stand row []) :
    lexemes (spelling row) = row := by
  simpa [lexemes] using lexemes_append stand

theorem spelling_lexemes (source : Text) : spelling (lexemes source) = source :=
  lexemes_flatMap_text source

theorem stand_lexemes (source : Text) : Stand (lexemes source) [] := by
  fun_induction lexemes source with
  | case1 => trivial
  | case2 c rest first ih =>
      refine ⟨⟨c, first.2.1, rfl, ?_⟩, ih⟩
      rw [List.append_nil, spelling_lexemes, Lexeme.front_append]

inductive Quoted : Text → Prop where
  | close : Quoted ['"']
  | escape {c : Char} {inside : Text} (noFeed : c ≠ '\n') :
      Quoted inside → Quoted ('\\' :: c :: inside)
  | plain {c : Char} {inside : Text} (noQuote : c ≠ '"') (noEscape : c ≠ '\\')
      (noFeed : c ≠ '\n') : Quoted inside → Quoted (c :: inside)

theorem quoted_of_closeQuote {text inside behind : Text}
    (closed : Lexeme.closeQuote? text = some (inside, behind)) : Quoted inside := by
  fun_induction Lexeme.closeQuote? text generalizing inside behind with
  | case1 => simp at closed
  | case2 rest =>
      simp only [Option.some.injEq, Prod.mk.injEq] at closed
      obtain ⟨rfl, _⟩ := closed
      exact .close
  | case3 => simp at closed
  | case4 => simp at closed
  | case5 c rest notFeed ih =>
      obtain ⟨⟨before, after⟩, step, same⟩ := Option.map_eq_some_iff.mp closed
      cases same
      exact .escape notFeed (ih step)
  | case6 => simp at closed
  | case7 c rest notQuote notLast notEscape notFeed ih =>
      obtain ⟨⟨before, after⟩, step, same⟩ := Option.map_eq_some_iff.mp closed
      cases same
      refine .plain notQuote ?_ notFeed (ih step)
      rintro rfl
      cases rest with
      | nil => exact notLast rfl rfl
      | cons d rest => exact notEscape d rest rfl rfl

theorem closeQuote?_of_quoted {inside : Text} (quoted : Quoted inside) (rest : Text) :
    Lexeme.closeQuote? (inside ++ rest) = some (inside, rest) := by
  induction quoted with
  | close => rfl
  | escape noFeed _ ih => simp [Lexeme.closeQuote?, noFeed, ih]
  | @plain c inside noQuote noEscape noFeed _ ih =>
      rw [List.cons_append, Lexeme.closeQuote?.eq_def]
      split
      · simp_all
      · simp_all
      · simp_all
      · simp_all
      · rename_i shape
        cases shape
        simp [noFeed, ih]

inductive Form : TokenKind → Text → Prop where
  | quoted {inside : Text} : Quoted inside → Form .text ('"' :: inside)
  | number {c : Char} {tail : Text} (digit : isDigit c = true)
      (digits : ∀ d ∈ tail, isDigit d = true) : Form .number (c :: tail)
  | word {c : Char} {tail : Text} (start : isNameStart c = true)
      (parts : ∀ d ∈ tail, isNamePart d = true) :
      Form (TokenKind.ofWord (c :: tail)) (c :: tail)
  | arrow : Form .arrow ['-', '>']
  | mark {c : Char} {kind : TokenKind} (punctuation : Lexeme.punctuation? c = some kind) :
      Form kind [c]

/-- The text does not continue a token of the kind. -/
def Bounded : TokenKind → Text → Prop
  | .number, rest => ∀ d ∈ rest.head?, isDigit d = false
  | .identifier, rest => ∀ d ∈ rest.head?, isNamePart d = false
  | .reserved _, rest => ∀ d ∈ rest.head?, isNamePart d = false
  | _, _ => True

/-- The text does not begin with a character that continues a word or a number. -/
def Apart (rest : Text) : Prop :=
  ∀ d ∈ rest.head?, isNamePart d = false ∧ isDigit d = false

theorem apart_cons {c : Char} (noName : isNamePart c = false) (noDigit : isDigit c = false)
    (rest : Text) : Apart (c :: rest) := by
  simp [Apart, noName, noDigit]

theorem Apart.bounded {rest : Text} (apart : Apart rest) (kind : TokenKind) :
    Bounded kind rest := by
  cases kind with
  | number => exact fun d front => (apart d front).2
  | identifier | reserved => exact fun d front => (apart d front).1
  | _ => trivial

theorem bounded_congr {kind : TokenKind} {rest other : Text} (same : other.head? = rest.head?)
    (bounded : Bounded kind rest) : Bounded kind other := by
  cases kind <;> simp_all [Bounded]

theorem bounded_ofWord {word rest : Text} :
    Bounded (TokenKind.ofWord word) rest ↔ ∀ d ∈ rest.head?, isNamePart d = false := by
  unfold TokenKind.ofWord
  split <;> rfl

theorem front_of_isNameStart {c : Char} (start : isNameStart c = true) :
    Lexeme.isBlankLayout c = false ∧ c ≠ '/' ∧ c ≠ '"' ∧ isDigit c = false := by
  have all := forall_ascii
    (p := fun c => !isNameStart c ||
      (!Lexeme.isBlankLayout c && c != '/' && c != '"' && !isDigit c))
    (by decide +kernel) (toNat_lt_of_isNamePart (isNamePart_of_isNameStart start))
  simp only [start, Bool.not_true, Bool.false_or, Bool.and_eq_true, Bool.not_eq_true',
    bne_iff_ne] at all
  exact ⟨all.1.1.1, all.1.1.2, all.1.2, all.2⟩

theorem front_of_isDigit {c : Char} (digit : isDigit c = true) :
    Lexeme.isBlankLayout c = false ∧ c ≠ '/' ∧ c ≠ '"' := by
  have other {d : Char} (noDigit : isDigit d = false) : c ≠ d := by
    rintro rfl
    rw [digit] at noDigit
    cases noDigit
  have blank : Lexeme.isBlankLayout c = false := by
    simp only [Lexeme.isBlankLayout, Bool.or_eq_false_iff, beq_eq_false_iff_ne]
    exact ⟨⟨⟨other (by decide), other (by decide)⟩, other (by decide)⟩, other (by decide)⟩
  exact ⟨blank, other (by decide), other (by decide)⟩

def punctuationMarks : Text :=
  ['{', '}', '(', ')', '<', '>', ':', ';', ',', '=']

theorem mem_punctuationMarks {c : Char} {kind : TokenKind}
    (punctuation : Lexeme.punctuation? c = some kind) : c ∈ punctuationMarks := by
  unfold Lexeme.punctuation? at punctuation
  split at punctuation <;> simp [punctuationMarks] at punctuation ⊢

theorem front_of_punctuation {c : Char} {kind : TokenKind}
    (punctuation : Lexeme.punctuation? c = some kind) (rest : Text) :
    Lexeme.front c rest = (.token kind, [], rest) := by
  have marks : punctuationMarks.all (fun c => !Lexeme.isBlankLayout c && c != '/' && c != '"' &&
      !isDigit c && !isNameStart c && c != '-') = true := by
    decide +kernel
  have here := List.all_eq_true.mp marks c (mem_punctuationMarks punctuation)
  simp only [Bool.and_eq_true, Bool.not_eq_true', bne_iff_ne, ne_eq] at here
  obtain ⟨⟨⟨⟨⟨noBlank, noSlash⟩, noQuote⟩, noDigit⟩, noName⟩, noHyphen⟩ := here
  simp [Lexeme.front, noBlank, noSlash, noQuote, noDigit, noName, noHyphen, punctuation]

/-- The lexeme of a spelling stands wherever the text behind does not continue it. -/
theorem Form.stands {kind : TokenKind} {text rest : Text} (form : Form kind text)
    (bounded : Bounded kind rest) : Lexeme.Stands ⟨.token kind, text⟩ rest := by
  cases form with
  | @quoted inside quoted =>
      refine ⟨'"', inside, rfl, ?_⟩
      simp [Lexeme.front, Lexeme.isBlankLayout, closeQuote?_of_quoted quoted]
  | @number c tail digit digits =>
      obtain ⟨noBlank, noSlash, noQuote⟩ := front_of_isDigit digit
      have span := span_eq digits bounded
      refine ⟨c, tail, rfl, ?_⟩
      simp [Lexeme.front, noBlank, noSlash, noQuote, digit, span.1, span.2]
  | @word c tail start parts =>
      obtain ⟨noBlank, noSlash, noQuote, noDigit⟩ := front_of_isNameStart start
      have span := span_eq parts (bounded_ofWord.mp bounded)
      refine ⟨c, tail, rfl, ?_⟩
      simp [Lexeme.front, noBlank, noSlash, noQuote, noDigit, start, span.1, span.2]
  | arrow =>
      have noDigit : isDigit '-' = false := by decide
      have noName : isNameStart '-' = false := by decide
      exact ⟨'-', ['>'], rfl, by simp [Lexeme.front, Lexeme.isBlankLayout, noDigit, noName]⟩
  | @mark c kind punctuation => exact ⟨c, [], rfl, front_of_punctuation punctuation rest⟩

theorem stands_blank {c : Char} (blank : Lexeme.isBlankLayout c = true) (rest : Text) :
    Lexeme.Stands ⟨.layout, [c]⟩ rest :=
  ⟨c, [], rfl, by simp [Lexeme.front, blank]⟩

/-- A token has one of the spellings of its kind, and the text behind does not continue it. -/
theorem form_of_stands {kind : TokenKind} {text rest : Text}
    (stands : Lexeme.Stands ⟨.token kind, text⟩ rest) : Form kind text ∧ Bounded kind rest := by
  obtain ⟨c, tail, rfl, first⟩ := stands
  unfold Lexeme.front at first
  split at first
  · cases first
  split at first
  · split at first
    · split at first <;> cases first
    · cases first
    · cases first
  split at first
  · rename_i quote
    cases quote
    split at first
    · rename_i inside behind closed
      simp only [Prod.mk.injEq, LexemeKind.token.injEq] at first
      obtain ⟨rfl, rfl, rfl⟩ := first
      exact ⟨.quoted (quoted_of_closeQuote closed), trivial⟩
    · cases first
  split at first
  · rename_i digit
    simp only [Prod.mk.injEq, LexemeKind.token.injEq] at first
    obtain ⟨rfl, taken, left⟩ := first
    obtain ⟨digits, ends⟩ := all_of_span taken left
    exact ⟨.number digit digits, ends⟩
  split at first
  · rename_i start
    simp only [Prod.mk.injEq, LexemeKind.token.injEq] at first
    obtain ⟨rfl, taken, left⟩ := first
    obtain ⟨parts, ends⟩ := all_of_span taken left
    rw [taken]
    exact ⟨.word start parts, bounded_ofWord.mpr ends⟩
  split at first
  · rename_i hyphen
    cases hyphen
    split at first
    · simp only [Prod.mk.injEq, LexemeKind.token.injEq] at first
      obtain ⟨rfl, rfl, _⟩ := first
      exact ⟨.arrow, trivial⟩
    · cases first
  split at first
  · rename_i found punctuation
    simp only [Prod.mk.injEq, LexemeKind.token.injEq] at first
    obtain ⟨rfl, rfl, _⟩ := first
    refine ⟨.mark punctuation, ?_⟩
    unfold Lexeme.punctuation? at punctuation
    split at punctuation <;> cases punctuation <;> trivial
  · cases first

/-- Layout is a blank character or a comment. -/
theorem layout_of_stands {text rest : Text} (stands : Lexeme.Stands ⟨.layout, text⟩ rest) :
    (∃ c, text = [c] ∧ Lexeme.isBlankLayout c = true) ∨
      "//".toList <+: text ∨ "/*".toList <+: text := by
  obtain ⟨c, tail, rfl, first⟩ := stands
  unfold Lexeme.front at first
  split at first
  · rename_i blank
    cases first
    exact .inl ⟨c, rfl, blank⟩
  split at first
  · rename_i slash
    cases slash
    split at first
    · split at first
      · cases first
        exact .inr (.inr ⟨_, rfl⟩)
      · cases first
    · rename_i behind shape
      simp only [Prod.mk.injEq, true_and] at first
      obtain ⟨taken, _⟩ := first
      rw [shape] at taken
      have front : '/' :: behind.takeWhile (· ≠ '\n') = tail := by
        simpa using taken
      rw [← front]
      exact .inr (.inl ⟨_, rfl⟩)
    · cases first
  repeat' (split at first <;> first | cases first | skip)

/-- The lexeme is a token or a blank character. -/
def Lexeme.Plain (lexeme : Lexeme) : Prop :=
  (∃ kind, lexeme.kind = .token kind) ∨
    lexeme.kind = .layout ∧ ∃ c, lexeme.text = [c] ∧ Lexeme.isBlankLayout c = true

/-- A token or a blank stands as well in front of a text that begins alike, or that continues no word
and no number. -/
theorem Lexeme.Stands.change {lexeme : Lexeme} {rest other : Text} (stands : lexeme.Stands rest)
    (plain : lexeme.Plain) (ends : other.head? = rest.head? ∨ Apart other) :
    lexeme.Stands other := by
  obtain ⟨kind, text⟩ := lexeme
  rcases plain with ⟨kind, rfl⟩ | ⟨rfl, c, rfl, blank⟩
  · obtain ⟨form, bounded⟩ := form_of_stands stands
    refine form.stands ?_
    rcases ends with same | apart
    · exact bounded_congr same bounded
    · exact apart.bounded kind
  · exact stands_blank blank other

theorem Stand.change {row : List Lexeme} {rest other : Text} (stand : Stand row rest)
    (plain : ∀ lexeme ∈ row, lexeme.Plain) (ends : other.head? = rest.head? ∨ Apart other) :
    Stand row other := by
  induction row with
  | nil => trivial
  | cons lexeme row ih =>
      refine ⟨stand.1.change (plain lexeme (by simp)) ?_,
        ih stand.2 fun lexeme member => plain lexeme (by simp [member])⟩
      cases spelling row with
      | nil => exact ends
      | cons c text => exact .inl rfl

/-- A row without illegal characters whose text holds no opening mark of a comment is plain. -/
theorem plain_of_stand {row : List Lexeme} {rest : Text} (stand : Stand row rest)
    (legal : ∀ lexeme ∈ row, lexeme.kind ≠ .illegal) (noLine : ¬ "//".toList <:+: spelling row)
    (noBlock : ¬ "/*".toList <:+: spelling row) : ∀ lexeme ∈ row, lexeme.Plain := by
  induction row with
  | nil => simp
  | cons lexeme row ih =>
      have within {mark : Text} (absent : ¬ mark <:+: spelling (lexeme :: row)) :
          ¬ mark <+: lexeme.text ∧ ¬ mark <:+: spelling row :=
        ⟨fun front => absent (front.isInfix.trans (List.prefix_append _ _).isInfix),
          fun inside => absent (inside.trans (List.suffix_append _ _).isInfix)⟩
      intro other member
      rcases List.mem_cons.mp member with rfl | later
      · obtain ⟨kind, text⟩ := other
        cases kind with
        | token kind => exact .inl ⟨kind, rfl⟩
        | layout =>
            rcases layout_of_stands stand.1 with blank | line | block
            · exact .inr ⟨rfl, blank⟩
            · exact absurd line (within noLine).1
            · exact absurd block (within noBlock).1
        | illegal => exact absurd rfl (legal _ member)
      · exact ih stand.2 (fun lexeme inside => legal lexeme (by simp [inside])) (within noLine).2
          (within noBlock).2 other later

end Candid.Idl
