import Candid.Idl.Token
import Candid.Number.Digit
import Candid.Text.Blank
import Candid.Text.Name

/-!
# Lexemes

A source falls into lexemes: tokens, layout (blanks, line feeds, comments) and characters that begin
neither. No character is lost, so a lexeme's offset is the length of the lexemes before it and its
line is one more than their line feeds.
-/

set_option autoImplicit false

namespace Candid.Idl

inductive LexemeKind where
  | token (kind : TokenKind)
  | layout
  | illegal
  deriving DecidableEq, Repr

structure Lexeme where
  kind : LexemeKind
  text : Text
  deriving DecidableEq, Repr

namespace Lexeme

def isBlankLayout (c : Char) : Bool :=
  c == ' ' || c == '\t' || c == '\r' || c == '\n'

/-- The inside of a block comment up to the first closing mark, and the text behind the mark. -/
def closeComment? : Text → Option (Text × Text)
  | [] => none
  | '*' :: '/' :: rest => some (['*', '/'], rest)
  | c :: rest => (closeComment? rest).map fun (inside, behind) => (c :: inside, behind)

/-- The inside of a quoted text with its closing quote, and the text behind it. The inside holds no
line feed; a backslash takes the next character with it. -/
def closeQuote? : Text → Option (Text × Text)
  | [] => none
  | '"' :: rest => some (['"'], rest)
  | ['\\'] => none
  | '\\' :: c :: rest =>
    if c = '\n' then none
    else (closeQuote? rest).map fun (inside, behind) => ('\\' :: c :: inside, behind)
  | c :: rest =>
    if c = '\n' then none
    else (closeQuote? rest).map fun (inside, behind) => (c :: inside, behind)

def punctuation? : Char → Option TokenKind
  | '{' => some .leftBrace
  | '}' => some .rightBrace
  | '(' => some .leftParen
  | ')' => some .rightParen
  | '<' => some .leftAngle
  | '>' => some .rightAngle
  | ':' => some .colon
  | ';' => some .semicolon
  | ',' => some .comma
  | '=' => some .equals
  | _ => none

/-- The first lexeme of the text `c :: rest`, by its kind and its characters behind `c`, and the text
behind it. -/
def front (c : Char) (rest : Text) : LexemeKind × Text × Text :=
  if isBlankLayout c then (.layout, [], rest)
  else if c = '/' then
    match rest with
    | '*' :: inside =>
      match closeComment? inside with
      | some (comment, behind) => (.layout, '*' :: comment, behind)
      | none => (.illegal, [], rest)
    | '/' :: _ => (.layout, rest.takeWhile (· ≠ '\n'), rest.dropWhile (· ≠ '\n'))
    | _ => (.illegal, [], rest)
  else if c = '"' then
    match closeQuote? rest with
    | some (inside, behind) => (.token .text, inside, behind)
    | none => (.illegal, [], rest)
  else if isDigit c then (.token .number, rest.takeWhile isDigit, rest.dropWhile isDigit)
  else if isNameStart c then
    (.token (TokenKind.ofWord (c :: rest.takeWhile isNamePart)),
      rest.takeWhile isNamePart, rest.dropWhile isNamePart)
  else if c = '-' then
    match rest with
    | '>' :: behind => (.token .arrow, ['>'], behind)
    | _ => (.illegal, [], rest)
  else
    match punctuation? c with
    | some kind => (.token kind, [], rest)
    | none => (.illegal, [], rest)

theorem closeComment?_append {text inside behind : Text}
    (found : closeComment? text = some (inside, behind)) : inside ++ behind = text := by
  fun_induction closeComment? text generalizing inside behind with
  | case1 => simp at found
  | case2 rest =>
    simp only [Option.some.injEq, Prod.mk.injEq] at found
    obtain ⟨rfl, rfl⟩ := found
    rfl
  | case3 c rest other ih =>
    obtain ⟨⟨before, after⟩, step, same⟩ := Option.map_eq_some_iff.mp found
    simp only [Prod.mk.injEq] at same
    obtain ⟨rfl, rfl⟩ := same
    simp [ih step]

theorem closeQuote?_append {text inside behind : Text}
    (found : closeQuote? text = some (inside, behind)) : inside ++ behind = text := by
  fun_induction closeQuote? text generalizing inside behind with
  | case1 => simp at found
  | case2 rest =>
    simp only [Option.some.injEq, Prod.mk.injEq] at found
    obtain ⟨rfl, rfl⟩ := found
    rfl
  | case3 => simp at found
  | case4 => simp at found
  | case5 c rest notFeed ih =>
    obtain ⟨⟨before, after⟩, step, same⟩ := Option.map_eq_some_iff.mp found
    simp only [Prod.mk.injEq] at same
    obtain ⟨rfl, rfl⟩ := same
    simp [ih step]
  | case6 => simp at found
  | case7 c rest _ _ _ notFeed ih =>
    obtain ⟨⟨before, after⟩, step, same⟩ := Option.map_eq_some_iff.mp found
    simp only [Prod.mk.injEq] at same
    obtain ⟨rfl, rfl⟩ := same
    simp [ih step]

theorem front_append (c : Char) (rest : Text) :
    (front c rest).2.1 ++ (front c rest).2.2 = rest := by
  unfold front
  split
  · rfl
  split
  · split
    · split
      · rename_i inside comment behind found
        simpa using closeComment?_append found
      · rfl
    · simp
    · rfl
  split
  · split
    · rename_i inside behind found
      simpa using closeQuote?_append found
    · rfl
  split
  · simp
  split
  · simp
  split
  · split <;> rfl
  · split <;> rfl

theorem front_length_le (c : Char) (rest : Text) : (front c rest).2.2.length ≤ rest.length := by
  have whole := congrArg List.length (front_append c rest)
  rw [List.length_append] at whole
  omega

end Lexeme

def lexemes : Text → List Lexeme
  | [] => []
  | c :: rest =>
    let first := Lexeme.front c rest
    ⟨first.1, c :: first.2.1⟩ :: lexemes first.2.2
termination_by text => text.length
decreasing_by
  have := Lexeme.front_length_le c rest
  simp only [List.length_cons]
  omega

theorem lexemes_flatMap_text (source : Text) : (lexemes source).flatMap (·.text) = source := by
  fun_induction lexemes source with
  | case1 => rfl
  | case2 c rest first ih =>
    simp only [List.flatMap_cons, ih, List.cons_append]
    rw [Lexeme.front_append]

end Candid.Idl
