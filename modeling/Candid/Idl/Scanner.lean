import Candid.Idl.Lexer

/-!
# Scanner

The lexer as a machine that reads one source after the other. In front of what is left of a source it
passes over an ignored character or tries its rules in a fixed order. Its line goes up in two of the
rules only. A character that begins nothing is skipped, or is an error in the strict mode. Each source is
begun anew.
-/

set_option autoImplicit false

namespace Candid.Idl

inductive Rule where
  | blockComment
  | text
  | number
  | word
  | newline
  | lineComment
  | arrow
  | mark
  deriving DecidableEq, Repr

namespace Rule

/-- The rules in the order in which they are tried. -/
def all : List Rule :=
  [.blockComment, .text, .number, .word, .newline, .lineComment, .arrow, .mark]

def take? : Rule → Text → Option (Text × Text)
  | .blockComment, '/' :: '*' :: rest =>
    (Lexeme.closeComment? rest).map fun (inside, behind) => ('/' :: '*' :: inside, behind)
  | .text, '"' :: rest =>
    (Lexeme.closeQuote? rest).map fun (inside, behind) => ('"' :: inside, behind)
  | .number, c :: rest =>
    if isDigit c then some (c :: rest.takeWhile isDigit, rest.dropWhile isDigit) else none
  | .word, c :: rest =>
    if isNameStart c then some (c :: rest.takeWhile isNamePart, rest.dropWhile isNamePart) else none
  | .newline, '\n' :: rest =>
    some ('\n' :: rest.takeWhile (· = '\n'), rest.dropWhile (· = '\n'))
  | .lineComment, '/' :: '/' :: rest =>
    some ('/' :: '/' :: rest.takeWhile (· ≠ '\n'), rest.dropWhile (· ≠ '\n'))
  | .arrow, '-' :: '>' :: rest => some (['-', '>'], rest)
  | .mark, c :: rest => (Lexeme.punctuation? c).map fun _ => ([c], rest)
  | _, _ => none

/-- The kind of the token that a rule makes of a piece; none for what is passed over. -/
def kind? : Rule → Text → Option TokenKind
  | .text, _ => some .text
  | .number, _ => some .number
  | .word, piece => some (TokenKind.ofWord piece)
  | .arrow, _ => some .arrow
  | .mark, piece => piece.head?.bind Lexeme.punctuation?
  | _, _ => none

def countsLines : Rule → Bool
  | .blockComment => true
  | .newline => true
  | _ => false

def first? (text : Text) : Option (Rule × Text × Text) :=
  all.findSome? fun rule => (rule.take? text).map (rule, ·)

theorem take?_append {rule : Rule} {text piece behind : Text}
    (taken : rule.take? text = some (piece, behind)) : piece ++ behind = text ∧ piece ≠ [] := by
  unfold take? at taken
  split at taken
  · obtain ⟨⟨inside, rest⟩, closed, same⟩ := Option.map_eq_some_iff.mp taken
    cases same
    simp [Lexeme.closeComment?_append closed]
  · obtain ⟨⟨inside, rest⟩, closed, same⟩ := Option.map_eq_some_iff.mp taken
    cases same
    simp [Lexeme.closeQuote?_append closed]
  · split at taken <;> cases taken
    simp
  · split at taken <;> cases taken
    simp
  · cases taken
    simp
  · cases taken
    simp
  · cases taken
    simp
  · obtain ⟨kind, _, same⟩ := Option.map_eq_some_iff.mp taken
    cases same
    simp
  · cases taken

theorem take?_of_first? {text : Text} {rule : Rule} {piece behind : Text}
    (found : first? text = some (rule, piece, behind)) : rule.take? text = some (piece, behind) := by
  obtain ⟨other, _, taken⟩ := List.exists_of_findSome?_eq_some found
  obtain ⟨_, here, same⟩ := Option.map_eq_some_iff.mp taken
  cases same
  exact here

end Rule

/-- The characters that are passed over before any rule is tried. -/
def isIgnored (c : Char) : Bool :=
  c == ' ' || c == '\t' || c == '\r'

/-- The scanner between two pieces: what is left of the source, its place, and the offsets of the
characters that were skipped. -/
structure Scanner where
  rest : Text
  line : Nat
  offset : Nat
  skipped : List Nat
  deriving DecidableEq, Repr

namespace Scanner

def idle : Scanner := ⟨[], 1, 0, []⟩

/-- The scanner in front of a source, whatever it read before. -/
def input (_ : Scanner) (source : Text) : Scanner :=
  ⟨source, 1, 0, []⟩

def step? (scanner : Scanner) : Option (Option Token × Scanner) :=
  match scanner.rest with
  | [] => none
  | c :: rest =>
    if isIgnored c then some (none, { scanner with rest, offset := scanner.offset + 1 })
    else
      match Rule.first? (c :: rest) with
      | none =>
        some (none, { scanner with
          rest, offset := scanner.offset + 1, skipped := scanner.skipped ++ [scanner.offset] })
      | some (rule, piece, behind) =>
        let lines := if rule.countsLines then piece.count '\n' else 0
        some ((rule.kind? piece).map fun kind => ⟨kind, piece, scanner.line, scanner.offset⟩,
          { scanner with
            rest := behind, line := scanner.line + lines, offset := scanner.offset + piece.length })

theorem length_lt_of_step? {scanner next : Scanner} {token : Option Token}
    (step : scanner.step? = some (token, next)) : next.rest.length < scanner.rest.length := by
  unfold step? at step
  split at step
  · cases step
  · rename_i c rest shape
    rw [shape]
    split at step
    · cases step
      simp
    · split at step
      · cases step
        simp
      · rename_i rule piece behind found
        cases step
        obtain ⟨whole, some⟩ := Rule.take?_append (Rule.take?_of_first? found)
        have size := congrArg List.length whole
        have positive := List.length_pos_iff.mpr some
        rw [List.length_append] at size
        simp only
        omega

def run (scanner : Scanner) : List Token × Scanner :=
  match _ : scanner.step? with
  | none => ([], scanner)
  | some (token, next) =>
    let (tokens, last) := next.run
    (token.toList ++ tokens, last)
termination_by scanner.rest.length
decreasing_by exact length_lt_of_step? ‹_›

def tokenize (scanner : Scanner) (source : Text) : List Token × Scanner :=
  (scanner.input source).run

/-- What the scanner reads from sources one after the other, each with the scanner at its end. -/
def tokenizeAll : Scanner → List Text → List (List Token × Scanner)
  | _, [] => []
  | scanner, source :: sources =>
    let result := scanner.tokenize source
    result :: result.2.tokenizeAll sources

def illegal? (scanner : Scanner) : Option IllegalCharacter :=
  match scanner.rest with
  | [] => none
  | c :: rest =>
    if isIgnored c || (Rule.first? (c :: rest)).isSome then none
    else some ⟨c, scanner.line, scanner.offset⟩

def runStrict (scanner : Scanner) : Except IllegalCharacter (List Token × Scanner) :=
  match scanner.illegal? with
  | some illegal => .error illegal
  | none =>
    match _ : scanner.step? with
    | none => .ok ([], scanner)
    | some (token, next) =>
      next.runStrict.map fun (tokens, last) => (token.toList ++ tokens, last)
termination_by scanner.rest.length
decreasing_by exact length_lt_of_step? ‹_›

/-- The tokens of a source, and the scanner at its end, or the first illegal character of the source. -/
def tokenizeStrict (scanner : Scanner) (source : Text) :
    Except IllegalCharacter (List Token × Scanner) :=
  (scanner.input source).runStrict

end Scanner

end Candid.Idl
