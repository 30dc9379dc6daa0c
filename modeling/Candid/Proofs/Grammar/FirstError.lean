import Candid.Proofs.Grammar
import Candid.Proofs.Grammar.Lookahead
import Candid.Proofs.Grammar.Viable
import Candid.Proofs.Lexing.Spelled

/-!
# The first impossible token

A token list that is no document is refused at the first token that no document can have there, or at
its end if more tokens could make it a document. Readers take no impossible token, since a viable front
stands before what they refuse, and refuse no possible one, since they would refuse it in a document
as well.
-/

set_option autoImplicit false

namespace Candid.Idl

/-- The tokens are the front of a document. -/
def Viable (front : List Token) : Prop :=
  ∃ tree : Derivation (.nonterminal .interface), front <+: tree.yield

theorem viable_of_begins {front : List Token} (begins : Begins [.nonterminal .interface] front) :
    Viable front := by
  obtain ⟨trees, inside⟩ := begins
  match trees with
  | .cons tree .nil => exact ⟨tree, by simpa using inside⟩

theorem Viable.of_front {front longer : List Token} (viable : Viable longer)
    (start : front <+: longer) : Viable front := by
  obtain ⟨tree, inside⟩ := viable
  exact ⟨tree, start.trans inside⟩

section Document

variable {tokens : List Token}

/-- Before a refused token stands a viable front, and with the token it is none. -/
theorem first_of_refused {token : Token} {behind : List Token}
    (refused : readDocument (fuelFor tokens) tokens = .error (token :: behind)) :
    ∃ before, tokens = before ++ token :: behind ∧ Viable before ∧ ¬ Viable (before ++ [token]) := by
  obtain ⟨before, rfl, begins⟩ := stops_document _ tokens _ refused
  refine ⟨before, rfl, viable_of_begins begins, ?_⟩
  -- A document with the token in this place would be read, but the token is refused in it as well.
  rintro ⟨tree, other, yields⟩
  rw [List.append_assoc, List.singleton_append] at yields
  obtain ⟨document, read, _⟩ := tree.readDocument
  rw [← yields] at read
  have enough : 4 * (before.length + 1) ≤
      min (fuelFor (before ++ token :: behind)) (fuelFor (before ++ token :: other)) := by
    simp only [fuelFor, List.length_append, List.length_cons]
    omega
  rw [refused_again refused enough other] at read
  cases read

/-- A token list that is refused at its end is a viable front, and no document. -/
theorem viable_of_refused (refused : readDocument (fuelFor tokens) tokens = .error []) :
    Viable tokens ∧ ¬ ∃ tree : Derivation (.nonterminal .interface), tree.yield = tokens := by
  obtain ⟨before, rfl, begins⟩ := stops_document _ tokens _ refused
  rw [List.append_nil] at *
  refine ⟨viable_of_begins begins, ?_⟩
  rintro ⟨tree, rfl⟩
  obtain ⟨document, read, _⟩ := tree.readDocument
  rw [refused] at read
  cases read

/-- A viable front goes no further than to the first impossible token. -/
theorem length_le_of_viable {before earlier : List Token} {token : Token}
    (impossible : ¬ Viable (before ++ [token])) (viable : Viable earlier)
    (whole : before ++ [token] <+: tokens) (start : earlier <+: tokens) :
    earlier.length ≤ before.length := by
  by_contra longer
  have inside : before ++ [token] <+: earlier :=
    List.prefix_of_prefix_length_le whole start (by simp; omega)
  exact impossible (viable.of_front inside)

theorem refused_of_first {before behind : List Token} {token : Token}
    (cut : tokens = before ++ token :: behind) (viable : Viable before)
    (impossible : ¬ Viable (before ++ [token])) :
    readDocument (fuelFor tokens) tokens = .error (token :: behind) := by
  have whole : before ++ [token] <+: tokens := ⟨behind, by simp [cut]⟩
  cases result : readDocument (fuelFor tokens) tokens with
  | ok document =>
      obtain ⟨tree, yields⟩ := exists_interface_of_readDocument result
      exact absurd ⟨tree, yields ▸ whole⟩ impossible
  | error unread =>
      cases unread with
      | nil => exact absurd ((viable_of_refused result).1.of_front whole) impossible
      | cons other rest =>
          -- Another token is refused, but the first impossible one is unique.
          obtain ⟨earlier, same, earlierViable, refused⟩ := first_of_refused result
          have further : earlier ++ [other] <+: tokens := ⟨rest, by simp [same]⟩
          have lengths : before.length = earlier.length :=
            Nat.le_antisymm
              (length_le_of_viable refused viable further ⟨_, cut.symm⟩)
              (length_le_of_viable impossible earlierViable whole ⟨_, same.symm⟩)
          rw [(List.append_inj (cut.symm.trans same) lengths).2]

theorem refused_of_viable (viable : Viable tokens)
    (none : ¬ ∃ tree : Derivation (.nonterminal .interface), tree.yield = tokens) :
    readDocument (fuelFor tokens) tokens = .error [] := by
  cases result : readDocument (fuelFor tokens) tokens with
  | ok document => exact absurd (exists_interface_of_readDocument result) none
  | error unread =>
      cases unread with
      | nil => rfl
      | cons token behind =>
          obtain ⟨before, shape, _, impossible⟩ := first_of_refused result
          have whole : before ++ [token] <+: tokens := ⟨behind, by simp [shape]⟩
          exact absurd (viable.of_front whole) impossible

end Document

/-- A source without illegal characters is refused at the first token that is impossible behind the
tokens before it, with its spelling, its line and its offset; and at its end, if its tokens are the
front of a document and no document themselves. -/
theorem parse_first_error {source : Text} (legal : (tokenStream source).stop = none) :
    (∀ before token behind, (tokenStream source).tokens = before ++ token :: behind →
      Viable before → ¬ Viable (before ++ [token]) →
      parse source = .error (.unexpectedToken token) ∧
        (ParseError.unexpectedToken token).message =
          "Syntax error at '".toList ++ token.text ++ "' (line ".toList ++
            Numeral.ofNat token.line ++ ", position ".toList ++ Numeral.ofNat token.offset ++
            ")".toList) ∧
    (Viable (tokenStream source).tokens →
      (¬ ∃ tree : Derivation (.nonterminal .interface), tree.yield = (tokenStream source).tokens) →
      parse source = .error .endOfInput ∧
        ParseError.endOfInput.message = "Syntax error at end of input".toList) := by
  constructor
  · intro before token behind cut viable impossible
    refine ⟨?_, rfl⟩
    rw [parse, TokenStream.document, refused_of_first cut viable impossible]
    rfl
  · intro viable none
    refine ⟨?_, rfl⟩
    rw [parse, TokenStream.document, refused_of_viable viable none, legal]
    rfl

/-- The error is about the first impossible token, or about the end of a front of a document. -/
def ParseError.FirstIn (tokens : List Token) : ParseError → Prop
  | .unexpectedToken token => ∃ before behind, tokens = before ++ token :: behind ∧
      Viable before ∧ ¬ Viable (before ++ [token])
  | .endOfInput => Viable tokens ∧
      ¬ ∃ tree : Derivation (.nonterminal .interface), tree.yield = tokens
  | _ => True

/-- No other token is told, and the end only behind a front of a document. -/
theorem firstIn_of_document {stream : TokenStream} {error : ParseError}
    (fails : stream.document = .error error) : error.FirstIn stream.tokens := by
  unfold TokenStream.document at fails
  split at fails
  · rename_i token behind refused
    cases fails
    obtain ⟨before, cut, viable, impossible⟩ := first_of_refused refused
    exact ⟨before, behind, cut, viable, impossible⟩
  · cases fails
    trivial
  · rename_i refused _
    cases fails
    exact viable_of_refused refused
  · cases fails

section Example

private def unsigned : List Lexeme :=
  [.word "type".toList, .blank, .word "t".toList, .blank, .word "nat".toList,
    .mark .semicolon ';']

private def unended : List Lexeme :=
  [.word "type".toList, .blank, .word "t".toList]

/-- A definition without its sign is refused at its type, and one that ends behind its name at the
end. -/
theorem parse_first_error_of_definition :
    let before : List Token :=
      [⟨.reserved .typeWord, "type".toList, 1, 0⟩, ⟨.identifier, "t".toList, 1, 5⟩]
    let token : Token := ⟨.identifier, "nat".toList, 1, 7⟩
    ((tokenStream "type t nat;".toList).stop = none ∧
      Viable before ∧ ¬ Viable (before ++ [token]) ∧
      parse "type t nat;".toList = .error (.unexpectedToken token)) ∧
    (tokenStream "type t".toList).stop = none ∧
      Viable (tokenStream "type t".toList).tokens ∧
      parse "type t".toList = .error .endOfInput := by
  intro before token
  let behind : List Token := [⟨.semicolon, ";".toList, 1, 10⟩]
  have unsignedStream : tokenStream "type t nat;".toList = ⟨before ++ token :: behind, none⟩ :=
    tokenStream_spelling_of_legal unsigned (by decide +kernel) (by decide)
  have unendedStream : tokenStream "type t".toList = ⟨before, none⟩ :=
    tokenStream_spelling_of_legal unended (by decide +kernel) (by decide)
  obtain ⟨other, cut, viable, impossible⟩ :=
    first_of_refused (show readDocument (fuelFor (before ++ token :: behind))
      (before ++ token :: behind) = .error (token :: behind) from rfl)
  obtain rfl := List.append_cancel_right cut
  obtain ⟨_, underivable⟩ :=
    viable_of_refused (show readDocument (fuelFor before) before = .error [] from rfl)
  have unsignedLegal : (tokenStream "type t nat;".toList).stop = none := by rw [unsignedStream]
  have unendedLegal : (tokenStream "type t".toList).stop = none := by rw [unendedStream]
  have cutSource : (tokenStream "type t nat;".toList).tokens = before ++ token :: behind := by
    rw [unsignedStream]
  have started : Viable (tokenStream "type t".toList).tokens := by rwa [unendedStream]
  refine ⟨⟨unsignedLegal, viable, impossible, ?_⟩, unendedLegal, started, ?_⟩
  · exact ((parse_first_error unsignedLegal).1 before token behind cutSource viable impossible).1
  · refine ((parse_first_error unendedLegal).2 started ?_).1
    rwa [unendedStream]

end Example

end Candid.Idl
