import Candid.Dictionary
import Candid.Idl.Comment
import Candid.Idl.Lexer
import Candid.Notice

/-!
# Alias declarations

The alias table of a source, found without reading the source as a whole: every `type` word with a
name and an equals sign behind it declares the text up to the next semicolon outside all brackets.
Malformed declarations are passed over.
-/

set_option autoImplicit false

namespace Candid

abbrev AliasTable := Dictionary Text

namespace Alias

open Idl

/-- What a `type` word turns out to begin. -/
inductive Declaration where
  | alias (name expression : Text)
  | empty (name : Text)
  | malformed (offset : Nat)
  | unterminated (name : Text)
  deriving DecidableEq, Repr

/-- The open brackets of each kind, counted with sign. -/
structure Depth where
  braces : Int
  parens : Int
  angles : Int
  deriving DecidableEq, Repr

def Depth.step (depth : Depth) : TokenKind → Depth
  | .leftBrace => { depth with braces := depth.braces + 1 }
  | .rightBrace => { depth with braces := depth.braces - 1 }
  | .leftParen => { depth with parens := depth.parens + 1 }
  | .rightParen => { depth with parens := depth.parens - 1 }
  | .leftAngle => { depth with angles := depth.angles + 1 }
  | .rightAngle => { depth with angles := depth.angles - 1 }
  | _ => depth

/-- Splits tokens at the first semicolon where all counters are zero: the tokens before it, the
semicolon and the tokens behind it. -/
def atSemicolon? (depth : Depth) : List Token → Option (List Token × Token × List Token)
  | [] => none
  | token :: rest =>
    if token.kind = .semicolon ∧ depth = ⟨0, 0, 0⟩ then some ([], token, rest)
    else
      (atSemicolon? (depth.step token.kind) rest).map fun (before, semicolon, behind) =>
        (token :: before, semicolon, behind)

theorem length_of_atSemicolon {depth : Depth} {tokens before behind : List Token}
    {semicolon : Token} (found : atSemicolon? depth tokens = some (before, semicolon, behind)) :
    behind.length < tokens.length := by
  induction tokens generalizing depth before with
  | nil => simp [atSemicolon?] at found
  | cons token rest ih =>
    simp only [atSemicolon?] at found
    split at found
    · simp only [Option.some.injEq, Prod.mk.injEq] at found
      obtain ⟨_, _, rfl⟩ := found
      simp
    · obtain ⟨⟨front, middle, back⟩, step, same⟩ := Option.map_eq_some_iff.mp found
      simp only [Prod.mk.injEq] at same
      obtain ⟨_, rfl, rfl⟩ := same
      exact Nat.lt_succ_of_lt (ih step)

/-- The part of a text between two offsets, trimmed. -/
def slice (text : Text) (start finish : Nat) : Text :=
  Text.trim ((text.take finish).drop start)

def declarations (text : Text) : List Token → List Declaration
  | [] => []
  | ⟨.reserved .typeWord, _, _, _⟩ :: ⟨.identifier, name, _, _⟩ :: ⟨.equals, _, _, _⟩ :: body =>
    match _found : atSemicolon? ⟨0, 0, 0⟩ body with
    | none => [.unterminated name]
    | some ([], _, behind) => .empty name :: declarations text behind
    | some (first :: _, semicolon, behind) =>
      .alias name (slice text first.offset semicolon.offset) :: declarations text behind
  | ⟨.reserved .typeWord, _, _, offset⟩ :: rest => .malformed offset :: declarations text rest
  | _ :: rest => declarations text rest
termination_by tokens => tokens.length
decreasing_by
  · have := length_of_atSemicolon _found
    simp only [List.length_cons]
    omega
  · have := length_of_atSemicolon _found
    simp only [List.length_cons]
    omega
  · simp
  · simp

/-- The declarations of a source, its comments being removed first. -/
def declarationsIn (source : Text) : List Declaration :=
  let text := withoutComments source
  declarations text (tokens text)

def table (source : Text) : AliasTable :=
  Dictionary.ofList ((declarationsIn source).filterMap fun
    | .alias name expression => some (name, expression)
    | _ => none)

def tableNotices (source : Text) : List Notice :=
  (declarationsIn source).filterMap fun
    | .malformed offset => some (.declarationSkipped offset)
    | .unterminated name => some (.declarationUnterminated name)
    | _ => none

end Alias

end Candid
