import Candid.Idl.Lexeme

/-!
# Token lists

The tokens of a source with their places. An illegal character either ends the list or is skipped
and recorded; both readings come from the same placed lexemes.
-/

set_option autoImplicit false

namespace Candid.Idl

structure IllegalCharacter where
  character : Char
  line : Nat
  offset : Nat
  deriving DecidableEq, Repr

/-- What a source holds besides layout. -/
inductive Placed where
  | token (token : Token)
  | illegal (illegal : IllegalCharacter)
  deriving DecidableEq, Repr

def placed (line offset : Nat) : List Lexeme → List Placed
  | [] => []
  | lexeme :: rest =>
    let others := placed (line + lexeme.text.count '\n') (offset + lexeme.text.length) rest
    match lexeme.kind, lexeme.text with
    | .token kind, text => .token ⟨kind, text, line, offset⟩ :: others
    | .illegal, c :: _ => .illegal ⟨c, line, offset⟩ :: others
    | _, _ => others

def placedIn (source : Text) : List Placed :=
  placed 1 0 (lexemes source)

/-- The tokens before the first illegal character, and that character if there is one. -/
structure TokenStream where
  tokens : List Token
  stop : Option IllegalCharacter
  deriving DecidableEq, Repr

def TokenStream.ofPlaced : List Placed → TokenStream
  | [] => ⟨[], none⟩
  | .illegal illegal :: _ => ⟨[], some illegal⟩
  | .token token :: rest =>
    let others := ofPlaced rest
    ⟨token :: others.tokens, others.stop⟩

def tokenStream (source : Text) : TokenStream :=
  .ofPlaced (placedIn source)

/-- All tokens of a source, illegal characters being skipped. -/
def tokens (source : Text) : List Token :=
  (placedIn source).filterMap fun
    | .token token => some token
    | .illegal _ => none

def skipped (source : Text) : List Nat :=
  (placedIn source).filterMap fun
    | .token _ => none
    | .illegal illegal => some illegal.offset

def lastLine (source : Text) : Nat :=
  1 + source.count '\n'

end Candid.Idl
