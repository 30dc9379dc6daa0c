import Candid.Text.Basic

/-!
# Tokens

The tokens of an interface description, with their place in the source.
-/

set_option autoImplicit false

namespace Candid.Idl

/-- The reserved words. They are case-sensitive. -/
inductive Reserved where
  | typeWord
  | importWord
  | serviceWord
  | funcWord
  | optWord
  | vecWord
  | recordWord
  | variantWord
  | queryWord
  | compositeQueryWord
  | onewayWord
  deriving DecidableEq, Repr

def Reserved.text : Reserved → Text
  | .typeWord => "type".toList
  | .importWord => "import".toList
  | .serviceWord => "service".toList
  | .funcWord => "func".toList
  | .optWord => "opt".toList
  | .vecWord => "vec".toList
  | .recordWord => "record".toList
  | .variantWord => "variant".toList
  | .queryWord => "query".toList
  | .compositeQueryWord => "composite_query".toList
  | .onewayWord => "oneway".toList

def Reserved.all : List Reserved :=
  [.typeWord, .importWord, .serviceWord, .funcWord, .optWord, .vecWord, .recordWord, .variantWord,
    .queryWord, .compositeQueryWord, .onewayWord]

inductive TokenKind where
  | identifier
  | number
  | text
  | leftBrace
  | rightBrace
  | leftParen
  | rightParen
  | leftAngle
  | rightAngle
  | colon
  | semicolon
  | comma
  | equals
  | arrow
  | reserved (word : Reserved)
  deriving DecidableEq, Repr

def TokenKind.ofWord (word : Text) : TokenKind :=
  match Reserved.all.find? (·.text == word) with
  | some found => .reserved found
  | none => .identifier

structure Token where
  kind : TokenKind
  text : Text
  line : Nat
  offset : Nat
  deriving DecidableEq, Repr

end Candid.Idl
