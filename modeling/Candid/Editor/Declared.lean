import Candid.Fragment.Scalar
import Candid.Text.Word

/-!
# Declared names

The places of a source where the word `type`, a name and an equals sign follow each other. The source
is not read further, so comments and quoted text are searched too.
-/

set_option autoImplicit false

namespace Candid.Editor

structure Declared where
  name : Text
  offset : Nat
  deriving DecidableEq, Repr

/-- The name declared by the front of a text, the offset of the name, and the length of the text up to
and including the equals sign. -/
def declaredInFront? (text : Text) : Option (Text × Nat × Nat) := do
  let rest ← Text.after? "type".toList text
  let start := rest.trimStart
  if start.length = rest.length then none
  else
    match start with
    | [] => none
    | c :: others =>
      if isNameStart c then
        match Text.trimStart (others.dropWhile isNamePart) with
        | '=' :: behind =>
          some (c :: others.takeWhile isNamePart, text.length - start.length,
            text.length - behind.length)
        | _ => none
      else none

/-- The declared names in a text that begins at an offset. `previous` is the character before it, and
`skip` characters belong to the last declaration. -/
def declaredFrom (previous : Option Char) (offset skip : Nat) : Text → List Declared
  | [] => []
  | c :: rest =>
    match skip with
    | skip + 1 => declaredFrom (some c) (offset + 1) skip rest
    | 0 =>
      if Text.endsInWord previous then declaredFrom (some c) (offset + 1) 0 rest
      else
        match declaredInFront? (c :: rest) with
        | none => declaredFrom (some c) (offset + 1) 0 rest
        | some (name, start, length) =>
          ⟨name, offset + start⟩ :: declaredFrom (some c) (offset + 1) (length - 1) rest

def declaredNames (source : Text) : List Declared :=
  declaredFrom none 0 0 source

end Candid.Editor
