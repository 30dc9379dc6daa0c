import Candid.Editor.Declared
import Candid.Editor.Vocabulary
import Candid.Text.Blank
import Candid.Text.Lines
import Candid.Text.Position

/-!
# Completion

What is offered where a type is expected: behind a colon or an equals sign.
-/

set_option autoImplicit false

namespace Candid.Editor

inductive CompletionKind where
  | builtinType
  | keyword
  | alias
  deriving DecidableEq, Repr

structure Completion where
  label : Text
  kind : CompletionKind
  detail : Text
  deriving DecidableEq, Repr

def expectsType (start : Text) : Bool :=
  let last := start.trimEnd.getLast?
  last == some ':' || last == some '='

/-- Everything that may stand as a type in a source: the built-in types, the keywords that open a type,
and the declared names. -/
def typeCompletions (source : Text) : List Completion :=
  builtinTypes.map (fun entry => ⟨entry.word, .builtinType, entry.description⟩) ++
    typeKeywords.map (fun entry => ⟨entry.word, .keyword, entry.description⟩) ++
    (declaredNames source).map fun declared => ⟨declared.name, .alias, "Type alias".toList⟩

def completionsAt (source : Text) (position : Position) : List Completion :=
  let line := (source.lines[position.line]?).getD []
  if expectsType (line.take position.character) then typeCompletions source else []

end Candid.Editor
