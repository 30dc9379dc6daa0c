import Candid.Alias.Expand
import Candid.Argument.Example
import Candid.Editor.Vocabulary
import Candid.Text.Lines
import Candid.Text.Position
import Candid.Text.Word

/-!
# Hovering

The explanation of the word under the pointer, in Markdown: the description of a built-in word, or the
expansion of an alias with an example.
-/

set_option autoImplicit false

namespace Candid.Editor

def explained (word explanation : Text) : Text :=
  "**".toList ++ word ++ "** — ".toList ++ explanation

def aliasCard (word resolved sample : Text) : Text :=
  "**".toList ++ word ++ "** = `".toList ++ resolved ++ "`\n\nExample:\n```json\n".toList ++
    sample ++ "\n```".toList

/-- The explanation of a word in a source, if it has one. Built-in words are known in any case. -/
def hoverText (source word : Text) : Option Text :=
  match entryOf? word.lowerLatin builtinTypes |>.or (entryOf? word.lowerLatin keywords) with
  | some entry => some (explained entry.word entry.description)
  | none =>
    let table := Alias.table source
    match Dictionary.find? word table with
    | none => none
    | some _ =>
      match Alias.resolve table false word with
      | .error error => some (explained word error.message)
      | .ok resolved =>
        some (aliasCard word resolved ((Argument.exampleText resolved).toOption.getD []))

def hoverAt (source : Text) (position : Position) : Option Text :=
  match source.lines[position.line]? with
  | none => none
  | some line =>
    match Text.wordAt line position.character with
    | [] => none
    | word => hoverText source word

end Candid.Editor
