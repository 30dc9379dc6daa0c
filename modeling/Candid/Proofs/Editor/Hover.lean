import Candid.Editor.Hover
import Candid.Proofs.Alias.Head
import Candid.Proofs.Lexing.Spelled
import Candid.Proofs.Text.Lines

/-!
# Hovering over definitions

Where only line feeds end the lines in front of a definition, the position of its name leads to its line.
The name is a word of its own there, so what is shown is what the name means.
-/

set_option autoImplicit false

namespace Candid.Editor

open Idl Alias

/-- Where only line feeds end the lines in front of a definition, the position of its name leads to the
line of the name, and to what is shown for it. -/
theorem hover_at_definition {source : Text} {document : Document} {definition : Definition}
    (derived : (tokenStream source).document = .ok document)
    (member : definition ∈ document.definitions)
    (fed : Text.feedsOnly (source.take definition.offset) = true)
    (bound : definition.offset ≤ Position.limit) :
    ∃ position line, Position.ofOffset source definition.offset = .ok position ∧
      source.lines[position.line]? = some line ∧
      Text.wordAt line position.character = definition.name ∧
      hoverAt source position = hoverText source definition.name := by
  obtain ⟨front, c, d, behind, shape, place, noWord, noFurther, form⟩ :=
    exists_word_of_definition derived member
  obtain ⟨first, tail, spelt, start, parts, _⟩ := form.of_word rfl
  have word : ∀ e ∈ definition.name, isNamePart e = true := by
    rw [spelt]
    intro e member
    rcases List.mem_cons.mp member with rfl | later
    · exact isNamePart_of_isNameStart start
    · exact parts e later
  rw [place] at fed bound
  have position := Position.ofOffset_append (definition.name ++ d :: behind) bound
  rw [← shape, ← place] at position
  rw [shape, List.take_left] at fed
  obtain ⟨rest, line⟩ := Text.exists_line_of_inside
    fun e member => isLineBreak_of_isNamePart (word e member)
  have found := Text.lines_append fed (by simp : definition.name ++ d :: behind ≠ [])
  rw [← shape, line, Option.map_some] at found
  have named : Text.wordAt (Text.openLine (front ++ [c]) ++ (definition.name ++ d :: rest))
      (Text.openLine (front ++ [c])).length = definition.name := by
    rw [spelt]
    refine Text.wordAt_append ?_ ?_ (by simpa using noFurther)
    · intro e member
      exact isWordCharacter_of_isNamePart (word e (spelt ▸ member))
    · intro e member
      have last := Text.mem_getLast?_of_openLine member
      rw [List.getLast?_concat, Option.mem_some] at last
      rwa [← last]
  refine ⟨_, _, position, found, named, ?_⟩
  simp only [hoverAt, found, named]
  rw [spelt]

private def twoLines : List Lexeme :=
  [.word "type".toList, .blank, .word "A".toList, .blank, .mark .equals '=', .blank,
    .word "nat".toList, .mark .semicolon ';', ⟨.layout, ['\r']⟩, ⟨.layout, ['\n']⟩,
    .word "type".toList, .blank, .word "B".toList, .blank, .mark .equals '=', .blank,
    .word "A".toList, .mark .semicolon ';']

/-- Behind a carriage return and a line feed a definition is found on the second line. -/
theorem hover_at_second_definition :
    let source : Text := "type A = nat;\r\ntype B = A;".toList
    let definition : Definition := ⟨"B".toList, .name "A".toList, 20⟩
    let document : Document :=
      ⟨[.definition ⟨"A".toList, .name "nat".toList, 5⟩, .definition definition], none⟩
    (tokenStream source).document = .ok document ∧ definition ∈ document.definitions ∧
      Text.feedsOnly (source.take definition.offset) = true ∧
      definition.offset ≤ Position.limit ∧
      Position.ofOffset source definition.offset = .ok ⟨1, 5⟩ ∧
      hoverAt source ⟨1, 5⟩ = hoverText source "B".toList := by
  intro source definition document
  have spelt : source = spelling twoLines := by decide +kernel
  have derived : (tokenStream source).document = .ok document := by
    rw [spelt, tokenStream_spelling_of_legal _ (by decide +kernel) (by decide)]
    rfl
  have member : definition ∈ document.definitions := .tail _ (.head _)
  have fed : Text.feedsOnly (source.take definition.offset) = true := by decide
  have bound : definition.offset ≤ Position.limit := by decide
  have place : Position.ofOffset source definition.offset = .ok ⟨1, 5⟩ := by decide +kernel
  refine ⟨derived, member, fed, bound, place, ?_⟩
  obtain ⟨position, line, found, _, _, shown⟩ := hover_at_definition derived member fed bound
  cases found.symm.trans place
  exact shown

private def returnedLine : List Lexeme :=
  [.word "type".toList, ⟨.layout, ['\r']⟩, .word "A".toList, .blank, .mark .equals '=', .blank,
    .word "B".toList, .mark .semicolon ';']

/-- A carriage return alone ends a line of the document, but the position of the name behind it is still
on the first line, where no word is found. -/
theorem hover_misses_behind_return :
    let source : Text := "type\rA = B;".toList
    let document : Document := ⟨[.definition ⟨"A".toList, .name "B".toList, 5⟩], none⟩
    (tokenStream source).document = .ok document ∧
      parse source = .ok ⟨[], [("A".toList, "B".toList)], []⟩ ∧
      Position.ofOffset source 5 = .ok ⟨0, 5⟩ ∧
      Text.lines source = ["type\r".toList, "A = B;".toList] ∧
      Text.wordAt "type\r".toList 5 = [] ∧ hoverAt source ⟨0, 5⟩ = none ∧
      (hoverText source "A".toList).isSome = true := by
  intro source document
  have spelt : source = spelling returnedLine := by decide +kernel
  have derived : (tokenStream source).document = .ok document := by
    rw [spelt, tokenStream_spelling_of_legal _ (by decide +kernel) (by decide)]
    rfl
  have accepted : parse source = .ok ⟨[], [("A".toList, "B".toList)], []⟩ := by
    rw [parse, derived]
    rfl
  have lines : Text.lines source = ["type\r".toList, "A = B;".toList] := by decide +kernel
  have noWord : Text.wordAt "type\r".toList 5 = [] := by decide +kernel
  refine ⟨derived, accepted, by decide +kernel, lines, noWord, ?_, ?_⟩
  · rw [hoverAt, lines]
    simp only [List.getElem?_cons_zero, noWord]
  · have noSlash : '/' ∉ source := by decide
    have noLine : ¬ "//".toList <:+: source := fun inside => noSlash (inside.subset (by decide))
    have noBlock : ¬ "/*".toList <:+: source := fun inside => noSlash (inside.subset (by decide))
    obtain ⟨names, _⟩ := table_agrees accepted noLine noBlock
    have unexplained : (entryOf? (Text.lowerLatin "A".toList) builtinTypes).or
        (entryOf? (Text.lowerLatin "A".toList) keywords) = none := by decide +kernel
    have declared : Dictionary.find? "A".toList (table source) ≠ none := by
      rw [Ne, Dictionary.find?_eq_none, Decidable.not_not]
      change "A".toList ∈ (table source).names
      rw [names]
      exact .head _
    obtain ⟨expression, found⟩ := Option.ne_none_iff_exists'.mp declared
    rw [hoverText, unexplained]
    simp only [found]
    split <;> rfl

end Candid.Editor
