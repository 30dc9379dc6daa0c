import Candid.Proofs.Alias.Table
import Candid.Proofs.Lexing.Edge

/-!
# Heads of definitions

A definition of a document begins in its source with the word `type`, the name and the equals sign, with
layout between. So the name stands between characters that belong to no word.
-/

set_option autoImplicit false

namespace Candid.Alias

open Idl

variable {source : Text} {document : Document} {definition : Definition}

/-- The definitions of a document are the type definitions of its tree. -/
theorem exists_typeDefinition {items : List (Derivation (.nonterminal .definition))}
    (record : document.node.definitions = (items.filterMap typeDefinition?).map fun definition =>
      ⟨definition.name.text, definition.type.record, definition.name.offset⟩)
    (member : definition ∈ document.definitions) :
    ∃ found ∈ items.filterMap typeDefinition?,
      found.name.text = definition.name ∧ found.name.offset = definition.offset := by
  rw [document.node_definitions] at record
  have inside : definition.node ∈ document.definitions.map (·.node) := List.mem_map_of_mem member
  rw [record] at inside
  obtain ⟨found, listed, same⟩ := List.mem_map.mp inside
  exact ⟨found, listed, congrArg DefinitionNode.name same, congrArg DefinitionNode.offset same⟩

theorem exists_head_of_definition (derived : (tokenStream source).document = .ok document)
    (member : definition ∈ document.definitions) :
    ∃ lead gap space others,
      lexemes source = lead ++ ⟨.token (.reserved .typeWord), "type".toList⟩ ::
        (gap ++ ⟨.token .identifier, definition.name⟩ ::
          (space ++ ⟨.token .equals, ['=']⟩ :: others)) ∧
      (∀ lexeme ∈ gap, lexeme.kind = .layout) ∧ (∀ lexeme ∈ space, lexeme.kind = .layout) ∧
      definition.offset = (spelling lead).length + (4 + (spelling gap).length) := by
  obtain ⟨legal, items, option, yields, record⟩ := exists_items_of_document derived
  obtain ⟨found, listed, sameName, sameOffset⟩ := exists_typeDefinition record member
  obtain ⟨item, inside, typed⟩ := List.mem_filterMap.mp listed
  obtain ⟨fits, _, keyword, equals, word, sign, parts⟩ := yield_of_typeDefinition typed
  obtain ⟨earlier, later, rfl⟩ := List.append_of_mem inside
  have cut : tokensOf 1 0 (lexemes source) = earlier.flatMap Derivation.yield ++
      keyword :: found.name :: equals :: (found.type.yield ++ found.semicolon ::
        (later.flatMap Derivation.yield ++ option.yield)) := by
    rw [yields, Derivation.yield_definitionList, List.flatMap_append, List.flatMap_cons, parts]
    simp
  obtain ⟨lead, gap, space, others, shape, _, gapLayout, spaceLayout, place, _⟩ :=
    exists_head_of_tokensOf (stand_lexemes source) legal word fits sign cut
  rw [sameName] at shape
  rw [sameOffset, Nat.zero_add] at place
  exact ⟨lead, gap, space, others, shape, gapLayout, spaceLayout, place⟩

/-- The name of a definition stands in its source between characters that belong to no word. -/
theorem exists_word_of_definition (derived : (tokenStream source).document = .ok document)
    (member : definition ∈ document.definitions) :
    ∃ front c d behind, source = front ++ [c] ++ (definition.name ++ d :: behind) ∧
      definition.offset = (front ++ [c]).length ∧ isWordCharacter c = false ∧
      isWordCharacter d = false ∧ Form .identifier definition.name := by
  obtain ⟨lead, gap, space, others, shape, gapLayout, spaceLayout, place⟩ :=
    exists_head_of_definition derived member
  have stand := stand_lexemes source
  rw [shape] at stand
  obtain ⟨_, stand⟩ := stand_append.mp stand
  have words := apart_of_words stand rfl rfl
  obtain ⟨_, stand⟩ := stand
  obtain ⟨gapStand, nameStands, stand⟩ := stand_append.mp stand
  obtain ⟨spaceStand, _⟩ := stand_append.mp stand
  obtain ⟨form, _⟩ := form_of_stands nameStands
  obtain ⟨c, tail, spelt, start, _⟩ := form.of_word rfl
  rw [List.append_nil] at gapStand spaceStand
  have solid : ¬ Blanked (spelling (⟨.token .identifier, definition.name⟩ ::
      (space ++ ⟨.token .equals, ['=']⟩ :: others))) := by
    intro blanked
    have blank := blanked c (by simp [spelt])
    rw [(front_of_isNameStart start).1] at blank
    cases blank
  have some : gap ≠ [] := by
    rintro rfl
    exact words rfl
  obtain ⟨before, last, ends, wordless⟩ := wordless_last_of_layout gapStand gapLayout solid some
  have follows := wordless_head_of_layout spaceStand spaceLayout (by simpa using by decide)
  cases behind : spelling space ++ spelling (⟨.token .equals, ['=']⟩ :: others) with
  | nil => simp at behind
  | cons d rest =>
      refine ⟨spelling lead ++ "type".toList ++ before, last, d, rest, ?_, ?_, wordless,
        follows d (by rw [behind]; rfl), form⟩
      · rw [← spelling_lexemes source, shape, ← behind]
        simp [ends]
      · rw [place, ends]
        simp
        omega

end Candid.Alias
