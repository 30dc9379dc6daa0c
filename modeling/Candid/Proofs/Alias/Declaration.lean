import Candid.Alias.Declaration
import Candid.Proofs.Grammar.Action
import Candid.Proofs.Grammar.Brackets
import Candid.Proofs.Grammar.Completeness
import Candid.Proofs.Grammar.Items
import Candid.Proofs.Lexing.Trimmed

/-!
# Declarations in a derived source

In a source that the grammar derives the declarations are the type definitions, in order, and the text
of each stands between its equals sign and its own semicolon. That text falls into the lexemes of the
declared type.
-/

set_option autoImplicit false

namespace Candid.Alias

open Idl

theorem withoutLineComments_eq {source : Text} (absent : ¬ "//".toList <:+: source) :
    withoutLineComments source = source := by
  fun_induction withoutLineComments source with
  | case1 => rfl
  | case2 rest => exact absurd (List.prefix_append ['/', '/'] rest).isInfix absent
  | case3 c rest _ ih =>
      rw [ih fun inside => absent (inside.trans (List.suffix_cons c rest).isInfix)]

theorem withoutBlockComments_eq {source : Text} (absent : ¬ "/*".toList <:+: source) :
    withoutBlockComments source = source := by
  fun_induction withoutBlockComments source with
  | case1 => rfl
  | case2 rest => exact absurd (List.prefix_append ['/', '*'] rest).isInfix absent
  | case3 rest => exact absurd (List.prefix_append ['/', '*'] rest).isInfix absent
  | case4 c rest _ ih =>
      rw [ih fun inside => absent (inside.trans (List.suffix_cons c rest).isInfix)]

theorem withoutComments_eq {source : Text} (noLine : ¬ "//".toList <:+: source)
    (noBlock : ¬ "/*".toList <:+: source) : withoutComments source = source := by
  rw [withoutComments, withoutLineComments_eq noLine, withoutBlockComments_eq noBlock]

structure TypeDefinition where
  name : Token
  type : Derivation (.nonterminal .datatype)
  semicolon : Token

def TypeDefinition.ofChildren
    (children : Derivations [.word .typeWord, .terminal .identifier, .terminal .equals,
      .nonterminal .datatype, .terminal .semicolon]) : TypeDefinition :=
  ⟨children.others.first.token, children.others.others.others.first,
    children.others.others.others.others.first.token⟩

def TypeDefinition.ofNode? {right : List Symbol} :
    Production .definition right → Derivations right → Option TypeDefinition
  | .typeDefinition, children => some (.ofChildren children)
  | .importDefinition, _ => none

def typeDefinition? : Derivation (.nonterminal .definition) → Option TypeDefinition
  | .node production children => TypeDefinition.ofNode? production children

def startOf (type : Derivation (.nonterminal .datatype)) : Nat :=
  (type.yield.head?.map (·.offset)).getD 0

def TypeDefinition.declaration (source : Text) (definition : TypeDefinition) : Declaration :=
  .alias definition.name.text
    (slice source (startOf definition.type) definition.semicolon.offset)

theorem record_definition (item : Derivation (.nonterminal .definition)) :
    item.record = (typeDefinition? item).map fun definition =>
      ⟨definition.name.text, definition.type.record, definition.name.offset⟩ := by
  cases item with
  | node production children =>
      cases production with
      | typeDefinition =>
          match children with
          | .cons _ (.cons (.leaf _ _) (.cons _ (.cons _ (.cons (.leaf _ _) .nil)))) => rfl
      | importDefinition => rfl

theorem record_definitionList (items : List (Derivation (.nonterminal .definition))) :
    (Derivation.definitionList items).record =
      (items.filterMap typeDefinition?).map fun definition =>
        (⟨definition.name.text, definition.type.record, definition.name.offset⟩ :
          DefinitionNode) := by
  induction items using List.reverseRecOn with
  | nil => rfl
  | append_singleton items item ih =>
      have shape : Derivation.definitionList (items ++ [item]) =
          .node .moreDefinitions (.cons (Derivation.definitionList items) (.cons item .nil)) := by
        simp [Derivation.definitionList]
      rw [shape, Derivation.record_moreDefinitions, ih, record_definition]
      cases found : typeDefinition? item <;> simp [found]

theorem declarations_of_other {token : Token} (other : token.kind ≠ .reserved .typeWord)
    (text : Text) (rest : List Token) :
    declarations text (token :: rest) = declarations text rest := by
  rw [declarations.eq_def]
  split
  · contradiction
  · rename_i shape
    cases shape
    exact absurd rfl other
  · rename_i shape
    cases shape
    exact absurd rfl other
  · rename_i shape
    cases shape
    rfl

theorem declarations_of_none {tokens : List Token}
    (none : ∀ token ∈ tokens, token.kind ≠ .reserved .typeWord) (text : Text)
    (rest : List Token) : declarations text (tokens ++ rest) = declarations text rest := by
  induction tokens with
  | nil => rfl
  | cons token tokens ih =>
      rw [List.cons_append, declarations_of_other (none token (by simp)),
        ih fun token member => none token (by simp [member])]

theorem declarations_typeDefinition (source : Text)
    (children : Derivations [.word .typeWord, .terminal .identifier, .terminal .equals,
      .nonterminal .datatype, .terminal .semicolon]) (rest : List Token) :
    declarations source (children.yield ++ rest) =
      (TypeDefinition.ofChildren children).declaration source :: declarations source rest := by
  match children with
  | .cons (.leaf ⟨_, _, _, _⟩ word) (.cons (.leaf ⟨_, name, _, _⟩ fits)
      (.cons (.leaf ⟨_, _, _, _⟩ equals) (.cons type (.cons (.leaf semicolon ends) .nil)))) =>
      cases word
      cases fits
      cases equals
      obtain ⟨first, others, front, _⟩ : Opening type.yield := type.opens
      have cut := atSemicolon_of_datatype type ends rest
      rw [front, List.cons_append] at cut
      simp only [Derivations.yield_cons, Derivation.yield_leaf, Derivations.yield_nil,
        List.append_nil, List.append_assoc, List.cons_append, List.nil_append, front]
      rw [declarations]
      split
      · rename_i found
        rw [found] at cut
        cases cut
      · rename_i found
        rw [found] at cut
        cases cut
      · rename_i found
        rw [found] at cut
        cases cut
        simp [TypeDefinition.ofChildren, TypeDefinition.declaration, startOf, front,
          Derivations.first, Derivations.others, Derivation.token]

theorem declarations_definition (source : Text) (item : Derivation (.nonterminal .definition))
    (rest : List Token) :
    declarations source (item.yield ++ rest) =
      ((typeDefinition? item).map (·.declaration source)).toList ++ declarations source rest := by
  cases item with
  | node production children =>
      cases production with
      | typeDefinition => exact declarations_typeDefinition source children rest
      | importDefinition =>
          match children with
          | .cons (.leaf _ word) (.cons (.leaf _ text) (.cons (.leaf _ ends) .nil)) =>
              simp only [Derivation.yield_node, Derivations.yield_cons, Derivation.yield_leaf,
                Derivations.yield_nil, List.append_nil, List.cons_append, List.nil_append]
              rw [declarations_of_other (by simp [word]), declarations_of_other (by simp [text]),
                declarations_of_other (by simp [ends])]
              rfl

theorem declarations_definitionList (source : Text)
    (items : List (Derivation (.nonterminal .definition))) (rest : List Token) :
    declarations source ((Derivation.definitionList items).yield ++ rest) =
      (items.filterMap typeDefinition?).map (·.declaration source) ++
        declarations source rest := by
  rw [Derivation.yield_definitionList]
  induction items with
  | nil => rfl
  | cons item items ih =>
      rw [List.flatMap_cons, List.append_assoc, declarations_definition, ih]
      cases found : typeDefinition? item <;> simp [found]

theorem declarations_actorOption (source : Text)
    (option : Derivation (.nonterminal .actorOption)) :
    declarations source option.yield = [] := by
  have none : ∀ token ∈ option.yield, token.kind ≠ .reserved .typeWord := option.definesNothing
  have skipped := declarations_of_none none source []
  rw [List.append_nil] at skipped
  rw [skipped, declarations]

/-- The expression is spelt by lexemes that stand in front of a semicolon and hold these tokens. -/
def Expresses (expression : Text) (tokens : List Token) : Prop :=
  ∃ row : List Lexeme, expression = spelling row ∧ Stand row [';'] ∧
    (∀ lexeme ∈ row, lexeme.Plain) ∧ speltTokens row = tokens.map Token.spelt

theorem slice_spelling (front middle behind : List Lexeme) :
    slice (spelling (front ++ middle ++ behind)) (spelling front).length
        (spelling (front ++ middle)).length = Text.trim (spelling middle) := by
  rw [slice, spelling_append (front ++ middle), List.take_left, spelling_append, List.drop_left]

/-- The text that a type definition declares is the text of its type. -/
theorem expresses_declared {source : Text} (plain : ∀ lexeme ∈ lexemes source, lexeme.Plain)
    {front behind : List Token} {type : Derivation (.nonterminal .datatype)} {semicolon : Token}
    (cut : tokensOf 1 0 (lexemes source) = front ++ (type.yield ++ semicolon :: behind)) :
    Expresses (slice source (startOf type) semicolon.offset) type.yield := by
  obtain ⟨first, others, begin, _⟩ : Opening type.yield := type.opens
  rw [← List.append_assoc] at cut
  obtain ⟨before, rest, shape, inside, finish, _⟩ := exists_row_of_tokensOf cut
  rw [begin] at inside
  obtain ⟨start, middle, rfl, _, startOffset, line, more⟩ := exists_row_of_tokensOf inside
  have spelt : speltTokens (⟨.token first.kind, first.text⟩ :: middle) =
      type.yield.map Token.spelt := by
    rw [begin, List.map_cons, ← more, map_spelt_tokensOf]
    rfl
  generalize ⟨.token first.kind, first.text⟩ :: middle = declared at shape finish spelt
  have whole : source =
      spelling (start ++ declared ++ ⟨.token semicolon.kind, semicolon.text⟩ :: rest) := by
    rw [← shape, spelling_lexemes]
  have inRow : ∀ lexeme ∈ declared, lexeme ∈ lexemes source := by
    intro lexeme member
    rw [shape]
    simp [member]
  have stand := stand_lexemes source
  rw [shape, List.append_assoc, stand_append, stand_append] at stand
  have sound := sound_of_stand stand.2.1 fun lexeme member => plain lexeme (inRow lexeme member)
  refine ⟨trimmed declared, ?_, ?_, ?_, ?_⟩
  · rw [startOf, begin, List.head?_cons, Option.map_some, Option.getD_some, startOffset, finish,
      Nat.zero_add, Nat.zero_add, whole, slice_spelling, trim_spelling sound]
  · obtain ⟨leading, trailing, same, _⟩ := exists_trimmed declared
    have core := stand.2.1
    rw [same, stand_append, stand_append] at core
    exact core.1.2.change
      (fun lexeme member => plain lexeme (inRow lexeme (by rw [same]; simp [member])))
      (.inr (apart_cons (by decide) (by decide) []))
  · intro lexeme member
    obtain ⟨leading, trailing, same, _⟩ := exists_trimmed declared
    exact plain lexeme (inRow lexeme (by rw [same]; simp [member]))
  · rw [speltTokens_trimmed, spelt]

end Candid.Alias
