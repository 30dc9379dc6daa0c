import Candid.Idl.Interface
import Candid.Proofs.Grammar.Document
import Candid.Proofs.Grammar.Soundness
import Candid.Proofs.Grammar.Unambiguity

/-!
# Documents and derivations

The reader of documents accepts the sentences of the grammar and no other token lists, and what it
records of a document is the value of the one derivation that the document has.
-/

set_option autoImplicit false

namespace Candid.Idl

theorem document_eq_ok {tokens : List Token} {document : Document} :
    TokenStream.document ⟨tokens, none⟩ = .ok document ↔
      readDocument (fuelFor tokens) tokens = .ok document := by
  simp only [TokenStream.document]
  cases readDocument (fuelFor tokens) tokens with
  | ok other => simp
  | error unread => cases unread <;> simp

/-- A token list is a document exactly if it has a derivation; then it has no other derivation, and
the definitions, the methods with their references and the initial arguments that are recorded are
the value of the derivation. -/
theorem document_iff_derivation (tokens : List Token) :
    ((∃ document, TokenStream.document ⟨tokens, none⟩ = .ok document) ↔
      ∃ tree : Derivation (.nonterminal .interface), tree.yield = tokens) ∧
    ∀ tree : Derivation (.nonterminal .interface), tree.yield = tokens →
      (∀ other : Derivation (.nonterminal .interface), other.yield = tokens → other = tree) ∧
      ∃ document, TokenStream.document ⟨tokens, none⟩ = .ok document ∧
        document.node = tree.record := by
  have complete (tree : Derivation (.nonterminal .interface)) (yields : tree.yield = tokens) :
      ∃ document, TokenStream.document ⟨tokens, none⟩ = .ok document ∧
        document.node = tree.record := by
    obtain ⟨document, read, record⟩ := tree.readDocument
    rw [yields] at read
    exact ⟨document, document_eq_ok.mpr read, record⟩
  refine ⟨⟨?_, ?_⟩, ?_⟩
  · rintro ⟨document, read⟩
    exact exists_interface_of_readDocument (document_eq_ok.mp read)
  · rintro ⟨tree, yields⟩
    obtain ⟨document, read, _⟩ := complete tree yields
    exact ⟨document, read⟩
  · intro tree yields
    refine ⟨fun other otherYields => ?_, complete tree yields⟩
    exact Derivation.unique (otherYields.trans yields.symm)

/-- The only derivation of `type t = nat;` and what is recorded of it. -/
theorem document_of_definition :
    let tokens : List Token :=
      [⟨.reserved .typeWord, "type".toList, 1, 0⟩, ⟨.identifier, "t".toList, 1, 5⟩,
        ⟨.equals, "=".toList, 1, 7⟩, ⟨.identifier, "nat".toList, 1, 9⟩,
        ⟨.semicolon, ";".toList, 1, 12⟩]
    ∃ tree : Derivation (.nonterminal .interface), tree.yield = tokens ∧
      (∀ other : Derivation (.nonterminal .interface), other.yield = tokens → other = tree) ∧
      ∃ document, TokenStream.document ⟨tokens, none⟩ = .ok document ∧
        document.node = ⟨[⟨"t".toList, .ofText "nat".toList, 5⟩], none⟩ := by
  let type : Derivation (.nonterminal .datatype) :=
    .node .typeName (.cons (.leaf ⟨.identifier, "nat".toList, 1, 9⟩ rfl) .nil)
  let definition : Derivation (.nonterminal .definition) :=
    .node .typeDefinition (.cons (.leaf ⟨.reserved .typeWord, "type".toList, 1, 0⟩ rfl)
      (.cons (.leaf ⟨.identifier, "t".toList, 1, 5⟩ rfl)
        (.cons (.leaf ⟨.equals, "=".toList, 1, 7⟩ rfl)
          (.cons type (.cons (.leaf ⟨.semicolon, ";".toList, 1, 12⟩ rfl) .nil)))))
  let tree : Derivation (.nonterminal .interface) :=
    .node .interface (.cons (Derivation.definitionList [definition])
      (.cons (.node .noActor (.cons (.node .empty .nil) .nil)) .nil))
  exact ⟨tree, rfl, (document_iff_derivation _).2 tree rfl⟩

end Candid.Idl
