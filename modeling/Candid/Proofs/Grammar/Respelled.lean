import Candid.Proofs.Grammar.Action
import Candid.Proofs.Lexing.Placed

/-!
# Derivations and places

Where the tokens stand in a source does not matter to the grammar: a token list that is spelt like the
sentence of a derivation has a derivation of the same shape, and the canonical texts agree.
-/

set_option autoImplicit false

namespace Candid.Idl

def Token.unplaced (token : Token) : Token :=
  ⟨token.kind, token.text, 0, 0⟩

theorem unplaced_of_spelt {token other : Token} (same : token.spelt = other.spelt) :
    token.unplaced = other.unplaced := by
  simp only [Token.spelt, Prod.mk.injEq] at same
  simp [Token.unplaced, same]

mutual

def Derivation.unplaced : {symbol : Symbol} → Derivation symbol → Derivation symbol
  | _, .leaf token fits => .leaf token.unplaced fits
  | _, .node production children => .node production children.unplaced

def Derivations.unplaced : {symbols : List Symbol} → Derivations symbols → Derivations symbols
  | _, .nil => .nil
  | _, .cons first others => .cons first.unplaced others.unplaced

end

/-- A tree that agrees with another but for places, over a list of tokens. -/
def Derivation.Respells {symbol : Symbol} (tree : Derivation symbol) : Prop :=
  ∀ tokens : List Token, tokens.map Token.spelt = tree.yield.map Token.spelt →
    ∃ other : Derivation symbol, other.yield = tokens ∧ other.unplaced = tree.unplaced

theorem Derivations.respells {symbols : List Symbol} {trees : Derivations symbols}
    (respells : trees.All Derivation.Respells) (tokens : List Token)
    (same : tokens.map Token.spelt = trees.yield.map Token.spelt) :
    ∃ others : Derivations symbols, others.yield = tokens ∧ others.unplaced = trees.unplaced := by
  induction respells generalizing tokens with
  | nil => exact ⟨.nil, by simpa using same.symm, rfl⟩
  | cons first _ ih =>
      rw [yield_cons, List.map_append] at same
      obtain ⟨front, behind, rfl, frontSame, behindSame⟩ := List.map_eq_append_iff.mp same
      obtain ⟨tree, yields, shape⟩ := first front frontSame
      obtain ⟨trees, othersYield, othersShape⟩ := ih behind behindSame
      exact ⟨.cons tree trees, by simp [yields, othersYield],
        by simp [unplaced, shape, othersShape]⟩

theorem Derivation.respells {symbol : Symbol} (tree : Derivation symbol) : tree.Respells := by
  induction tree using Derivation.induction with
  | leaf token fits =>
      intro tokens same
      obtain ⟨other, rfl, spelt⟩ := List.map_eq_singleton_iff.mp same
      have kind : other.kind = token.kind := congrArg Prod.fst spelt
      exact ⟨.leaf other (kind.trans fits), rfl, by simp [unplaced, unplaced_of_spelt spelt]⟩
  | node production children respells =>
      intro tokens same
      obtain ⟨others, yields, shape⟩ := Derivations.respells respells tokens same
      exact ⟨.node production others, yields, by simp [unplaced, shape]⟩

def MethodNode.unplaced : MethodNode → MethodNode
  | .declared method => .declared method
  | .reference label typeName _ => .reference label typeName 0

def TypeNode.unplaced (node : TypeNode) : TypeNode :=
  ⟨node.text, node.signature, node.methods.map (·.map MethodNode.unplaced)⟩

def DefinitionNode.unplaced (node : DefinitionNode) : DefinitionNode :=
  ⟨node.name, node.type.unplaced, 0⟩

def ActorNode.unplaced (node : ActorNode) : ActorNode :=
  ⟨node.init, match node.service with
    | .body methods => .body (methods.map MethodNode.unplaced)
    | .named name => .named name⟩

def unplacedValue : (name : Nonterminal) → CanonicalValue name → CanonicalValue name
  | .interface, node =>
      DocumentNode.mk (node.definitions.map (·.unplaced)) (node.actor.map (·.unplaced))
  | .definitions, nodes => List.map DefinitionNode.unplaced nodes
  | .definition, node => Option.map DefinitionNode.unplaced node
  | .actorOption, node => Option.map ActorNode.unplaced node
  | .actor, node => ActorNode.unplaced node
  | .actorType, node => ActorNode.unplaced node
  | .serviceBody, methods => List.map MethodNode.unplaced methods
  | .methods, methods => List.map MethodNode.unplaced methods
  | .method, method => MethodNode.unplaced method
  | .datatype, node => TypeNode.unplaced node
  | _, value => value

def unplacedValues : (right : List Symbol) → Values CanonicalValue right →
    Values CanonicalValue right
  | [], () => ()
  | .terminal _ :: right, (token, values) => (token.unplaced, unplacedValues right values)
  | .nonterminal name :: right, (value, values) =>
      (unplacedValue name value, unplacedValues right values)

theorem MethodNode.text_unplaced (method : MethodNode) : method.unplaced.text = method.text := by
  cases method <;> rfl

theorem canonicalAction_unplaced {name : Nonterminal} {right : List Symbol}
    (production : Production name right) (values : Values CanonicalValue right) :
    canonicalAction production (unplacedValues right values) =
      unplacedValue name (canonicalAction production values) := by
  cases production with
  | serviceType =>
      obtain ⟨_, methods, _⟩ := values
      have texts : (List.map MethodNode.unplaced methods).map (·.text) = List.map (·.text) methods := by
        simp [MethodNode.text_unplaced]
      exact congrArg
        (fun texts => TypeNode.mk (Text.braced "service".toList texts) none
          (some (List.map MethodNode.unplaced methods)))
        texts
  | moreDefinitions =>
      obtain ⟨definitions, definition, _⟩ := values
      have both : List.map DefinitionNode.unplaced definitions ++
            (Option.map DefinitionNode.unplaced definition).toList =
          List.map DefinitionNode.unplaced (definitions ++ Option.toList definition) := by
        cases definition <;> simp
      exact both
  | moreMethods =>
      obtain ⟨methods, method, _⟩ := values
      have both : List.map MethodNode.unplaced methods ++ [MethodNode.unplaced method] =
          List.map MethodNode.unplaced (methods ++ [method]) := by
        rw [List.map_append]
        rfl
      exact both
  | _ => rfl

mutual

theorem Derivation.value_unplaced : {name : Nonterminal} →
    (tree : Derivation (.nonterminal name)) →
    tree.unplaced.value canonical = unplacedValue name (tree.value canonical)
  | _, @Derivation.node _ right production children => by
      have inner : children.unplaced.values canonical =
          unplacedValues right (children.values canonical) :=
        children.values_unplaced
      have outer := canonicalAction_unplaced production (children.values canonical)
      rw [← inner] at outer
      exact outer

theorem Derivations.values_unplaced : {right : List Symbol} → (trees : Derivations right) →
    trees.unplaced.values canonical = unplacedValues right (trees.values canonical)
  | _, .nil => rfl
  | _, @Derivations.cons (.terminal _) _ (.leaf token _) others =>
      congrArg (Prod.mk token.unplaced) others.values_unplaced
  | _, @Derivations.cons (.nonterminal _) _ first others =>
      Prod.ext first.value_unplaced others.values_unplaced

end

/-- A type that is spelt alike has a derivation with the same canonical text. -/
theorem Derivation.exists_respelled (type : Derivation (.nonterminal .datatype))
    (tokens : List Token) (same : tokens.map Token.spelt = type.yield.map Token.spelt) :
    ∃ other : Derivation (.nonterminal .datatype), other.yield = tokens ∧
      other.record.text = type.record.text := by
  obtain ⟨other, yields, shape⟩ := type.respells tokens same
  refine ⟨other, yields, ?_⟩
  have values : TypeNode.unplaced other.record = TypeNode.unplaced type.record := by
    have both := congrArg (·.value canonical) shape
    exact (value_unplaced other).symm.trans (both.trans (value_unplaced type))
  have texts := congrArg TypeNode.text values
  exact texts

end Candid.Idl
