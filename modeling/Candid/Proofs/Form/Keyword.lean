import Candid.Proofs.Fragment.Row
import Candid.Proofs.Grammar.Brackets
import Candid.Proofs.Form.Mention

/-!
# Types without form input

A form has no input for variant, function and service types. Such a type stands in the tree of a type,
at whatever depth, exactly if its keyword is among the tokens. These keywords are words that the search
finds, and the other tokens in which it finds one are names and labels.
-/

set_option autoImplicit false

namespace Candid.Idl

def TokenKind.isUnsupported : TokenKind → Bool
  | .reserved .variantWord => true
  | .reserved .funcWord => true
  | .reserved .serviceWord => true
  | _ => false

def Production.isUnsupported {name : Nonterminal} {right : List Symbol} :
    Production name right → Bool
  | .compound .variant => true
  | .funcType => true
  | .serviceType => true
  | _ => false

mutual

/-- Whether a type that forms have no input for stands in the tree, at any depth. -/
def Derivation.isUnsupported : {symbol : Symbol} → Derivation symbol → Bool
  | _, .leaf _ _ => false
  | _, .node production children => production.isUnsupported || children.isUnsupported

def Derivations.isUnsupported : {symbols : List Symbol} → Derivations symbols → Bool
  | _, .nil => false
  | _, .cons first others => first.isUnsupported || others.isUnsupported

end

section Keywords

def Symbol.isUnsupported : Symbol → Bool
  | .terminal kind => kind.isUnsupported
  | .nonterminal _ => false

def Symbol.isInner : Symbol → Bool
  | .terminal _ => true
  | .nonterminal name => name.isInner

/-- Below a type only the productions of these types have their keywords. -/
theorem Production.right_unsupported {name : Nonterminal} {right : List Symbol}
    (production : Production name right) (inner : name.isInner = true) :
    right.all Symbol.isInner = true ∧
      right.any Symbol.isUnsupported = production.isUnsupported := by
  cases production with
  | interface | moreDefinitions | noDefinitions | typeDefinition | importDefinition | actorBare
  | actorEnded | noActor | anonymousActor | namedActor | actorBody | actorName | actorInitBody
  | actorInitName => cases inner
  | moreModes mode => cases mode <;> exact ⟨rfl, rfl⟩
  | wrapped wrapper | angled wrapper => cases wrapper <;> exact ⟨rfl, rfl⟩
  | compound compound => cases compound <;> exact ⟨rfl, rfl⟩
  | membersEnded separator | moreMembers separator => cases separator <;> exact ⟨rfl, rfl⟩
  | label form => cases form <;> exact ⟨rfl, rfl⟩
  | _ => exact ⟨rfl, rfl⟩

/-- Below a type the keywords among the tokens tell whether such a type stands in the tree. -/
def Derivation.Keyed : {symbol : Symbol} → Derivation symbol → Prop
  | .nonterminal name, tree =>
      name.isInner = true → tree.yield.any (·.kind.isUnsupported) = tree.isUnsupported
  | .terminal _, _ => True

theorem Derivations.keyed {right : List Symbol} {trees : Derivations right}
    (keyed : trees.All Derivation.Keyed) (inner : right.all Symbol.isInner = true) :
    trees.yield.any (·.kind.isUnsupported) =
      (right.any Symbol.isUnsupported || trees.isUnsupported) := by
  induction keyed with
  | nil => rfl
  | @cons symbol symbols first others here _ ih =>
      obtain ⟨innerFirst, innerOthers⟩ := Bool.and_eq_true_iff.mp inner
      rw [Derivations.yield_cons, List.any_append, ih innerOthers, List.any_cons,
        Derivations.isUnsupported]
      match symbol, first with
      | .terminal kind, .leaf token fits =>
          simp [Symbol.isUnsupported, Derivation.isUnsupported, fits, Bool.or_assoc]
      | .nonterminal name, first =>
          rw [here innerFirst, Symbol.isUnsupported, Bool.false_or, Bool.or_left_comm]

theorem Derivation.keyed {symbol : Symbol} (tree : Derivation symbol) : tree.Keyed := by
  induction tree using Derivation.induction with
  | leaf => trivial
  | node production children keyed =>
      intro inner
      obtain ⟨innerRight, same⟩ := production.right_unsupported inner
      rw [yield_node, Derivations.keyed keyed innerRight, same, Derivation.isUnsupported]

end Keywords

section Spelling

variable {kind : TokenKind} {text : Text}

/-- The keywords of these types are the reserved words that the search finds. -/
theorem Form.namesUnsupported_of_reserved {word : Reserved} (form : Form (.reserved word) text) :
    text.namesUnsupported = (TokenKind.reserved word).isUnsupported := by
  rw [form.of_reserved]
  cases word <;> decide +kernel

theorem Form.namesUnsupported_of_punctuation (form : Form kind text) {c : Char}
    (punctuation : Lexeme.punctuation? c = some kind) : text.namesUnsupported = false := by
  rw [form.of_punctuation punctuation]
  unfold Lexeme.punctuation? at punctuation
  split at punctuation <;> cases punctuation <;> decide +kernel

/-- The search finds a word in a token that is the keyword of such a type, or a name or label. -/
theorem Form.namesUnsupported_iff (form : Form kind text) :
    text.namesUnsupported = true ↔ kind.isUnsupported = true ∨
      (∃ label : LabelForm, kind = label.kind) ∧ text.namesUnsupported = true := by
  constructor
  · intro found
    cases form with
    | quoted => exact .inr ⟨⟨.text, rfl⟩, found⟩
    | number => exact .inr ⟨⟨.number, rfl⟩, found⟩
    | arrow => exact absurd found (by decide +kernel)
    | mark punctuation =>
        have none := (Form.mark punctuation).namesUnsupported_of_punctuation punctuation
        exact absurd (found.symm.trans none) (by decide)
    | @word c tail start parts =>
        have form := Form.word start parts
        cases kind : TokenKind.ofWord (c :: tail) with
        | reserved word =>
            rw [kind] at form
            exact .inl (form.namesUnsupported_of_reserved ▸ found)
        | identifier => exact .inr ⟨⟨.identifier, rfl⟩, found⟩
        | _ =>
            unfold TokenKind.ofWord at kind
            split at kind <;> cases kind
  · rintro (keyword | ⟨_, found⟩)
    · cases kind with
      | reserved word => rw [form.namesUnsupported_of_reserved, keyword]
      | _ => cases keyword
    · exact found

end Spelling

end Candid.Idl
