import Candid.Fragment.Outline
import Candid.Proofs.Grammar.Items
import Candid.Proofs.Lexing.Extent

/-!
# Plain type expressions

A type expression is plain if the grammar derives it, it holds no comments, and its labels and names
cannot be taken for anything else when the expression is read as text. The tree of a plain expression
has an outline, in which function and service types are leaves with the text they are written in.
-/

set_option autoImplicit false

namespace Candid.Idl

structure MemberOutline where
  label : Option Text
  type : Outline

def MemberOutline.field (position : Nat) (member : MemberOutline) : Text × Outline :=
  (member.label.getD (Numeral.ofNat position), member.type)

/-- The case that a member is in a variant. Without a label the type is the name of the case. -/
def MemberOutline.case : MemberOutline → Text × Option Outline
  | ⟨some label, type⟩ => (label, some type)
  | ⟨none, .leaf name⟩ => (name, none)
  | ⟨none, _⟩ => ([], none)

def Wrapper.outline : Wrapper → Outline → Outline
  | .opt => .opt
  | .vec => .vec

def Compound.outline : Compound → List MemberOutline → Outline
  | .record, members => .record (members.mapIdx MemberOutline.field)
  | .variant, members => .variant (members.map MemberOutline.case)

abbrev OutlineValue : Nonterminal → Type
  | .members _ => List MemberOutline
  | .memberList _ => List MemberOutline
  | .member _ => MemberOutline
  | .datatype => Outline
  | .label => Text
  | _ => Unit

def outlineAction (source : Text) {name : Nonterminal} {right : List Symbol} :
    Production name right → List Token → Values OutlineValue right → OutlineValue name
  | .membersBare _, _, (members, ()) => members
  | .membersEnded _, _, (members, _, ()) => members
  | .noMembers _, _, _ => []
  | .oneMember _, _, (member, ()) => [member]
  | .moreMembers _, _, (members, _, member, ()) => members ++ [member]
  | .labelledMember _, _, (label, _, type, ()) => MemberOutline.mk (some label.unquoted) type
  | .bareMember _, _, (type, ()) => MemberOutline.mk none type
  | .typeName, _, (name, ()) => Outline.leaf name.text
  | .wrapped wrapper, _, (_, inner, ()) => wrapper.outline inner
  | .angled wrapper, _, (_, _, inner, _, ()) => wrapper.outline inner
  | .compound compound, _, (_, _, members, _, ()) => compound.outline members
  | .funcType, tokens, _ => Outline.leaf (written source tokens)
  | .serviceType, tokens, _ => Outline.leaf (written source tokens)
  | .label _, _, (token, ()) => token.text
  | .interface, _, _ | .moreDefinitions, _, _ | .noDefinitions, _, _ | .typeDefinition, _, _
  | .importDefinition, _, _ | .actorBare, _, _ | .actorEnded, _, _ | .noActor, _, _
  | .anonymousActor, _, _ | .namedActor, _, _ | .actorBody, _, _ | .actorName, _, _
  | .actorInitBody, _, _ | .actorInitName, _, _ | .serviceBody, _, _ | .moreMethods, _, _
  | .noMethods, _, _ | .signatureMethod, _, _ | .aliasMethod, _, _ | .signature, _, _
  | .moreModes _, _, _ | .noModes, _, _ | .empty, _, _ => ()

def outlines (source : Text) : Attribution where
  Value := OutlineValue
  action production tokens values := outlineAction source production tokens values

def Derivation.outline (source : Text) {name : Nonterminal}
    (tree : Derivation (.nonterminal name)) : OutlineValue name :=
  tree.value (outlines source)

def labelMarks : Text :=
  ['"', '\\', ';', ':', '{', '}', '(', ')', '<', '>']

/-- Whether a label is plain. Identifiers and numbers are. -/
def isPlainLabel (token : Token) : Bool :=
  match token.kind with
  | .text =>
    let label := token.text.unquoted
    !label.isEmpty && label.trim == label && label.all (!labelMarks.contains ·)
  | _ => true

def structuredWords : List Text :=
  ["opt".toList, "vec".toList, "record".toList, "variant".toList]

/-- Whether a name is no spelling of a keyword in other letters. -/
def isPlainName (name : Text) : Bool :=
  !structuredWords.contains name.lowerLatin

structure MemberPlainness where
  field : Bool
  case : Bool

def MemberPlainness.and (members others : MemberPlainness) : MemberPlainness :=
  ⟨members.field && others.field, members.case && others.case⟩

abbrev PlainValue : Nonterminal → Type
  | .members _ => MemberPlainness
  | .memberList _ => MemberPlainness
  | .member _ => MemberPlainness
  | .datatype => Bool
  | .label => Bool
  | _ => Unit

/-- The plainness of each production. A case without a label is one token. Function and service types
are kept as they are written, so nothing is asked of what is in them. -/
def plainAction {name : Nonterminal} {right : List Symbol} :
    Production name right → List Token → Values PlainValue right → PlainValue name
  | .membersBare _, _, (members, ()) => members
  | .membersEnded _, _, (members, _, ()) => members
  | .noMembers _, _, _ => MemberPlainness.mk true true
  | .oneMember _, _, (member, ()) => member
  | .moreMembers _, _, (members, _, member, ()) => MemberPlainness.and members member
  | .labelledMember _, _, (label, _, type, ()) =>
      MemberPlainness.mk (label && type) (label && type)
  | .bareMember _, tokens, (type, ()) => MemberPlainness.mk type (tokens.length == 1)
  | .typeName, _, (name, ()) => isPlainName name.text
  | .wrapped _, _, (_, inner, ()) => inner
  | .angled _, _, (_, _, inner, _, ()) => inner
  | .compound .record, _, (_, _, members, _, ()) => members.field
  | .compound .variant, _, (_, _, members, _, ()) => members.case
  | .funcType, _, _ => true
  | .serviceType, _, _ => true
  | .label _, _, (token, ()) => isPlainLabel token
  | .interface, _, _ | .moreDefinitions, _, _ | .noDefinitions, _, _ | .typeDefinition, _, _
  | .importDefinition, _, _ | .actorBare, _, _ | .actorEnded, _, _ | .noActor, _, _
  | .anonymousActor, _, _ | .namedActor, _, _ | .actorBody, _, _ | .actorName, _, _
  | .actorInitBody, _, _ | .actorInitName, _, _ | .serviceBody, _, _ | .moreMethods, _, _
  | .noMethods, _, _ | .signatureMethod, _, _ | .aliasMethod, _, _ | .signature, _, _
  | .moreModes _, _, _ | .noModes, _, _ | .empty, _, _ => ()

def plainness : Attribution where
  Value := PlainValue
  action := plainAction

def Derivation.plain {name : Nonterminal} (tree : Derivation (.nonterminal name)) :
    PlainValue name :=
  tree.value plainness

/-- The text is a plain type expression with this tree: the grammar derives its tokens, there is
nothing else in it but blanks, and the tree is plain. -/
structure Plain (text : Text) (type : Derivation (.nonterminal .datatype)) : Prop where
  derives : tokenStream text = ⟨type.yield, none⟩
  clean : Clean text
  plain : type.plain = true

/-- The text of a row of tokens and blanks is a plain type expression if the tokens have a plain
tree. -/
theorem plain_of_row {row : List Lexeme} {type : Derivation (.nonterminal .datatype)}
    (stand : Stand row []) (simple : ∀ lexeme ∈ row, lexeme.Plain)
    (tokens : tokensOf 1 0 row = type.yield) (plain : type.plain = true) :
    Plain (spelling row) type := by
  refine ⟨?_, ?_, plain⟩
  · rw [tokenStream_spelling stand simple, tokens]
  · rwa [Clean, lexemes_spelling stand]

namespace Derivation

variable {separator : Separator}

theorem outline_memberList (source : Text)
    (first : Derivation (.nonterminal (.member separator)))
    (items : List (FurtherMember separator)) :
    (memberList first items).outline source =
      (first :: items.map (·.2)).map (outline source) := by
  induction items using List.reverseRecOn with
  | nil => rfl
  | append_singleton items item ih =>
      have shape : (memberList first (items ++ [item])).outline source =
          (memberList first items).outline source ++ [item.2.outline source] := by
        simp only [memberList, List.foldl_append]
        rfl
      simp [shape, ih]

theorem plain_memberList (first : Derivation (.nonterminal (.member separator)))
    (items : List (FurtherMember separator)) :
    ((memberList first items).plain.field = true ↔
        ∀ member ∈ first :: items.map (·.2), member.plain.field = true) ∧
      ((memberList first items).plain.case = true ↔
        ∀ member ∈ first :: items.map (·.2), member.plain.case = true) := by
  induction items using List.reverseRecOn with
  | nil => simp [memberList, plain, value, plainness, plainAction, Derivations.values]
  | append_singleton items item ih =>
      have shape : (memberList first (items ++ [item])).plain =
          (memberList first items).plain.and item.2.plain := by
        simp only [memberList, List.foldl_append]
        rfl
      simp [shape, MemberPlainness.and, ih, List.mem_append, or_imp, forall_and, and_assoc]

end Derivation

end Candid.Idl
