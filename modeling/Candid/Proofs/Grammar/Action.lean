import Candid.Idl.Grammar
import Candid.Proofs.Grammar.Derivation

/-!
# Actions of the grammar

What each production computes from its children while a document is read: canonical texts of types,
members with their labels, methods, and the record of definitions. Types are texts here; beside its
text a function type keeps its signature and a service type its methods, because a method or a service
may be declared by the name of such a type.
-/

set_option autoImplicit false

namespace Candid.Idl

/-- A method of a service body: with a signature of its own, or declared by the name of a function
type, with the label as it is spelled and the offset of the name. -/
inductive MethodNode where
  | declared (method : Method)
  | reference (label typeName : Text) (offset : Nat)
  deriving DecidableEq, Repr

def MethodNode.text : MethodNode → Text
  | .declared method => methodText method
  | .reference label typeName _ => label ++ " : ".toList ++ typeName

structure TypeNode where
  text : Text
  signature : Option SignatureText
  methods : Option (List MethodNode)
  deriving DecidableEq, Repr

def TypeNode.ofText (text : Text) : TypeNode := ⟨text, none, none⟩

structure DefinitionNode where
  name : Text
  type : TypeNode
  offset : Nat
  deriving DecidableEq, Repr

inductive ServiceNode where
  | body (methods : List MethodNode)
  | named (name : Text)
  deriving DecidableEq, Repr

structure ActorNode where
  init : List LabelledText
  service : ServiceNode
  deriving DecidableEq, Repr

structure DocumentNode where
  definitions : List DefinitionNode
  actor : Option ActorNode
  deriving DecidableEq, Repr

/-- What the nodes of each nonterminal hold. A definition that is an import leaves no record. -/
abbrev CanonicalValue : Nonterminal → Type
  | .interface => DocumentNode
  | .definitions => List DefinitionNode
  | .definition => Option DefinitionNode
  | .actorOption => Option ActorNode
  | .actor => ActorNode
  | .actorType => ActorNode
  | .serviceBody => List MethodNode
  | .methods => List MethodNode
  | .method => MethodNode
  | .signature => SignatureText
  | .modes => List Mode
  | .members _ => List LabelledText
  | .memberList _ => List LabelledText
  | .member _ => LabelledText
  | .datatype => TypeNode
  | .label => Text
  | .empty => Unit

def canonicalAction {name : Nonterminal} {right : List Symbol} :
    Production name right → Values CanonicalValue right → CanonicalValue name
  | .interface, (definitions, actor, ()) => DocumentNode.mk definitions actor
  | .moreDefinitions, (definitions, definition, ()) =>
      definitions ++ definition.toList
  | .noDefinitions, _ => []
  | .typeDefinition, (_, name, _, type, _, ()) =>
      some (DefinitionNode.mk name.text type name.offset)
  | .importDefinition, _ => none
  | .actorBare, (actor, ()) => some actor
  | .actorEnded, (actor, _, ()) => some actor
  | .noActor, _ => none
  | .anonymousActor, (_, _, actor, ()) => actor
  | .namedActor, (_, _, _, actor, ()) => actor
  | .actorBody, (methods, ()) => ActorNode.mk [] (.body methods)
  | .actorName, (name, ()) => ActorNode.mk [] (.named name.text)
  | .actorInitBody, (_, init, _, _, methods, ()) => ActorNode.mk init (.body methods)
  | .actorInitName, (_, init, _, _, name, ()) => ActorNode.mk init (.named name.text)
  | .serviceBody, (_, methods, _, ()) => methods
  | .moreMethods, (methods, method, ()) => methods ++ [method]
  | .noMethods, _ => []
  | .signatureMethod, (label, _, signature, _, ()) =>
      MethodNode.declared (.ofSignature label signature)
  | .aliasMethod, (label, _, name, _, ()) => MethodNode.reference label name.text name.offset
  | .signature, (_, args, _, _, _, results, _, modes, ()) => SignatureText.mk args results modes
  | .moreModes mode, (modes, _, ()) => modes ++ [mode]
  | .noModes, _ => []
  | .membersBare _, (members, ()) => members
  | .membersEnded _, (members, _, ()) => members
  | .noMembers _, _ => []
  | .oneMember _, (member, ()) => [member]
  | .moreMembers _, (members, _, member, ()) => members ++ [member]
  | .labelledMember _, (label, _, type, ()) => LabelledText.mk (some label) type.text
  | .bareMember _, (type, ()) => LabelledText.mk none type.text
  | .typeName, (name, ()) => TypeNode.ofText name.text
  | .wrapped wrapper, (_, inner, ()) =>
      TypeNode.ofText (wrapper.word.text ++ ' ' :: inner.text)
  | .angled wrapper, (_, _, inner, _, ()) =>
      TypeNode.ofText (wrapper.word.text ++ ' ' :: inner.text)
  | .compound compound, (_, _, members, _, ()) =>
      TypeNode.ofText (Text.braced compound.word.text (members.map (·.render)))
  | .funcType, (_, signature, ()) =>
      TypeNode.mk ("func ".toList ++ signature.render) (some signature) none
  | .serviceType, (_, methods, ()) =>
      TypeNode.mk (Text.braced "service".toList (methods.map (·.text))) none
        (some methods)
  | .label _, (token, ()) => token.text
  | .empty, () => ()

def canonical : Attribution where
  Value := CanonicalValue
  action production _ values := canonicalAction production values

def Derivation.record {name : Nonterminal} (tree : Derivation (.nonterminal name)) :
    CanonicalValue name :=
  tree.value canonical

namespace Derivation

@[simp] theorem record_moreDefinitions (definitions : Derivation (.nonterminal .definitions))
    (definition : Derivation (.nonterminal .definition)) :
    (node .moreDefinitions (.cons definitions (.cons definition .nil))).record =
      definitions.record ++ definition.record.toList := rfl

@[simp] theorem record_moreMethods (methods : Derivation (.nonterminal .methods))
    (method : Derivation (.nonterminal .method)) :
    (node .moreMethods (.cons methods (.cons method .nil))).record =
      methods.record ++ [method.record] := rfl

@[simp] theorem record_moreModes (mode : Mode) (modes : Derivation (.nonterminal .modes))
    (token : Derivation (.word mode.word)) :
    (node (.moreModes mode) (.cons modes (.cons token .nil))).record =
      modes.record ++ [mode] := rfl

@[simp] theorem record_moreMembers (separator : Separator)
    (members : Derivation (.nonterminal (.memberList separator)))
    (token : Derivation (.terminal separator.kind))
    (member : Derivation (.nonterminal (.member separator))) :
    (node (.moreMembers separator) (.cons members (.cons token (.cons member .nil)))).record =
      members.record ++ [member.record] := rfl

end Derivation

def Member.node : Member → MethodNode
  | .declared label signature => .declared (.ofSignature label signature.toText)
  | .referenced label typeName offset => .reference label typeName offset

def Datatype.node : Datatype → TypeNode
  | .func signature => ⟨(Datatype.func signature).render, some signature.toText, none⟩
  | .service members => ⟨(Datatype.service members).render, none, some (members.map (·.node))⟩
  | type => .ofText type.render

def Definition.node (definition : Definition) : DefinitionNode :=
  ⟨definition.name, definition.type.node, definition.offset⟩

def Entry.node? : Entry → Option DefinitionNode
  | .definition entry => some entry.node
  | .imported _ => none

def ActorType.node : ActorType → ServiceNode
  | .body members => .body (members.map (·.node))
  | .named name => .named name

def Actor.node (actor : Actor) : ActorNode :=
  ⟨fieldTexts actor.init, actor.type.node⟩

def Document.node (document : Document) : DocumentNode :=
  ⟨document.entries.filterMap (·.node?), document.actor.map (·.node)⟩

theorem Datatype.node_text (type : Datatype) : type.node.text = type.render := by
  cases type <;> rfl

def Wrapper.type : Wrapper → Datatype → Datatype
  | .opt => .opt
  | .vec => .vec

theorem Wrapper.node_type (wrapper : Wrapper) (inner : Datatype) :
    (wrapper.type inner).node = .ofText (wrapper.word.text ++ ' ' :: inner.node.text) := by
  rw [Datatype.node_text]
  cases wrapper <;> rfl

def Compound.type : Compound → List Field → Datatype
  | .record => .record
  | .variant => .variant

theorem Compound.node_type (compound : Compound) (fields : List Field) :
    (compound.type fields).node =
      .ofText (Text.braced compound.word.text ((fieldTexts fields).map (·.render))) := by
  cases compound <;> rfl

theorem memberTexts_eq_map (members : List Member) :
    memberTexts members = (members.map (·.node)).map (·.text) := by
  induction members with
  | nil => rfl
  | cons member rest ih =>
      cases member <;>
        simp [memberTexts, ih, Member.node, MethodNode.text]

theorem Datatype.node_func (signature : Signature) : (Datatype.func signature).node =
    ⟨"func ".toList ++ signature.toText.render, some signature.toText, none⟩ :=
  rfl

theorem Datatype.node_service (members : List Member) : (Datatype.service members).node =
    ⟨Text.braced "service".toList ((members.map (·.node)).map (·.text)), none,
      some (members.map (·.node))⟩ := by
  rw [← memberTexts_eq_map]
  rfl

end Candid.Idl
