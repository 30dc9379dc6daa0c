import Candid.Proofs.Grammar.Respelled
import Candid.Proofs.Interface.Methods

/-!
# Interfaces of recorded documents

What a document declares can be told from its record: names and canonical texts of its types, and its
methods, each with the function type that it has or that its name stands for. So two sources whose
derivations have the same record but for places are the same interface.
-/

set_option autoImplicit false

namespace Candid.Idl

namespace DocumentNode

def type? (node : DocumentNode) (name : Text) : Option TypeNode :=
  Dictionary.find? name (node.definitions.map fun definition => (definition.name, definition.type))

def method? (node : DocumentNode) : MethodNode → Option Method
  | .declared method => some method
  | .reference label typeName _ =>
    ((node.type? typeName).bind (·.signature)).map (.ofSignature label)

def members? (node : DocumentNode) : ServiceNode → Option (List MethodNode)
  | .body members => some members
  | .named name => (node.type? name).bind (·.methods)

def methods? (node : DocumentNode) : Option (List (Option Method)) :=
  match node.actor with
  | none => some []
  | some actor => (node.members? actor.service).map (·.map node.method?)

def initArgs (node : DocumentNode) : List Text :=
  match node.actor with
  | none => []
  | some actor => actor.init.map (·.type)

structure Declares (node : DocumentNode) (interface : Interface) : Prop where
  distinct : (node.definitions.map (·.name)).Nodup
  aliases : interface.aliases = node.definitions.map (·.entry)
  methods : node.methods? = some (interface.methods.map some)
  initArgs : interface.initArgs = node.initArgs

end DocumentNode

section Document

variable {document : Document}

theorem Datatype.node_methods_eq (type : Datatype) :
    type.node.methods = match type with
      | .service members => some (members.map (·.node))
      | _ => none := by
  cases type <;> rfl

theorem Document.node_type? (document : Document) (name : Text) :
    document.node.type? name = (Dictionary.find? name document.types).map (·.node) := by
  rw [DocumentNode.type?, document.node_definitions, ← Dictionary.find?_map, Document.types]
  simp [Definition.node, Function.comp_def]

theorem Document.node_method? (document : Document) (member : Member) :
    document.node.method? member.node = (member.signature? document.types).map methodOf := by
  cases member with
  | declared label signature => rfl
  | referenced label typeName offset =>
      simp only [Member.node, DocumentNode.method?, Member.signature?, document.node_type?]
      cases Dictionary.find? typeName document.types with
      | none => rfl
      | some type => cases type <;> rfl

theorem mapM_method_eq_ok {members : List Member} {methods : List Method} :
    members.mapM (·.method document.types) = .ok methods ↔
      (members.map (·.node)).map document.node.method? = methods.map some := by
  induction members generalizing methods with
  | nil => simp [pure, Except.pure, @eq_comm _ _ methods]
  | cons member members ih =>
      rw [List.mapM_cons, List.map_cons, List.map_cons, document.node_method?]
      simp only [bind_eq_ok, Member.method_eq_ok, ih]
      constructor
      · rintro ⟨method, first, others, rest, same⟩
        cases same
        rw [first, rest, List.map_cons]
      · intro same
        obtain ⟨method, others, rfl, first, rest⟩ := List.map_eq_cons_iff.mp same.symm
        exact ⟨method, first.symm, others, rest.symm, rfl⟩

theorem ActorType.methods_eq_ok {service : ActorType} {methods : List Method} :
    service.methods document.types = .ok methods ↔
      (document.node.members? service.node).map (·.map document.node.method?) =
        some (methods.map some) := by
  cases service with
  | body members =>
      rw [ActorType.methods, mapM_method_eq_ok]
      simp [ActorType.node, DocumentNode.members?]
  | named name =>
      simp only [ActorType.methods, ActorType.node, DocumentNode.members?, document.node_type?]
      cases Dictionary.find? name document.types with
      | none => simp
      | some type =>
          cases type with
          | service members =>
              simp only [mapM_method_eq_ok, Option.map_some, Option.bind_some,
                Datatype.node_methods_eq, Option.some.injEq]
          | _ => simp [Datatype.node_methods_eq]

/-- A document is an interface exactly if its record is that of the interface. -/
theorem interface_eq_ok {interface : Interface} :
    document.interface = .ok interface ↔ document.node.Declares interface := by
  have table (types : Dictionary Datatype) : typeTable [] document.definitions = .ok types ↔
      types = document.types ∧ (document.node.definitions.map (·.name)).Nodup := by
    rw [typeTable_eq_ok, document.node_definitions, map_name_node]
    simp [Document.types]
  have entries : document.types.map (fun entry => (entry.1, entry.2.render)) =
      document.node.definitions.map (·.entry) := by
    rw [document.node_definitions, ← map_entry_node, Document.types, List.map_map]
    rfl
  have resolved (actor : Actor) (present : document.actor = some actor) :
      document.node.methods? =
        (document.node.members? actor.type.node).map (·.map document.node.method?) := by
    rw [DocumentNode.methods?, Document.node, present]
    rfl
  have arguments (actor : Actor) (present : document.actor = some actor) :
      document.node.initArgs = (fieldTexts actor.init).map (·.type) := by
    rw [DocumentNode.initArgs, Document.node, present]
    rfl
  have absent (none : document.actor = none) :
      document.node.methods? = some [] ∧ document.node.initArgs = [] := by
    rw [DocumentNode.methods?, DocumentNode.initArgs, Document.node, none]
    exact ⟨rfl, rfl⟩
  constructor
  · intro declared
    obtain ⟨_, tabled, further⟩ := bind_eq_ok.mp declared
    obtain ⟨rfl, distinct⟩ := (table _).mp tabled
    cases present : document.actor with
    | none =>
        rw [present] at further
        cases further
        exact ⟨distinct, entries, (absent present).1, (absent present).2.symm⟩
    | some actor =>
        rw [present] at further
        obtain ⟨methods, found, same⟩ := bind_eq_ok.mp further
        cases same
        exact ⟨distinct, entries, (resolved actor present).trans (ActorType.methods_eq_ok.mp found),
          (arguments actor present).symm⟩
  · rintro ⟨distinct, aliases, methods, initArgs⟩
    refine bind_eq_ok.mpr ⟨document.types, (table _).mpr ⟨rfl, distinct⟩, ?_⟩
    obtain ⟨declared, types, init⟩ := interface
    obtain rfl : types = document.node.definitions.map (·.entry) := aliases
    obtain rfl : init = document.node.initArgs := initArgs
    cases present : document.actor with
    | none =>
        rw [(absent present).1] at methods
        obtain rfl : declared = [] := by simpa using methods.symm
        rw [(absent present).2, ← entries]
        rfl
    | some actor =>
        rw [resolved actor present] at methods
        refine bind_eq_ok.mpr ⟨declared, ActorType.methods_eq_ok.mpr methods, ?_⟩
        rw [arguments actor present, ← entries]
        rfl

end Document

/-- The other record has definitions of the same names, the same methods and the same initial
arguments. -/
structure DocumentNode.Alike (node other : DocumentNode) : Prop where
  names : other.definitions.map (·.name) = node.definitions.map (·.name)
  methods : other.methods? = node.methods?
  initArgs : other.initArgs = node.initArgs

/-- A record that is like that of an interface is that of an interface, with its own texts of the
types. -/
theorem DocumentNode.Alike.declares {node other : DocumentNode} {interface : Interface}
    (alike : node.Alike other) (declares : node.Declares interface) :
    other.Declares
      ⟨interface.methods, other.definitions.map (·.entry), interface.initArgs⟩ where
  distinct := alike.names ▸ declares.distinct
  aliases := rfl
  methods := alike.methods.trans declares.methods
  initArgs := declares.initArgs.trans alike.initArgs.symm

def TypeNode.ofMembers (members : List MethodNode) : TypeNode :=
  ⟨Text.braced "service".toList (members.map (·.text)), none, some members⟩

namespace DocumentNode

theorem type?_of_definitions {node : DocumentNode} {before behind : List DefinitionNode}
    {definition : DefinitionNode} (shape : node.definitions = before ++ definition :: behind)
    (distinct : (node.definitions.map (·.name)).Nodup) :
    node.type? definition.name = some definition.type := by
  refine Dictionary.find?_of_mem ?_ ?_
  · rwa [List.map_map]
  · exact List.mem_map.mpr ⟨definition, by simp [shape], rfl⟩

theorem alike_of_service {node other : DocumentNode} {init : List LabelledText}
    {service changed : ServiceNode} (definitions : other.definitions = node.definitions)
    (old : node.actor = some ⟨init, service⟩) (new : other.actor = some ⟨init, changed⟩)
    (same : (node.members? changed).map (·.map node.method?) =
      (node.members? service).map (·.map node.method?)) : node.Alike other where
  names := by rw [definitions]
  methods := by
    have types : other.type? = node.type? := by
      funext name
      rw [type?, type?, definitions]
    have methods : other.method? = node.method? := by
      funext member
      cases member with
      | declared method => rfl
      | reference label typeName offset => simp only [method?, types]
    have members : other.members? = node.members? := by
      funext service
      cases service with
      | body members => rfl
      | named name => simp only [members?, types]
    simp only [methods?, old, new, methods, members, same]
  initArgs := by rw [initArgs, initArgs, old, new]

theorem map_method?_exchange {node : DocumentNode} {member changed : MethodNode}
    (same : node.method? changed = node.method? member) (front behind : List MethodNode) :
    (front ++ changed :: behind).map node.method? = (front ++ member :: behind).map node.method? := by
  simp [same]

section Members

variable {node other : DocumentNode} {before behind : List DefinitionNode} {name : Text}
  {offset : Nat} {members others : List MethodNode}
  (old : node.definitions = before ++ ⟨name, .ofMembers members, offset⟩ :: behind)
  (new : other.definitions = before ++ ⟨name, .ofMembers others, offset⟩ :: behind)

include old new

theorem type?_of_members (wanted : Text) :
    other.type? wanted = node.type? wanted ∨
      node.type? wanted = some (.ofMembers members) ∧
        other.type? wanted = some (.ofMembers others) := by
  have found := Dictionary.find?_exchange wanted name (TypeNode.ofMembers members) (.ofMembers others)
    (before.map fun definition => (definition.name, definition.type))
    (behind.map fun definition => (definition.name, definition.type))
  rw [type?, type?, old, new]
  simpa using found.imp_right And.right

/-- Other members of a service type leave the function types as they are. -/
theorem method?_of_members : other.method? = node.method? := by
  funext member
  cases member with
  | declared method => rfl
  | reference label typeName place =>
      rcases type?_of_members old new typeName with found | ⟨found, otherFound⟩
      · simp only [method?, found]
      · simp only [method?, found, otherFound, Option.bind_some, TypeNode.ofMembers]

/-- A service type with other members that declare the same methods. -/
theorem alike_of_members (actor : other.actor = node.actor)
    (same : others.map node.method? = members.map node.method?) : node.Alike other where
  names := by rw [old, new]; simp
  methods := by
    have methods (service : ServiceNode) :
        (other.members? service).map (·.map other.method?) =
          (node.members? service).map (·.map node.method?) := by
      rw [method?_of_members old new]
      cases service with
      | body => rfl
      | named wanted =>
          rcases type?_of_members old new wanted with found | ⟨found, otherFound⟩
          · simp only [members?, found]
          · simp only [members?, found, otherFound, Option.bind_some, TypeNode.ofMembers,
              Option.map_some, same]
    rw [methods?, methods?, actor]
    cases node.actor with
    | none => rfl
    | some actor => exact methods actor.service
  initArgs := by rw [initArgs, initArgs, actor]

theorem aliases_of_members {wanted : Text} (apart : wanted ≠ name) :
    Dictionary.find? wanted (other.definitions.map (·.entry)) =
      Dictionary.find? wanted (node.definitions.map (·.entry)) := by
  have found := Dictionary.find?_exchange wanted name (TypeNode.ofMembers members).text
    (TypeNode.ofMembers others).text (before.map (·.entry)) (behind.map (·.entry))
  rw [old, new]
  simpa [DefinitionNode.entry, apart] using found

end Members

end DocumentNode

section Places

def DocumentNode.unplaced (node : DocumentNode) : DocumentNode :=
  unplacedValue .interface node

variable (node : DocumentNode)

theorem type?_unplaced (name : Text) :
    node.unplaced.type? name = (node.type? name).map TypeNode.unplaced := by
  rw [DocumentNode.type?, DocumentNode.type?, ← Dictionary.find?_map, List.map_map]
  show Dictionary.find? name ((node.definitions.map DefinitionNode.unplaced).map _) = _
  rw [List.map_map]
  rfl

theorem method?_unplaced (member : MethodNode) :
    node.unplaced.method? member.unplaced = node.method? member := by
  cases member with
  | declared method => rfl
  | reference label typeName offset =>
      simp only [MethodNode.unplaced, DocumentNode.method?, type?_unplaced]
      cases node.type? typeName <;> rfl

theorem alike_unplaced : node.Alike node.unplaced where
  names := by simp [DocumentNode.unplaced, unplacedValue, DefinitionNode.unplaced, Function.comp_def]
  methods := by
    have same (members : List MethodNode) :
        (members.map (·.unplaced)).map node.unplaced.method? = members.map node.method? := by
      simp [method?_unplaced]
    obtain ⟨definitions, actor⟩ := node
    cases actor with
    | none => rfl
    | some actor =>
        obtain ⟨init, service⟩ := actor
        cases service with
        | body members => exact congrArg some (same members)
        | named name =>
            show ((DocumentNode.unplaced _).type? name |>.bind (·.methods)).map _ = _
            rw [type?_unplaced]
            simp only [DocumentNode.methods?, DocumentNode.members?]
            cases DocumentNode.type? _ name with
            | none => rfl
            | some type =>
                cases shape : type.methods with
                | none => simp [TypeNode.unplaced, shape]
                | some members => simp [TypeNode.unplaced, shape, ← same members]
  initArgs := by
    obtain ⟨definitions, actor⟩ := node
    cases actor <;> rfl

theorem declares_unplaced {interface : Interface} :
    node.unplaced.Declares interface ↔ node.Declares interface := by
  have entries : node.unplaced.definitions.map (·.entry) = node.definitions.map (·.entry) := by
    simp [DocumentNode.unplaced, unplacedValue, DefinitionNode.unplaced, DefinitionNode.entry,
      TypeNode.unplaced, Function.comp_def]
  obtain ⟨names, methods, initArgs⟩ := alike_unplaced node
  constructor
  · rintro ⟨distinct, aliases, resolved, arguments⟩
    exact ⟨names ▸ distinct, aliases.trans entries, methods ▸ resolved, arguments.trans initArgs⟩
  · rintro ⟨distinct, aliases, resolved, arguments⟩
    exact ⟨names.symm ▸ distinct, aliases.trans entries.symm, methods.trans resolved,
      arguments.trans initArgs.symm⟩

end Places

/-- A source whose tokens are spelt like the sentence of a derivation is the interface that the record
of the derivation declares, and nothing else. -/
theorem parse_eq_ok_of_spelt {source : Text} {tokens : List Token} {interface : Interface}
    {tree : Derivation (.nonterminal .interface)} (stream : tokenStream source = ⟨tokens, none⟩)
    (spelt : tokens.map Token.spelt = tree.yield.map Token.spelt) :
    parse source = .ok interface ↔ DocumentNode.Declares tree.record interface := by
  obtain ⟨other, rfl, shape⟩ := tree.respells tokens spelt
  obtain ⟨document, read, record⟩ := other.readDocument
  have derived : (tokenStream source).document = .ok document := by
    rw [stream]
    exact document_eq_ok.mpr read
  have same : document.node.unplaced = DocumentNode.unplaced tree.record := by
    rw [record]
    have both := congrArg (·.value canonical) shape
    exact (Derivation.value_unplaced other).symm.trans (both.trans (Derivation.value_unplaced tree))
  have parsed : parse source = document.interface := by
    rw [parse, derived]
    rfl
  rw [parsed, interface_eq_ok, ← declares_unplaced, same, declares_unplaced]

end Candid.Idl
