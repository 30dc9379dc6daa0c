import Candid.Proofs.Grammar.TypeTable
import Candid.Proofs.Grammar.Written

/-!
# Methods of an interface

The methods of an interface are those of the function types that its document gives to labels: a
method's own function type, or the one that is defined by the name it refers to.
-/

set_option autoImplicit false

namespace Candid.Idl

def Member.signature? (types : Dictionary Datatype) : Member → Option (Text × Signature)
  | .declared label signature => some (label, signature)
  | .referenced label typeName _ =>
    match Dictionary.find? typeName types with
    | some (.func signature) => some (label, signature)
    | _ => none

def ActorType.members (types : Dictionary Datatype) : ActorType → List Member
  | .body members => members
  | .named name =>
    match Dictionary.find? name types with
    | some (.service members) => members
    | _ => []

def Document.types (document : Document) : Dictionary Datatype :=
  document.definitions.map fun definition => (definition.name, definition.type)

def Document.signatures (document : Document) : List (Text × Signature) :=
  match document.actor with
  | none => []
  | some actor => (actor.type.members document.types).filterMap (·.signature? document.types)

def methodOf (entry : Text × Signature) : Method :=
  .ofSignature entry.1 entry.2.toText

theorem Member.method_eq_ok {types : Dictionary Datatype} {member : Member} {method : Method} :
    member.method types = .ok method ↔ (member.signature? types).map methodOf = some method := by
  cases member with
  | declared label signature => simp [Member.method, Member.signature?, methodOf]
  | referenced label typeName offset =>
      simp only [Member.method, Member.signature?]
      cases Dictionary.find? typeName types with
      | none => simp
      | some type => cases type <;> simp [methodOf]

theorem methods_eq_map {types : Dictionary Datatype} {members : List Member}
    {methods : List Method} (all : members.mapM (·.method types) = .ok methods) :
    methods = (members.filterMap (·.signature? types)).map methodOf := by
  induction members generalizing methods with
  | nil =>
      cases all
      rfl
  | cons member members ih =>
      rw [List.mapM_cons] at all
      obtain ⟨method, first, further⟩ := bind_eq_ok.mp all
      obtain ⟨others, rest, same⟩ := bind_eq_ok.mp further
      cases same
      obtain ⟨entry, found, rfl⟩ := Option.map_eq_some_iff.mp (Member.method_eq_ok.mp first)
      rw [List.filterMap_cons_some found, List.map_cons, ih rest]

theorem mapM_of_methods {types : Dictionary Datatype} {service : ActorType}
    {methods : List Method} (found : service.methods types = .ok methods) :
    (service.members types).mapM (·.method types) = .ok methods := by
  cases service with
  | body members => exact found
  | named name =>
      rw [ActorType.methods] at found
      rw [ActorType.members]
      cases named : Dictionary.find? name types with
      | none =>
          rw [named] at found
          cases found
      | some type =>
          rw [named] at found
          cases type with
          | service members => exact found
          | _ => cases found

/-- The aliases and the methods of an interface, by its document. -/
theorem eq_map_of_interface {document : Document} {interface : Interface}
    (declared : document.interface = .ok interface) :
    interface.aliases =
        document.definitions.map (fun definition => (definition.name, definition.type.render)) ∧
      interface.methods = document.signatures.map methodOf := by
  obtain ⟨aliases, _⟩ := aliases_of_interface declared
  rw [document.node_definitions, ← map_entry_node] at aliases
  refine ⟨aliases, ?_⟩
  obtain ⟨types, table, further⟩ := bind_eq_ok.mp declared
  obtain ⟨rfl, _, _⟩ := typeTable_eq_ok.mp table
  rw [Document.signatures]
  cases shape : document.actor with
  | none =>
      rw [shape] at further
      cases further
      rfl
  | some actor =>
      rw [shape] at further
      obtain ⟨methods, found, same⟩ := bind_eq_ok.mp further
      cases same
      exact methods_eq_map (mapM_of_methods found)

section Written

variable {all : List Token} {document : Document}

theorem Document.WrittenIn.find? (written : document.WrittenIn all) {name : Text} {type : Datatype}
    (found : Dictionary.find? name document.types = some type) : type.WrittenIn all := by
  obtain ⟨definition, member, same⟩ := List.mem_map.mp (Dictionary.mem_of_find? found)
  cases same
  exact (written.definition member).2

theorem MembersWrittenIn.signature? (written : document.WrittenIn all) {members : List Member}
    (membersWritten : MembersWrittenIn all members) {label : Text} {signature : Signature}
    (given : (label, signature) ∈ members.filterMap (·.signature? document.types)) :
    signature.WrittenIn all := by
  obtain ⟨member, inside, found⟩ := List.mem_filterMap.mp given
  have memberWritten := membersWritten.of_mem inside
  cases member with
  | declared label signature =>
      cases found
      exact memberWritten.2.1
  | referenced label typeName offset =>
      rw [Member.signature?] at found
      split at found
      · rename_i named
        cases found
        exact written.find? named
      · cases found

/-- The function types of the methods of a document are written in its tokens. -/
theorem Document.WrittenIn.signature (written : document.WrittenIn all) {label : Text}
    {signature : Signature} (given : (label, signature) ∈ document.signatures) :
    signature.WrittenIn all := by
  rw [Document.signatures] at given
  cases shape : document.actor with
  | none =>
      rw [shape] at given
      cases given
  | some actor =>
      rw [shape] at given
      have actorWritten := written.2 actor shape
      refine MembersWrittenIn.signature? written ?_ given
      cases service : actor.type with
      | body members =>
          have bodyWritten := actorWritten.2
          rw [service] at bodyWritten
          exact bodyWritten
      | named name =>
          rw [ActorType.members]
          split
          · rename_i members named
            exact written.find? named
          · trivial

end Written

end Candid.Idl
