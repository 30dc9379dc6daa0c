import Candid.Idl.Interface
import Candid.Proofs.Grammar.Derivation

/-!
# What is read is written

A reader invents nothing. Every name and every label of what it returns is spelt by a token of the list,
every recorded offset is the offset of one, and what it leaves or refuses is an end of the list.
-/

set_option autoImplicit false

namespace Candid.Idl

section Written

variable (all : List Token)

def NameIn (name : Text) : Prop :=
  ∃ token ∈ all, token.kind = .identifier ∧ token.text = name

def NameAt (name : Text) (offset : Nat) : Prop :=
  ∃ token ∈ all, token.kind = .identifier ∧ token.text = name ∧ token.offset = offset

/-- The text is a name, a quoted text or a number among the tokens. -/
def LabelIn (label : Text) : Prop :=
  ∃ token ∈ all, (∃ form : LabelForm, token.kind = form.kind) ∧ token.text = label

mutual

def Datatype.WrittenIn : Datatype → Prop
  | .name name => NameIn all name
  | .opt inner => inner.WrittenIn
  | .vec inner => inner.WrittenIn
  | .record fields => FieldsWrittenIn fields
  | .variant fields => FieldsWrittenIn fields
  | .func signature => signature.WrittenIn
  | .service members => MembersWrittenIn members

def FieldsWrittenIn : List Field → Prop
  | [] => True
  | .mk label type :: rest =>
    (∀ text ∈ label, LabelIn all text) ∧ type.WrittenIn ∧ FieldsWrittenIn rest

def Signature.WrittenIn : Signature → Prop
  | .mk args results _ => FieldsWrittenIn args ∧ FieldsWrittenIn results

/-- The labels of methods, the names of their types and the places of these names are those of
tokens. -/
def MembersWrittenIn : List Member → Prop
  | [] => True
  | .declared label signature :: rest =>
    LabelIn all label ∧ signature.WrittenIn ∧ MembersWrittenIn rest
  | .referenced label typeName offset :: rest =>
    LabelIn all label ∧ NameAt all typeName offset ∧ MembersWrittenIn rest

end

def ActorType.WrittenIn : ActorType → Prop
  | .body members => MembersWrittenIn all members
  | .named name => NameIn all name

def Actor.WrittenIn (actor : Actor) : Prop :=
  FieldsWrittenIn all actor.init ∧ actor.type.WrittenIn all

def Definition.WrittenIn (definition : Definition) : Prop :=
  NameAt all definition.name definition.offset ∧ definition.type.WrittenIn all

def Entry.WrittenIn : Entry → Prop
  | .definition entry => entry.WrittenIn all
  | .imported _ => True

def Document.WrittenIn (document : Document) : Prop :=
  (∀ entry ∈ document.entries, entry.WrittenIn all) ∧
    ∀ actor ∈ document.actor, actor.WrittenIn all

def Keeps {α : Type} (good : α → Prop) : Except Unread α → Prop
  | .ok value => good value
  | .error unread => unread <:+ all

/-- What is returned has a property, and what is left and a failure are ends of the token list. -/
abbrev Reads {α : Type} (good : α → Prop) : Except Unread (α × List Token) → Prop :=
  Keeps all fun (value, behind) => good value ∧ behind <:+ all

end Written

variable {all : List Token}

theorem Keeps.bind {α β : Type} {good : α → Prop} {other : β → Prop} {outcome : Except Unread α}
    {next : α → Except Unread β} (kept : Keeps all good outcome)
    (further : ∀ value, good value → Keeps all other (next value)) :
    Keeps all other (outcome >>= next) := by
  cases outcome with
  | error unread => exact kept
  | ok value => exact further value kept

theorem keeps_expect (kind : TokenKind) {tokens : List Token} (ending : tokens <:+ all) :
    Keeps all (· <:+ all) (expect kind tokens) := by
  cases tokens with
  | nil => exact ending
  | cons token rest =>
      rw [expect]
      split
      · exact (List.suffix_cons token rest).trans ending
      · exact ending

theorem mem_of_suffix {token : Token} {rest : List Token} (ending : token :: rest <:+ all) :
    token ∈ all ∧ rest <:+ all :=
  ⟨ending.subset List.mem_cons_self, (List.suffix_cons token rest).trans ending⟩

theorem suffix_of_readModes {tokens : List Token} (ending : tokens <:+ all) :
    (readModes tokens).2 <:+ all := by
  fun_induction readModes tokens with
  | case1 _ _ _ rest modes behind shape ih
  | case2 _ _ _ rest modes behind shape ih
  | case3 _ _ _ rest modes behind shape ih =>
      simpa [shape] using ih (mem_of_suffix ending).2
  | case4 => exact ending

theorem reads_readLabel {tokens : List Token} (ending : tokens <:+ all) :
    Reads all (LabelIn all) (readLabel tokens) := by
  have here (form : LabelForm) {token : Token} {rest : List Token} (fits : token.kind = form.kind)
      (ending : token :: rest <:+ all) : LabelIn all token.text ∧ rest <:+ all :=
    ⟨⟨token, (mem_of_suffix ending).1, ⟨form, fits⟩, rfl⟩, (mem_of_suffix ending).2⟩
  unfold readLabel
  split
  · exact here .identifier rfl ending
  · exact here .text rfl ending
  · exact here .number rfl ending
  · exact ending

structure ReadersKeep (all : List Token) (fuel : Nat) : Prop where
  datatype {tokens : List Token} :
    tokens <:+ all → Reads all (Datatype.WrittenIn all) (readDatatype fuel tokens)
  wrapped {tokens : List Token} :
    tokens <:+ all → Reads all (Datatype.WrittenIn all) (readWrapped fuel tokens)
  field {tokens : List Token} :
    tokens <:+ all → Reads all (fun field => FieldsWrittenIn all [field]) (readField fuel tokens)
  fields {separator closing : TokenKind} {tokens : List Token} :
    tokens <:+ all → Reads all (FieldsWrittenIn all) (readFields separator closing fuel tokens)
  signature {tokens : List Token} :
    tokens <:+ all → Reads all (Signature.WrittenIn all) (readSignature fuel tokens)
  members {tokens : List Token} :
    tokens <:+ all → Reads all (MembersWrittenIn all) (readMembers fuel tokens)

section Step

variable {fuel : Nat} {tokens : List Token}

theorem reads_datatype_step (inner : ReadersKeep all fuel) (ending : tokens <:+ all) :
    Reads all (Datatype.WrittenIn all) (readDatatype (fuel + 1) tokens) := by
  unfold readDatatype
  split
  · exact ⟨⟨_, (mem_of_suffix ending).1, rfl, rfl⟩, (mem_of_suffix ending).2⟩
  · exact (inner.wrapped (mem_of_suffix ending).2).bind fun _ read => read
  · exact (inner.wrapped (mem_of_suffix ending).2).bind fun _ read => read
  · exact (keeps_expect _ (mem_of_suffix ending).2).bind fun _ opened =>
      (inner.fields opened).bind fun _ read => read
  · exact (keeps_expect _ (mem_of_suffix ending).2).bind fun _ opened =>
      (inner.fields opened).bind fun _ read => read
  · exact (inner.signature (mem_of_suffix ending).2).bind fun _ read => read
  · exact (keeps_expect _ (mem_of_suffix ending).2).bind fun _ opened =>
      (inner.members opened).bind fun _ read => read
  · exact ending

theorem reads_wrapped_step (inner : ReadersKeep all fuel) (ending : tokens <:+ all) :
    Reads all (Datatype.WrittenIn all) (readWrapped (fuel + 1) tokens) := by
  unfold readWrapped
  split
  · exact (inner.datatype (mem_of_suffix ending).2).bind fun _ read =>
      (keeps_expect _ read.2).bind fun _ closed => ⟨read.1, closed⟩
  · exact inner.datatype ending

theorem reads_field_step (inner : ReadersKeep all fuel) (ending : tokens <:+ all) :
    Reads all (fun field => FieldsWrittenIn all [field]) (readField (fuel + 1) tokens) := by
  have labelled {label : Text} (written : LabelIn all label) {type : Datatype}
      (typeWritten : type.WrittenIn all) : FieldsWrittenIn all [.mk (some label) type] :=
    ⟨by simpa using written, typeWritten, trivial⟩
  unfold readField
  simp only
  split
  · obtain ⟨member, behind⟩ := mem_of_suffix ending
    exact (inner.datatype (mem_of_suffix behind).2).bind fun _ read =>
      ⟨labelled ⟨_, member, ⟨.identifier, rfl⟩, rfl⟩ read.1, read.2⟩
  · obtain ⟨member, behind⟩ := mem_of_suffix ending
    exact (keeps_expect _ behind).bind fun _ separated =>
      (inner.datatype separated).bind fun _ read =>
        ⟨labelled ⟨_, member, ⟨.text, rfl⟩, rfl⟩ read.1, read.2⟩
  · obtain ⟨member, behind⟩ := mem_of_suffix ending
    exact (keeps_expect _ behind).bind fun _ separated =>
      (inner.datatype separated).bind fun _ read =>
        ⟨labelled ⟨_, member, ⟨.number, rfl⟩, rfl⟩ read.1, read.2⟩
  · exact (inner.datatype ending).bind fun _ read => ⟨⟨by simp, read.1, trivial⟩, read.2⟩

theorem FieldsWrittenIn.cons {field : Field} {fields : List Field}
    (first : FieldsWrittenIn all [field]) (others : FieldsWrittenIn all fields) :
    FieldsWrittenIn all (field :: fields) := by
  obtain ⟨label, type⟩ := field
  exact ⟨first.1, first.2.1, others⟩

theorem reads_fields_step {separator closing : TokenKind} (inner : ReadersKeep all fuel)
    (ending : tokens <:+ all) :
    Reads all (FieldsWrittenIn all) (readFields separator closing (fuel + 1) tokens) := by
  unfold readFields
  split
  · rename_i closed
    have left := keeps_expect closing ending
    rw [closed] at left
    exact ⟨trivial, left⟩
  · refine (inner.field ending).bind fun (field, behind) ⟨written, left⟩ => ?_
    have separated := keeps_expect separator left
    simp only
    split
    · rename_i found
      rw [found] at separated
      exact (inner.fields separated).bind fun _ read => ⟨written.cons read.1, read.2⟩
    · exact (keeps_expect _ left).bind fun _ closed => ⟨written, closed⟩

theorem reads_signature_step (inner : ReadersKeep all fuel) (ending : tokens <:+ all) :
    Reads all (Signature.WrittenIn all) (readSignature (fuel + 1) tokens) := by
  unfold readSignature
  exact (keeps_expect _ ending).bind fun _ opened =>
    (inner.fields opened).bind fun _ args =>
      (keeps_expect _ args.2).bind fun _ points =>
        (keeps_expect _ points).bind fun _ reopened =>
          (inner.fields reopened).bind fun _ results =>
            ⟨⟨args.1, results.1⟩, suffix_of_readModes results.2⟩

theorem MembersWrittenIn.cons {member : Member} {members : List Member}
    (first : MembersWrittenIn all [member]) (others : MembersWrittenIn all members) :
    MembersWrittenIn all (member :: members) := by
  cases member with
  | declared label signature => exact ⟨first.1, first.2.1, others⟩
  | referenced label typeName offset => exact ⟨first.1, first.2.1, others⟩

theorem MembersWrittenIn.of_cons {member : Member} {members : List Member}
    (written : MembersWrittenIn all (member :: members)) :
    MembersWrittenIn all [member] ∧ MembersWrittenIn all members := by
  cases member with
  | declared label signature => exact ⟨⟨written.1, written.2.1, trivial⟩, written.2.2⟩
  | referenced label typeName offset => exact ⟨⟨written.1, written.2.1, trivial⟩, written.2.2⟩

theorem MembersWrittenIn.of_mem {member : Member} {members : List Member}
    (written : MembersWrittenIn all members) (inside : member ∈ members) :
    MembersWrittenIn all [member] := by
  induction members with
  | nil => cases inside
  | cons other members ih =>
      rcases List.mem_cons.mp inside with rfl | later
      · exact written.of_cons.1
      · exact ih written.of_cons.2 later

theorem reads_members_step (inner : ReadersKeep all fuel) (ending : tokens <:+ all) :
    Reads all (MembersWrittenIn all) (readMembers (fuel + 1) tokens) := by
  unfold readMembers
  split
  · rename_i closed
    have left := keeps_expect .rightBrace ending
    rw [closed] at left
    exact ⟨trivial, left⟩
  · refine (reads_readLabel ending).bind fun label labelled => ?_
    refine (keeps_expect _ labelled.2).bind fun start separated => ?_
    refine Keeps.bind ?_
      fun member (read : MembersWrittenIn all [member.1] ∧ member.2 <:+ all) =>
        (keeps_expect _ read.2).bind fun _ ended =>
          (inner.members ended).bind fun _ others => ⟨read.1.cons others.1, others.2⟩
    split
    · obtain ⟨member, behind⟩ := mem_of_suffix separated
      exact ⟨⟨labelled.1, ⟨_, member, rfl, rfl, rfl⟩, trivial⟩, behind⟩
    · exact (inner.signature separated).bind fun _ read =>
        ⟨⟨labelled.1, read.1, trivial⟩, read.2⟩

end Step

theorem readers_keep (all : List Token) (fuel : Nat) : ReadersKeep all fuel := by
  induction fuel with
  | zero =>
      constructor
      all_goals
        intros
        assumption
  | succ fuel inner =>
      exact {
        datatype := reads_datatype_step inner
        wrapped := reads_wrapped_step inner
        field := reads_field_step inner
        fields := reads_fields_step inner
        signature := reads_signature_step inner
        members := reads_members_step inner }

section Document

variable {fuel : Nat} {tokens : List Token}

theorem reads_readActorType (ending : tokens <:+ all) :
    Reads all (ActorType.WrittenIn all) (readActorType fuel tokens) := by
  unfold readActorType
  split
  · exact ((readers_keep all fuel).members (mem_of_suffix ending).2).bind fun _ read => read
  · obtain ⟨member, behind⟩ := mem_of_suffix ending
    exact ⟨⟨_, member, rfl, rfl⟩, behind⟩
  · exact ending

theorem reads_readActor (ending : tokens <:+ all) :
    Reads all (Actor.WrittenIn all) (readActor fuel tokens) := by
  unfold readActor
  split
  · exact ((readers_keep all fuel).fields (mem_of_suffix ending).2).bind fun _ init =>
      (keeps_expect _ init.2).bind fun _ points =>
        (reads_readActorType points).bind fun _ type => ⟨⟨init.1, type.1⟩, type.2⟩
  · exact (reads_readActorType ending).bind fun _ type => ⟨⟨trivial, type.1⟩, type.2⟩

theorem keeps_readEnd (ending : tokens <:+ all) : Keeps all (fun _ => True) (readEnd tokens) := by
  unfold readEnd
  split
  · trivial
  · trivial
  · exact (mem_of_suffix ending).2
  · exact ending

theorem keeps_readService (fuel : Nat) (ending : tokens <:+ all) :
    Keeps all (Actor.WrittenIn all) (readService fuel tokens) := by
  unfold readService
  have started {start : List Token} (left : start <:+ all) : Keeps all (Actor.WrittenIn all) (do
      let separated ← expect .colon start
      let read ← readActor fuel separated
      readEnd read.2
      pure read.1) :=
    (keeps_expect _ left).bind fun _ separated =>
      (reads_readActor separated).bind fun _ actor =>
        (keeps_readEnd actor.2).bind fun _ _ => actor.1
  simp only
  split
  · exact started (mem_of_suffix ending).2
  · exact started ending

theorem reads_readEntry {outcome : Except Unread (Entry × List Token)} (ending : tokens <:+ all)
    (begins : readEntry? fuel tokens = some outcome) : Reads all (Entry.WrittenIn all) outcome := by
  unfold readEntry? at begins
  split at begins
  · cases begins
    have behind := (mem_of_suffix ending).2
    split
    · obtain ⟨member, rest⟩ := mem_of_suffix behind
      exact (keeps_expect _ rest).bind fun _ signed =>
        ((readers_keep all fuel).datatype signed).bind fun _ type =>
          (keeps_expect _ type.2).bind fun _ ended =>
            ⟨⟨⟨_, member, rfl, rfl, rfl⟩, type.1⟩, ended⟩
    · exact behind
  · cases begins
    have behind := (mem_of_suffix ending).2
    split
    · exact (keeps_expect _ (mem_of_suffix behind).2).bind fun _ ended => ⟨trivial, ended⟩
    · exact behind
  · cases begins

theorem keeps_readEntries (fuel : Nat) (ending : tokens <:+ all) :
    (∀ entry ∈ (readEntries fuel tokens).entries, entry.WrittenIn all) ∧
      Keeps all (· <:+ all) (readEntries fuel tokens).behind := by
  induction fuel generalizing tokens with
  | zero => exact ⟨by simp [readEntries], ending⟩
  | succ fuel ih =>
      unfold readEntries
      split
      · exact ⟨by simp, ending⟩
      · rename_i begins
        exact ⟨by simp, reads_readEntry ending begins⟩
      · rename_i entry rest begins
        obtain ⟨written, left⟩ := reads_readEntry ending begins
        obtain ⟨others, behind⟩ := ih left
        exact ⟨List.forall_mem_cons.mpr ⟨written, others⟩, behind⟩

/-- What is read of a token list is written in it, and a failure is an end of it. -/
theorem keeps_readDocument (fuel : Nat) (tokens : List Token) :
    Keeps tokens (Document.WrittenIn tokens) (readDocument fuel tokens) := by
  obtain ⟨written, left⟩ := keeps_readEntries fuel (List.suffix_refl tokens)
  refine Keeps.bind left fun behind ending => ?_
  split
  · exact ⟨written, by simp⟩
  · rename_i rest
    have service := keeps_readService fuel (mem_of_suffix ending).2
    cases read : readService fuel rest with
    | error unread =>
        rw [read] at service
        exact service
    | ok actor =>
        rw [read] at service
        refine ⟨written, fun other present => ?_⟩
        cases present
        exact service
  · exact ending

end Document

/-- The document of a token stream is written in its tokens. -/
theorem written_of_document {stream : TokenStream} {document : Document}
    (found : stream.document = .ok document) : document.WrittenIn stream.tokens := by
  have kept := keeps_readDocument (fuelFor stream.tokens) stream.tokens
  unfold TokenStream.document at found
  split at found
  · cases found
  · cases found
  · cases found
  · rename_i read _
    rw [read] at kept
    cases found
    exact kept

theorem Document.WrittenIn.definition {document : Document} (written : document.WrittenIn all)
    {definition : Definition} (member : definition ∈ document.definitions) :
    definition.WrittenIn all := by
  obtain ⟨entry, inside, same⟩ := List.mem_filterMap.mp member
  have entryWritten := written.1 entry inside
  cases entry with
  | definition other =>
      cases same
      exact entryWritten
  | imported path => cases same

end Candid.Idl
