import Candid.Proofs.Interface.Methods
import Candid.Proofs.Lexing.Placed

/-!
# Places of parse errors

An error about a character, a token or a name tells an offset, and what it is about stands there in the
source.
-/

set_option autoImplicit false

namespace Candid.Idl

def ParseError.offset? : ParseError → Option Nat
  | .illegalCharacter illegal => some illegal.offset
  | .unexpectedToken token => some token.offset
  | .repeatedType _ offset => some offset
  | .notFunction _ _ offset => some offset
  | .endOfInput => none
  | .undefinedService _ => none

/-- What an error is about: a character, a token, a type that is defined again, or the name of what
should be a function type. -/
def ParseError.subject : ParseError → Text
  | .illegalCharacter illegal => [illegal.character]
  | .unexpectedToken token => token.text
  | .repeatedType name _ => name
  | .notFunction _ typeName _ => typeName
  | .endOfInput => []
  | .undefinedService name => name

def ParseError.LocatedIn (stream : TokenStream) : ParseError → Prop
  | .illegalCharacter illegal => stream.stop = some illegal
  | .unexpectedToken token => token ∈ stream.tokens
  | .repeatedType name offset => NameAt stream.tokens name offset
  | .notFunction _ typeName offset => NameAt stream.tokens typeName offset
  | .endOfInput => True
  | .undefinedService _ => True

theorem locatedIn_of_document {stream : TokenStream} {error : ParseError}
    (fails : stream.document = .error error) : error.LocatedIn stream := by
  have kept := keeps_readDocument (fuelFor stream.tokens) stream.tokens
  unfold TokenStream.document at fails
  split at fails
  · rename_i unread
    rw [unread] at kept
    cases fails
    exact (mem_of_suffix kept).1
  · rename_i stop _
    cases fails
    exact stop
  · cases fails
    trivial
  · cases fails

theorem exists_of_typeTable_error {defined : Dictionary Datatype} {definitions : List Definition}
    {error : ParseError} (fails : typeTable defined definitions = .error error) :
    ∃ definition ∈ definitions, error = .repeatedType definition.name definition.offset := by
  induction definitions generalizing defined with
  | nil => cases fails
  | cons definition definitions ih =>
      rw [typeTable] at fails
      split at fails
      · cases fails
        exact ⟨definition, .head _, rfl⟩
      · obtain ⟨other, member, same⟩ := ih fails
        exact ⟨other, .tail _ member, same⟩

section Methods

variable {types : Dictionary Datatype} {stream : TokenStream} {error : ParseError}

theorem locatedIn_of_method {member : Member} (written : MembersWrittenIn stream.tokens [member])
    (fails : member.method types = .error error) : error.LocatedIn stream := by
  cases member with
  | declared label signature => cases fails
  | referenced label typeName offset =>
      rw [Member.method] at fails
      split at fails
      · cases fails
      · cases fails
        exact written.2.1

theorem locatedIn_of_members {members : List Member}
    (written : MembersWrittenIn stream.tokens members)
    (fails : members.mapM (·.method types) = .error error) : error.LocatedIn stream := by
  induction members with
  | nil => cases fails
  | cons member members ih =>
      rw [List.mapM_cons] at fails
      rcases bind_eq_error.mp fails with first | ⟨_, _, further⟩
      · exact locatedIn_of_method written.of_cons.1 first
      · rcases bind_eq_error.mp further with others | ⟨_, _, none⟩
        · exact ih written.of_cons.2 others
        · cases none

end Methods

theorem locatedIn_of_interface {stream : TokenStream} {document : Document} {error : ParseError}
    (written : document.WrittenIn stream.tokens) (fails : document.interface = .error error) :
    error.LocatedIn stream := by
  rcases bind_eq_error.mp fails with repeated | ⟨types, table, further⟩
  · obtain ⟨definition, member, rfl⟩ := exists_of_typeTable_error repeated
    exact (written.definition member).1
  obtain ⟨rfl, _, _⟩ := typeTable_eq_ok.mp table
  cases shape : document.actor with
  | none =>
      rw [shape] at further
      cases further
  | some actor =>
      rw [shape] at further
      have service := (written.2 actor shape).2
      rcases bind_eq_error.mp further with refused | ⟨_, _, none⟩
      · cases type : actor.type with
        | body members =>
            rw [type] at refused service
            exact locatedIn_of_members service refused
        | named name =>
            rw [type, ActorType.methods] at refused
            split at refused
            · rename_i members named
              have membersWritten := written.find? named
              exact locatedIn_of_members membersWritten refused
            · cases refused
              trivial
      · cases none

/-- The error of a source is about a place of its token stream. -/
theorem locatedIn_of_parse {source : Text} {error : ParseError}
    (fails : parse source = .error error) : error.LocatedIn (tokenStream source) := by
  rcases bind_eq_error.mp fails with unread | ⟨document, found, refused⟩
  · exact locatedIn_of_document unread
  · exact locatedIn_of_interface (written_of_document found) refused

section Source

variable {source : Text}

theorem prefix_of_row {row front others : List Lexeme} {lexeme : Lexeme}
    (shape : row = front ++ lexeme :: others) :
    lexeme.text <+: (spelling row).drop (spelling front).length := by
  rw [shape, spelling_append, List.drop_left, spelling_cons]
  exact List.prefix_append _ _

theorem prefix_of_token {token : Token} (member : token ∈ (tokenStream source).tokens) :
    token.text <+: source.drop token.offset := by
  obtain ⟨before, behind, cut⟩ := List.append_of_mem (mem_tokensOf_of_ofPlaced member)
  obtain ⟨front, others, shape, _, place, _⟩ := exists_row_of_tokensOf cut
  have stands := prefix_of_row shape
  rwa [spelling_lexemes, ← Nat.zero_add (spelling front).length, ← place] at stands

theorem exists_row_of_stop {row : List Lexeme} {line offset : Nat} {illegal : IllegalCharacter}
    (stop : (TokenStream.ofPlaced (placed line offset row)).stop = some illegal) :
    ∃ front tail others, row = front ++ ⟨.illegal, illegal.character :: tail⟩ :: others ∧
      illegal.offset = offset + (spelling front).length := by
  induction row generalizing line offset with
  | nil => cases stop
  | cons lexeme row ih =>
      obtain ⟨kind, text⟩ := lexeme
      have further (stop : (TokenStream.ofPlaced (placed (line + text.count '\n')
          (offset + text.length) row)).stop = some illegal) :
          ∃ front tail others,
            (⟨kind, text⟩ :: row : List Lexeme) =
              front ++ ⟨.illegal, illegal.character :: tail⟩ :: others ∧
            illegal.offset = offset + (spelling front).length := by
        obtain ⟨front, tail, others, shape, place⟩ := ih stop
        refine ⟨⟨kind, text⟩ :: front, tail, others, by rw [shape, List.cons_append], ?_⟩
        rw [place, spelling_cons, List.length_append, Nat.add_assoc]
      cases kind with
      | token kind | layout => exact further stop
      | illegal =>
          cases text with
          | nil => exact further stop
          | cons c tail =>
              cases stop
              exact ⟨[], tail, row, rfl, rfl⟩

theorem prefix_of_stop {illegal : IllegalCharacter}
    (stop : (tokenStream source).stop = some illegal) :
    [illegal.character] <+: source.drop illegal.offset := by
  obtain ⟨front, tail, others, shape, place⟩ := exists_row_of_stop stop
  have stands := prefix_of_row shape
  rw [spelling_lexemes, ← Nat.zero_add (spelling front).length, ← place] at stands
  exact (List.prefix_append [illegal.character] tail).trans stands

theorem prefix_of_nameAt {name : Text} {offset : Nat}
    (named : NameAt (tokenStream source).tokens name offset) : name <+: source.drop offset := by
  obtain ⟨token, member, _, rfl, rfl⟩ := named
  exact prefix_of_token member

theorem NameAt.form {all : List Token} (spelt : ∀ token ∈ all, Form token.kind token.text)
    {name : Text} {offset : Nat} (written : NameAt all name offset) : Form .identifier name := by
  obtain ⟨token, member, kind, rfl, _⟩ := written
  exact kind ▸ spelt token member

theorem Form.ne_nil {kind : TokenKind} {text : Text} (form : Form kind text) : text ≠ [] := by
  cases form <;> exact List.cons_ne_nil _ _

/-- What an error is about stands at its offset. -/
theorem subject_at_offset {error : ParseError} {offset : Nat} (fails : parse source = .error error)
    (placed : error.offset? = some offset) :
    error.subject <+: source.drop offset ∧ error.subject ≠ [] := by
  have located := locatedIn_of_parse fails
  have spelt : ∀ token ∈ (tokenStream source).tokens, Form token.kind token.text :=
    fun token member => form_of_tokenStream member
  cases error with
  | illegalCharacter illegal =>
      cases placed
      exact ⟨prefix_of_stop located, List.cons_ne_nil _ _⟩
  | unexpectedToken token =>
      cases placed
      exact ⟨prefix_of_token located, (spelt token located).ne_nil⟩
  | repeatedType name place =>
      cases placed
      exact ⟨prefix_of_nameAt located, (located.form spelt).ne_nil⟩
  | notFunction method typeName place =>
      cases placed
      exact ⟨prefix_of_nameAt located, (located.form spelt).ne_nil⟩
  | endOfInput | undefinedService name => cases placed

end Source

end Candid.Idl
