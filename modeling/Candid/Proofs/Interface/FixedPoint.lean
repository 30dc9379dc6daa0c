import Candid.Proofs.Alias.Table
import Candid.Proofs.Grammar.Canonical
import Candid.Proofs.Interface.Methods

/-!
# Canonical texts are fixed

Reading a canonical text gives the canonical text again: an alias that is declared by its text has the
text as its type, and a service with the written form of a method has that method, but for the names of
its arguments, which the written form leaves out. Service types are excepted.
-/

set_option autoImplicit false

namespace Candid.Idl

section Document

/-- A source that spells a sentence has a document with the record of the derivation, but for
places. -/
theorem exists_document_of_spells {source : Text} {tree : Derivation (.nonterminal .interface)}
    (spells : Spells source [] (tree.yield.map Token.spelt)) :
    ∃ document, (tokenStream source).document = .ok document ∧
      unplacedValue .interface document.node = unplacedValue .interface tree.record := by
  obtain ⟨tokens, stream, spelt⟩ := tokenStream_of_spells spells
  obtain ⟨other, rfl, shape⟩ := tree.respells tokens spelt
  obtain ⟨document, read, record⟩ := other.readDocument
  refine ⟨document, ?_, ?_⟩
  · rw [stream]
    exact document_eq_ok.mpr read
  · rw [record]
    have both := congrArg (·.value canonical) shape
    exact (Derivation.value_unplaced other).symm.trans (both.trans (Derivation.value_unplaced tree))

end Document

section Method

def Field.unlabelled : Field → Field
  | .mk _ type => .mk none type

theorem fieldTexts_unlabelled (fields : List Field) :
    fieldTexts (fields.map Field.unlabelled) =
      (fieldTexts fields).map fun entry => ⟨none, entry.type⟩ := by
  induction fields with
  | nil => rfl
  | cons field fields ih =>
      obtain ⟨label, type⟩ := field
      simp [fieldTexts, Field.unlabelled, ih]

theorem haveService_unlabelled (fields : List Field) :
    haveService (fields.map Field.unlabelled) = haveService fields := by
  induction fields with
  | nil => rfl
  | cons field fields ih =>
      obtain ⟨label, type⟩ := field
      simp [haveService, Field.unlabelled, ih]

theorem FieldsWrittenIn.unlabelled {all : List Token} {fields : List Field}
    (written : FieldsWrittenIn all fields) :
    FieldsWrittenIn all (fields.map Field.unlabelled) := by
  induction fields with
  | nil => trivial
  | cons field fields ih =>
      obtain ⟨label, type⟩ := field
      exact ⟨by simp, written.2.1, ih written.2.2⟩

def MethodKind.modes : MethodKind → List Mode
  | .update => []
  | .annotated mode => [mode]

theorem MethodKind.ofModes_modes (kind : MethodKind) : ofModes kind.modes = kind := by
  cases kind with
  | update => rfl
  | annotated mode => cases mode <;> rfl

/-- The function type with which a method is written: without labels, and with one mode at most. -/
def Signature.written : Signature → Signature
  | .mk args results modes =>
    .mk (args.map Field.unlabelled) (results.map Field.unlabelled) (MethodKind.ofModes modes).modes

theorem Signature.hasService_written (signature : Signature) :
    signature.written.hasService = signature.hasService := by
  cases signature with
  | mk args results modes => simp [written, hasService, haveService_unlabelled]

theorem Signature.WrittenIn.written {all : List Token} {signature : Signature}
    (inside : signature.WrittenIn all) : signature.written.WrittenIn all := by
  cases signature with
  | mk args results modes => exact ⟨inside.1.unlabelled, inside.2.unlabelled⟩

theorem typeText_ofSignature (label : Text) (signature : Signature) :
    (Method.ofSignature label signature.toText).typeText = signature.written.toText.render := by
  cases signature with
  | mk args results modes =>
      have listed (fields : List Field) :
          (fieldTexts (fields.map Field.unlabelled)).map LabelledText.render =
            (fieldTexts fields).map (·.type) := by
        simp [fieldTexts_unlabelled, LabelledText.render, Function.comp_def]
      simp only [Method.typeText, Method.ofSignature, Signature.toText, Signature.written,
        SignatureText.render, listed]
      cases MethodKind.ofModes modes <;> simp [MethodKind.modes]

def Method.unnamed (method : Method) : Method :=
  { method with argNames := method.argNames.map fun _ => none }

theorem Form.head_ne_quote {kind : TokenKind} {text : Text} (form : Form kind text)
    (other : kind ≠ .text) : text.head? ≠ some '"' := by
  cases form with
  | quoted => exact absurd rfl other
  | number digit _ => simpa using (front_of_isDigit digit).2.2
  | word start _ => simpa using (front_of_isNameStart start).2.2.1
  | arrow => decide
  | mark punctuation =>
      rintro same
      cases same
      cases punctuation

theorem Form.unquoted {kind : TokenKind} {text : Text} (form : Form kind text)
    (other : kind ≠ .text) : text.unquoted = text := by
  simp [Text.unquoted, Text.isQuoted, form.head_ne_quote other]

/-- The name of a method can stand as its label: it is an identifier that is not reserved, or a
number. -/
def Method.Writable (method : Method) : Prop :=
  Form .identifier method.name ∨ Form .number method.name

theorem Method.Writable.exists_form {method : Method} (writable : method.Writable) :
    method.name.unquoted = method.name ∧ ∃ form : LabelForm, Form form.kind method.name := by
  rcases writable with identifier | number
  · exact ⟨identifier.unquoted (by decide), .identifier, identifier⟩
  · exact ⟨number.unquoted (by decide), .number, number⟩

theorem ofSignature_written (label : Text) (signature : Signature)
    (bare : label.unquoted.unquoted = label.unquoted) :
    Method.ofSignature label.unquoted signature.written.toText =
      (Method.ofSignature label signature.toText).unnamed := by
  cases signature with
  | mk args results modes =>
      simp [Method.ofSignature, Method.unnamed, Signature.written, Signature.toText,
        fieldTexts_unlabelled, MethodKind.ofModes_modes, bare, Function.comp_def]

end Method

section Service

def serviceTree {form : LabelForm} (label : Token) (fits : label.kind = form.kind)
    (signature : Derivation (.nonterminal .signature)) : Derivation (.nonterminal .interface) :=
  let method : Derivation (.nonterminal .method) :=
    .node .signatureMethod (.cons (.node (.label form) (.cons (.leaf label fits) .nil))
      (.cons (.bare .colon [':']) (.cons signature
        (.cons (.bare .semicolon [';']) .nil))))
  let body : Derivation (.nonterminal .serviceBody) :=
    .node .serviceBody (.cons (.bare .leftBrace ['{'])
      (.cons (Derivation.methodList [method]) (.cons (.bare .rightBrace ['}']) .nil)))
  let actor : Derivation (.nonterminal .actor) :=
    .node .anonymousActor (.cons (.keyword .serviceWord)
      (.cons (.bare .colon [':']) (.cons (.node .actorBody (.cons body .nil)) .nil)))
  .node .interface (.cons (Derivation.definitionList [])
    (.cons (.node .actorBare (.cons actor .nil)) .nil))

theorem interface_of_method {document : Document} {method : Method}
    (record : unplacedValue .interface document.node =
      (⟨[], some ⟨[], .body [.declared method]⟩⟩ : DocumentNode)) :
    document.interface = .ok ⟨[method], [], []⟩ := by
  have definitions : document.definitions = [] := by
    have none : document.node.definitions.map (·.unplaced) = [] :=
      congrArg DocumentNode.definitions record
    simpa [document.node_definitions] using none
  have actor : (document.actor.map (·.node)).map (·.unplaced) =
      some ⟨[], .body [.declared method]⟩ := congrArg DocumentNode.actor record
  obtain ⟨node, present, unplaced⟩ := Option.map_eq_some_iff.mp actor
  obtain ⟨⟨init, service⟩, shape, rfl⟩ := Option.map_eq_some_iff.mp present
  have noInit : fieldTexts init = [] := congrArg ActorNode.init unplaced
  have table : typeTable [] document.definitions = .ok [] := by rw [definitions]; rfl
  cases service with
  | named name =>
      have impossible := congrArg ActorNode.service unplaced
      cases impossible
  | body members =>
      have methods : (members.map (·.node)).map (·.unplaced) = [.declared method] :=
        ServiceNode.body.inj (congrArg ActorNode.service unplaced)
      obtain ⟨node, one, first⟩ := List.map_eq_singleton_iff.mp methods
      obtain ⟨member, rfl, rfl⟩ := List.map_eq_singleton_iff.mp one
      cases member with
      | referenced label typeName offset => cases first
      | declared label signature =>
          cases first
          simp [Document.interface, table, shape, noInit, ActorType.methods, Member.method, bind,
            Except.bind, pure, Except.pure]

/-- A service with the written form of a method, which has no service types, has this method. -/
theorem parse_service {name : Text} {form : LabelForm} (spelt : Form form.kind name)
    {signature : Derivation (.nonterminal .signature)}
    (prints : signature.PrintsAs signature.record.render) :
    parse ("service : \x7b ".toList ++ (name ++ " : ".toList ++ signature.record.render) ++
        "; \x7d".toList) =
      .ok ⟨[.ofSignature name signature.record], [], []⟩ := by
  have closing := spells_of_glue [.mark .semicolon ';', .blank, .mark .rightBrace '}']
    (by decide) []
  have type := (prints _ (apart_cons (by decide) (by decide) _)).append closing
  have separated := (spells_of_glue [.blank, .mark .colon ':', .blank] (by decide) _).append
    type
  have method := spelt.prints.append (apart_cons (by decide) (by decide) _) separated
  have body := (spells_of_glue [.blank, .mark .colon ':', .blank, .mark .leftBrace '{',
    .blank] (by decide) _).append method
  have whole := (form_reserved .serviceWord).prints.append
    (apart_cons (by decide) (by decide) _) body
  let tree := serviceTree (.bare form.kind name) rfl signature
  have spells : Spells ("service : \x7b ".toList ++ (name ++ " : ".toList ++
      signature.record.render) ++ "; \x7d".toList) [] (tree.yield.map Token.spelt) := by
    have front : "service : \x7b ".toList = Reserved.serviceWord.text ++
        spelling [.blank, .mark .colon ':', .blank, .mark .leftBrace '{', .blank] := by decide
    have colon : " : ".toList = spelling [.blank, .mark .colon ':', .blank] := by decide
    have behind : "; \x7d".toList =
        spelling [.mark .semicolon ';', .blank, .mark .rightBrace '}'] := by decide
    refine whole.of_eq ?_ ?_
    · rw [front, colon, behind]
      simp only [List.append_assoc]
    · simp [tree, serviceTree, Derivation.definitionList, Derivation.methodList, speltTokens,
        Token.bare, Token.spelt]
  obtain ⟨document, read, record⟩ := exists_document_of_spells spells
  rw [parse, read]
  exact interface_of_method record

/-- The document of an accepted source is written in its tokens, and these are spelt as tokens are. -/
theorem exists_document_of_parse {source : Text} {interface : Interface}
    (accepted : parse source = .ok interface) :
    ∃ document, (tokenStream source).document = .ok document ∧
      document.interface = .ok interface ∧ document.WrittenIn (tokenStream source).tokens := by
  obtain ⟨document, derived, declared⟩ := bind_eq_ok.mp accepted
  exact ⟨document, derived, declared, written_of_document derived⟩

/-- Canonical texts are fixed points of reading. For every accepted source the text of an alias, whose
type has no service type in it, declares exactly the alias with this text; and the written form of a
method, whose name can stand as a label and whose arguments and results have no service type in them,
declares exactly this method. -/
theorem parse_canonical {source : Text} {interface : Interface}
    (accepted : parse source = .ok interface) :
    ∃ document, (tokenStream source).document = .ok document ∧
      interface.aliases =
        document.definitions.map (fun definition => (definition.name, definition.type.render)) ∧
      interface.methods = document.signatures.map methodOf ∧
      (∀ definition ∈ document.definitions, definition.type.hasService = false →
        parse ("type ".toList ++ definition.name ++ " = ".toList ++ definition.type.render ++
            ";".toList) =
          .ok ⟨[], [(definition.name, definition.type.render)], []⟩) ∧
      ∀ entry ∈ document.signatures, entry.2.hasService = false → (methodOf entry).Writable →
        parse ("service : \x7b ".toList ++ (methodOf entry).signature ++ "; \x7d".toList) =
          .ok ⟨[(methodOf entry).unnamed], [], []⟩ := by
  obtain ⟨document, derived, declared, written⟩ := exists_document_of_parse accepted
  obtain ⟨aliases, methods⟩ := eq_map_of_interface declared
  have spelt : ∀ token ∈ (tokenStream source).tokens, Form token.kind token.text :=
    fun token member => form_of_tokenStream member
  refine ⟨document, derived, aliases, methods, ?_, ?_⟩
  · intro definition member free
    obtain ⟨⟨token, inside, identifier, same, _⟩, typeWritten⟩ := written.definition member
    have name := spelt token inside
    rw [identifier, same] at name
    obtain ⟨tree, text, canonical⟩ := definition.type.exists_canonical spelt typeWritten free
    obtain ⟨row, spelling, stand, plain, tokens⟩ :=
      canonical [';'] (apart_cons (by decide) (by decide) [])
    have read := Alias.parse_definition name ⟨row, spelling.symm, stand, plain, tokens⟩
    rwa [text] at read
  · rintro ⟨label, signature⟩ member free writable
    obtain ⟨bare, form, nameSpelt⟩ := writable.exists_form
    obtain ⟨tree, record, prints⟩ := signature.written.exists_canonical spelt
      (written.signature member).written (signature.hasService_written.trans free)
    have read := parse_service nameSpelt prints
    rw [record, ← typeText_ofSignature label signature, methodOf, Method.ofSignature,
      ofSignature_written label signature bare] at read
    exact read

end Service

section Example

private def querySource : List Lexeme :=
  [.word "type".toList, .blank, .word "a".toList, .blank, .mark .equals '=', .blank,
    .word "opt".toList, .mark .leftAngle '<', .word "nat".toList, .mark .rightAngle '>',
    .mark .semicolon ';', .blank, .word "service".toList, .blank, .mark .colon ':', .blank,
    .mark .leftBrace '{', .blank, ⟨.token .text, "\"f\"".toList⟩, .blank, .mark .colon ':', .blank,
    .mark .leftParen '(', .word "x".toList, .mark .colon ':', .blank, .word "a".toList,
    .mark .rightParen ')', .blank, .arrow, .blank, .mark .leftParen '(', .word "record".toList,
    .mark .leftBrace '{', ⟨.token .number, "0".toList⟩, .mark .colon ':', .word "a".toList,
    .mark .semicolon ';', .mark .rightBrace '}', .mark .rightParen ')', .blank,
    .word "query".toList, .mark .semicolon ';', .blank, .mark .rightBrace '}']

private def optionDefinition : Definition := ⟨"a".toList, .opt (.name "nat".toList), 5⟩

private def querySignature : Signature :=
  .mk [.mk (some "x".toList) (.name "a".toList)]
    [.mk none (.record [.mk (some "0".toList) (.name "a".toList)])] [.query]

private theorem document_querySource : (tokenStream (spelling querySource)).document =
    .ok ⟨[.definition optionDefinition],
      some ⟨[], .body [.declared "\"f\"".toList querySignature]⟩⟩ := by
  rw [tokenStream_spelling_of_legal querySource (by decide +kernel) (by decide)]
  rfl

/-- An option in angle brackets and a query with a named argument are read again from their texts. -/
theorem parse_canonical_of_query :
    let query (name : Option Text) : Method :=
      ⟨"f".toList, .annotated .query, ["a".toList], ["record \x7b 0 : a \x7d".toList], [name]⟩
    parse "type a = opt<nat>; service : \x7b \"f\" : (x: a) -> (record\x7b0:a;\x7d) query; \x7d".toList =
        .ok ⟨[query (some "x".toList)], [("a".toList, "opt nat".toList)], []⟩ ∧
      (query (some "x".toList)).Writable ∧
      parse ("type ".toList ++ "a".toList ++ " = ".toList ++ "opt nat".toList ++ ";".toList) =
        .ok ⟨[], [("a".toList, "opt nat".toList)], []⟩ ∧
      parse ("service : \x7b ".toList ++ (query (some "x".toList)).signature ++ "; \x7d".toList) =
        .ok ⟨[query none], [], []⟩ := by
  intro query
  have source : "type a = opt<nat>; service : \x7b \"f\" : (x: a) -> (record\x7b0:a;\x7d) query; \x7d".toList =
      spelling querySource := by decide +kernel
  have render : optionDefinition.type.render = "opt nat".toList := by decide +kernel
  have method : methodOf ("\"f\"".toList, querySignature) = query (some "x".toList) := by
    decide +kernel
  have writable : (query (some "x".toList)).Writable := .inl (@Form.word 'f' [] (by decide) (by simp))
  have accepted : parse (spelling querySource) =
      .ok ⟨[query (some "x".toList)], [("a".toList, "opt nat".toList)], []⟩ := by
    rw [parse, document_querySource, ← render, ← method]
    rfl
  obtain ⟨document, derived, _, _, types, methods⟩ := parse_canonical accepted
  cases derived.symm.trans document_querySource
  have option := types optionDefinition List.mem_cons_self rfl
  have service := methods ("\"f\"".toList, querySignature) List.mem_cons_self rfl
    (by rw [method]; exact writable)
  rw [render] at option
  rw [method] at service
  rw [source]
  exact ⟨accepted, writable, option, service⟩

end Example

end Candid.Idl
