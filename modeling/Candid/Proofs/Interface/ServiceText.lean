import Candid.Proofs.Interface.FixedPoint
import Candid.Proofs.Interface.Located

/-!
# The text of a service type

The canonical text of a service type is not read again, unless it has no methods. Its methods stand
between semicolons and none is behind the last, where the grammar has one behind each; and a method with
a function type of its own has the word `func` in front of its arguments, where the grammar has none.
-/

set_option autoImplicit false

namespace Candid.Idl

section Refused

/-- A token list that is spelt with a first token begins with it, at some place. -/
theorem eq_cons_of_spelt {kind : TokenKind} {text : Text} {spelt : List (TokenKind × Text)}
    {taken : List Token} (same : taken.map Token.spelt = (kind, text) :: spelt) :
    ∃ line offset rest, taken = ⟨kind, text, line, offset⟩ :: rest ∧ rest.map Token.spelt = spelt := by
  obtain ⟨⟨_, _, line, offset⟩, rest, rfl, first, others⟩ := List.map_eq_cons_iff.mp same
  cases first
  exact ⟨line, offset, rest, rfl, others⟩

/-- No reader of methods gets through these tokens, whatever stands behind them: it stops at a token. -/
def Refused (spelt : List (TokenKind × Text)) : Prop :=
  ∀ (fuel : Nat) (taken more : List Token), taken.map Token.spelt = spelt →
    ∃ token unread, readMembers fuel (taken ++ more) = .error (token :: unread)

variable {form : LabelForm} {label typeName : Text}

def labelTokens (form : LabelForm) (label : Text) : List (TokenKind × Text) :=
  [(form.kind, label), (.colon, [':'])]

/-- Behind a label and its colon the reader goes on with the method's type. -/
theorem refused_of_step {behind : List (TokenKind × Text)}
    (refused : ∀ (fuel : Nat) (taken more : List Token), taken.map Token.spelt = behind →
      ∃ token unread, (do
        let (member, rest) ← (match taken ++ more with
          | ⟨.identifier, typeName, _, offset⟩ :: rest =>
            Except.ok (Member.referenced label typeName offset, rest)
          | _ => do
            let (signature, rest) ← readSignature fuel (taken ++ more)
            pure (Member.declared label signature, rest))
        let rest ← expect .semicolon rest
        let (others, rest) ← readMembers fuel rest
        pure (member :: others, rest)) = Except.error (token :: unread)) :
    Refused (labelTokens form label ++ behind) := by
  intro fuel taken more spelt
  obtain ⟨line, offset, colons, rfl, colonSpelt⟩ := eq_cons_of_spelt spelt
  obtain ⟨colonLine, colonOffset, others, rfl, othersSpelt⟩ := eq_cons_of_spelt colonSpelt
  cases fuel with
  | zero => exact ⟨_, _, rfl⟩
  | succ fuel =>
      obtain ⟨token, unread, stops⟩ := refused fuel others more othersSpelt
      refine ⟨token, unread, ?_⟩
      rw [← stops]
      cases form <;> rfl

theorem refused_of_func {rest : List (TokenKind × Text)} (word : Text) :
    Refused (labelTokens form label ++ (.reserved .funcWord, word) :: rest) := by
  refine refused_of_step fun fuel taken more spelt => ?_
  obtain ⟨line, offset, others, rfl, _⟩ := eq_cons_of_spelt spelt
  refine ⟨⟨.reserved .funcWord, word, line, offset⟩, others ++ more, ?_⟩
  cases fuel <;> rfl

theorem refused_of_last (closing : Text) :
    Refused (labelTokens form label ++ [(.identifier, typeName), (.rightBrace, closing)]) := by
  refine refused_of_step fun fuel taken more spelt => ?_
  obtain ⟨line, offset, others, rfl, last⟩ := eq_cons_of_spelt spelt
  obtain ⟨markLine, markOffset, rest, rfl, _⟩ := eq_cons_of_spelt last
  exact ⟨⟨.rightBrace, closing, markLine, markOffset⟩, rest ++ more, rfl⟩

theorem Refused.further {spelt : List (TokenKind × Text)} (refused : Refused spelt)
    (separator : Text) :
    Refused (labelTokens form label ++ (.identifier, typeName) :: (.semicolon, separator) :: spelt) := by
  refine refused_of_step fun fuel taken more whole => ?_
  obtain ⟨line, offset, others, rfl, behind⟩ := eq_cons_of_spelt whole
  obtain ⟨markLine, markOffset, rest, rfl, last⟩ := eq_cons_of_spelt behind
  obtain ⟨token, unread, stops⟩ := refused fuel rest more last
  refine ⟨token, unread, ?_⟩
  simp [bind, Except.bind, stops]

end Refused

section Members

/-- The names of the methods with function types of their own can stand as labels. -/
def WritableMembers (members : List Member) : Prop :=
  ∀ label signature, Member.declared label signature ∈ members →
    (methodOf (label, signature)).Writable

theorem exists_memberTexts_cons (member : Member) (members : List Member) :
    ∃ text, memberTexts (member :: members) = text :: memberTexts members := by
  cases member with
  | declared label signature => exact ⟨_, rfl⟩
  | referenced label typeName offset => exact ⟨_, rfl⟩

theorem exists_joined_cons (separator first : Text) (others : List Text) :
    ∃ tail, Text.joined separator (first :: others) = first ++ tail := by
  cases others with
  | nil => exact ⟨[], by simp⟩
  | cons second others => exact ⟨_, Text.joined_cons separator first second others⟩

variable {all : List Token} {rest : Text}

theorem LabelIn.exists_form (spelt : ∀ token ∈ all, Form token.kind token.text) {label : Text}
    (written : LabelIn all label) : ∃ form : LabelForm, Form form.kind label := by
  obtain ⟨token, member, ⟨form, kind⟩, rfl⟩ := written
  exact ⟨form, kind ▸ spelt token member⟩

theorem spells_label {form : LabelForm} {label text : Text} (spelt : Form form.kind label)
    {tokens : List (TokenKind × Text)} (behind : Spells text rest tokens) :
    Spells (label ++ (" : ".toList ++ text)) rest (labelTokens form label ++ tokens) := by
  have colon : " : ".toList = spelling [.blank, .mark .colon ':', .blank] := by decide
  rw [colon]
  have separated := (spells_of_glue [.blank, .mark .colon ':', .blank] (by decide) _).append
    behind
  exact (spelt.prints.append (apart_cons (by decide) (by decide) _) separated).of_eq rfl rfl

theorem exists_refused_of_declared {label : Text} {signature : Signature}
    (writable : (methodOf (label, signature)).Writable) (rest : Text) :
    ∃ front behind tokens, methodText (.ofSignature label signature.toText) ++ rest =
      front ++ behind ∧ Spells front behind tokens ∧ Refused tokens := by
  obtain ⟨_, form, spelt⟩ := writable.exists_form
  have func : " : func ".toList = " : ".toList ++ (Reserved.funcWord.text ++ [' ']) := by decide
  let method := Method.ofSignature label signature.toText
  refine ⟨label.unquoted ++ (" : ".toList ++ Reserved.funcWord.text),
    ' ' :: (behindFirst " : ".toList method.signature ++ rest), labelTokens form label.unquoted ++
      [(.reserved .funcWord, Reserved.funcWord.text)], ?_, ?_, refused_of_func _⟩
  · have shape : methodText method = label.unquoted ++ " : func ".toList ++
        behindFirst " : ".toList method.signature := rfl
    rw [shape, func]
    simp only [List.append_assoc, List.cons_append, List.nil_append]
  · exact spells_label spelt ((form_reserved .funcWord).prints _
      (apart_cons (by decide) (by decide) _))

theorem render_service {members : List Member} (nonempty : members ≠ []) :
    (Datatype.service members).render = Reserved.serviceWord.text ++
      (spelling [.blank, .mark .leftBrace '{', .blank] ++
        (Text.joined "; ".toList (memberTexts members) ++ " \x7d".toList)) := by
  have opening : "service".toList ++ " \x7b ".toList =
      Reserved.serviceWord.text ++ spelling [.blank, .mark .leftBrace '{', .blank] := by decide
  cases members with
  | nil => exact absurd rfl nonempty
  | cons member members =>
      obtain ⟨text, shape⟩ := exists_memberTexts_cons member members
      have body : (Datatype.service (member :: members)).render =
          Text.braced "service".toList (text :: memberTexts members) := shape ▸ rfl
      have parts := congrArg (· ++ (Text.joined "; ".toList (text :: memberTexts members) ++
        " \x7d".toList)) opening
      simpa only [body, shape, Text.braced, List.isEmpty_cons, Bool.false_eq_true, ↓reduceIte,
        List.append_assoc] using parts

/-- A front of the methods in the text of a service type is refused. -/
theorem exists_refused (spelt : ∀ token ∈ all, Form token.kind token.text)
    {members : List Member} (nonempty : members ≠ []) (written : MembersWrittenIn all members)
    (writable : WritableMembers members) (rest : Text) :
    ∃ front behind tokens,
      Text.joined "; ".toList (memberTexts members) ++ (" \x7d".toList ++ rest) = front ++ behind ∧
        Spells front behind tokens ∧ Refused tokens := by
  induction members with
  | nil => exact absurd rfl nonempty
  | cons member members ih =>
      cases member with
      | declared label signature =>
          obtain ⟨tail, shape⟩ := exists_joined_cons "; ".toList
            (methodText (.ofSignature label signature.toText)) (memberTexts members)
          obtain ⟨front, behind, tokens, cut, stops⟩ := exists_refused_of_declared
            (writable label signature List.mem_cons_self) (tail ++ (" \x7d".toList ++ rest))
          refine ⟨front, behind, tokens, ?_, stops⟩
          rw [memberTexts, shape, List.append_assoc, cut]
      | referenced label typeName offset =>
          obtain ⟨labelWritten, typeWritten, othersWritten⟩ := written
          obtain ⟨form, labelSpelt⟩ := labelWritten.exists_form spelt
          have name := typeWritten.form spelt
          cases members with
          | nil =>
              have closing : " \x7d".toList = spelling [.blank, .mark .rightBrace '}'] := by decide
              have ended := name.prints.append (apart_cons (by decide) (by decide) _)
                (spells_of_glue [.blank, .mark .rightBrace '}'] (by decide) rest)
              refine ⟨_, rest, _, ?_, spells_label labelSpelt ended, refused_of_last _⟩
              rw [closing]
              simp [memberTexts]
          | cons second others =>
              obtain ⟨front, behind, tokens, cut, spells, refused⟩ :=
                ih (by simp) othersWritten fun label signature member =>
                  writable label signature (List.mem_cons_of_mem _ member)
              have semicolon : "; ".toList = spelling [.mark .semicolon ';', .blank] := by decide
              have further := name.prints.append (apart_cons (by decide) (by decide) _)
                ((spells_of_glue [.mark .semicolon ';', .blank] (by decide) _).append spells)
              refine ⟨_, behind, _, ?_, spells_label labelSpelt further, refused.further _⟩
              obtain ⟨text, shape⟩ := exists_memberTexts_cons second others
              rw [memberTexts, shape, Text.joined_cons, ← shape]
              simp only [List.append_assoc, cut, ← semicolon]

end Members

section Definitions

def Definition.declaration (definition : Definition) : Text :=
  "type ".toList ++ definition.name ++ " = ".toList ++ definition.type.render ++ ";".toList

def declarationsText (definitions : List Definition) : Text :=
  definitions.flatMap fun definition => definition.declaration ++ [' ']

variable {all : List Token}

def nameTokens (name : Text) : List (TokenKind × Text) :=
  [(.reserved .typeWord, Reserved.typeWord.text), (.identifier, name), (.equals, ['='])]

theorem spells_definition {name text rest : Text} (identifier : Form .identifier name)
    {tokens : List (TokenKind × Text)} (behind : Spells text rest tokens) :
    Spells ("type ".toList ++ name ++ " = ".toList ++ text) rest (nameTokens name ++ tokens) := by
  have keyword : "type ".toList = Reserved.typeWord.text ++ spelling [.blank] := by decide
  have sign : " = ".toList = spelling [.blank, .mark .equals '=', .blank] := by decide
  have type := (spells_of_glue [.blank, .mark .equals '=', .blank] (by decide) _).append
    behind
  have named := (spells_of_glue [.blank] (by decide) _).append
    (identifier.prints.append (apart_cons (by decide) (by decide) _) type)
  have whole := (form_reserved .typeWord).prints.append (apart_cons (by decide) (by decide) _) named
  refine whole.of_eq ?_ rfl
  rw [keyword, sign]
  simp only [List.append_assoc]

theorem exists_declaration (spelt : ∀ token ∈ all, Form token.kind token.text)
    {definition : Definition} (written : definition.WrittenIn all)
    (free : definition.type.hasService = false) :
    ∃ item : Derivation (.nonterminal .definition),
      ∀ rest, Spells definition.declaration rest (item.yield.map Token.spelt) := by
  obtain ⟨type, text, canonical⟩ := definition.type.exists_canonical spelt written.2 free
  refine ⟨.node .typeDefinition (.cons (.keyword .typeWord)
    (.cons (.bare .identifier definition.name) (.cons (.bare .equals ['='])
      (.cons type (.cons (.bare .semicolon [';']) .nil))))), fun rest => ?_⟩
  have ended := (canonical _ (apart_cons (by decide) (by decide) _)).append
    (spells_of_glue [.mark .semicolon ';'] (by decide) rest)
  have whole := spells_definition (written.1.form spelt) ended
  have semicolon : ";".toList = spelling [.mark .semicolon ';'] := by decide
  rw [text, ← semicolon, ← List.append_assoc] at whole
  refine whole.of_eq rfl ?_
  · simp [nameTokens, speltTokens, Token.bare, Token.spelt]

theorem exists_declarations (spelt : ∀ token ∈ all, Form token.kind token.text)
    {definitions : List Definition} (written : ∀ definition ∈ definitions, definition.WrittenIn all)
    (free : ∀ definition ∈ definitions, definition.type.hasService = false) :
    ∃ items : List (Derivation (.nonterminal .definition)), ∀ rest,
      Spells (declarationsText definitions) rest
        ((Derivation.definitionList items).yield.map Token.spelt) := by
  induction definitions with
  | nil => exact ⟨[], fun rest => Spells.nil rest⟩
  | cons definition definitions ih =>
      obtain ⟨items, others⟩ := ih (fun other member => written other (List.mem_cons_of_mem _ member))
        fun other member => free other (List.mem_cons_of_mem _ member)
      obtain ⟨item, first⟩ := exists_declaration spelt (written definition List.mem_cons_self)
        (free definition List.mem_cons_self)
      refine ⟨item :: items, fun rest => ?_⟩
      have blank := (spells_of_glue [.blank] (by decide) _).append (others rest)
      refine ((first _).append blank).of_eq ?_ ?_
      · simp [declarationsText]
      · simp [Derivation.yield_definitionList, speltTokens]

end Definitions

section Refusal

def serviceTokens (name : Text) : List (TokenKind × Text) :=
  nameTokens name ++ [(.reserved .serviceWord, Reserved.serviceWord.text), (.leftBrace, ['{'])]

/-- The reader of entries stops in a service type whose methods are refused. -/
theorem readEntries_refused {name : Text} {spelt : List (TokenKind × Text)} (refused : Refused spelt)
    {taken : List Token} (same : taken.map Token.spelt = serviceTokens name ++ spelt) (fuel : Nat)
    (more : List Token) :
    ∃ token unread, (readEntries (fuel + 2) (taken ++ more)).behind = .error (token :: unread) := by
  obtain ⟨_, _, _, rfl, named⟩ := eq_cons_of_spelt same
  obtain ⟨_, _, _, rfl, signed⟩ := eq_cons_of_spelt named
  obtain ⟨_, _, _, rfl, typed⟩ := eq_cons_of_spelt signed
  obtain ⟨_, _, _, rfl, opened⟩ := eq_cons_of_spelt typed
  obtain ⟨_, _, members, rfl, membersSpelt⟩ := eq_cons_of_spelt opened
  obtain ⟨token, unread, stops⟩ := refused fuel members more membersSpelt
  refine ⟨token, unread, ?_⟩
  simp only [readEntries, readEntry?, expect_self, readDatatype, bind, Except.bind,
    List.cons_append, stops]

theorem document_of_error {stream : TokenStream} {token : Token} {unread : List Token}
    (read : readDocument (fuelFor stream.tokens) stream.tokens = .error (token :: unread)) :
    stream.document = .error (.unexpectedToken token) := by
  rw [TokenStream.document, read]

/-- Behind definitions a service type whose methods are refused makes the source fail at a token. -/
theorem parse_refused {definitions : Derivation (.nonterminal .definitions)} {name : Text}
    {front behind : Text} {spelt : List (TokenKind × Text)} (refused : Refused spelt)
    (spells : Spells front behind
      (definitions.yield.map Token.spelt ++ (serviceTokens name ++ spelt))) :
    ∃ token, parse (front ++ behind) = .error (.unexpectedToken token) := by
  obtain ⟨taken, more, cut, same⟩ := exists_front_of_spells spells
  obtain ⟨first, second, rfl, firstSpelt, secondSpelt⟩ := List.map_eq_append_iff.mp same
  obtain ⟨other, rfl, _⟩ := definitions.respells first firstSpelt
  have nonempty : 1 ≤ second.length := by
    have lengths := congrArg List.length secondSpelt
    simp only [List.length_map, List.length_append, serviceTokens, nameTokens,
      List.length_cons] at lengths
    omega
  rw [List.append_assoc] at cut
  obtain ⟨entries, left, spare, _, read⟩ := other.readsDocument
    (fuelFor (other.yield ++ (second ++ more))) (second ++ more) (by simp only [fuelFor]; omega)
  rw [List.length_append] at spare
  obtain ⟨fuel, rfl⟩ : ∃ fuel, left = fuel + 2 := ⟨left - 2, by omega⟩
  obtain ⟨token, unread, stops⟩ := readEntries_refused refused secondSpelt fuel more
  have failed : readDocument (fuelFor (other.yield ++ (second ++ more)))
      (other.yield ++ (second ++ more)) = .error (token :: unread) := by
    rw [readDocument, read, stops]
    rfl
  rw [← cut] at failed
  refine ⟨token, ?_⟩
  rw [parse, document_of_error failed]
  rfl

end Refusal

section Empty

def emptyServiceTree (name : Text) : Derivation (.nonterminal .interface) :=
  let word : Derivation (.word .serviceWord) :=
    .keyword .serviceWord
  let identifier : Derivation (.terminal .identifier) := .bare .identifier name
  let body : Derivation (.nonterminal .serviceBody) :=
    .node .serviceBody (.cons (.bare .leftBrace ['{'])
      (.cons (Derivation.methodList []) (.cons (.bare .rightBrace ['}']) .nil)))
  let definition : Derivation (.nonterminal .definition) :=
    .node .typeDefinition (.cons (.keyword .typeWord)
      (.cons identifier (.cons (.bare .equals ['='])
        (.cons (.node .serviceType (.cons word (.cons body .nil)))
          (.cons (.bare .semicolon [';']) .nil)))))
  let actor : Derivation (.nonterminal .actor) :=
    .node .anonymousActor (.cons word (.cons (.bare .colon [':'])
      (.cons (.node .actorName (.cons identifier .nil)) .nil)))
  .node .interface (.cons (Derivation.definitionList [definition])
    (.cons (.node .actorBare (.cons actor .nil)) .nil))

theorem interface_of_emptyService {document : Document} {name text : Text}
    (record : unplacedValue .interface document.node =
      (⟨[⟨name, ⟨text, none, some []⟩, 0⟩], some ⟨[], .named name⟩⟩ : DocumentNode)) :
    document.interface = .ok ⟨[], [(name, text)], []⟩ := by
  have nodes : document.definitions.map (fun definition => definition.node.unplaced) =
      [⟨name, ⟨text, none, some []⟩, 0⟩] := by
    have listed : document.node.definitions.map (·.unplaced) =
        [⟨name, ⟨text, none, some []⟩, 0⟩] := congrArg DocumentNode.definitions record
    simpa [document.node_definitions] using listed
  obtain ⟨⟨other, type, offset⟩, one, node⟩ := List.map_eq_singleton_iff.mp nodes
  obtain rfl : other = name := congrArg DefinitionNode.name node
  have typeNode : type.node.unplaced = ⟨text, none, some []⟩ := congrArg DefinitionNode.type node
  obtain ⟨members, rfl, none⟩ : ∃ members, type = .service members ∧ members = [] := by
    have methods : type.node.methods.map (·.map MethodNode.unplaced) = some [] :=
      congrArg TypeNode.methods typeNode
    cases type with
    | service members => exact ⟨members, rfl, by simpa [Datatype.node] using methods⟩
    | _ => cases methods
  subst none
  obtain rfl : (Datatype.service []).render = text := congrArg TypeNode.text typeNode
  have actor : (document.actor.map (·.node)).map (·.unplaced) = some ⟨[], .named other⟩ :=
    congrArg DocumentNode.actor record
  obtain ⟨_, present, unplaced⟩ := Option.map_eq_some_iff.mp actor
  obtain ⟨⟨init, service⟩, shape, rfl⟩ := Option.map_eq_some_iff.mp present
  have noInit : fieldTexts init = [] := congrArg ActorNode.init unplaced
  have table : typeTable [] document.definitions = .ok [(other, .service [])] := by
    rw [one]
    rfl
  cases service with
  | body members => cases congrArg ActorNode.service unplaced
  | named found =>
      obtain rfl : found = other := ServiceNode.named.inj (congrArg ActorNode.service unplaced)
      simp [Document.interface, table, shape, noInit, ActorType.methods,
        Dictionary.find?_cons_self, bind, Except.bind, pure, Except.pure]

theorem parse_emptyService {name : Text} (identifier : Form .identifier name) :
    parse ("type ".toList ++ name ++ " = ".toList ++ (Datatype.service []).render ++
        "; service : ".toList ++ name) =
      .ok ⟨[], [(name, (Datatype.service []).render)], []⟩ := by
  have actor : "; service : ".toList = spelling [.mark .semicolon ';', .blank] ++
      (Reserved.serviceWord.text ++ spelling [.blank, .mark .colon ':', .blank]) := by decide
  have type : (Datatype.service []).render = Reserved.serviceWord.text ++
      spelling [.blank, .mark .leftBrace '{', .mark .rightBrace '}'] := by decide
  have ended := identifier.prints [] (by simp [Apart])
  have service := (form_reserved .serviceWord).prints.append (apart_cons (by decide) (by decide) _)
    ((spells_of_glue [.blank, .mark .colon ':', .blank] (by decide) _).append ended)
  have behind := (spells_of_glue [.mark .semicolon ';', .blank] (by decide) _).append service
  have body := (spells_of_glue [.blank, .mark .leftBrace '{', .mark .rightBrace '}']
    (by decide) _).append behind
  have whole := spells_definition identifier
    ((form_reserved .serviceWord).prints.append (apart_cons (by decide) (by decide) _) body)
  have spells : Spells ("type ".toList ++ name ++ " = ".toList ++ (Datatype.service []).render ++
      "; service : ".toList ++ name) [] ((emptyServiceTree name).yield.map Token.spelt) := by
    refine whole.of_eq ?_ ?_
    · rw [type, actor]
      simp only [List.append_assoc]
    · simp [emptyServiceTree, Derivation.definitionList, Derivation.methodList, nameTokens,
        speltTokens, Token.bare, Token.spelt]
  obtain ⟨document, read, record⟩ := exists_document_of_spells spells
  rw [parse, read]
  exact interface_of_emptyService record

end Empty

/-- The canonical text of a service type is read again only if it has no methods. With methods, whose
own names can stand as labels, the source that declares the type by its text and a service of it is
refused at a token, also behind the declarations of other types of the document, such as the function
types that its methods refer to. -/
theorem parse_service_text {source : Text} {interface : Interface}
    (accepted : parse source = .ok interface) :
    ∃ document, (tokenStream source).document = .ok document ∧
      interface.aliases =
        document.definitions.map (fun definition => (definition.name, definition.type.render)) ∧
      ∀ definition ∈ document.definitions, ∀ members, definition.type = .service members →
        (members = [] →
          parse ("type ".toList ++ definition.name ++ " = ".toList ++ definition.type.render ++
              "; service : ".toList ++ definition.name) =
            .ok ⟨[], [(definition.name, definition.type.render)], []⟩) ∧
        (members ≠ [] → WritableMembers members →
          ∀ others : List Definition,
            (∀ other ∈ others, other ∈ document.definitions ∧ other.type.hasService = false) →
            ∃ token, parse (declarationsText others ++ ("type ".toList ++ definition.name ++
                " = ".toList ++ definition.type.render ++ "; service : ".toList ++
                definition.name)) = .error (.unexpectedToken token)) := by
  obtain ⟨document, derived, declared, written⟩ := exists_document_of_parse accepted
  have spelt : ∀ token ∈ (tokenStream source).tokens, Form token.kind token.text :=
    fun token member => form_of_tokenStream member
  refine ⟨document, derived, (eq_map_of_interface declared).1, ?_⟩
  rintro ⟨name, _, offset⟩ member members rfl
  obtain ⟨named, membersWritten⟩ := written.definition member
  have identifier := named.form spelt
  refine ⟨?_, ?_⟩
  · rintro rfl
    exact parse_emptyService identifier
  · intro nonempty writable others each
    obtain ⟨items, prefixSpells⟩ := exists_declarations spelt
      (fun other member => written.definition (each other member).1)
      (fun other member => (each other member).2)
    obtain ⟨front, behind, tokens, cut, frontSpells, refused⟩ :=
      exists_refused spelt nonempty membersWritten writable ("; service : ".toList ++ name)
    have opening : Spells (Reserved.serviceWord.text ++
        (spelling [.blank, .mark .leftBrace '{', .blank] ++ front)) behind
        ([(.reserved .serviceWord, Reserved.serviceWord.text)] ++ ([(.leftBrace, ['{'])] ++ tokens)) :=
      (form_reserved .serviceWord).prints.append (apart_cons (by decide) (by decide) _)
        ((spells_of_glue _ (by decide) _).append frontSpells)
    have whole := (prefixSpells _).append (spells_definition identifier opening)
    have refusal : Spells _ behind ((Derivation.definitionList items).yield.map Token.spelt ++
        (serviceTokens name ++ tokens)) := whole.of_eq rfl (by simp [serviceTokens])
    obtain ⟨token, stops⟩ := parse_refused refused refusal
    refine ⟨token, ?_⟩
    rw [← stops, render_service nonempty]
    simp only [List.append_assoc, ← cut]

section Example

private def serviceOf (methods : List Lexeme) : List Lexeme :=
  let front : List Lexeme :=
    [.word "type".toList, .blank, .word "S".toList, .blank, .mark .equals '=', .blank,
      .word "service".toList, .blank, .mark .leftBrace '{', .blank]
  let behind : List Lexeme :=
    [.blank, .mark .rightBrace '}', .mark .semicolon ';', .blank, .word "service".toList, .blank,
      .mark .colon ':', .blank, .word "S".toList]
  front ++ (methods ++ behind)

private def emptyFunction : List Lexeme :=
  [.mark .leftParen '(', .mark .rightParen ')', .blank, .arrow, .blank, .mark .leftParen '(',
    .mark .rightParen ')']

private def methodName (name : Text) : List Lexeme :=
  [.word name, .blank, .mark .colon ':', .blank]

/-- The lexemes of a function type `F`, of a service type with a method of this type and one of its own,
and of a service of the service type. -/
private def referringSource : List Lexeme :=
  let function : List Lexeme :=
    [.word "type".toList, .blank, .word "F".toList, .blank, .mark .equals '=', .blank,
      .word "func".toList, .blank]
  let reference : List Lexeme := [.word "F".toList, .mark .semicolon ';', .blank]
  let separator : List Lexeme := [.mark .semicolon ';', .blank]
  let ending : List Lexeme := [.mark .semicolon ';']
  function ++ (emptyFunction ++ (separator ++ serviceOf (methodName "f".toList ++ (reference ++
    (methodName "g".toList ++ (emptyFunction ++ ending))))))

private def functionDefinition : Definition := ⟨"F".toList, .func (.mk [] [] []), 5⟩

private def serviceMembers : List Member :=
  [.referenced "f".toList "F".toList 47, .declared "g".toList (.mk [] [] [])]

private def serviceDefinition : Definition := ⟨"S".toList, .service serviceMembers, 29⟩

private theorem document_referringSource : (tokenStream (spelling referringSource)).document =
    .ok ⟨[.definition functionDefinition, .definition serviceDefinition],
      some ⟨[], .named "S".toList⟩⟩ := by
  rw [tokenStream_spelling_of_legal referringSource (by decide +kernel) (by decide)]
  rfl

private theorem writable_serviceMembers : WritableMembers serviceMembers := by
  intro label signature member
  simp only [serviceMembers, List.mem_cons, reduceCtorEq, List.not_mem_nil, or_false,
    false_or] at member
  cases member
  exact .inl (@Form.word 'g' [] (by decide) (by simp))

/-- The text of a service type with a method of its own is refused behind the function type to which
another method refers. -/
theorem parse_service_text_of_reference :
    let text := "service \x7b f : F; g : func () -> () \x7d".toList
    (∃ methods, parse (spelling referringSource) =
        .ok ⟨methods, [("F".toList, "func () -> ()".toList), ("S".toList, text)], []⟩) ∧
      serviceMembers ≠ [] ∧ WritableMembers serviceMembers ∧
      ∃ token, parse ("type F = func () -> (); ".toList ++ ("type ".toList ++ "S".toList ++
          " = ".toList ++ text ++ "; service : ".toList ++ "S".toList)) =
        .error (.unexpectedToken token) := by
  intro text
  have render : serviceDefinition.type.render = text := by decide +kernel
  have function : declarationsText [functionDefinition] = "type F = func () -> (); ".toList := by
    decide +kernel
  have accepted : ∃ methods, parse (spelling referringSource) =
      .ok ⟨methods, [("F".toList, "func () -> ()".toList), ("S".toList, text)], []⟩ := by
    refine ⟨[⟨"f".toList, .update, [], [], []⟩, ⟨"g".toList, .update, [], [], []⟩], ?_⟩
    rw [parse, document_referringSource]
    rfl
  have nonempty : serviceMembers ≠ [] := List.cons_ne_nil _ _
  refine ⟨accepted, nonempty, writable_serviceMembers, ?_⟩
  obtain ⟨_, source⟩ := accepted
  obtain ⟨document, derived, _, services⟩ := parse_service_text source
  cases derived.symm.trans document_referringSource
  obtain ⟨token, stops⟩ := (services serviceDefinition (.tail _ (.head _)) serviceMembers rfl).2
    nonempty writable_serviceMembers [functionDefinition]
    (List.forall_mem_singleton.mpr ⟨.head _, rfl⟩)
  rw [function, render] at stops
  exact ⟨token, stops⟩

/-- The source with a service type that has one method is accepted, but its canonical text is refused
at the word `func`. -/
theorem parse_service_text_of_method :
    parse "type S = service \x7b f : () -> (); \x7d; service : S".toList =
        .ok ⟨[⟨"f".toList, .update, [], [], []⟩],
          [("S".toList, "service \x7b f : func () -> () \x7d".toList)], []⟩ ∧
      parse ("type ".toList ++ "S".toList ++ " = ".toList ++
          "service \x7b f : func () -> () \x7d".toList ++ "; service : ".toList ++ "S".toList) =
        .error (.unexpectedToken ⟨.reserved .funcWord, "func".toList, 1, 23⟩) := by
  have declared : "type S = service \x7b f : () -> (); \x7d; service : S".toList =
      spelling (serviceOf (methodName "f".toList ++ emptyFunction ++ [.mark .semicolon ';'])) := by
    decide +kernel
  have canonical : "type ".toList ++ "S".toList ++ " = ".toList ++
      "service \x7b f : func () -> () \x7d".toList ++ "; service : ".toList ++ "S".toList =
      spelling (serviceOf (methodName "f".toList ++ [.word "func".toList, .blank] ++
        emptyFunction)) := by
    decide +kernel
  rw [declared, canonical, parse, parse,
    tokenStream_spelling_of_legal _ (by decide +kernel) (by decide +kernel),
    tokenStream_spelling_of_legal _ (by decide +kernel) (by decide +kernel)]
  exact ⟨rfl, rfl⟩

end Example

end Candid.Idl
