import Candid.Proofs.Alias.Declaration
import Candid.Proofs.Grammar.Respelled
import Candid.Proofs.Grammar.TypeTable

/-!
# The two tables of a source

The alias table that is found by scanning and the type table that the grammar gives agree: they have
the same names in the same order, and a scanned expression, read as a definition of its own, has the
canonical text that stands in the type table.
-/

set_option autoImplicit false

namespace Candid.Alias

open Idl

def definitionRow (name : Text) (row : List Lexeme) : List Lexeme :=
  [⟨.token (.reserved .typeWord), "type".toList⟩, ⟨.layout, [' ']⟩, ⟨.token .identifier, name⟩,
    ⟨.layout, [' ']⟩, ⟨.token .equals, ['=']⟩, ⟨.layout, [' ']⟩] ++
    (row ++ [⟨.token .semicolon, [';']⟩])

theorem spelling_definitionRow (name : Text) (row : List Lexeme) :
    spelling (definitionRow name row) =
      "type ".toList ++ name ++ " = ".toList ++ spelling row ++ ";".toList := by
  simp [definitionRow]

theorem stand_definitionRow {name : Text} {row : List Lexeme} (identifier : Form .identifier name)
    (stand : Stand row [';']) : Stand (definitionRow name row) [] := by
  have blank (rest : Text) : Lexeme.Stands ⟨.layout, [' ']⟩ rest := stands_blank (by decide) rest
  have apart (rest : Text) : Apart (' ' :: rest) := apart_cons (by decide) (by decide) rest
  have keyword : Form (.reserved .typeWord) "type".toList :=
    @Form.word 't' "ype".toList (by decide) (List.all_eq_true.mp (by decide))
  have equals : Form .equals ['='] := .mark rfl
  have semicolon : Form .semicolon [';'] := .mark rfl
  rw [definitionRow, stand_append, stand_append]
  simp only [Stand, spelling_cons, spelling_nil, List.cons_append, List.nil_append,
    List.append_nil, and_true]
  exact ⟨⟨keyword.stands ((apart _).bounded _), blank _, identifier.stands ((apart _).bounded _),
    blank _, equals.stands trivial, blank _⟩, stand, semicolon.stands trivial⟩

theorem legal_definitionRow {name : Text} {row : List Lexeme}
    (plain : ∀ lexeme ∈ row, lexeme.Plain) :
    ∀ lexeme ∈ definitionRow name row, lexeme.kind ≠ .illegal := by
  intro lexeme member illegal
  simp only [definitionRow, List.mem_append, List.mem_cons, List.not_mem_nil, or_false] at member
  rcases member with (rfl | rfl | rfl | rfl | rfl | rfl) | inside | rfl
  case inr.inl =>
    rcases plain lexeme inside with ⟨kind, token⟩ | ⟨layout, _⟩
    · rw [token] at illegal
      cases illegal
    · rw [layout] at illegal
      cases illegal
  all_goals cases illegal

theorem tokensOf_definitionRow (name : Text) (row : List Lexeme) :
    ∃ keyword identifier equals semicolon tokens,
      tokensOf 1 0 (definitionRow name row) =
        keyword :: identifier :: equals :: (tokens ++ [semicolon]) ∧
      keyword.kind = .reserved .typeWord ∧ identifier.kind = .identifier ∧
      identifier.text = name ∧ equals.kind = .equals ∧ semicolon.kind = .semicolon ∧
      tokens.map Token.spelt = speltTokens row := by
  have behind (line offset : Nat) : ∃ semicolon tokens,
      tokensOf line offset (row ++ [⟨.token .semicolon, [';']⟩]) = tokens ++ [semicolon] ∧
        semicolon.kind = .semicolon ∧ tokens.map Token.spelt = speltTokens row := by
    rw [tokensOf_append]
    exact ⟨_, _, rfl, rfl, map_spelt_tokensOf line offset row⟩
  simp only [definitionRow, List.cons_append, List.nil_append, tokensOf]
  obtain ⟨semicolon, tokens, shape, ends, spelt⟩ := behind _ _
  rw [shape]
  exact ⟨_, _, _, semicolon, tokens, rfl, rfl, rfl, rfl, rfl, ends, spelt⟩

/-- An expression that holds the tokens of a type, put behind a name as its definition, is read as
one definition with the canonical text of the type. -/
theorem parse_definition {name expression : Text} {type : Derivation (.nonterminal .datatype)}
    (identifier : Form .identifier name) (expresses : Expresses expression type.yield) :
    parse ("type ".toList ++ name ++ " = ".toList ++ expression ++ ";".toList) =
      .ok ⟨[], [(name, type.record.text)], []⟩ := by
  obtain ⟨row, rfl, stand, plain, spelt⟩ := expresses
  rw [← spelling_definitionRow]
  have whole : lexemes (spelling (definitionRow name row)) = definitionRow name row := by
    have cut := lexemes_append (stand_definitionRow identifier stand)
    rw [List.append_nil] at cut
    rw [cut, lexemes, List.append_nil]
  have stream : tokenStream (spelling (definitionRow name row)) =
      ⟨tokensOf 1 0 (definitionRow name row), none⟩ := by
    rw [tokenStream_of_legal, whole]
    rw [whole]
    exact legal_definitionRow plain
  obtain ⟨keyword, nameToken, equals, semicolon, tokens, shape, word, fits, rfl, sign, ends, same⟩ :=
    tokensOf_definitionRow name row
  obtain ⟨other, yields, text⟩ := type.exists_respelled tokens (same.trans spelt)
  let item : Derivation (.nonterminal .definition) :=
    .node .typeDefinition (.cons (.leaf keyword word) (.cons (.leaf nameToken fits)
      (.cons (.leaf equals sign) (.cons other (.cons (.leaf semicolon ends) .nil)))))
  let tree : Derivation (.nonterminal .interface) :=
    .node .interface (.cons (Derivation.definitionList [item])
      (.cons (.node .noActor (.cons (.node .empty .nil) .nil)) .nil))
  have treeYields : tree.yield = tokensOf 1 0 (definitionRow nameToken.text row) := by
    simp [tree, item, Derivation.definitionList, shape, yields]
  obtain ⟨document, read, record⟩ := tree.readDocument
  rw [treeYields] at read
  have node : document.node = ⟨[⟨nameToken.text, other.record, nameToken.offset⟩], none⟩ := record
  have noActor : document.actor = none := by
    have absent : document.actor.map (·.node) = none := congrArg DocumentNode.actor node
    simpa using absent
  have declared := interface_of_distinct noActor (by rw [node]; simp)
  have derived : (tokenStream (spelling (definitionRow nameToken.text row))).document =
      .ok document := by
    rw [stream]
    exact document_eq_ok.mpr read
  rw [parse, derived]
  simp only [bind, Except.bind, declared, node, List.map_cons, List.map_nil, DefinitionNode.entry,
    text]

/-- The tokens of a source that is a document are those of its row, and the grammar derives them. -/
theorem exists_tree_of_document {source : Text} {document : Document}
    (derived : (tokenStream source).document = .ok document) :
    (∀ lexeme ∈ lexemes source, lexeme.kind ≠ .illegal) ∧
      ∃ tree : Derivation (.nonterminal .interface),
        tree.yield = tokensOf 1 0 (lexemes source) ∧ document.node = tree.record := by
  have complete : (tokenStream source).stop = none := by
    cases stop : (tokenStream source).stop with
    | none => rfl
    | some illegal =>
        simp only [TokenStream.document, stop] at derived
        split at derived <;> simp_all
  have legal := legal_of_stop (stand_lexemes source) complete
  rw [tokenStream_of_legal legal] at derived
  obtain ⟨tree, yields⟩ := exists_interface_of_readDocument (document_eq_ok.mp derived)
  obtain ⟨other, read, record⟩ := tree.readDocument
  rw [yields] at read
  rw [document_eq_ok, read] at derived
  cases derived
  exact ⟨legal, tree, yields, record⟩

/-- The definitions of a document stand in front of what is left of the tokens of its source. -/
theorem exists_items_of_document {source : Text} {document : Document}
    (derived : (tokenStream source).document = .ok document) :
    (∀ lexeme ∈ lexemes source, lexeme.kind ≠ .illegal) ∧
      ∃ (items : List (Derivation (.nonterminal .definition)))
        (option : Derivation (.nonterminal .actorOption)),
        tokensOf 1 0 (lexemes source) = (Derivation.definitionList items).yield ++ option.yield ∧
        document.node.definitions = (items.filterMap typeDefinition?).map fun definition =>
          ⟨definition.name.text, definition.type.record, definition.name.offset⟩ := by
  obtain ⟨legal, tree, yields, record⟩ := exists_tree_of_document derived
  cases tree with
  | node production children =>
      cases production
      match children with
      | .cons definitions (.cons option .nil) =>
          obtain ⟨items, rfl, _⟩ := definitions.listed
          refine ⟨legal, items, option, ?_, ?_⟩
          · simpa using yields.symm
          · rw [record]
            exact record_definitionList items

/-- The definitions of an accepted source stand in front of what is left of its tokens, and give its
aliases. -/
theorem exists_items_of_parse {source : Text} {interface : Interface}
    (accepted : parse source = .ok interface) :
    (∀ lexeme ∈ lexemes source, lexeme.kind ≠ .illegal) ∧
      ∃ (items : List (Derivation (.nonterminal .definition)))
        (option : Derivation (.nonterminal .actorOption)),
        tokensOf 1 0 (lexemes source) = (Derivation.definitionList items).yield ++ option.yield ∧
        interface.aliases = (items.filterMap typeDefinition?).map (fun definition =>
          (definition.name.text, definition.type.record.text)) ∧
        ((items.filterMap typeDefinition?).map (·.name.text)).Nodup := by
  obtain ⟨document, derived, declared⟩ := bind_eq_ok.mp accepted
  obtain ⟨legal, items, option, yields, record⟩ := exists_items_of_document derived
  obtain ⟨aliases, distinct⟩ := aliases_of_interface declared
  rw [record] at aliases distinct
  refine ⟨legal, items, option, yields, ?_, ?_⟩
  · simpa [DefinitionNode.entry, Function.comp_def] using aliases
  · simpa [Function.comp_def] using distinct

theorem yield_of_typeDefinition {item : Derivation (.nonterminal .definition)}
    {definition : TypeDefinition} (found : typeDefinition? item = some definition) :
    definition.name.kind = .identifier ∧ definition.semicolon.kind = .semicolon ∧
      ∃ keyword equals, keyword.kind = .reserved .typeWord ∧ equals.kind = .equals ∧
        item.yield = [keyword, definition.name, equals] ++
          (definition.type.yield ++ [definition.semicolon]) := by
  cases item with
  | node production children =>
      cases production with
      | typeDefinition =>
          match children with
          | .cons (.leaf keyword word) (.cons (.leaf name fits) (.cons (.leaf equals sign)
              (.cons type (.cons (.leaf semicolon ends) .nil)))) =>
              cases found
              exact ⟨fits, ends, keyword, equals, word, sign, rfl⟩
      | importDefinition => cases found

theorem exists_cut_of_definition {items : List (Derivation (.nonterminal .definition))}
    {definition : TypeDefinition} (member : definition ∈ items.filterMap typeDefinition?)
    (rest : List Token) :
    definition.name.kind = .identifier ∧ ∃ front behind,
      (Derivation.definitionList items).yield ++ rest =
        front ++ (definition.type.yield ++ definition.semicolon :: behind) ∧
      definition.name ∈ (Derivation.definitionList items).yield ++ rest := by
  obtain ⟨item, inside, found⟩ := List.mem_filterMap.mp member
  obtain ⟨fits, _, keyword, equals, _, _, yields⟩ := yield_of_typeDefinition found
  obtain ⟨before, after, rfl⟩ := List.append_of_mem inside
  refine ⟨fits, before.flatMap Derivation.yield ++ [keyword, definition.name, equals],
    after.flatMap Derivation.yield ++ rest, ?_, ?_⟩
  · simp [Derivation.yield_definitionList, yields]
  · simp [Derivation.yield_definitionList, yields]

/-- For a source that is an interface and holds no opening mark of a comment, the scanned alias table
has the names of the type table in its order, and every scanned expression is the type of its name:
read as the definition of that name it gives the entry of the type table. -/
theorem table_agrees {source : Text} {interface : Interface}
    (accepted : parse source = .ok interface) (noLine : ¬ "//".toList <:+: source)
    (noBlock : ¬ "/*".toList <:+: source) :
    (table source).names = interface.aliases.names ∧
      ∀ name expression, Dictionary.find? name (table source) = some expression →
        ∃ single text,
          parse ("type ".toList ++ name ++ " = ".toList ++ expression ++ ";".toList) =
            .ok single ∧
          Dictionary.find? name single.aliases = some text ∧
          Dictionary.find? name interface.aliases = some text := by
  obtain ⟨legal, items, option, yields, aliases, distinct⟩ := exists_items_of_parse accepted
  have plain : ∀ lexeme ∈ lexemes source, lexeme.Plain :=
    plain_of_stand (stand_lexemes source) legal (by rwa [spelling_lexemes])
      (by rwa [spelling_lexemes])
  have scanned : table source = (items.filterMap typeDefinition?).map fun definition =>
      (definition.name.text,
        slice source (startOf definition.type) definition.semicolon.offset) := by
    have declared : declarationsIn source =
        (items.filterMap typeDefinition?).map (·.declaration source) := by
      rw [declarationsIn, withoutComments_eq noLine noBlock, tokens_of_legal legal, yields,
        declarations_definitionList, declarations_actorOption, List.append_nil]
    rw [table, declared, List.filterMap_map]
    simp only [Function.comp_def, TypeDefinition.declaration, List.filterMap_eq_map']
    exact Dictionary.ofList_of_nodup (by simpa [Function.comp_def] using distinct)
  refine ⟨?_, ?_⟩
  · rw [scanned, aliases]
    simp [Dictionary.names, Function.comp_def]
  · intro name expression found
    rw [scanned] at found
    obtain ⟨definition, member, same⟩ := List.mem_map.mp (Dictionary.mem_of_find? found)
    cases same
    obtain ⟨fits, front, behind, cut, inside⟩ :=
      exists_cut_of_definition member option.yield
    rw [← yields] at cut inside
    have identifier := form_of_mem_tokensOf (sound_of_stand (stand_lexemes source) plain) inside
    rw [fits] at identifier
    have declared := parse_definition identifier (expresses_declared plain cut)
    refine ⟨_, _, declared, Dictionary.find?_cons_self _ _ [], ?_⟩
    rw [aliases]
    refine Dictionary.find?_of_mem ?_ (List.mem_map.mpr ⟨definition, member, rfl⟩)
    simpa [Function.comp_def] using distinct

/-- A source with one definition is accepted, and its tables have the one name. -/
theorem table_agrees_of_option :
    parse "type a = opt nat;".toList =
        .ok ⟨[], [("a".toList, "opt nat".toList)], []⟩ ∧
      ¬ "//".toList <:+: "type a = opt nat;".toList ∧
      ¬ "/*".toList <:+: "type a = opt nat;".toList ∧
      (table "type a = opt nat;".toList).names = ["a".toList] ∧
      ∀ name expression,
        Dictionary.find? name (table "type a = opt nat;".toList) = some expression →
        ∃ single text,
          parse ("type ".toList ++ name ++ " = ".toList ++ expression ++ ";".toList) =
            .ok single ∧
          Dictionary.find? name single.aliases = some text ∧
          Dictionary.find? name [("a".toList, "opt nat".toList)] = some text := by
  have optWord : Form (.reserved .optWord) "opt".toList :=
    @Form.word 'o' "pt".toList (by decide) (List.all_eq_true.mp (by decide))
  have natName : Form .identifier "nat".toList :=
    @Form.word 'n' "at".toList (by decide) (List.all_eq_true.mp (by decide))
  have name : Form .identifier "a".toList := @Form.word 'a' [] (by decide) (by simp)
  have apart (c : Char) (rest : Text) (blank : c = ' ' ∨ c = ';') : Apart (c :: rest) := by
    rcases blank with rfl | rfl <;> exact apart_cons (by decide) (by decide) rest
  let inner : Derivation (.nonterminal .datatype) :=
    .node .typeName (.cons (.leaf ⟨.identifier, "nat".toList, 1, 13⟩ rfl) .nil)
  let type : Derivation (.nonterminal .datatype) :=
    .node (.wrapped .opt) (.cons (.leaf ⟨.reserved .optWord, "opt".toList, 1, 9⟩ rfl)
      (.cons inner .nil))
  have expresses : Expresses "opt nat".toList type.yield := by
    refine ⟨[⟨.token (.reserved .optWord), "opt".toList⟩, ⟨.layout, [' ']⟩,
      ⟨.token .identifier, "nat".toList⟩], by decide, ?_, ?_, rfl⟩
    · exact ⟨optWord.stands ((apart _ _ (.inl rfl)).bounded _), stands_blank (by decide) _,
        natName.stands ((apart _ _ (.inr rfl)).bounded _), trivial⟩
    · simp [Lexeme.Plain, Lexeme.isBlankLayout]
  have shape : "type a = opt nat;".toList =
      "type ".toList ++ "a".toList ++ " = ".toList ++ "opt nat".toList ++ ";".toList := by decide
  have text : type.record.text = "opt nat".toList := rfl
  have accepted : parse "type a = opt nat;".toList =
      .ok ⟨[], [("a".toList, "opt nat".toList)], []⟩ := by
    rw [shape, parse_definition name expresses, text]
  have noSlash : '/' ∉ "type a = opt nat;".toList := by decide
  have noLine : ¬ "//".toList <:+: "type a = opt nat;".toList :=
    fun inside => noSlash (inside.subset (by decide))
  have noBlock : ¬ "/*".toList <:+: "type a = opt nat;".toList :=
    fun inside => noSlash (inside.subset (by decide))
  obtain ⟨names, expressions⟩ := table_agrees accepted noLine noBlock
  exact ⟨accepted, noLine, noBlock, names, expressions⟩

end Candid.Alias
