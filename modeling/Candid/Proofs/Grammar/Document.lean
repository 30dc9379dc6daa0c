import Candid.Proofs.Grammar.Completeness

/-!
# Reading derived documents

The readers of definitions, of the service and of a whole document accept what the grammar derives,
and return a document whose record is the value of the derivation.
-/

set_option autoImplicit false

namespace Candid.Idl

def Derivation.ReadsDocument : {symbol : Symbol} → Derivation symbol → Prop
  | .nonterminal .actorType, tree =>
      ∀ fuel rest, 4 * (tree.yield ++ rest).length ≤ fuel →
        ∃ actor, readActor fuel (tree.yield ++ rest) = .ok (actor, rest) ∧
          Actor.node actor = tree.record
  | .nonterminal .actor, tree =>
      ∃ token behind, tree.yield = token :: behind ∧ token.kind = .reserved .serviceWord ∧
        ∀ fuel rest, 4 * (behind ++ rest).length ≤ fuel → readEnd rest = .ok () →
          ∃ actor, readService fuel (behind ++ rest) = .ok actor ∧
            Actor.node actor = tree.record
  | .nonterminal .actorOption, tree =>
      (tree.yield = [] ∧ tree.record = none) ∨
        ∃ token behind, tree.yield = token :: behind ∧ token.kind = .reserved .serviceWord ∧
          ∀ fuel, 4 * behind.length ≤ fuel →
            ∃ actor, readService fuel behind = .ok actor ∧
              tree.record = some (Actor.node actor)
  | .nonterminal .definition, tree =>
      tree.yield ≠ [] ∧ ∀ fuel rest, 4 * (tree.yield ++ rest).length ≤ fuel →
        ∃ entry, readEntry? fuel (tree.yield ++ rest) = some (.ok (entry, rest)) ∧
          Entry.node? entry = tree.record
  | .nonterminal .definitions, tree =>
      ∀ fuel rest, 4 * (tree.yield ++ rest).length + 1 ≤ fuel →
        ∃ entries left, 4 * rest.length + 1 ≤ left ∧
          entries.filterMap Entry.node? = tree.record ∧
          readEntries fuel (tree.yield ++ rest) =
            ⟨entries ++ (readEntries left rest).entries, (readEntries left rest).behind⟩
  | .nonterminal .interface, tree =>
      ∀ fuel, 4 * tree.yield.length + 1 ≤ fuel →
        ∃ document, readDocument fuel tree.yield = .ok document ∧ document.node = tree.record
  | _, _ => True

namespace Derivation

theorem readActorType_of_serviceBody (body : Derivation (.nonterminal .serviceBody))
    (fuel : Nat) (rest : List Token) (enough : 4 * (body.yield ++ rest).length ≤ fuel) :
    ∃ members, readActorType fuel (body.yield ++ rest) = .ok (.body members, rest) ∧
      members.map Member.node = body.record := by
  obtain ⟨members, start, brace, read, record⟩ := body.reads fuel rest enough
  refine ⟨members, ?_, record⟩
  cases body with
  | node production children =>
      cases production
      match children with
      | .cons (.leaf ⟨kind, text, line, offset⟩ opens) others =>
          cases opens
          simp only [yield_node, Derivations.yield_cons, yield_leaf, List.cons_append,
            List.nil_append, expect_self, Except.ok.injEq] at brace ⊢
          rw [readActorType, brace, read]
          rfl

theorem readsDocument_actorBody (children : Derivations [.nonterminal .serviceBody]) :
    ReadsDocument (.node .actorBody children) := by
  match children with
  | .cons body .nil =>
      intro fuel rest enough
      simp only [yield_node, Derivations.yield_cons, Derivations.yield_nil,
        List.append_nil] at enough ⊢
      obtain ⟨members, read, record⟩ := readActorType_of_serviceBody body fuel rest enough
      refine ⟨⟨[], .body members⟩, ?_, ?_⟩
      · cases body with
        | node production inside =>
            cases production
            match inside with
            | .cons (.leaf ⟨kind, text, line, offset⟩ opens) others =>
                cases opens
                simp only [yield_node, Derivations.yield_cons, yield_leaf,
                  List.cons_append] at read ⊢
                simp only [readActor, read]
                rfl
      · simp only [Actor.node, ActorType.node, record]
        rfl

theorem readsDocument_actorName (children : Derivations [.terminal .identifier]) :
    ReadsDocument (.node .actorName children) := by
  match children with
  | .cons (.leaf ⟨kind, text, line, offset⟩ fits) .nil =>
      intro fuel rest _
      cases fits
      exact ⟨⟨[], .named text⟩, rfl, rfl⟩

/-- Initial arguments in front of what a service is declared to be. -/
theorem readActor_of_init (init : Derivation (.nonterminal (.members .comma)))
    {first second third : Token} (opens : first.kind = .leftParen)
    (closes : second.kind = .rightParen) (arrow : third.kind = .arrow)
    (fuel : Nat) (start : List Token)
    (enough : 4 * (init.yield ++ second :: third :: start).length + 3 ≤ fuel) :
    ∃ fields, fieldTexts fields = init.record ∧
      readActor fuel (first :: (init.yield ++ second :: third :: start)) =
        (readActorType fuel start).map fun (type, behind) => (⟨fields, type⟩, behind) := by
  obtain ⟨fields, record, read⟩ := init.reads fuel second (third :: start) closes enough
  refine ⟨fields, record, ?_⟩
  obtain ⟨kind, text, line, offset⟩ := first
  cases opens
  simp only [Separator.kind, Separator.closing] at read
  simp only [readActor, read, bind, Except.bind, expect_of_kind arrow]
  cases readActorType fuel start <;> rfl

theorem readsDocument_actorInitBody
    (children : Derivations
      [.terminal .leftParen, .nonterminal (.members .comma), .terminal .rightParen,
        .terminal .arrow, .nonterminal .serviceBody]) :
    ReadsDocument (.node .actorInitBody children) := by
  match children with
  | .cons (.leaf first opens) (.cons init (.cons (.leaf second closes)
      (.cons (.leaf third arrow) (.cons body .nil)))) =>
      intro fuel rest enough
      simp only [yield_node, Derivations.yield_cons, yield_leaf, Derivations.yield_nil,
        List.append_nil, List.append_assoc, List.cons_append, List.nil_append,
        List.length_cons, List.length_append] at enough ⊢
      obtain ⟨fields, initRecord, further⟩ :=
        readActor_of_init init opens closes arrow fuel (body.yield ++ rest)
          (by simp only [List.length_append, List.length_cons]; omega)
      obtain ⟨members, read, record⟩ := readActorType_of_serviceBody body fuel rest
        (by rw [List.length_append]; omega)
      refine ⟨⟨fields, .body members⟩, ?_, ?_⟩
      · rw [further, read]
        rfl
      · simp only [Actor.node, ActorType.node, initRecord, record]
        rfl

theorem readsDocument_actorInitName
    (children : Derivations
      [.terminal .leftParen, .nonterminal (.members .comma), .terminal .rightParen,
        .terminal .arrow, .terminal .identifier]) :
    ReadsDocument (.node .actorInitName children) := by
  match children with
  | .cons (.leaf first opens) (.cons init (.cons (.leaf second closes)
      (.cons (.leaf third arrow) (.cons (.leaf ⟨kind, text, line, offset⟩ fits) .nil)))) =>
      intro fuel rest enough
      cases fits
      simp only [yield_node, Derivations.yield_cons, yield_leaf, Derivations.yield_nil,
        List.append_nil, List.append_assoc, List.cons_append, List.nil_append,
        List.length_cons, List.length_append] at enough ⊢
      obtain ⟨fields, initRecord, further⟩ :=
        readActor_of_init init opens closes arrow fuel
          (⟨.identifier, text, line, offset⟩ :: rest)
          (by simp only [List.length_append, List.length_cons]; omega)
      refine ⟨⟨fields, .named text⟩, further, ?_⟩
      simp only [Actor.node, ActorType.node, initRecord]
      rfl

/-- What a service is declared to be begins with a bracket or is a name without a colon behind
it. -/
theorem readService_of_actorType (type : Derivation (.nonterminal .actorType))
    (reads : type.ReadsDocument) {separator : Token} (separates : separator.kind = .colon)
    (fuel : Nat) (rest : List Token) (enough : 4 * (type.yield ++ rest).length ≤ fuel)
    (ended : readEnd rest = .ok ()) :
    ∃ actor, readService fuel (separator :: (type.yield ++ rest)) = .ok actor ∧
      (∀ name : Token, name.kind = .identifier →
        readService fuel (name :: separator :: (type.yield ++ rest)) = .ok actor) ∧
      actor.node = type.record := by
  obtain ⟨actor, read, record⟩ := reads fuel rest enough
  obtain ⟨kind, mark, line, offset⟩ := separator
  cases separates
  refine ⟨actor, ?_, ?_, record⟩
  · simp only [readService, expect_self, bind, Except.bind, read, ended]
    rfl
  · rintro ⟨nameKind, name, nameLine, nameOffset⟩ fits
    cases fits
    simp only [readService, expect_self, bind, Except.bind, read, ended]
    rfl

theorem readsDocument_anonymousActor
    (children : Derivations [.word .serviceWord, .terminal .colon, .nonterminal .actorType])
    (reads : children.All ReadsDocument) : ReadsDocument (.node .anonymousActor children) := by
  match children, reads with
  | .cons (.leaf token word) (.cons (.leaf separator separates) (.cons type .nil)),
    .cons _ (.cons _ (.cons read _)) =>
      refine ⟨token, separator :: type.yield, ?_, word, ?_⟩
      · simp
      · intro fuel rest enough ended
        simp only [List.cons_append, List.length_cons] at enough ⊢
        obtain ⟨actor, result, _, record⟩ :=
          readService_of_actorType type read separates fuel rest (by omega) ended
        exact ⟨actor, result, record⟩

theorem readsDocument_namedActor
    (children : Derivations
      [.word .serviceWord, .terminal .identifier, .terminal .colon, .nonterminal .actorType])
    (reads : children.All ReadsDocument) : ReadsDocument (.node .namedActor children) := by
  match children, reads with
  | .cons (.leaf token word) (.cons (.leaf name fits) (.cons (.leaf separator separates)
      (.cons type .nil))),
    .cons _ (.cons _ (.cons _ (.cons read _))) =>
      refine ⟨token, name :: separator :: type.yield, ?_, word, ?_⟩
      · simp
      · intro fuel rest enough ended
        simp only [List.cons_append, List.length_cons] at enough ⊢
        obtain ⟨actor, _, result, record⟩ :=
          readService_of_actorType type read separates fuel rest (by omega) ended
        exact ⟨actor, result name fits, record⟩

theorem readsDocument_typeDefinition
    (children : Derivations
      [.word .typeWord, .terminal .identifier, .terminal .equals, .nonterminal .datatype,
        .terminal .semicolon]) :
    ReadsDocument (.node .typeDefinition children) := by
  match children with
  | .cons (.leaf ⟨kind, text, line, offset⟩ word)
      (.cons (.leaf ⟨nameKind, name, nameLine, nameOffset⟩ fits)
        (.cons (.leaf sign equals) (.cons type (.cons (.leaf last ends) .nil)))) =>
      refine ⟨by simp, ?_⟩
      intro fuel rest enough
      cases word
      cases fits
      simp only [yield_node, Derivations.yield_cons, yield_leaf, Derivations.yield_nil,
        List.append_nil, List.append_assoc, List.cons_append, List.nil_append,
        List.length_cons] at enough ⊢
      have delimited : Delimited (last :: rest) := delimited_cons (ends ▸ rfl)
      obtain ⟨datatype, read, record⟩ := type.reads fuel (last :: rest) delimited (by omega)
      refine ⟨.definition ⟨name, datatype, nameOffset⟩, ?_, ?_⟩
      · simp only [ readEntry?, expect_of_kind equals, bind, Except.bind, read,
          expect_of_kind ends]
        rfl
      · simp only [Entry.node?, Definition.node, record]
        rfl

theorem readsDocument_importDefinition
    (children : Derivations [.word .importWord, .terminal .text, .terminal .semicolon]) :
    ReadsDocument (.node .importDefinition children) := by
  match children with
  | .cons (.leaf ⟨kind, text, line, offset⟩ word)
      (.cons (.leaf ⟨pathKind, path, pathLine, pathOffset⟩ fits)
        (.cons (.leaf last ends) .nil)) =>
      refine ⟨by simp, ?_⟩
      intro fuel rest _
      cases word
      cases fits
      refine ⟨.imported path, ?_, rfl⟩
      simp only [yield_node, Derivations.yield_cons, yield_leaf, Derivations.yield_nil,
        List.append_nil, List.cons_append, List.nil_append, readEntry?, expect_of_kind ends,
        bind, Except.bind]
      rfl

theorem readsDocument_noDefinitions (children : Derivations [.nonterminal .empty]) :
    ReadsDocument (.node .noDefinitions children) := by
  match children with
  | .cons tree .nil =>
      cases tree.eq_empty
      intro fuel rest enough
      exact ⟨[], fuel, enough, rfl, rfl⟩

theorem readsDocument_moreDefinitions
    (children : Derivations [.nonterminal .definitions, .nonterminal .definition])
    (reads : children.All ReadsDocument) : ReadsDocument (.node .moreDefinitions children) := by
  match children, reads with
  | .cons definitions (.cons definition .nil),
    .cons readDefinitions (.cons ⟨nonempty, readDefinition⟩ _) =>
      intro fuel rest enough
      have consumes := List.length_pos_iff.mpr nonempty
      simp only [yield_node, Derivations.yield_cons, Derivations.yield_nil, List.append_nil,
        List.append_assoc] at enough ⊢
      obtain ⟨entries, middle, spare, record, result⟩ :=
        readDefinitions fuel (definition.yield ++ rest) enough
      obtain ⟨left, rfl⟩ := Nat.exists_eq_add_one_of_ne_zero (by omega : middle ≠ 0)
      obtain ⟨entry, entryResult, entryRecord⟩ := readDefinition left rest (by omega)
      refine ⟨entries ++ [entry], left, ?_, ?_, ?_⟩
      · rw [List.length_append] at spare
        omega
      · rw [List.filterMap_append, record, record_moreDefinitions, ← entryRecord]
        cases shape : entry.node? <;> simp [shape]
      · rw [result, readEntries, entryResult]
        simp

theorem readsDocument_actorBare (children : Derivations [.nonterminal .actor])
    (reads : children.All ReadsDocument) : ReadsDocument (.node .actorBare children) := by
  match children, reads with
  | .cons actor .nil, .cons ⟨token, behind, shape, word, read⟩ _ =>
      refine .inr ⟨token, behind, by simp [shape], word, ?_⟩
      intro fuel enough
      obtain ⟨service, result, record⟩ := read fuel [] (by simpa using enough) rfl
      exact ⟨service, by simpa using result, congrArg some record.symm⟩

theorem readsDocument_actorEnded
    (children : Derivations [.nonterminal .actor, .terminal .semicolon])
    (reads : children.All ReadsDocument) : ReadsDocument (.node .actorEnded children) := by
  match children, reads with
  | .cons actor (.cons (.leaf ⟨kind, text, line, offset⟩ ends) .nil),
    .cons ⟨token, behind, shape, word, read⟩ _ =>
      cases ends
      refine .inr ⟨token, behind ++ [⟨.semicolon, text, line, offset⟩], by simp [shape], word, ?_⟩
      intro fuel enough
      obtain ⟨service, result, record⟩ := read fuel _ enough rfl
      exact ⟨service, result, congrArg some record.symm⟩

theorem readsDocument_noActor (children : Derivations [.nonterminal .empty]) :
    ReadsDocument (.node .noActor children) := by
  match children with
  | .cons tree .nil =>
      cases tree.eq_empty
      exact .inl ⟨rfl, rfl⟩

theorem readsDocument_interface
    (children : Derivations [.nonterminal .definitions, .nonterminal .actorOption])
    (reads : children.All ReadsDocument) : ReadsDocument (.node .interface children) := by
  match children, reads with
  | .cons definitions (.cons option .nil), .cons readDefinitions (.cons readOption _) =>
      intro fuel enough
      simp only [yield_node, Derivations.yield_cons, Derivations.yield_nil,
        List.append_nil] at enough ⊢
      obtain ⟨entries, left, spare, record, result⟩ := readDefinitions fuel option.yield enough
      obtain ⟨left, rfl⟩ := Nat.exists_eq_add_one_of_ne_zero (by omega : left ≠ 0)
      rcases readOption with ⟨nothing, absent⟩ | ⟨token, behind, shape, word, read⟩
      · refine ⟨⟨entries, none⟩, ?_, ?_⟩
        · rw [readDocument, result, nothing]
          simp [readEntries, readEntry?, Except.bind]
        · have whole : (node .interface (.cons definitions (.cons option .nil))).record =
              ⟨definitions.record, option.record⟩ := rfl
          rw [Document.node, record, whole, absent]
          rfl
      · rw [shape] at result enough spare ⊢
        rw [List.length_append] at enough
        obtain ⟨actor, service, actorRecord⟩ :=
          read fuel (by rw [List.length_cons] at enough; omega)
        refine ⟨⟨entries, some actor⟩, ?_, ?_⟩
        · obtain ⟨kind, text, line, offset⟩ := token
          cases word
          rw [readDocument, result]
          simp [readEntries, readEntry?, Except.bind, service, Except.map]
        · have whole : (node .interface (.cons definitions (.cons option .nil))).record =
              ⟨definitions.record, option.record⟩ := rfl
          rw [Document.node, record, whole, actorRecord]
          rfl

theorem readsDocument {symbol : Symbol} (tree : Derivation symbol) : tree.ReadsDocument := by
  induction tree using Derivation.induction with
  | leaf => trivial
  | node production children reads =>
      cases production with
      | interface => exact readsDocument_interface children reads
      | moreDefinitions => exact readsDocument_moreDefinitions children reads
      | noDefinitions => exact readsDocument_noDefinitions children
      | typeDefinition => exact readsDocument_typeDefinition children
      | importDefinition => exact readsDocument_importDefinition children
      | actorBare => exact readsDocument_actorBare children reads
      | actorEnded => exact readsDocument_actorEnded children reads
      | noActor => exact readsDocument_noActor children
      | anonymousActor => exact readsDocument_anonymousActor children reads
      | namedActor => exact readsDocument_namedActor children reads
      | actorBody => exact readsDocument_actorBody children
      | actorName => exact readsDocument_actorName children
      | actorInitBody => exact readsDocument_actorInitBody children
      | actorInitName => exact readsDocument_actorInitName children
      | _ => trivial

/-- A derivable token list is read, with the record of its derivation. -/
theorem readDocument (tree : Derivation (.nonterminal .interface)) :
    ∃ document, Idl.readDocument (fuelFor tree.yield) tree.yield = .ok document ∧
      document.node = tree.record :=
  tree.readsDocument (fuelFor tree.yield) (by simp only [fuelFor]; omega)

end Derivation

end Candid.Idl
