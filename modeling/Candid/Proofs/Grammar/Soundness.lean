import Candid.Proofs.Grammar.Derivation
import Candid.Idl.Grammar
import Candid.Proofs.Outcome

/-!
# Derivations of what is read

Where a reader succeeds, the tokens that it took have a derivation. A reader of a list takes its
members from the front while the grammar adds them at the end, so the property of such a reader
starts from a derivation of the members in front.
-/

set_option autoImplicit false

namespace Candid.Idl

open Candid.Idl.Derivation

theorem eq_cons_of_expect {kind : TokenKind} {tokens behind : List Token}
    (found : expect kind tokens = .ok behind) :
    ∃ token, token.kind = kind ∧ tokens = token :: behind := by
  cases tokens with
  | nil => simp [expect] at found
  | cons token rest =>
      by_cases same : token.kind = kind
      · simp only [expect, same, ↓reduceIte, Except.ok.injEq] at found
        exact ⟨token, same, by rw [found]⟩
      · simp [expect, same] at found

def MembersFront (separator : Separator) (front : List Token) : Prop :=
  front = [] ∨ ∃ (list : Derivation (.nonterminal (.memberList separator))) (token : Token),
    token.kind = separator.kind ∧ front = list.yield ++ [token]

/-- What a successful reader with some fuel has taken. -/
structure Derives (fuel : Nat) : Prop where
  datatype (tokens behind : List Token) (type : Datatype) :
    readDatatype fuel tokens = .ok (type, behind) →
      ∃ tree : Derivation (.nonterminal .datatype), tree.yield ++ behind = tokens
  wrapped (tokens behind : List Token) (type : Datatype) :
    readWrapped fuel tokens = .ok (type, behind) →
      ∃ tree : Derivation (.nonterminal .datatype), tree.yield ++ behind = tokens ∨
        ∃ opening closing : Token, opening.kind = .leftAngle ∧ closing.kind = .rightAngle ∧
          opening :: (tree.yield ++ closing :: behind) = tokens
  field (separator : Separator) (tokens behind : List Token) (field : Field) :
    readField fuel tokens = .ok (field, behind) →
      ∃ tree : Derivation (.nonterminal (.member separator)), tree.yield ++ behind = tokens
  fields (separator : Separator) (front tokens behind : List Token) (fields : List Field) :
    MembersFront separator front →
    readFields separator.kind separator.closing fuel tokens = .ok (fields, behind) →
      ∃ (tree : Derivation (.nonterminal (.members separator))) (closing : Token),
        closing.kind = separator.closing ∧ tree.yield ++ closing :: behind = front ++ tokens
  signature (tokens behind : List Token) (signature : Signature) :
    readSignature fuel tokens = .ok (signature, behind) →
      ∃ tree : Derivation (.nonterminal .signature), tree.yield ++ behind = tokens
  members (front : Derivation (.nonterminal .methods)) (tokens behind : List Token)
    (members : List Member) :
    readMembers fuel tokens = .ok (members, behind) →
      ∃ (tree : Derivation (.nonterminal .methods)) (closing : Token),
        closing.kind = .rightBrace ∧ tree.yield ++ closing :: behind = front.yield ++ tokens

theorem derives_wrapper {fuel : Nat} (inner : Derives fuel) (wrapper : Wrapper) (text : Text)
    (line offset : Nat) (rest behind : List Token) (type : Datatype)
    (read : readWrapped fuel rest = .ok (type, behind)) :
    ∃ tree : Derivation (.nonterminal .datatype),
      tree.yield ++ behind = ⟨.reserved wrapper.word, text, line, offset⟩ :: rest := by
  obtain ⟨tree, bare | ⟨opening, closing, opens, closes, angled⟩⟩ :=
    inner.wrapped rest behind type read
  · refine ⟨.node (.wrapped wrapper)
      (.cons (.leaf ⟨.reserved wrapper.word, text, line, offset⟩ rfl) (.cons tree .nil)), ?_⟩
    simp [bare]
  · refine ⟨.node (.angled wrapper)
      (.cons (.leaf ⟨.reserved wrapper.word, text, line, offset⟩ rfl)
        (.cons (.leaf opening opens) (.cons tree (.cons (.leaf closing closes) .nil)))), ?_⟩
    simp [← angled]

theorem derives_compound {fuel : Nat} (inner : Derives fuel) (compound : Compound) (text : Text)
    (line offset : Nat) (rest start behind : List Token) (fields : List Field)
    (brace : expect .leftBrace rest = .ok start)
    (read : readFields .semicolon .rightBrace fuel start = .ok (fields, behind)) :
    ∃ tree : Derivation (.nonterminal .datatype),
      tree.yield ++ behind = ⟨.reserved compound.word, text, line, offset⟩ :: rest := by
  obtain ⟨opening, opens, rfl⟩ := eq_cons_of_expect brace
  obtain ⟨members, closing, closes, whole⟩ :=
    inner.fields .semicolon [] start behind fields (.inl rfl) read
  have shuts : closing.kind = .rightBrace := closes
  refine ⟨.node (.compound compound)
    (.cons (.leaf ⟨.reserved compound.word, text, line, offset⟩ rfl)
      (.cons (.leaf opening opens) (.cons members (.cons (.leaf closing shuts) .nil)))), ?_⟩
  simp only [List.nil_append] at whole
  simp [← whole]

theorem derives_datatype {fuel : Nat} (inner : Derives fuel) (tokens behind : List Token)
    (type : Datatype) (read : readDatatype (fuel + 1) tokens = .ok (type, behind)) :
    ∃ tree : Derivation (.nonterminal .datatype), tree.yield ++ behind = tokens := by
  unfold readDatatype at read
  split at read
  · rename_i name line offset rest
    cases read
    exact ⟨.node .typeName (.cons (.leaf ⟨.identifier, name, line, offset⟩ rfl) .nil), rfl⟩
  · obtain ⟨⟨_, _⟩, wrapped, same⟩ := bind_eq_ok.mp read
    cases same
    exact derives_wrapper inner .opt _ _ _ _ _ _ wrapped
  · obtain ⟨⟨_, _⟩, wrapped, same⟩ := bind_eq_ok.mp read
    cases same
    exact derives_wrapper inner .vec _ _ _ _ _ _ wrapped
  · obtain ⟨start, brace, further⟩ := bind_eq_ok.mp read
    obtain ⟨⟨_, _⟩, fields, same⟩ := bind_eq_ok.mp further
    cases same
    exact derives_compound inner .record _ _ _ _ _ _ _ brace fields
  · obtain ⟨start, brace, further⟩ := bind_eq_ok.mp read
    obtain ⟨⟨_, _⟩, fields, same⟩ := bind_eq_ok.mp further
    cases same
    exact derives_compound inner .variant _ _ _ _ _ _ _ brace fields
  · rename_i text line offset rest
    obtain ⟨⟨_, _⟩, signature, same⟩ := bind_eq_ok.mp read
    cases same
    obtain ⟨tree, rfl⟩ := inner.signature _ _ _ signature
    exact ⟨.node .funcType (.cons (.leaf ⟨.reserved .funcWord, text, line, offset⟩ rfl)
      (.cons tree .nil)), by simp⟩
  · rename_i text line offset rest
    obtain ⟨start, brace, further⟩ := bind_eq_ok.mp read
    obtain ⟨⟨_, _⟩, members, same⟩ := bind_eq_ok.mp further
    cases same
    obtain ⟨opening, opens, rfl⟩ := eq_cons_of_expect brace
    obtain ⟨methods, closing, closes, whole⟩ :=
      inner.members (.node .noMethods (.cons (.node .empty .nil) .nil)) _ _ _ members
    refine ⟨.node .serviceType (.cons (.leaf ⟨.reserved .serviceWord, text, line, offset⟩ rfl)
      (.cons (.node .serviceBody (.cons (.leaf opening opens) (.cons methods
        (.cons (.leaf closing closes) .nil)))) .nil)), ?_⟩
    simp only [yield_node, Derivations.yield_cons, Derivations.yield_nil, List.append_nil,
      List.nil_append] at whole
    simp [← whole]
  · cases read

theorem derives_wrapped {fuel : Nat} (inner : Derives fuel) (tokens behind : List Token)
    (type : Datatype) (read : readWrapped (fuel + 1) tokens = .ok (type, behind)) :
    ∃ tree : Derivation (.nonterminal .datatype), tree.yield ++ behind = tokens ∨
      ∃ opening closing : Token, opening.kind = .leftAngle ∧ closing.kind = .rightAngle ∧
        opening :: (tree.yield ++ closing :: behind) = tokens := by
  unfold readWrapped at read
  split at read
  · rename_i text line offset rest
    obtain ⟨⟨_, start⟩, datatype, further⟩ := bind_eq_ok.mp read
    obtain ⟨_, angle, same⟩ := bind_eq_ok.mp further
    cases same
    obtain ⟨closing, closes, rfl⟩ := eq_cons_of_expect angle
    obtain ⟨tree, rfl⟩ := inner.datatype _ _ _ datatype
    exact ⟨tree, .inr ⟨⟨.leftAngle, text, line, offset⟩, closing, rfl, closes, rfl⟩⟩
  · obtain ⟨tree, whole⟩ := inner.datatype _ _ _ read
    exact ⟨tree, .inl whole⟩

theorem derives_field {fuel : Nat} (inner : Derives fuel) (separator : Separator)
    (tokens behind : List Token) (field : Field)
    (read : readField (fuel + 1) tokens = .ok (field, behind)) :
    ∃ tree : Derivation (.nonterminal (.member separator)), tree.yield ++ behind = tokens := by
  have labelled (form : LabelForm) (text : Text) (line offset : Nat) (colon : Token)
      (start : List Token) (separates : colon.kind = .colon)
      (further : (readDatatype fuel start >>= fun type =>
        pure (Field.mk (some text) type.1, type.2)) = Except.ok (field, behind)) :
      ∃ tree : Derivation (.nonterminal (.member separator)),
        tree.yield ++ behind = ⟨form.kind, text, line, offset⟩ :: colon :: start := by
    obtain ⟨⟨_, _⟩, datatype, same⟩ := bind_eq_ok.mp further
    cases same
    obtain ⟨tree, rfl⟩ := inner.datatype _ _ _ datatype
    refine ⟨.node (.labelledMember separator) (.cons (.node (.label form)
      (.cons (.leaf ⟨form.kind, text, line, offset⟩ rfl) .nil))
      (.cons (.leaf colon separates) (.cons tree .nil))), ?_⟩
    simp
  unfold readField at read
  simp only at read
  split at read
  · rename_i label line offset mark colonLine colonOffset rest
    exact labelled .identifier label line offset ⟨.colon, mark, colonLine, colonOffset⟩ _ rfl read
  · obtain ⟨start, colon, further⟩ := bind_eq_ok.mp read
    obtain ⟨token, separates, rfl⟩ := eq_cons_of_expect colon
    exact labelled .text _ _ _ token _ separates further
  · obtain ⟨start, colon, further⟩ := bind_eq_ok.mp read
    obtain ⟨token, separates, rfl⟩ := eq_cons_of_expect colon
    exact labelled .number _ _ _ token _ separates further
  · obtain ⟨⟨_, _⟩, datatype, same⟩ := bind_eq_ok.mp read
    cases same
    obtain ⟨tree, rfl⟩ := inner.datatype _ _ _ datatype
    exact ⟨.node (.bareMember separator) (.cons tree .nil), by simp⟩

theorem MembersFront.further {separator : Separator} {front : List Token}
    (before : MembersFront separator front) (member : Derivation (.nonterminal (.member separator))) :
    ∃ list : Derivation (.nonterminal (.memberList separator)),
      list.yield = front ++ member.yield := by
  rcases before with rfl | ⟨list, token, separates, rfl⟩
  · exact ⟨.node (.oneMember separator) (.cons member .nil), by simp⟩
  · exact ⟨.node (.moreMembers separator) (.cons list (.cons (.leaf token separates)
      (.cons member .nil))), by simp⟩

theorem derives_fields {fuel : Nat} (inner : Derives fuel) (separator : Separator)
    (front tokens behind : List Token) (fields : List Field)
    (before : MembersFront separator front)
    (read : readFields separator.kind separator.closing (fuel + 1) tokens =
      .ok (fields, behind)) :
    ∃ (tree : Derivation (.nonterminal (.members separator))) (closing : Token),
      closing.kind = separator.closing ∧ tree.yield ++ closing :: behind = front ++ tokens := by
  unfold readFields at read
  split at read
  · rename_i rest closed
    cases read
    obtain ⟨closing, closes, rfl⟩ := eq_cons_of_expect closed
    rcases before with rfl | ⟨list, token, separates, rfl⟩
    · exact ⟨.node (.noMembers separator) (.cons (.node .empty .nil) .nil), closing, closes,
        rfl⟩
    · exact ⟨.node (.membersEnded separator) (.cons list (.cons (.leaf token separates) .nil)),
        closing, closes, by simp⟩
  · obtain ⟨⟨field, middle⟩, first, further⟩ := bind_eq_ok.mp read
    obtain ⟨member, rfl⟩ := inner.field separator _ _ _ first
    obtain ⟨list, whole⟩ := before.further member
    simp only at further
    split at further
    · rename_i rest separated
      obtain ⟨⟨_, _⟩, others, same⟩ := bind_eq_ok.mp further
      cases same
      obtain ⟨token, separates, rfl⟩ := eq_cons_of_expect separated
      obtain ⟨tree, closing, closes, taken⟩ :=
        inner.fields separator (list.yield ++ [token]) _ _ _
          (.inr ⟨list, token, separates, rfl⟩) others
      exact ⟨tree, closing, closes, by rw [taken, whole]; simp⟩
    · obtain ⟨_, closed, same⟩ := bind_eq_ok.mp further
      cases same
      obtain ⟨closing, closes, rfl⟩ := eq_cons_of_expect closed
      exact ⟨.node (.membersBare separator) (.cons list .nil), closing, closes,
        by simp [whole]⟩

theorem eq_append_of_readModes (front : Derivation (.nonterminal .modes)) (tokens : List Token) :
    ∃ tree : Derivation (.nonterminal .modes),
      tree.yield ++ (readModes tokens).2 = front.yield ++ tokens := by
  induction tokens generalizing front with
  | nil => exact ⟨front, rfl⟩
  | cons token rest ih =>
      have further (mode : Mode) (fits : token.kind = .reserved mode.word) :
          ∃ tree : Derivation (.nonterminal .modes),
            tree.yield ++ (readModes rest).2 = front.yield ++ token :: rest := by
        obtain ⟨tree, whole⟩ :=
          ih (.node (.moreModes mode) (.cons front (.cons (.leaf token fits) .nil)))
        exact ⟨tree, by simpa using whole⟩
      obtain ⟨kind, text, line, offset⟩ := token
      unfold readModes
      split
      · rename_i same
        cases same
        exact further .query rfl
      · rename_i same
        cases same
        exact further .compositeQuery rfl
      · rename_i same
        cases same
        exact further .oneway rfl
      · exact ⟨front, rfl⟩

theorem derives_signature {fuel : Nat} (inner : Derives fuel) (tokens behind : List Token)
    (signature : Signature) (read : readSignature (fuel + 1) tokens = .ok (signature, behind)) :
    ∃ tree : Derivation (.nonterminal .signature), tree.yield ++ behind = tokens := by
  unfold readSignature at read
  obtain ⟨start, argsOpen, read⟩ := bind_eq_ok.mp read
  obtain ⟨⟨args, middle⟩, argsRead, read⟩ := bind_eq_ok.mp read
  obtain ⟨next, arrow, read⟩ := bind_eq_ok.mp read
  obtain ⟨last, resultsOpen, read⟩ := bind_eq_ok.mp read
  obtain ⟨⟨results, rest⟩, resultsRead, read⟩ := bind_eq_ok.mp read
  cases read
  obtain ⟨first, opens, rfl⟩ := eq_cons_of_expect argsOpen
  obtain ⟨argsTree, second, closes, argsWhole⟩ :=
    inner.fields .comma [] _ _ _ (.inl rfl) argsRead
  obtain ⟨third, points, rfl⟩ := eq_cons_of_expect arrow
  obtain ⟨fourth, reopens, rfl⟩ := eq_cons_of_expect resultsOpen
  obtain ⟨resultsTree, fifth, recloses, resultsWhole⟩ :=
    inner.fields .comma [] _ _ _ (.inl rfl) resultsRead
  have shuts : second.kind = .rightParen := closes
  have reshuts : fifth.kind = .rightParen := recloses
  obtain ⟨modes, modesWhole⟩ :=
    eq_append_of_readModes (.node .noModes (.cons (.node .empty .nil) .nil)) rest
  refine ⟨.node .signature (.cons (.leaf first opens) (.cons argsTree (.cons (.leaf second shuts)
    (.cons (.leaf third points) (.cons (.leaf fourth reopens) (.cons resultsTree
      (.cons (.leaf fifth reshuts) (.cons modes .nil)))))))), ?_⟩
  simp only [yield_node, Derivations.yield_cons, Derivations.yield_nil, List.append_nil,
    List.nil_append] at argsWhole resultsWhole modesWhole
  simp [modesWhole, ← argsWhole, ← resultsWhole]

theorem exists_label_of_readLabel {tokens behind : List Token} {label : Text}
    (read : readLabel tokens = .ok (label, behind)) :
    ∃ tree : Derivation (.nonterminal .label), tree.yield ++ behind = tokens := by
  have spelled (form : LabelForm) (token : Token) (rest : List Token)
      (fits : token.kind = form.kind) :
      ∃ tree : Derivation (.nonterminal .label), tree.yield ++ rest = token :: rest :=
    ⟨.node (.label form) (.cons (.leaf token fits) .nil), rfl⟩
  unfold readLabel at read
  split at read
  · cases read
    exact spelled .identifier _ _ rfl
  · cases read
    exact spelled .text _ _ rfl
  · cases read
    exact spelled .number _ _ rfl
  · cases read

/-- A method behind its label and its colon: the name of a function type, or a signature. -/
theorem derives_method {fuel : Nat} (inner : Derives fuel)
    (label : Derivation (.nonterminal .label)) (colon semicolon : Token)
    (separates : colon.kind = .colon) (ends : semicolon.kind = .semicolon)
    (spelling : Text) (start rest : List Token) (member : Member)
    (read : (match start with
      | ⟨.identifier, typeName, _, offset⟩ :: rest =>
        Except.ok (Member.referenced spelling typeName offset, rest)
      | _ => do
        let (signature, behind) ← readSignature fuel start
        pure (Member.declared spelling signature, behind)) = .ok (member, semicolon :: rest)) :
    ∃ tree : Derivation (.nonterminal .method),
      tree.yield ++ rest = label.yield ++ colon :: start := by
  split at read
  · rename_i typeName line offset rest
    cases read
    refine ⟨.node .aliasMethod (.cons label (.cons (.leaf colon separates)
      (.cons (.leaf ⟨.identifier, typeName, line, offset⟩ rfl)
        (.cons (.leaf semicolon ends) .nil)))), ?_⟩
    simp
  · obtain ⟨⟨_, _⟩, signature, same⟩ := bind_eq_ok.mp read
    cases same
    obtain ⟨tree, rfl⟩ := inner.signature _ _ _ signature
    refine ⟨.node .signatureMethod (.cons label (.cons (.leaf colon separates)
      (.cons tree (.cons (.leaf semicolon ends) .nil)))), ?_⟩
    simp

theorem derives_members {fuel : Nat} (inner : Derives fuel)
    (front : Derivation (.nonterminal .methods)) (tokens behind : List Token)
    (members : List Member) (read : readMembers (fuel + 1) tokens = .ok (members, behind)) :
    ∃ (tree : Derivation (.nonterminal .methods)) (closing : Token),
      closing.kind = .rightBrace ∧ tree.yield ++ closing :: behind = front.yield ++ tokens := by
  unfold readMembers at read
  split at read
  · rename_i rest closed
    cases read
    obtain ⟨closing, closes, rfl⟩ := eq_cons_of_expect closed
    exact ⟨front, closing, closes, rfl⟩
  · obtain ⟨⟨label, middle⟩, labelled, read⟩ := bind_eq_ok.mp read
    obtain ⟨start, colon, read⟩ := bind_eq_ok.mp read
    obtain ⟨⟨member, next⟩, method, read⟩ := bind_eq_ok.mp read
    obtain ⟨rest, ended, read⟩ := bind_eq_ok.mp read
    obtain ⟨⟨_, _⟩, others, same⟩ := bind_eq_ok.mp read
    cases same
    obtain ⟨labelTree, rfl⟩ := exists_label_of_readLabel labelled
    obtain ⟨token, separates, rfl⟩ := eq_cons_of_expect colon
    obtain ⟨semicolon, ends, rfl⟩ := eq_cons_of_expect ended
    obtain ⟨methodTree, methodWhole⟩ :=
      derives_method inner labelTree token semicolon separates ends _ _ _ _ method
    obtain ⟨tree, closing, closes, whole⟩ :=
      inner.members (.node .moreMethods (.cons front (.cons methodTree .nil))) _ _ _ others
    refine ⟨tree, closing, closes, ?_⟩
    rw [whole, ← methodWhole]
    simp

theorem derives (fuel : Nat) : Derives fuel := by
  induction fuel with
  | zero =>
      constructor
      all_goals
        intros
        rename_i read
        cases read
  | succ fuel ih =>
      exact ⟨derives_datatype ih, derives_wrapped ih, derives_field ih, derives_fields ih,
        derives_signature ih, derives_members ih⟩

theorem exists_serviceBody_of_readMembers {fuel : Nat} (opening : Token)
    (opens : opening.kind = .leftBrace) {tokens behind : List Token} {members : List Member}
    (read : readMembers fuel tokens = .ok (members, behind)) :
    ∃ tree : Derivation (.nonterminal .serviceBody), tree.yield ++ behind = opening :: tokens := by
  obtain ⟨methods, closing, closes, whole⟩ :=
    (derives fuel).members (.node .noMethods (.cons (.node .empty .nil) .nil)) _ _ _ read
  refine ⟨.node .serviceBody (.cons (.leaf opening opens) (.cons methods
    (.cons (.leaf closing closes) .nil))), ?_⟩
  simp only [yield_node, Derivations.yield_cons, Derivations.yield_nil, List.append_nil,
    List.nil_append] at whole
  simp [whole]

theorem exists_actorType_of_readActorType {fuel : Nat} {tokens behind : List Token}
    {type : ActorType} (read : readActorType fuel tokens = .ok (type, behind)) :
    (∃ body : Derivation (.nonterminal .serviceBody), body.yield ++ behind = tokens) ∨
      ∃ name : Token, name.kind = .identifier ∧ name :: behind = tokens := by
  unfold readActorType at read
  split at read
  · rename_i text line offset rest
    obtain ⟨⟨_, _⟩, members, same⟩ := bind_eq_ok.mp read
    cases same
    exact .inl (exists_serviceBody_of_readMembers ⟨.leftBrace, text, line, offset⟩ rfl members)
  · rename_i name line offset rest
    cases read
    exact .inr ⟨⟨.identifier, name, line, offset⟩, rfl, rfl⟩
  · cases read

theorem exists_actorType_of_readActor {fuel : Nat} {tokens behind : List Token} {actor : Actor}
    (read : readActor fuel tokens = .ok (actor, behind)) :
    ∃ tree : Derivation (.nonterminal .actorType), tree.yield ++ behind = tokens := by
  unfold readActor at read
  split at read
  · rename_i text line offset rest
    obtain ⟨⟨init, middle⟩, members, read⟩ := bind_eq_ok.mp read
    obtain ⟨start, arrow, read⟩ := bind_eq_ok.mp read
    obtain ⟨⟨type, _⟩, declared, same⟩ := bind_eq_ok.mp read
    cases same
    obtain ⟨initTree, closing, closes, whole⟩ :=
      (derives fuel).fields .comma [] _ _ _ (.inl rfl) members
    have shuts : closing.kind = .rightParen := closes
    obtain ⟨token, points, rfl⟩ := eq_cons_of_expect arrow
    simp only [List.nil_append] at whole
    rcases exists_actorType_of_readActorType declared with ⟨body, rfl⟩ | ⟨name, fits, rfl⟩
    · refine ⟨.node .actorInitBody (.cons (.leaf ⟨.leftParen, text, line, offset⟩ rfl)
        (.cons initTree (.cons (.leaf closing shuts) (.cons (.leaf token points)
          (.cons body .nil))))), ?_⟩
      simp [← whole]
    · refine ⟨.node .actorInitName (.cons (.leaf ⟨.leftParen, text, line, offset⟩ rfl)
        (.cons initTree (.cons (.leaf closing shuts) (.cons (.leaf token points)
          (.cons (.leaf name fits) .nil))))), ?_⟩
      simp [← whole]
  · obtain ⟨⟨type, _⟩, declared, same⟩ := bind_eq_ok.mp read
    cases same
    rcases exists_actorType_of_readActorType declared with ⟨body, rfl⟩ | ⟨name, fits, rfl⟩
    · exact ⟨.node .actorBody (.cons body .nil), by simp⟩
    · exact ⟨.node .actorName (.cons (.leaf name fits) .nil), rfl⟩

theorem eq_semicolon_of_readEnd {tokens : List Token} (read : readEnd tokens = .ok ()) :
    tokens = [] ∨ ∃ token : Token, token.kind = .semicolon ∧ tokens = [token] := by
  unfold readEnd at read
  split at read
  · exact .inl rfl
  · exact .inr ⟨_, rfl, rfl⟩
  · cases read
  · cases read

theorem exists_actorOption_of_readService {fuel : Nat} (keyword : Token)
    (word : keyword.kind = .reserved .serviceWord) {tokens : List Token} {actor : Actor}
    (read : readService fuel tokens = .ok actor) :
    ∃ tree : Derivation (.nonterminal .actorOption), tree.yield = keyword :: tokens := by
  have ended (service : Derivation (.nonterminal .actor)) (behind : List Token)
      (finish : readEnd behind = .ok ()) :
      ∃ tree : Derivation (.nonterminal .actorOption), tree.yield = service.yield ++ behind := by
    rcases eq_semicolon_of_readEnd finish with rfl | ⟨token, ends, rfl⟩
    · exact ⟨.node .actorBare (.cons service .nil), by simp⟩
    · exact ⟨.node .actorEnded (.cons service (.cons (.leaf token ends) .nil)), by simp⟩
  unfold readService at read
  obtain ⟨start, colon, read⟩ := bind_eq_ok.mp read
  obtain ⟨⟨service, behind⟩, declared, read⟩ := bind_eq_ok.mp read
  obtain ⟨⟨⟩, finish, same⟩ := bind_eq_ok.mp read
  obtain ⟨type, rfl⟩ := exists_actorType_of_readActor declared
  obtain ⟨token, separates, whole⟩ := eq_cons_of_expect colon
  split at whole
  · rename_i name line offset rest
    obtain ⟨tree, yields⟩ := ended (.node .namedActor (.cons (.leaf keyword word)
      (.cons (.leaf ⟨.identifier, name, line, offset⟩ rfl) (.cons (.leaf token separates)
        (.cons type .nil))))) behind finish
    exact ⟨tree, by simp [yields, whole]⟩
  · obtain ⟨tree, yields⟩ := ended (.node .anonymousActor (.cons (.leaf keyword word)
      (.cons (.leaf token separates) (.cons type .nil)))) behind finish
    exact ⟨tree, by simp [yields, whole]⟩

theorem exists_definition_of_readEntry {fuel : Nat} {tokens behind : List Token} {entry : Entry}
    (read : readEntry? fuel tokens = some (.ok (entry, behind))) :
    ∃ tree : Derivation (.nonterminal .definition), tree.yield ++ behind = tokens := by
  unfold readEntry? at read
  split at read
  · rename_i text line offset rest
    simp only [Option.some.injEq] at read
    split at read
    · rename_i name nameLine nameOffset rest
      obtain ⟨start, sign, read⟩ := bind_eq_ok.mp read
      obtain ⟨⟨type, middle⟩, datatype, read⟩ := bind_eq_ok.mp read
      obtain ⟨_, ended, same⟩ := bind_eq_ok.mp read
      cases same
      obtain ⟨equals, fits, rfl⟩ := eq_cons_of_expect sign
      obtain ⟨semicolon, ends, rfl⟩ := eq_cons_of_expect ended
      obtain ⟨tree, rfl⟩ := (derives fuel).datatype _ _ _ datatype
      refine ⟨.node .typeDefinition (.cons (.leaf ⟨.reserved .typeWord, text, line, offset⟩ rfl)
        (.cons (.leaf ⟨.identifier, name, nameLine, nameOffset⟩ rfl) (.cons (.leaf equals fits)
          (.cons tree (.cons (.leaf semicolon ends) .nil))))), ?_⟩
      simp
    · cases read
  · rename_i text line offset rest
    simp only [Option.some.injEq] at read
    split at read
    · rename_i path pathLine pathOffset rest
      obtain ⟨_, ended, same⟩ := bind_eq_ok.mp read
      cases same
      obtain ⟨semicolon, ends, rfl⟩ := eq_cons_of_expect ended
      refine ⟨.node .importDefinition
        (.cons (.leaf ⟨.reserved .importWord, text, line, offset⟩ rfl)
          (.cons (.leaf ⟨.text, path, pathLine, pathOffset⟩ rfl)
            (.cons (.leaf semicolon ends) .nil))), ?_⟩
      simp
    · cases read
  · cases read

theorem exists_definitions_of_readEntries (fuel : Nat)
    (front : Derivation (.nonterminal .definitions)) {tokens behind : List Token}
    (read : (readEntries fuel tokens).behind = .ok behind) :
    ∃ tree : Derivation (.nonterminal .definitions),
      tree.yield ++ behind = front.yield ++ tokens := by
  induction fuel generalizing front tokens with
  | zero => cases read
  | succ fuel ih =>
      unfold readEntries at read
      split at read
      · cases read
        exact ⟨front, rfl⟩
      · cases read
      · rename_i entry rest first
        obtain ⟨definition, rfl⟩ := exists_definition_of_readEntry first
        obtain ⟨tree, whole⟩ :=
          ih (.node .moreDefinitions (.cons front (.cons definition .nil))) read
        exact ⟨tree, by simpa using whole⟩

/-- A token list that is read as a document is derivable. -/
theorem exists_interface_of_readDocument {fuel : Nat} {tokens : List Token} {document : Document}
    (read : readDocument fuel tokens = .ok document) :
    ∃ tree : Derivation (.nonterminal .interface), tree.yield = tokens := by
  unfold readDocument at read
  cases front : (readEntries fuel tokens).behind with
  | error unread =>
      simp only [front] at read
      cases read
  | ok behind =>
      simp only [front] at read
      obtain ⟨definitions, whole⟩ := exists_definitions_of_readEntries fuel
        (.node .noDefinitions (.cons (.node .empty .nil) .nil)) front
      simp only [yield_node, Derivations.yield_cons, Derivations.yield_nil, List.append_nil,
        List.nil_append] at whole
      have ended (option : Derivation (.nonterminal .actorOption))
          (yields : option.yield = behind) :
          ∃ tree : Derivation (.nonterminal .interface), tree.yield = tokens :=
        ⟨.node .interface (.cons definitions (.cons option .nil)), by simp [yields, whole]⟩
      simp only [Except.bind] at read
      split at read
      · exact ended (.node .noActor (.cons (.node .empty .nil) .nil)) rfl
      · rename_i text line offset rest
        obtain ⟨actor, service, _⟩ := map_eq_ok.mp read
        obtain ⟨option, yields⟩ :=
          exists_actorOption_of_readService ⟨.reserved .serviceWord, text, line, offset⟩ rfl service
        exact ended option yields
      · cases read

end Candid.Idl
