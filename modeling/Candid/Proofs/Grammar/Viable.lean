import Candid.Proofs.Grammar.Soundness

/-!
# Viable fronts

A front of a sentence is viable: tokens can be added behind it until it is a sentence. Every symbol of
the grammar has a sentence, so a production that is derived up to some symbol can always be completed.
A reader that refuses a token has therefore seen a viable front: no impossible token is ever taken.
-/

set_option autoImplicit false

namespace Candid.Idl

open Candid.Idl.Derivation

section Productive

theorem nonempty_terminal (kind : TokenKind) : Nonempty (Derivation (.terminal kind)) :=
  ⟨.leaf ⟨kind, [], 0, 0⟩ rfl⟩

theorem nonempty_derivations {symbols : List Symbol}
    (each : ∀ symbol ∈ symbols, Nonempty (Derivation symbol)) : Nonempty (Derivations symbols) := by
  induction symbols with
  | nil => exact ⟨.nil⟩
  | cons symbol symbols ih =>
      obtain ⟨first⟩ := each symbol List.mem_cons_self
      obtain ⟨others⟩ := ih fun other member => each other (List.mem_cons_of_mem _ member)
      exact ⟨.cons first others⟩

theorem nonempty_node {name : Nonterminal} {right : List Symbol} (production : Production name right)
    (each : ∀ symbol ∈ right, Nonempty (Derivation symbol)) :
    Nonempty (Derivation (.nonterminal name)) := by
  obtain ⟨children⟩ := nonempty_derivations each
  exact ⟨.node production children⟩

theorem nonempty_derivation (symbol : Symbol) : Nonempty (Derivation symbol) := by
  -- In this order every production needs symbols that have a sentence already.
  have empty := nonempty_node .empty (by simp)
  have label := nonempty_node (.label .identifier) (by simp [nonempty_terminal])
  have datatype := nonempty_node .typeName (by simp [nonempty_terminal])
  have members (separator : Separator) := nonempty_node (.noMembers separator) (by simp [empty])
  have member (separator : Separator) := nonempty_node (.bareMember separator) (by simp [datatype])
  have methods := nonempty_node .noMethods (by simp [empty])
  have modes := nonempty_node .noModes (by simp [empty])
  have definitions := nonempty_node .noDefinitions (by simp [empty])
  have actorOption := nonempty_node .noActor (by simp [empty])
  have actorType := nonempty_node .actorName (by simp [nonempty_terminal])
  cases symbol with
  | terminal kind => exact nonempty_terminal kind
  | nonterminal name =>
      cases name with
      | interface => exact nonempty_node .interface (by simp [definitions, actorOption])
      | definitions => exact definitions
      | definition => exact nonempty_node .importDefinition (by simp [nonempty_terminal])
      | actorOption => exact actorOption
      | actor => exact nonempty_node .anonymousActor (by simp [nonempty_terminal, actorType])
      | actorType => exact actorType
      | serviceBody => exact nonempty_node .serviceBody (by simp [nonempty_terminal, methods])
      | methods => exact methods
      | method => exact nonempty_node .aliasMethod (by simp [nonempty_terminal, label])
      | signature =>
          exact nonempty_node .signature (by simp [nonempty_terminal, members, modes])
      | modes => exact modes
      | members separator => exact members separator
      | memberList separator => exact nonempty_node (.oneMember separator) (by simp [member])
      | member separator => exact member separator
      | datatype => exact datatype
      | label => exact label
      | empty => exact empty

end Productive

def Derivations.append : {symbols others : List Symbol} → Derivations symbols →
    Derivations others → Derivations (symbols ++ others)
  | [], _, .nil, behind => behind
  | _ :: _, _, .cons first rest, behind => .cons first (rest.append behind)

theorem Derivations.yield_append {symbols others : List Symbol} (trees : Derivations symbols)
    (behind : Derivations others) :
    (trees.append behind).yield = trees.yield ++ behind.yield := by
  induction symbols with
  | nil =>
      match trees with
      | .nil => rfl
  | cons symbol symbols ih =>
      match trees with
      | .cons first rest =>
          rw [yield_cons, List.append_assoc, ← ih]
          rfl

/-- The tokens can be continued to sentences of the symbols, one after the other. -/
def Begins (symbols : List Symbol) (front : List Token) : Prop :=
  ∃ trees : Derivations symbols, front <+: trees.yield

namespace Begins

variable {symbol : Symbol} {symbols others : List Symbol} {front : List Token}

theorem nil (symbols : List Symbol) : Begins symbols [] := by
  obtain ⟨trees⟩ := nonempty_derivations fun symbol (_ : symbol ∈ symbols) =>
    nonempty_derivation symbol
  exact ⟨trees, List.nil_prefix⟩

theorem leaf {kind : TokenKind} {token : Token} (fits : token.kind = kind)
    (begins : Begins symbols front) : Begins (.terminal kind :: symbols) (token :: front) := by
  obtain ⟨trees, behind⟩ := begins
  exact ⟨.cons (.leaf token fits) trees, List.cons_prefix_cons.mpr ⟨rfl, behind⟩⟩

theorem behind (tree : Derivation symbol) (begins : Begins symbols front) :
    Begins (symbol :: symbols) (tree.yield ++ front) := by
  obtain ⟨trees, inside⟩ := begins
  exact ⟨.cons tree trees, (List.prefix_append_right_inj _).mpr inside⟩

theorem append (begins : Begins symbols front) (others : List Symbol) :
    Begins (symbols ++ others) front := by
  obtain ⟨trees, inside⟩ := begins
  obtain ⟨behind, _⟩ := Begins.nil others
  refine ⟨trees.append behind, ?_⟩
  rw [Derivations.yield_append]
  exact inside.trans (List.prefix_append _ _)

theorem node {name : Nonterminal} {right : List Symbol} (production : Production name right)
    (begins : Begins right front) : Begins [.nonterminal name] front := by
  obtain ⟨children, inside⟩ := begins
  exact ⟨.cons (.node production children) .nil, by simpa using inside⟩

end Begins

/-- Where the outcome is a failure, the tokens in front of the refused one have the property. -/
def Stops {α : Type} (viable : List Token → Prop) (tokens : List Token)
    (outcome : Except Unread α) : Prop :=
  ∀ unread, outcome = .error unread → ∃ front, front ++ unread = tokens ∧ viable front

namespace Stops

variable {α β : Type} {viable other : List Token → Prop} {tokens : List Token}
  {outcome : Except Unread α} {next : α → Except Unread β}

theorem ok (value : α) : Stops viable tokens (.ok value) := by
  intro unread refused
  cases refused

theorem here (start : viable []) : Stops viable tokens (.error tokens : Except Unread α) := by
  intro unread refused
  cases refused
  exact ⟨[], rfl, start⟩

theorem refused {unread : Unread} (stops : Stops viable tokens (.error unread : Except Unread α)) :
    Stops viable tokens (.error unread : Except Unread β) := by
  intro other same
  cases same
  exact stops unread rfl

theorem imp (implies : ∀ front, other front → viable front) (stops : Stops other tokens outcome) :
    Stops viable tokens outcome := by
  intro unread refused
  obtain ⟨front, shape, holds⟩ := stops unread refused
  exact ⟨front, shape, implies front holds⟩

theorem shift (taken : List Token) {behind : List Token} (shape : taken ++ behind = tokens)
    (stops : Stops (fun front => viable (taken ++ front)) behind outcome) :
    Stops viable tokens outcome := by
  intro unread refused
  obtain ⟨front, rfl, holds⟩ := stops unread refused
  exact ⟨taken ++ front, by rw [← shape, List.append_assoc], holds⟩

theorem bind (first : Stops viable tokens outcome)
    (further : ∀ value, outcome = .ok value → Stops viable tokens (next value)) :
    Stops viable tokens (outcome >>= next) := by
  cases outcome with
  | error unread =>
      intro other refused
      cases refused
      exact first unread rfl
  | ok value => exact further value rfl

theorem map (build : α → β) (stops : Stops viable tokens outcome) :
    Stops viable tokens (do let value ← outcome; pure (build value)) :=
  stops.bind fun _ _ => .ok _

theorem node {name : Nonterminal} {right : List Symbol} (production : Production name right)
    (stops : Stops (Begins right) tokens outcome) :
    Stops (Begins [.nonterminal name]) tokens outcome :=
  stops.imp fun _ begins => begins.node production

variable {symbol : Symbol} {symbols : List Symbol}

theorem leaf {token : Token} {kind : TokenKind} {rest : List Token} (fits : token.kind = kind)
    (stops : Stops (Begins symbols) rest outcome) :
    Stops (Begins (.terminal kind :: symbols)) (token :: rest) outcome :=
  shift [token] rfl (stops.imp fun _ begins => begins.leaf fits)

theorem subtree (tree : Derivation symbol) {behind : List Token}
    (shape : tree.yield ++ behind = tokens) (stops : Stops (Begins symbols) behind outcome) :
    Stops (Begins (symbol :: symbols)) tokens outcome :=
  shift tree.yield shape (stops.imp fun _ begins => begins.behind tree)

theorem first (stops : Stops (Begins [symbol]) tokens outcome) :
    Stops (Begins (symbol :: symbols)) tokens outcome :=
  stops.imp fun _ begins => begins.append symbols

/-- An expected token that is missing is refused in its place. -/
theorem expect {kind : TokenKind} {next : List Token → Except Unread α} (start : viable [])
    (further : ∀ token rest, token.kind = kind →
      Stops (fun front => viable (token :: front)) rest (next rest)) :
    Stops viable tokens (Idl.expect kind tokens >>= next) := by
  cases tokens with
  | nil => exact .here start
  | cons token rest =>
      by_cases fits : token.kind = kind
      · rw [Idl.expect, if_pos fits]
        exact shift [token] rfl (further token rest fits)
      · rw [Idl.expect, if_neg fits]
        exact .here start

theorem terminal {kind : TokenKind} {next : List Token → Except Unread α}
    (further : ∀ rest, Stops (Begins symbols) rest (next rest)) :
    Stops (Begins (.terminal kind :: symbols)) tokens (Idl.expect kind tokens >>= next) :=
  expect (.nil _) fun _ rest fits => (further rest).imp fun _ begins => begins.leaf fits

end Stops

/-- Where the readers with some fuel refuse a token, a viable front stands before it. -/
structure StopsViable (fuel : Nat) : Prop where
  datatype (tokens : List Token) :
    Stops (Begins [.nonterminal .datatype]) tokens (readDatatype fuel tokens)
  wrapped (tokens : List Token) :
    Stops (fun front => Begins [.nonterminal .datatype] front ∨
      Begins [.terminal .leftAngle, .nonterminal .datatype, .terminal .rightAngle] front) tokens
      (readWrapped fuel tokens)
  field (separator : Separator) (tokens : List Token) :
    Stops (Begins [.nonterminal (.member separator)]) tokens (readField fuel tokens)
  fields (separator : Separator) (front tokens : List Token) : MembersFront separator front →
    Stops (fun more => Begins [.nonterminal (.members separator), .terminal separator.closing]
      (front ++ more)) tokens (readFields separator.kind separator.closing fuel tokens)
  signature (tokens : List Token) :
    Stops (Begins [.nonterminal .signature]) tokens (readSignature fuel tokens)
  members (front : Derivation (.nonterminal .methods)) (tokens : List Token) :
    Stops (fun more => Begins [.nonterminal .methods, .terminal .rightBrace] (front.yield ++ more))
      tokens (readMembers fuel tokens)

section Step

variable {fuel : Nat}

theorem StopsViable.enclosed {α : Type} (inner : StopsViable fuel) (separator : Separator)
    {symbols : List Symbol} {tokens : List Token} {next : List Field × List Token → Except Unread α}
    (further : ∀ fields behind, Stops (Begins symbols) behind (next (fields, behind))) :
    Stops (Begins (.nonterminal (.members separator) :: .terminal separator.closing :: symbols))
      tokens (readFields separator.kind separator.closing fuel tokens >>= next) := by
  refine Stops.bind ?_ fun (fields, behind) read => ?_
  · refine (inner.fields separator [] tokens (.inl rfl)).imp fun front begins => ?_
    exact begins.append symbols
  · obtain ⟨tree, closing, closes, whole⟩ :=
      (derives fuel).fields separator [] tokens behind fields (.inl rfl) read
    exact Stops.subtree _ whole ((further fields behind).leaf closes)

theorem StopsViable.body {α : Type} (inner : StopsViable fuel) (tokens : List Token)
    (build : List Member × List Token → α) :
    Stops (Begins [.nonterminal .serviceBody]) tokens (do
      let start ← expect .leftBrace tokens
      let read ← readMembers fuel start
      pure (build read)) := by
  refine Stops.node .serviceBody (Stops.terminal fun start => ?_)
  exact (inner.members (.node .noMethods (.cons (.node .empty .nil) .nil)) start).map build

theorem begins_wrapper (wrapper : Wrapper) (text : Text) (line offset : Nat) {front : List Token}
    (begins : Begins [.nonterminal .datatype] front ∨
      Begins [.terminal .leftAngle, .nonterminal .datatype, .terminal .rightAngle] front) :
    Begins [.nonterminal .datatype] (⟨.reserved wrapper.word, text, line, offset⟩ :: front) := by
  rcases begins with bare | angled
  · exact Begins.node (.wrapped wrapper) (bare.leaf rfl)
  · exact Begins.node (.angled wrapper) (angled.leaf rfl)

theorem stops_datatype (inner : StopsViable fuel) (tokens : List Token) :
    Stops (Begins [.nonterminal .datatype]) tokens (readDatatype (fuel + 1) tokens) := by
  have wrapped (wrapper : Wrapper) (text : Text) (line offset : Nat) (rest : List Token) :
      Stops (Begins [.nonterminal .datatype])
        (⟨.reserved wrapper.word, text, line, offset⟩ :: rest) (readWrapped fuel rest) :=
    Stops.shift [_] rfl
      ((inner.wrapped rest).imp fun _ => begins_wrapper wrapper text line offset)
  have compound (compound : Compound) (text : Text) (line offset : Nat) (rest : List Token)
      (build : List Field × List Token → Datatype × List Token) :
      Stops (Begins [.nonterminal .datatype])
        (⟨.reserved compound.word, text, line, offset⟩ :: rest)
        (do
          let start ← expect .leftBrace rest
          let read ← readFields .semicolon .rightBrace fuel start
          pure (build read)) := by
    refine Stops.node (.compound compound) (Stops.leaf rfl (Stops.terminal fun start => ?_))
    exact inner.enclosed .semicolon fun fields behind => .ok _
  unfold readDatatype
  split
  · exact .ok _
  · exact (wrapped .opt _ _ _ _).map _
  · exact (wrapped .vec _ _ _ _).map _
  · exact compound .record _ _ _ _ _
  · exact compound .variant _ _ _ _ _
  · exact Stops.node .funcType (Stops.leaf rfl ((inner.signature _).map _))
  · exact Stops.node .serviceType (Stops.leaf rfl (inner.body _ _))
  · exact .here (.nil _)

theorem stops_wrapped (inner : StopsViable fuel) (tokens : List Token) :
    Stops (fun front => Begins [.nonterminal .datatype] front ∨
      Begins [.terminal .leftAngle, .nonterminal .datatype, .terminal .rightAngle] front) tokens
      (readWrapped (fuel + 1) tokens) := by
  unfold readWrapped
  split
  · rename_i text line offset rest
    refine Stops.imp (fun front => .inr) (Stops.leaf rfl ?_)
    refine Stops.bind (inner.datatype rest).first ?_
    rintro ⟨type, behind⟩ read
    obtain ⟨tree, whole⟩ := (derives fuel).datatype rest behind type read
    exact Stops.subtree _ whole (Stops.terminal fun _ => .ok _)
  · exact (inner.datatype tokens).imp fun _ => .inl

theorem stops_field (inner : StopsViable fuel) (separator : Separator) (tokens : List Token) :
    Stops (Begins [.nonterminal (.member separator)]) tokens (readField (fuel + 1) tokens) := by
  have labelled (form : LabelForm) (text : Text) (line offset : Nat) (rest : List Token) :
      Stops (Begins [.nonterminal (.member separator)])
        (⟨form.kind, text, line, offset⟩ :: rest)
        (do
          let start ← expect .colon rest
          let type ← readDatatype fuel start
          pure (Field.mk (some text) type.1, type.2)) := by
    let label : Derivation (.nonterminal .label) :=
      .node (.label form) (.cons (.leaf ⟨form.kind, text, line, offset⟩ rfl) .nil)
    refine Stops.node (.labelledMember separator) (Stops.subtree label rfl ?_)
    exact Stops.terminal fun start => (inner.datatype start).map _
  unfold readField
  simp only
  split
  · rename_i text line offset mark colonLine colonOffset rest
    exact labelled .identifier text line offset (⟨.colon, mark, colonLine, colonOffset⟩ :: rest)
  · exact labelled .text _ _ _ _
  · exact labelled .number _ _ _ _
  · exact Stops.node (.bareMember separator) ((inner.datatype tokens).map _)

theorem MembersFront.begins {separator : Separator} {front more : List Token}
    (before : MembersFront separator front)
    (begins : Begins [.nonterminal (.member separator)] more) :
    Begins [.nonterminal (.members separator), .terminal separator.closing] (front ++ more) := by
  refine (Begins.node (.membersBare separator) ?_).append [.terminal separator.closing]
  rcases before with rfl | ⟨list, token, separates, rfl⟩
  · exact begins.node (.oneMember separator)
  · rw [List.append_assoc]
    exact Begins.node (.moreMembers separator) ((begins.leaf separates).behind list)

theorem stops_fields (inner : StopsViable fuel) (separator : Separator) (front tokens : List Token)
    (before : MembersFront separator front) :
    Stops (fun more => Begins [.nonterminal (.members separator), .terminal separator.closing]
      (front ++ more)) tokens (readFields separator.kind separator.closing (fuel + 1) tokens) := by
  unfold readFields
  split
  · exact .ok _
  · refine Stops.bind ((inner.field separator tokens).imp fun _ => before.begins) ?_
    rintro ⟨field, behind⟩ read
    obtain ⟨member, rfl⟩ := (derives fuel).field separator tokens behind field read
    -- With the member that was read the front is a whole list, and a separator opens it again.
    obtain ⟨list, whole⟩ := before.further member
    refine Stops.shift _ rfl ?_
    simp only [← List.append_assoc, ← whole]
    split
    · rename_i rest separated
      obtain ⟨token, separates, rfl⟩ := eq_cons_of_expect separated
      have others := inner.fields separator (list.yield ++ [token]) rest
        (.inr ⟨list, token, separates, rfl⟩)
      simp only [List.append_assoc] at others
      exact (Stops.shift [token] rfl others).map _
    · let bare : Derivation (.nonterminal (.members separator)) :=
        .node (.membersBare separator) (.cons list .nil)
      refine Stops.expect ?_ fun _ _ _ => .ok _
      simpa [bare] using (Begins.nil [.terminal separator.closing]).behind bare

theorem stops_signature (inner : StopsViable fuel) (tokens : List Token) :
    Stops (Begins [.nonterminal .signature]) tokens (readSignature (fuel + 1) tokens) := by
  unfold readSignature
  refine Stops.node .signature (Stops.terminal fun start => ?_)
  refine inner.enclosed .comma fun args behind => ?_
  refine Stops.terminal fun behind => Stops.terminal fun start => ?_
  exact inner.enclosed .comma fun results behind => .ok _

theorem stops_label (tokens : List Token) :
    Stops (Begins [.nonterminal .label]) tokens (readLabel tokens) := by
  unfold readLabel
  split
  · exact .ok _
  · exact .ok _
  · exact .ok _
  · exact .here (.nil _)

def MethodFront (front : Derivation (.nonterminal .methods))
    (label : Derivation (.nonterminal .label)) (colon : Token) (more : List Token) : Prop :=
  Begins [.nonterminal .methods, .terminal .rightBrace] (front.yield ++ (label.yield ++ colon :: more))

section Method

variable {front : Derivation (.nonterminal .methods)} {label : Derivation (.nonterminal .label)}
  {colon : Token} {symbol : Symbol}

theorem begins_method {more : List Token} (begins : Begins [.nonterminal .method] more) :
    Begins [.nonterminal .methods, .terminal .rightBrace] (front.yield ++ more) :=
  (Begins.node .moreMethods (begins.behind front)).append [.terminal .rightBrace]

theorem begins_methodFront (separates : colon.kind = .colon)
    (production : Production .method
      [.nonterminal .label, .terminal .colon, symbol, .terminal .semicolon])
    {more : List Token} (begins : Begins [symbol, .terminal .semicolon] more) :
    MethodFront front label colon more :=
  begins_method (Begins.node production ((begins.leaf separates).behind label))

/-- What declares a method is in front; its semicolon and further methods are read. -/
theorem StopsViable.ended (inner : StopsViable fuel) (separates : colon.kind = .colon)
    (production : Production .method
      [.nonterminal .label, .terminal .colon, symbol, .terminal .semicolon])
    (tree : Derivation symbol) (behind : List Token) (member : Member) :
    Stops (fun more => MethodFront front label colon (tree.yield ++ more)) behind (do
      let rest ← expect .semicolon behind
      let (others, behind) ← readMembers fuel rest
      pure (member :: others, behind)) := by
  refine Stops.expect ?_ fun semicolon rest ends => ?_
  · exact begins_methodFront separates production ((Begins.nil _).behind tree)
  · let method : Derivation (.nonterminal .method) := .node production
      (.cons label (.cons (.leaf colon separates) (.cons tree (.cons (.leaf semicolon ends) .nil))))
    have others := inner.members (.node .moreMethods (.cons front (.cons method .nil))) rest
    simp only [method, yield_node, Derivations.yield_cons, yield_leaf, Derivations.yield_nil,
      List.append_nil, List.append_assoc, List.cons_append, List.nil_append] at others
    exact others.map _

end Method

theorem stops_members (inner : StopsViable fuel) (front : Derivation (.nonterminal .methods))
    (tokens : List Token) :
    Stops (fun more => Begins [.nonterminal .methods, .terminal .rightBrace] (front.yield ++ more))
      tokens (readMembers (fuel + 1) tokens) := by
  unfold readMembers
  split
  · exact .ok _
  · refine Stops.bind ?_ ?_
    · refine (stops_label tokens).imp fun more begins => begins_method ?_
      exact Begins.node .signatureMethod (begins.append _)
    rintro ⟨spelling, behind⟩ labelled
    obtain ⟨label, rfl⟩ := exists_label_of_readLabel labelled
    refine Stops.shift _ rfl (Stops.expect ?_ fun colon start separates => ?_)
    · exact begins_method (Begins.node .signatureMethod ((Begins.nil _).behind label))
    · show Stops (MethodFront front label colon) start _
      split
      · rename_i typeName line offset rest
        let name : Derivation (.terminal .identifier) :=
          .leaf ⟨.identifier, typeName, line, offset⟩ rfl
        exact Stops.shift name.yield rfl (inner.ended separates .aliasMethod name rest _)
      · simp only [bind_assoc]
        refine Stops.bind ?_ ?_
        · refine (inner.signature start).imp fun more begins => ?_
          exact begins_methodFront separates .signatureMethod (begins.append _)
        rintro ⟨signature, behind⟩ read
        obtain ⟨tree, rfl⟩ := (derives fuel).signature start behind signature read
        exact Stops.shift _ rfl (inner.ended separates .signatureMethod tree behind _)

theorem stops_viable (fuel : Nat) : StopsViable fuel := by
  -- Without fuel the first token is refused, and the empty front is viable.
  induction fuel with
  | zero =>
      exact {
        datatype := fun _ => .here (.nil _)
        wrapped := fun _ => .here (.inl (.nil _))
        field := fun _ _ => .here (.nil _)
        fields := fun _ _ _ before => .here (before.begins (.nil _))
        signature := fun _ => .here (.nil _)
        members := fun _ _ => .here (begins_method (.nil _)) }
  | succ fuel inner =>
      exact {
        datatype := stops_datatype inner
        wrapped := stops_wrapped inner
        field := stops_field inner
        fields := stops_fields inner
        signature := stops_signature inner
        members := stops_members inner }

end Step

section Document

variable {fuel : Nat}

theorem stops_actorType (tokens : List Token) :
    Stops (fun front => Begins [.nonterminal .serviceBody] front ∨
      Begins [.terminal .identifier] front) tokens (readActorType fuel tokens) := by
  unfold readActorType
  split
  · rename_i text line offset rest
    have body := (stops_viable fuel).body (⟨.leftBrace, text, line, offset⟩ :: rest)
      fun read => (ActorType.body read.1, read.2)
    exact body.imp fun _ => .inl
  · exact .ok _
  · exact .here (.inl (.nil _))

theorem stops_actor (tokens : List Token) :
    Stops (Begins [.nonterminal .actorType]) tokens (readActor fuel tokens) := by
  unfold readActor
  split
  · rename_i text line offset rest
    refine Stops.bind ?_ ?_
    · refine Stops.node .actorInitName (Stops.leaf rfl ?_)
      refine ((stops_viable fuel).fields .comma [] rest (.inl rfl)).imp fun more begins => ?_
      exact begins.append [.terminal .arrow, .terminal .identifier]
    rintro ⟨init, behind⟩ read
    obtain ⟨tree, closing, closes, rfl⟩ :=
      (derives fuel).fields .comma [] rest behind init (.inl rfl) read
    let opening : Token := ⟨.leftParen, text, line, offset⟩
    have begins {symbol : Symbol} (production : Production .actorType
        [.terminal .leftParen, .nonterminal (.members .comma), .terminal .rightParen,
          .terminal .arrow, symbol]) {more : List Token}
        (further : Begins [.terminal .arrow, symbol] more) :
        Begins [.nonterminal .actorType] (opening :: (tree.yield ++ [closing]) ++ more) := by
      have opens : opening.kind = .leftParen := rfl
      simpa using (((further.leaf closes).behind tree).leaf opens).node production
    have whole : opening :: (tree.yield ++ [closing]) ++ behind =
        opening :: (tree.yield ++ closing :: behind) := by simp
    refine Stops.shift _ whole ?_
    refine Stops.expect (begins .actorInitName (.nil _)) fun arrow start points => ?_
    refine Stops.map _ ((stops_actorType start).imp ?_)
    rintro front (body | name)
    · exact begins .actorInitBody (body.leaf points)
    · exact begins .actorInitName (name.leaf points)
  · refine Stops.map _ ((stops_actorType tokens).imp ?_)
    rintro front (body | name)
    · exact body.node .actorBody
    · exact name.node .actorName

theorem stops_end (service : Derivation (.nonterminal .actor)) (tokens : List Token) :
    Stops (fun more => Begins [.nonterminal .actorOption] (service.yield ++ more)) tokens
      (readEnd tokens) := by
  unfold readEnd
  split
  · exact .ok _
  · exact .ok _
  · rename_i text line offset rest _
    have semicolon : Begins [.terminal .semicolon] [⟨.semicolon, text, line, offset⟩] :=
      (Begins.nil []).leaf rfl
    exact Stops.shift [_] rfl (Stops.here (Begins.node .actorEnded (semicolon.behind service)))
  · have bare : Begins [.nonterminal .actor] (service.yield ++ []) := (Begins.nil []).behind service
    exact .here (bare.node .actorBare)

theorem stops_service {keyword : Token} (word : keyword.kind = .reserved .serviceWord)
    (tokens : List Token) :
    Stops (fun front => Begins [.nonterminal .actorOption] (keyword :: front)) tokens
      (readService fuel tokens) := by
  have ended (service : Derivation (.nonterminal .actorType) → Derivation (.nonterminal .actor))
      (lead : List Token) (yields : ∀ type, (service type).yield = lead ++ type.yield)
      (begins : ∀ more, Begins [.nonterminal .actorType] more →
        Begins [.nonterminal .actor] (lead ++ more)) (start : List Token) :
      Stops (fun more => Begins [.nonterminal .actorOption] (lead ++ more)) start (do
        let read ← readActor fuel start
        readEnd read.2
        pure read.1) := by
    refine Stops.bind ((stops_actor start).imp fun more type => (begins more type).node .actorBare) ?_
    rintro ⟨actor, behind⟩ read
    obtain ⟨type, rfl⟩ := exists_actorType_of_readActor read
    refine Stops.shift _ rfl ?_
    simp only [← List.append_assoc, ← yields]
    exact (stops_end (service type) behind).map _
  unfold readService
  simp only
  split
  · rename_i name line offset rest
    let leaf : Derivation (.terminal .identifier) := .leaf ⟨.identifier, name, line, offset⟩ rfl
    refine Stops.shift leaf.yield rfl (Stops.expect ?_ fun colon start separates => ?_)
    · exact Begins.node .actorBare (Begins.node .namedActor
        (((Begins.nil _).behind leaf).leaf word))
    · let service (type : Derivation (.nonterminal .actorType)) : Derivation (.nonterminal .actor) :=
        .node .namedActor (.cons (.leaf keyword word) (.cons leaf (.cons (.leaf colon separates)
          (.cons type .nil))))
      exact ended service (keyword :: (leaf.yield ++ [colon])) (by simp [service, leaf])
        (fun more type => Begins.node .namedActor (((type.leaf separates).behind leaf).leaf word))
        start
  · refine Stops.expect ?_ fun colon start separates => ?_
    · exact Begins.node .actorBare (Begins.node .anonymousActor ((Begins.nil _).leaf word))
    · let service (type : Derivation (.nonterminal .actorType)) : Derivation (.nonterminal .actor) :=
        .node .anonymousActor (.cons (.leaf keyword word) (.cons (.leaf colon separates)
          (.cons type .nil)))
      exact ended service [keyword, colon] (by simp [service])
        (fun more type => Begins.node .anonymousActor ((type.leaf separates).leaf word)) start

theorem stops_entry {tokens : List Token} {outcome : Except Unread (Entry × List Token)}
    (begins : readEntry? fuel tokens = some outcome) :
    Stops (Begins [.nonterminal .definition]) tokens outcome := by
  unfold readEntry? at begins
  split at begins
  · cases begins
    split
    · refine Stops.node .typeDefinition (Stops.leaf rfl (Stops.leaf rfl ?_))
      refine Stops.terminal fun start => Stops.bind ((stops_viable fuel).datatype start).first ?_
      rintro ⟨type, behind⟩ read
      obtain ⟨tree, whole⟩ := (derives fuel).datatype start behind type read
      exact Stops.subtree tree whole (Stops.terminal fun _ => .ok _)
    · exact Stops.node .typeDefinition (Stops.leaf rfl (.here (.nil _)))
  · cases begins
    split
    · refine Stops.node .importDefinition (Stops.leaf rfl (Stops.leaf rfl ?_))
      exact Stops.terminal fun _ => .ok _
    · exact Stops.node .importDefinition (Stops.leaf rfl (.here (.nil _)))
  · cases begins

theorem stops_entries (fuel : Nat) (front : Derivation (.nonterminal .definitions))
    (tokens : List Token) :
    Stops (fun more => Begins [.nonterminal .definitions, .nonterminal .actorOption]
      (front.yield ++ more)) tokens (readEntries fuel tokens).behind := by
  -- The definitions that were read stay in front, as a tree that each further one makes larger.
  induction fuel generalizing front tokens with
  | zero => exact .here ((Begins.nil _).behind front)
  | succ fuel ih =>
      unfold readEntries
      split
      · exact .ok _
      · rename_i refused
        refine (stops_entry refused).refused.imp fun more begins => ?_
        exact (Begins.node .moreDefinitions (begins.behind front)).append _
      · rename_i entry rest read
        obtain ⟨definition, rfl⟩ := exists_definition_of_readEntry read
        have others := ih (.node .moreDefinitions (.cons front (.cons definition .nil))) rest
        refine Stops.shift _ rfl (others.imp fun more begins => ?_)
        simpa using begins

/-- A token list that is no document is refused behind a viable front. -/
theorem stops_document (fuel : Nat) (tokens : List Token) :
    Stops (Begins [.nonterminal .interface]) tokens (readDocument fuel tokens) := by
  unfold readDocument
  refine Stops.node .interface (Stops.bind ?_ ?_)
  · exact stops_entries fuel (.node .noDefinitions (.cons (.node .empty .nil) .nil)) tokens
  intro behind read
  obtain ⟨definitions, whole⟩ := exists_definitions_of_readEntries fuel
    (.node .noDefinitions (.cons (.node .empty .nil) .nil)) read
  refine Stops.subtree definitions whole ?_
  split
  · exact .ok _
  · rename_i text line offset rest
    have service : Stops (Begins [.nonterminal .actorOption])
        (⟨.reserved .serviceWord, text, line, offset⟩ :: rest) (readService fuel rest) :=
      Stops.shift [_] rfl (stops_service rfl rest)
    exact service.map _
  · exact .here (.nil _)

end Document

end Candid.Idl
