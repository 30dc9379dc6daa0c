import Candid.Proofs.Grammar.Completeness
import Candid.Proofs.Grammar.Items

/-!
# Unambiguity of the grammar

A derivation is determined by its tokens. The comparison goes from left to right, so it speaks of two
trees in front of two remainders that may follow their symbol, and shows that both the trees and the
remainders agree. Lists grow at their end and are compared as lists of their items.
-/

set_option autoImplicit false

namespace Candid.Idl

/-- Behind the members of a list stands its closing token, perhaps with one separator in front. -/
def EndsMembers (separator : Separator) (rest : List Token) : Prop :=
  (∃ closing behind, rest = closing :: behind ∧ closing.kind = separator.closing) ∨
    ∃ mark closing behind, rest = mark :: closing :: behind ∧ mark.kind = separator.kind ∧
      closing.kind = separator.closing

/-- What may stand behind a sentence of a symbol, as far as its end depends on it. -/
def Follows : Symbol → List Token → Prop
  | .nonterminal .interface, rest => rest = []
  | .nonterminal .definitions, rest =>
      ∀ token ∈ rest.head?, token.kind = .reserved .serviceWord
  | .nonterminal .actorOption, rest => rest = []
  | .nonterminal .methods, rest => ∃ closing behind, rest = closing :: behind ∧
      closing.kind = .rightBrace
  | .nonterminal .modes, rest => Delimited rest
  | .nonterminal .signature, rest => Delimited rest
  | .nonterminal .datatype, rest => Delimited rest
  | .nonterminal (.member _), rest => Delimited rest
  | .nonterminal (.memberList separator), rest => EndsMembers separator rest
  | .nonterminal (.members separator), rest => ∃ closing behind, rest = closing :: behind ∧
      closing.kind = separator.closing
  | _, _ => True

theorem EndsMembers.delimited {separator : Separator} {rest : List Token}
    (ends : EndsMembers separator rest) : Delimited rest := by
  rcases ends with ⟨closing, behind, rfl, closes⟩ | ⟨mark, closing, behind, rfl, separates, _⟩
  · exact delimited_cons (by rw [closes]; cases separator <;> rfl)
  · exact delimited_cons (by rw [separates]; cases separator <;> rfl)

namespace Derivation

/-- No other tree of the symbol derives the tokens of this tree, whatever follows. -/
def Determined {symbol : Symbol} (tree : Derivation symbol) : Prop :=
  ∀ (other : Derivation symbol) (rest otherRest : List Token),
    Follows symbol rest → Follows symbol otherRest →
    tree.yield ++ rest = other.yield ++ otherRest → tree = other ∧ rest = otherRest

theorem determined_leaf {kind : TokenKind} (token : Token) (fits : token.kind = kind) :
    Determined (.leaf token fits) := by
  intro other rest otherRest _ _ same
  cases other with
  | leaf other otherFits =>
      simp only [yield_leaf, List.singleton_append, List.cons.injEq] at same
      obtain ⟨rfl, rfl⟩ := same
      exact ⟨rfl, rfl⟩

end Derivation

def Derivations.Fit : {symbols : List Symbol} → Derivations symbols → List Token → Prop
  | _, .nil, _ => True
  | symbol :: _, .cons _ others, rest => Follows symbol (others.yield ++ rest) ∧ others.Fit rest

theorem Derivations.eq_of_yield {symbols : List Symbol} {trees : Derivations symbols}
    (determined : trees.All Derivation.Determined) (others : Derivations symbols)
    {rest otherRest : List Token} (fit : trees.Fit rest) (otherFit : others.Fit otherRest)
    (same : trees.yield ++ rest = others.yield ++ otherRest) :
    trees = others ∧ rest = otherRest := by
  induction determined with
  | nil =>
      cases others
      exact ⟨rfl, same⟩
  | cons first _ ih =>
      cases others with
      | cons other others =>
          simp only [yield_cons, List.append_assoc] at same
          obtain ⟨rfl, behind⟩ := first other _ _ fit.1 otherFit.1 same
          obtain ⟨rfl, rfl⟩ := ih others fit.2 otherFit.2 behind
          exact ⟨rfl, rfl⟩

theorem Derivations.fit_of_follows {symbols : List Symbol} (trees : Derivations symbols)
    (rest : List Token) (free : ∀ symbol ∈ symbols, ∀ rest, Follows symbol rest) :
    trees.Fit rest := by
  match trees with
  | .nil => trivial
  | @Derivations.cons symbol _ _ others =>
      exact ⟨free symbol (by simp) _,
        others.fit_of_follows rest fun symbol member => free symbol (by simp [member])⟩

def Production.extends {name : Nonterminal} {right : List Symbol} : Production name right → Bool
  | .moreDefinitions => true
  | .moreMethods => true
  | .moreModes _ => true
  | .moreMembers _ => true
  | _ => false

theorem yield_actor (actor : Derivation (.nonterminal .actor)) :
    ∃ token rest, actor.yield = token :: rest ∧ token.kind = .reserved .serviceWord := by
  cases actor with
  | node production children =>
      cases production with
      | anonymousActor | namedActor =>
          match children with
          | .cons (.leaf token word) others => exact ⟨token, others.yield, rfl, word⟩

theorem head_yield_actorOption (option : Derivation (.nonterminal .actorOption)) :
    ∀ token ∈ option.yield.head?, token.kind = .reserved .serviceWord := by
  have headed (actor : Derivation (.nonterminal .actor)) (rest : List Token) :
      ∀ token ∈ (actor.yield ++ rest).head?, token.kind = .reserved .serviceWord := by
    obtain ⟨first, others, front, word⟩ := yield_actor actor
    rw [front]
    intro token same
    cases same
    exact word
  cases option with
  | node production children =>
      cases production with
      | actorBare | actorEnded =>
          match children with
          | .cons actor others => exact headed actor others.yield
      | noActor =>
          match children with
          | .cons tree .nil => simp [tree.eq_empty]

/-- What may follow a production may follow its last symbols, and each of its symbols may follow the
one before. -/
theorem Production.fit {name : Nonterminal} {right : List Symbol}
    (production : Production name right) (whole : production.extends = false)
    (children : Derivations right) {rest : List Token}
    (follows : Follows (.nonterminal name) rest) : children.Fit rest := by
  cases production with
  | moreDefinitions | moreMethods | moreModes | moreMembers => cases whole
  | interface =>
      match children with
      | .cons _ (.cons option .nil) =>
          cases follows
          refine ⟨?_, rfl, trivial⟩
          simpa [Follows] using head_yield_actorOption option
  | typeDefinition =>
      match children with
      | .cons _ (.cons _ (.cons _ (.cons _ (.cons (.leaf _ ends) .nil)))) =>
          exact ⟨trivial, trivial, trivial, delimited_cons (ends ▸ rfl), trivial, trivial⟩
  | serviceBody =>
      match children with
      | .cons _ (.cons _ (.cons (.leaf closing closes) .nil)) =>
          exact ⟨trivial, ⟨closing, rest, rfl, closes⟩, trivial, trivial⟩
  | actorInitBody =>
      match children with
      | .cons _ (.cons _ (.cons (.leaf closing closes) (.cons _ (.cons _ .nil)))) =>
          exact ⟨trivial, ⟨closing, _, rfl, closes⟩, trivial, trivial, trivial, trivial⟩
  | actorInitName =>
      match children with
      | .cons _ (.cons _ (.cons (.leaf closing closes) (.cons _ (.cons _ .nil)))) =>
          exact ⟨trivial, ⟨closing, _, rfl, closes⟩, trivial, trivial, trivial, trivial⟩
  | signatureMethod =>
      match children with
      | .cons _ (.cons _ (.cons _ (.cons (.leaf _ ends) .nil))) =>
          exact ⟨trivial, trivial, delimited_cons (ends ▸ rfl), trivial, trivial⟩
  | signature =>
      match children with
      | .cons _ (.cons _ (.cons (.leaf first closes) (.cons _ (.cons _ (.cons _
          (.cons (.leaf second recloses) (.cons _ .nil))))))) =>
          exact ⟨trivial, ⟨first, _, rfl, closes⟩, trivial, trivial, trivial,
            ⟨second, _, rfl, recloses⟩, trivial, follows, trivial⟩
  | membersBare =>
      match children with
      | .cons _ .nil => exact ⟨.inl follows, trivial⟩
  | membersEnded =>
      match children with
      | .cons _ (.cons (.leaf mark separates) .nil) =>
          obtain ⟨closing, behind, rfl, closes⟩ := follows
          exact ⟨.inr ⟨mark, closing, behind, rfl, separates, closes⟩, trivial, trivial⟩
  | oneMember =>
      match children with
      | .cons _ .nil => exact ⟨EndsMembers.delimited follows, trivial⟩
  | labelledMember =>
      match children with
      | .cons _ (.cons _ (.cons _ .nil)) => exact ⟨trivial, trivial, follows, trivial⟩
  | bareMember =>
      match children with
      | .cons _ .nil => exact ⟨follows, trivial⟩
  | funcType =>
      match children with
      | .cons _ (.cons _ .nil) => exact ⟨trivial, follows, trivial⟩
  | wrapped =>
      match children with
      | .cons _ (.cons _ .nil) => exact ⟨trivial, follows, trivial⟩
  | angled =>
      match children with
      | .cons _ (.cons _ (.cons _ (.cons (.leaf _ closes) .nil))) =>
          exact ⟨trivial, trivial, delimited_cons (closes ▸ rfl), trivial, trivial⟩
  | compound =>
      match children with
      | .cons _ (.cons _ (.cons _ (.cons (.leaf closing closes) .nil))) =>
          exact ⟨trivial, trivial, ⟨closing, rest, rfl, closes⟩, trivial, trivial⟩
  | importDefinition | actorBare | actorEnded | noActor | anonymousActor | namedActor
  | actorBody | actorName | aliasMethod | noDefinitions | noMethods | noModes | noMembers
  | typeName | serviceType | label | empty =>
      exact children.fit_of_follows rest (by simp [Follows])

namespace Derivation

/-- Two lists of items with remainders behind them agree if their tokens do: no remainder begins like
an item, and an item is determined in front of whatever may stand behind it. -/
theorem eq_of_flatMap {Item : Type} {tokens : Item → List Token} (Behind : List Token → Prop)
    {items others : List Item} {rest otherRest : List Token}
    (determined : ∀ item ∈ items, ∀ other after otherAfter, Behind after → Behind otherAfter →
      tokens item ++ after = tokens other ++ otherAfter → item = other ∧ after = otherAfter)
    (between : ∀ item after, Behind (tokens item ++ after))
    (behind : Behind rest) (otherBehind : Behind otherRest)
    (stops : ∀ item after, tokens item ++ after ≠ rest)
    (otherStops : ∀ item after, tokens item ++ after ≠ otherRest)
    (same : items.flatMap tokens ++ rest = others.flatMap tokens ++ otherRest) :
    items = others ∧ rest = otherRest := by
  have further (list : List Item) {after : List Token} (holds : Behind after) :
      Behind (list.flatMap tokens ++ after) := by
    cases list with
    | nil => exact holds
    | cons item list =>
        rw [List.flatMap_cons, List.append_assoc]
        exact between item _
  induction items generalizing others with
  | nil =>
      cases others with
      | nil => exact ⟨rfl, same⟩
      | cons other others =>
          rw [List.flatMap_cons, List.append_assoc] at same
          exact absurd same.symm (stops other _)
  | cons item items ih =>
      cases others with
      | nil =>
          rw [List.flatMap_cons, List.append_assoc] at same
          exact absurd same (otherStops item _)
      | cons other others =>
          simp only [List.flatMap_cons, List.append_assoc] at same
          obtain ⟨rfl, after⟩ := determined item (by simp) other _ _ (further items behind)
            (further others otherBehind) same
          obtain ⟨rfl, rfl⟩ := ih (fun item member => determined item (by simp [member])) after
          exact ⟨rfl, rfl⟩

theorem yield_definition (item : Derivation (.nonterminal .definition)) :
    ∃ token rest, item.yield = token :: rest ∧ token.kind ≠ .reserved .serviceWord := by
  cases item with
  | node production children =>
      cases production with
      | typeDefinition | importDefinition =>
          match children with
          | .cons (.leaf token word) others =>
              exact ⟨token, others.yield, rfl, by rw [word]; simp⟩

theorem definition_stops {rest : List Token}
    (follows : Follows (.nonterminal .definitions) rest)
    (item : Derivation (.nonterminal .definition)) (after : List Token) :
    item.yield ++ after ≠ rest := by
  rintro rfl
  obtain ⟨token, others, front, other⟩ := yield_definition item
  exact other (follows token (by rw [front]; rfl))

theorem determined_definitionList {items : List (Derivation (.nonterminal .definition))}
    (determined : ∀ item ∈ items, item.Determined) : (definitionList items).Determined := by
  intro other rest otherRest follows otherFollows same
  obtain ⟨others, rfl, _⟩ := other.listed
  rw [yield_definitionList, yield_definitionList] at same
  obtain ⟨rfl, rfl⟩ := eq_of_flatMap (fun _ => True)
    (fun item member other after otherAfter _ _ => determined item member other after otherAfter
      trivial trivial)
    (fun _ _ => trivial) trivial trivial (definition_stops follows)
    (definition_stops otherFollows) same
  exact ⟨rfl, rfl⟩

theorem method_stops {rest : List Token} (follows : Follows (.nonterminal .methods) rest)
    (item : Derivation (.nonterminal .method)) (after : List Token) :
    item.yield ++ after ≠ rest := by
  rintro rfl
  obtain ⟨closing, behind, shape, closes⟩ := follows
  have opening (label : Derivation (.nonterminal .label)) (rest : List Token) :
      label.yield ++ rest ≠ closing :: behind := by
    intro same
    obtain ⟨token, others, front, opens⟩ : Opening label.yield := label.opens
    rw [front, List.cons_append, List.cons.injEq] at same
    rw [same.1, closes] at opens
    cases opens
  cases item with
  | node production children =>
      cases production <;>
      · cases children with
        | cons label others =>
            exact opening label (others.yield ++ after) (by simpa using shape)

theorem determined_methodList {items : List (Derivation (.nonterminal .method))}
    (determined : ∀ item ∈ items, item.Determined) : (methodList items).Determined := by
  intro other rest otherRest follows otherFollows same
  obtain ⟨others, rfl, _⟩ := other.listed
  rw [yield_methodList, yield_methodList] at same
  obtain ⟨rfl, rfl⟩ := eq_of_flatMap (fun _ => True)
    (fun item member other after otherAfter _ _ => determined item member other after otherAfter
      trivial trivial)
    (fun _ _ => trivial) trivial trivial (method_stops follows)
    (method_stops otherFollows) same
  exact ⟨rfl, rfl⟩

theorem mode_stops {rest : List Token} (follows : Delimited rest) (item : ModeItem)
    (after : List Token) : item.2.yield ++ after ≠ rest := by
  rintro rfl
  match item with
  | ⟨mode, .leaf token word⟩ =>
      have ends := follows token rfl
      rw [word] at ends
      cases mode <;> cases ends

theorem modeItem_determined (item other : ModeItem) (after otherAfter : List Token)
    (same : item.2.yield ++ after = other.2.yield ++ otherAfter) :
    item = other ∧ after = otherAfter := by
  match item, other with
  | ⟨mode, .leaf token word⟩, ⟨otherMode, .leaf otherToken otherWord⟩ =>
      simp only [yield_leaf, List.singleton_append, List.cons.injEq] at same
      obtain ⟨rfl, rfl⟩ := same
      rw [word] at otherWord
      cases mode <;> cases otherMode <;> first | exact ⟨rfl, rfl⟩ | cases otherWord

theorem determined_modeList (items : List ModeItem) : (modeList items).Determined := by
  intro other rest otherRest follows otherFollows same
  obtain ⟨others, rfl⟩ := other.listed
  rw [yield_modeList, yield_modeList] at same
  obtain ⟨rfl, rfl⟩ := eq_of_flatMap (fun _ => True)
    (fun item _ other after otherAfter _ _ => modeItem_determined item other after otherAfter)
    (fun _ _ => trivial) trivial trivial (mode_stops follows) (mode_stops otherFollows) same
  exact ⟨rfl, rfl⟩

theorem furtherMember_stops {separator : Separator} {rest : List Token}
    (ends : EndsMembers separator rest) (item : FurtherMember separator) (after : List Token) :
    furtherYield item ++ after ≠ rest := by
  rintro rfl
  match item with
  | (.leaf mark separates, member) =>
      rcases ends with ⟨closing, behind, shape, closes⟩ | ⟨_, closing, behind, shape, _, closes⟩
      · simp only [furtherYield, yield_leaf, List.cons_append, List.cons.injEq] at shape
        rw [← shape.1, separates] at closes
        cases separator <;> cases closes
      · obtain ⟨token, others, front, opens⟩ : Opening member.yield := member.opens
        simp only [furtherYield, yield_leaf, List.nil_append, List.cons_append, front,
          List.cons.injEq] at shape
        rw [shape.2.1, closes] at opens
        cases separator <;> cases opens

theorem furtherMember_delimited {separator : Separator} (item : FurtherMember separator)
    (after : List Token) : Delimited (furtherYield item ++ after) := by
  match item with
  | (.leaf mark separates, member) =>
      exact delimited_cons (by rw [separates]; cases separator <;> rfl)

theorem furtherMembers_delimited {separator : Separator} (items : List (FurtherMember separator))
    {rest : List Token} (delimited : Delimited rest) :
    Delimited (items.flatMap furtherYield ++ rest) := by
  cases items with
  | nil => exact delimited
  | cons item items =>
      rw [List.flatMap_cons, List.append_assoc]
      exact furtherMember_delimited item _

theorem furtherMember_determined {separator : Separator} {item other : FurtherMember separator}
    (determined : item.2.Determined) {after otherAfter : List Token} (delimited : Delimited after)
    (otherDelimited : Delimited otherAfter)
    (same : furtherYield item ++ after = furtherYield other ++ otherAfter) :
    item = other ∧ after = otherAfter := by
  match item, other with
  | (.leaf mark separates, member), (.leaf otherMark otherSeparates, otherMember) =>
      simp only [furtherYield, yield_leaf, List.cons_append, List.cons.injEq] at same
      obtain ⟨rfl, tokens⟩ := same
      obtain ⟨rfl, rfl⟩ := determined otherMember after otherAfter delimited otherDelimited tokens
      exact ⟨rfl, rfl⟩

theorem determined_memberList {separator : Separator}
    {first : Derivation (.nonterminal (.member separator))}
    {items : List (FurtherMember separator)} (front : first.Determined)
    (determined : ∀ item ∈ items, item.2.Determined) : (memberList first items).Determined := by
  intro other rest otherRest follows otherFollows same
  obtain ⟨otherFirst, others, rfl, _⟩ := other.listed
  simp only [yield_memberList, List.append_assoc] at same
  obtain ⟨rfl, behind⟩ := front otherFirst _ _ (furtherMembers_delimited items follows.delimited)
    (furtherMembers_delimited others otherFollows.delimited) same
  obtain ⟨rfl, rfl⟩ := eq_of_flatMap Delimited
    (fun item member _ _ _ delimited otherDelimited =>
      furtherMember_determined (determined item member) delimited otherDelimited)
    furtherMember_delimited follows.delimited otherFollows.delimited
    (furtherMember_stops follows) (furtherMember_stops otherFollows) behind
  exact ⟨rfl, rfl⟩

theorem determined_of_listed {symbol : Symbol} {tree : Derivation symbol}
    (listed : tree.Listed Determined) : tree.Determined := by
  match symbol with
  | .terminal _ => exact listed
  | .nonterminal name =>
      cases name with
      | definitions =>
          obtain ⟨items, rfl, each⟩ := listed
          exact determined_definitionList each
      | methods =>
          obtain ⟨items, rfl, each⟩ := listed
          exact determined_methodList each
      | modes =>
          obtain ⟨items, rfl⟩ := listed
          exact determined_modeList items
      | memberList =>
          obtain ⟨first, items, rfl, front, each⟩ := listed
          exact determined_memberList front each
      | _ => exact listed

theorem node_eq {name : Nonterminal} {right : List Symbol} {production : Production name right}
    (whole : production.extends = false) {children : Derivations right}
    (determined : children.All Determined) (others : Derivations right)
    {rest otherRest : List Token} (follows : Follows (.nonterminal name) rest)
    (otherFollows : Follows (.nonterminal name) otherRest)
    (same : children.yield ++ rest = others.yield ++ otherRest) :
    node production children = node production others ∧ rest = otherRest := by
  obtain ⟨rfl, rfl⟩ := Derivations.eq_of_yield determined others
    (production.fit whole children follows) (production.fit whole others otherFollows) same
  exact ⟨rfl, rfl⟩

theorem ne_of_kind {token other : Token} {kind otherKind : TokenKind} (fits : token.kind = kind)
    (otherFits : other.kind = otherKind) (differ : kind ≠ otherKind) (tokens others : List Token) :
    token :: tokens ≠ other :: others := by
  intro same
  rw [List.cons.injEq] at same
  exact differ (by rw [← fits, ← otherFits, same.1])

theorem ne_of_opens {symbols : List Token} (opening : Opening symbols) {other : Token}
    {kind : TokenKind} (otherFits : other.kind = kind) (closed : kind.opens = false)
    (tokens others : List Token) : symbols ++ tokens ≠ other :: others := by
  obtain ⟨token, front, rfl, opens⟩ := opening
  refine ne_of_kind rfl otherFits ?_ _ _
  rintro same
  rw [same, closed] at opens
  cases opens

def typeFront {right : List Symbol} : Production .datatype right → TokenKind
  | .typeName => .identifier
  | .wrapped wrapper => .reserved wrapper.word
  | .angled wrapper => .reserved wrapper.word
  | .compound compound => .reserved compound.word
  | .funcType => .reserved .funcWord
  | .serviceType => .reserved .serviceWord

theorem typeFront_yield {right : List Symbol} (production : Production .datatype right)
    (children : Derivations right) :
    ∃ token rest, children.yield = token :: rest ∧ token.kind = typeFront production := by
  cases production with
  | typeName | wrapped | angled | compound | funcType | serviceType =>
      match children with
      | .cons (.leaf token fits) others => exact ⟨token, others.yield, rfl, fits⟩

theorem wrapped_ne_angled {wrapper other : Wrapper}
    (bare : Derivations [.word wrapper.word, .nonterminal .datatype])
    (angled : Derivations
      [.word other.word, .terminal .leftAngle, .nonterminal .datatype, .terminal .rightAngle])
    (rest otherRest : List Token) : bare.yield ++ rest ≠ angled.yield ++ otherRest := by
  match bare, angled with
  | .cons (.leaf _ _) (.cons inner .nil), .cons (.leaf _ _) (.cons (.leaf angle opens) others) =>
      intro same
      simp only [Derivations.yield_cons, yield_leaf, Derivations.yield_nil, List.append_nil,
        List.cons_append, List.nil_append, List.cons.injEq] at same
      exact ne_of_opens inner.opens opens rfl rest _ same.2

theorem determined_datatype {right : List Symbol} (production : Production .datatype right)
    {children : Derivations right} (determined : children.All Determined) :
    Determined (node production children) := by
  intro other rest otherRest follows otherFollows same
  cases other with
  | node otherProduction others =>
      obtain ⟨token, behind, shape, kind⟩ := typeFront_yield production children
      obtain ⟨otherToken, otherBehind, otherShape, otherKind⟩ :=
        typeFront_yield otherProduction others
      have fronts : typeFront production = typeFront otherProduction := by
        simp only [yield_node, shape, otherShape, List.cons_append, List.cons.injEq] at same
        rw [← kind, ← otherKind, same.1]
      cases production with
      | typeName | funcType | serviceType =>
          cases otherProduction with
          | typeName | funcType | serviceType =>
              first
              | exact node_eq rfl determined others follows otherFollows same
              | cases fronts
          | wrapped wrapper | angled wrapper => cases wrapper <;> cases fronts
          | compound compound => cases compound <;> cases fronts
      | wrapped wrapper =>
          cases otherProduction with
          | wrapped other =>
              cases wrapper <;> cases other <;>
                first
                | exact node_eq rfl determined others follows otherFollows same
                | cases fronts
          | angled other => exact absurd same (wrapped_ne_angled children others rest otherRest)
          | compound compound => cases wrapper <;> cases compound <;> cases fronts
          | _ => cases wrapper <;> cases fronts
      | angled wrapper =>
          cases otherProduction with
          | wrapped other =>
              exact absurd same.symm (wrapped_ne_angled others children otherRest rest)
          | angled other =>
              cases wrapper <;> cases other <;>
                first
                | exact node_eq rfl determined others follows otherFollows same
                | cases fronts
          | compound compound => cases wrapper <;> cases compound <;> cases fronts
          | _ => cases wrapper <;> cases fronts
      | compound compound =>
          cases otherProduction with
          | wrapped other | angled other => cases compound <;> cases other <;> cases fronts
          | compound other =>
              cases compound <;> cases other <;>
                first
                | exact node_eq rfl determined others follows otherFollows same
                | cases fronts
          | _ => cases compound <;> cases fronts

theorem labelled_yield
    (labelled : Derivations [.nonterminal .label, .terminal .colon, .nonterminal .datatype]) :
    ∃ name colon rest, labelled.yield = name :: colon :: rest ∧
      (∀ word, name.kind ≠ .reserved word) ∧ colon.kind = .colon := by
  match labelled with
  | .cons (.node production label) (.cons (.leaf colon separates) others) =>
      cases production with
      | label form =>
          match label with
          | .cons (.leaf name named) .nil =>
              refine ⟨name, colon, others.yield, rfl, ?_, separates⟩
              intro word
              rw [named]
              cases form <;> simp [LabelForm.kind]

theorem label_ne_bare (separator : Separator)
    (labelled : Derivations [.nonterminal .label, .terminal .colon, .nonterminal .datatype])
    (bare : Derivation (.nonterminal .datatype)) {rest : List Token} (delimited : Delimited rest)
    (otherRest : List Token) :
    (node (.labelledMember separator) labelled).yield ++ otherRest ≠ bare.yield ++ rest := by
  obtain ⟨name, colon, others, shape, named, separates⟩ := labelled_yield labelled
  intro same
  rw [yield_node, shape, List.cons_append, List.cons_append] at same
  rcases bare.yield_datatype with ⟨token, front, _⟩ | ⟨token, behind, word, front, reserved⟩
  · rw [front, List.singleton_append, List.cons.injEq] at same
    have ends := delimited colon (by rw [← same.2]; rfl)
    rw [separates] at ends
    cases ends
  · rw [front, List.cons_append, List.cons.injEq] at same
    exact named word (same.1 ▸ reserved)

theorem determined_member {separator : Separator} {right : List Symbol}
    (production : Production (.member separator) right) {children : Derivations right}
    (determined : children.All Determined) : Determined (node production children) := by
  intro other rest otherRest follows otherFollows same
  cases other with
  | node otherProduction others =>
      cases production with
      | labelledMember =>
          cases otherProduction with
          | labelledMember => exact node_eq rfl determined others follows otherFollows same
          | bareMember =>
              match others with
              | .cons bare .nil =>
                  exact absurd (by simpa using same)
                    (label_ne_bare separator children bare otherFollows rest)
      | bareMember =>
          cases otherProduction with
          | bareMember => exact node_eq rfl determined others follows otherFollows same
          | labelledMember =>
              match children with
              | .cons bare .nil =>
                  exact absurd (by simpa using same.symm)
                    (label_ne_bare separator others bare follows otherRest)

theorem determined_label {right : List Symbol} (production : Production .label right)
    {children : Derivations right} (determined : children.All Determined) :
    Determined (node production children) := by
  intro other rest otherRest follows otherFollows same
  cases other with
  | node otherProduction others =>
      cases production with
      | label form =>
          cases otherProduction with
          | label otherForm =>
              by_cases agree : form = otherForm
              · subst agree
                exact node_eq rfl determined others follows otherFollows same
              · match children, others with
                | .cons (.leaf _ fits) .nil, .cons (.leaf _ otherFits) .nil =>
                    refine absurd same (ne_of_kind fits otherFits ?_ _ _)
                    cases form <;> cases otherForm <;>
                      first
                      | exact absurd rfl agree
                      | simp [LabelForm.kind]

theorem determined_members {separator : Separator} {right : List Symbol}
    (production : Production (.members separator) right) {children : Derivations right}
    (determined : children.All Determined) : Determined (node production children) := by
  intro other rest otherRest follows otherFollows same
  obtain ⟨closing, behind, rfl, closes⟩ := follows
  obtain ⟨otherClosing, otherBehind, rfl, otherCloses⟩ := otherFollows
  have bare (token : Token) (tokens : List Token) (ends : token.kind = separator.closing) :
      EndsMembers separator (token :: tokens) := .inl ⟨token, tokens, rfl, ends⟩
  have ended (mark token : Token) (tokens : List Token) (separates : mark.kind = separator.kind)
      (ends : token.kind = separator.closing) : EndsMembers separator (mark :: token :: tokens) :=
    .inr ⟨mark, token, tokens, rfl, separates, ends⟩
  have closed : separator.closing.opens = false := by cases separator <;> rfl
  have differ : separator.closing ≠ separator.kind := by
    cases separator <;> simp [Separator.closing, Separator.kind]
  cases other with
  | node otherProduction others =>
      cases production with
      | membersBare =>
          cases otherProduction with
          | membersBare =>
              exact node_eq rfl determined others ⟨closing, behind, rfl, closes⟩
                ⟨otherClosing, otherBehind, rfl, otherCloses⟩ same
          | membersEnded =>
              rcases children with _ | ⟨list, ⟨⟩⟩
              rcases others with _ | ⟨otherList, _ | ⟨⟨mark, separates⟩, ⟨⟩⟩⟩
              obtain _ | ⟨listed, _⟩ := determined
              have tails := (listed otherList _ _ (bare closing behind closes)
                (ended mark otherClosing otherBehind separates otherCloses)
                (by simpa using same)).2
              exact absurd tails (ne_of_kind closes separates differ _ _)
          | noMembers =>
              rcases children with _ | ⟨list, ⟨⟩⟩
              rcases others with _ | ⟨_ | ⟨⟨⟩, ⟨⟩⟩, ⟨⟩⟩
              exact absurd (by simpa using same)
                (ne_of_opens list.opens otherCloses closed (closing :: behind) otherBehind)
      | membersEnded =>
          cases otherProduction with
          | membersEnded =>
              exact node_eq rfl determined others ⟨closing, behind, rfl, closes⟩
                ⟨otherClosing, otherBehind, rfl, otherCloses⟩ same
          | membersBare =>
              rcases children with _ | ⟨list, _ | ⟨⟨mark, separates⟩, ⟨⟩⟩⟩
              rcases others with _ | ⟨otherList, ⟨⟩⟩
              obtain _ | ⟨listed, _⟩ := determined
              have tails := (listed otherList _ _ (ended mark closing behind separates closes)
                (bare otherClosing otherBehind otherCloses) (by simpa using same)).2
              exact absurd tails.symm (ne_of_kind otherCloses separates differ _ _)
          | noMembers =>
              rcases children with _ | ⟨list, _ | ⟨⟨mark, separates⟩, ⟨⟩⟩⟩
              rcases others with _ | ⟨_ | ⟨⟨⟩, ⟨⟩⟩, ⟨⟩⟩
              exact absurd (by simpa using same)
                (ne_of_opens list.opens otherCloses closed (mark :: closing :: behind) otherBehind)
      | noMembers =>
          cases otherProduction with
          | noMembers =>
              exact node_eq rfl determined others ⟨closing, behind, rfl, closes⟩
                ⟨otherClosing, otherBehind, rfl, otherCloses⟩ same
          | membersBare =>
              rcases children with _ | ⟨_ | ⟨⟨⟩, ⟨⟩⟩, ⟨⟩⟩
              rcases others with _ | ⟨list, ⟨⟩⟩
              exact absurd (by simpa using same.symm)
                (ne_of_opens list.opens closes closed (otherClosing :: otherBehind) behind)
          | membersEnded =>
              rcases children with _ | ⟨_ | ⟨⟨⟩, ⟨⟩⟩, ⟨⟩⟩
              rcases others with _ | ⟨list, _ | ⟨⟨mark, separates⟩, ⟨⟩⟩⟩
              exact absurd (by simpa using same.symm)
                (ne_of_opens list.opens closes closed (mark :: otherClosing :: otherBehind) behind)

theorem signature_ne_name (signature : Derivation (.nonterminal .signature)) {name : Token}
    (fits : name.kind = .identifier) (rest otherRest : List Token) :
    signature.yield ++ rest ≠ name :: otherRest := by
  obtain ⟨token, others, front, opens⟩ := signature.yield_signature
  rw [front]
  exact ne_of_kind opens fits (by simp) _ _

theorem determined_method {right : List Symbol} (production : Production .method right)
    {children : Derivations right} (determined : children.All Determined) :
    Determined (node production children) := by
  intro other rest otherRest follows otherFollows same
  cases other with
  | node otherProduction others =>
      cases production with
      | signatureMethod =>
          cases otherProduction with
          | signatureMethod => exact node_eq rfl determined others follows otherFollows same
          | aliasMethod =>
              rcases children with _ | ⟨label, _ | ⟨⟨colon, separates⟩, _ | ⟨signature, _ | ⟨_, ⟨⟩⟩⟩⟩⟩
              rcases others with _ | ⟨otherLabel, _ | ⟨⟨_, _⟩, _ | ⟨⟨name, fits⟩, _⟩⟩⟩
              obtain _ | ⟨labelled, _⟩ := determined
              have tails := (labelled otherLabel _ _ trivial trivial (by simpa using same)).2
              rw [List.cons.injEq] at tails
              exact absurd tails.2 (signature_ne_name signature fits _ _)
      | aliasMethod =>
          cases otherProduction with
          | aliasMethod => exact node_eq rfl determined others follows otherFollows same
          | signatureMethod =>
              rcases children with _ | ⟨label, _ | ⟨⟨_, _⟩, _ | ⟨⟨name, fits⟩, _⟩⟩⟩
              rcases others with
                _ | ⟨otherLabel, _ | ⟨⟨colon, separates⟩, _ | ⟨signature, _ | ⟨_, ⟨⟩⟩⟩⟩⟩
              obtain _ | ⟨labelled, _⟩ := determined
              have tails := (labelled otherLabel _ _ trivial trivial (by simpa using same)).2
              rw [List.cons.injEq] at tails
              exact absurd tails.2.symm (signature_ne_name signature fits _ _)

theorem determined_definition {right : List Symbol} (production : Production .definition right)
    {children : Derivations right} (determined : children.All Determined) :
    Determined (node production children) := by
  intro other rest otherRest follows otherFollows same
  match other with
  | .node otherProduction others =>
      cases production with
      | typeDefinition =>
          cases otherProduction with
          | typeDefinition => exact node_eq rfl determined others follows otherFollows same
          | importDefinition =>
              match children, others with
              | .cons (.leaf _ word) _, .cons (.leaf _ otherWord) _ =>
                  exact absurd same (ne_of_kind word otherWord (by simp) _ _)
      | importDefinition =>
          cases otherProduction with
          | importDefinition => exact node_eq rfl determined others follows otherFollows same
          | typeDefinition =>
              match children, others with
              | .cons (.leaf _ word) _, .cons (.leaf _ otherWord) _ =>
                  exact absurd same (ne_of_kind word otherWord (by simp) _ _)

def actorFront {right : List Symbol} : Production .actorType right → TokenKind
  | .actorBody => .leftBrace
  | .actorName => .identifier
  | .actorInitBody => .leftParen
  | .actorInitName => .leftParen

theorem serviceBody_yield (body : Derivation (.nonterminal .serviceBody)) :
    ∃ token rest, body.yield = token :: rest ∧ token.kind = .leftBrace := by
  cases body with
  | node production children =>
      cases production with
      | serviceBody =>
          match children with
          | .cons (.leaf token opens) others => exact ⟨token, others.yield, rfl, opens⟩

theorem actorFront_yield {right : List Symbol} (production : Production .actorType right)
    (children : Derivations right) :
    ∃ token rest, children.yield = token :: rest ∧ token.kind = actorFront production := by
  cases production with
  | actorBody =>
      match children with
      | .cons body .nil =>
          obtain ⟨token, rest, shape, opens⟩ := serviceBody_yield body
          exact ⟨token, rest, by simp [shape], opens⟩
  | actorName | actorInitBody | actorInitName =>
      match children with
      | .cons (.leaf token fits) others => exact ⟨token, others.yield, rfl, fits⟩

theorem initBody_ne_initName
    {withBody : Derivations
      [.terminal .leftParen, .nonterminal (.members .comma), .terminal .rightParen,
        .terminal .arrow, .nonterminal .serviceBody]}
    {withName : Derivations
      [.terminal .leftParen, .nonterminal (.members .comma), .terminal .rightParen,
        .terminal .arrow, .terminal .identifier]}
    (determined : withBody.All Determined ∨ withName.All Determined) (rest otherRest : List Token) :
    withBody.yield ++ rest ≠ withName.yield ++ otherRest := by
  intro same
  match withBody, withName with
  | .cons (.leaf _ _) (.cons init (.cons (.leaf paren closes) (.cons (.leaf arrow _)
      (.cons body .nil)))),
    .cons (.leaf _ _) (.cons otherInit (.cons (.leaf otherParen otherCloses)
      (.cons (.leaf otherArrow _) (.cons (.leaf name fits) .nil)))) =>
      simp only [Derivations.yield_cons, yield_leaf, Derivations.yield_nil, List.append_nil,
        List.append_assoc, List.cons_append, List.nil_append, List.cons.injEq] at same
      obtain ⟨_, same⟩ := same
      have tails : paren :: arrow :: (body.yield ++ rest) =
          otherParen :: otherArrow :: name :: otherRest := by
        rcases determined with members | members
        · cases members with
          | cons _ members =>
              cases members with
              | cons init _ =>
                  exact (init _ _ _ ⟨_, _, rfl, closes⟩ ⟨_, _, rfl, otherCloses⟩ same).2
        · cases members with
          | cons _ members =>
              cases members with
              | cons init _ =>
                  exact (init _ _ _ ⟨_, _, rfl, otherCloses⟩ ⟨_, _, rfl, closes⟩
                    same.symm).2.symm
      obtain ⟨token, behind, shape, opens⟩ := serviceBody_yield body
      simp only [shape, List.cons_append, List.cons.injEq] at tails
      have clash := fits
      rw [← tails.2.2.1, opens] at clash
      cases clash

theorem determined_actorType {right : List Symbol} (production : Production .actorType right)
    {children : Derivations right} (determined : children.All Determined) :
    Determined (node production children) := by
  intro other rest otherRest follows otherFollows same
  match other with
  | .node otherProduction others =>
      obtain ⟨token, behind, shape, kind⟩ := actorFront_yield production children
      obtain ⟨otherToken, otherBehind, otherShape, otherKind⟩ :=
        actorFront_yield otherProduction others
      have fronts : actorFront production = actorFront otherProduction := by
        simp only [yield_node, shape, otherShape, List.cons_append, List.cons.injEq] at same
        rw [← kind, ← otherKind, same.1]
      cases production <;> cases otherProduction <;>
        first
        | exact node_eq rfl determined others follows otherFollows same
        | exact absurd same (initBody_ne_initName (.inl determined) rest otherRest)
        | exact absurd same.symm (initBody_ne_initName (.inr determined) otherRest rest)
        | cases fronts

theorem determined_actor {right : List Symbol} (production : Production .actor right)
    {children : Derivations right} (determined : children.All Determined) :
    Determined (node production children) := by
  have clash (anonymous : Derivations
        [.word .serviceWord, .terminal .colon, .nonterminal .actorType])
      (named : Derivations
        [.word .serviceWord, .terminal .identifier, .terminal .colon, .nonterminal .actorType])
      (rest otherRest : List Token) : anonymous.yield ++ rest ≠ named.yield ++ otherRest := by
    rcases anonymous with _ | ⟨⟨_, _⟩, _ | ⟨⟨_, separates⟩, _⟩⟩
    rcases named with _ | ⟨⟨_, _⟩, _ | ⟨⟨_, fits⟩, _⟩⟩
    intro same
    simp only [Derivations.yield_cons, yield_leaf, List.cons_append, List.nil_append,
      List.cons.injEq] at same
    exact ne_of_kind separates fits (by simp) _ _ (List.cons.injEq .. ▸ same.2)
  intro other rest otherRest follows otherFollows same
  cases other with
  | node otherProduction others =>
      cases production with
      | anonymousActor =>
          cases otherProduction with
          | anonymousActor => exact node_eq rfl determined others follows otherFollows same
          | namedActor => exact absurd same (clash children others rest otherRest)
      | namedActor =>
          cases otherProduction with
          | anonymousActor => exact absurd same.symm (clash others children otherRest rest)
          | namedActor => exact node_eq rfl determined others follows otherFollows same

theorem actor_yield (actor : Derivation (.nonterminal .actor)) : actor.yield ≠ [] := by
  obtain ⟨token, rest, front, _⟩ := yield_actor actor
  simp [front]

theorem determined_actorOption {right : List Symbol} (production : Production .actorOption right)
    {children : Derivations right} (determined : children.All Determined) :
    Determined (node production children) := by
  intro other rest otherRest follows otherFollows same
  cases follows
  cases otherFollows
  cases other with
  | node otherProduction others =>
      cases production with
      | actorBare =>
          cases otherProduction with
          | actorBare => exact node_eq rfl determined others rfl rfl same
          | actorEnded =>
              rcases children with _ | ⟨actor, ⟨⟩⟩
              rcases others with _ | ⟨otherActor, _ | ⟨⟨mark, _⟩, ⟨⟩⟩⟩
              obtain _ | ⟨known, _⟩ := determined
              cases (known otherActor [] [mark] trivial trivial (by simpa using same)).2
          | noActor =>
              rcases children with _ | ⟨actor, ⟨⟩⟩
              rcases others with _ | ⟨_ | ⟨⟨⟩, ⟨⟩⟩, ⟨⟩⟩
              exact absurd (by simpa using same) actor.actor_yield
      | actorEnded =>
          cases otherProduction with
          | actorBare =>
              rcases children with _ | ⟨actor, _ | ⟨⟨mark, _⟩, ⟨⟩⟩⟩
              rcases others with _ | ⟨otherActor, ⟨⟩⟩
              obtain _ | ⟨known, _⟩ := determined
              cases (known otherActor [mark] [] trivial trivial (by simpa using same)).2
          | actorEnded => exact node_eq rfl determined others rfl rfl same
          | noActor =>
              rcases children with _ | ⟨actor, _ | ⟨⟨_, _⟩, ⟨⟩⟩⟩
              rcases others with _ | ⟨_ | ⟨⟨⟩, ⟨⟩⟩, ⟨⟩⟩
              simp at same
      | noActor =>
          cases otherProduction with
          | actorBare =>
              rcases children with _ | ⟨_ | ⟨⟨⟩, ⟨⟩⟩, ⟨⟩⟩
              rcases others with _ | ⟨actor, ⟨⟩⟩
              exact absurd (by simpa using same.symm) actor.actor_yield
          | actorEnded =>
              rcases children with _ | ⟨_ | ⟨⟨⟩, ⟨⟩⟩, ⟨⟩⟩
              rcases others with _ | ⟨actor, _ | ⟨⟨_, _⟩, ⟨⟩⟩⟩
              simp at same
          | noActor => exact node_eq rfl determined others rfl rfl same

/-- The induction over a tree: its children are determined, and a list is compared by its items. -/
theorem listed_determined {symbol : Symbol} (tree : Derivation symbol) :
    tree.Listed Determined := by
  refine listed_of_step determined_leaf (fun production children single listed => ?_) tree
  have determined : children.All Determined := listed.imp determined_of_listed
  cases production with
  | noDefinitions | moreDefinitions | noMethods | moreMethods | noModes | moreModes | oneMember
  | moreMembers => cases single
  | typeDefinition => exact determined_definition _ determined
  | importDefinition => exact determined_definition _ determined
  | actorBare | actorEnded | noActor => exact determined_actorOption _ determined
  | anonymousActor | namedActor => exact determined_actor _ determined
  | actorBody | actorName | actorInitBody | actorInitName =>
      exact determined_actorType _ determined
  | signatureMethod | aliasMethod => exact determined_method _ determined
  | membersBare | membersEnded | noMembers => exact determined_members _ determined
  | labelledMember | bareMember => exact determined_member _ determined
  | typeName | wrapped | angled | compound | funcType | serviceType =>
      exact determined_datatype _ determined
  | label => exact determined_label _ determined
  | interface | serviceBody | signature | empty =>
      intro other rest otherRest follows otherFollows same
      cases other with
      | node otherProduction others =>
          cases otherProduction
          exact node_eq rfl determined others follows otherFollows same

/-- A token list has at most one derivation. -/
theorem unique {tree other : Derivation (.nonterminal .interface)}
    (same : tree.yield = other.yield) : tree = other :=
  (determined_of_listed tree.listed_determined other [] [] rfl rfl (by rw [same])).1

end Derivation

end Candid.Idl
