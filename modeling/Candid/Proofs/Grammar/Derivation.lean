import Candid.Idl.Token
import Candid.Idl.Method

/-!
# Grammar of interface descriptions

The productions of the grammar as a family over their two sides, and the derivation trees that they
span. A tree carries the tokens at its leaves, so its frontier is the token list that it derives.
Members of records and of argument lists have productions of one shape, and differ only in the token
between neighbours.
-/

set_option autoImplicit false

namespace Candid.Idl

/-- What stands between the members of a list: commas in argument lists, semicolons in bodies. -/
inductive Separator where
  | comma
  | semicolon
  deriving DecidableEq, Repr

def Separator.kind : Separator → TokenKind
  | .comma => .comma
  | .semicolon => .semicolon

def Separator.closing : Separator → TokenKind
  | .comma => .rightParen
  | .semicolon => .rightBrace

inductive Wrapper where
  | opt
  | vec
  deriving DecidableEq, Repr

def Wrapper.word : Wrapper → Reserved
  | .opt => .optWord
  | .vec => .vecWord

inductive Compound where
  | record
  | variant
  deriving DecidableEq, Repr

def Compound.word : Compound → Reserved
  | .record => .recordWord
  | .variant => .variantWord

def Mode.word : Mode → Reserved
  | .query => .queryWord
  | .compositeQuery => .compositeQueryWord
  | .oneway => .onewayWord

inductive LabelForm where
  | identifier
  | text
  | number
  deriving DecidableEq, Repr

def LabelForm.kind : LabelForm → TokenKind
  | .identifier => .identifier
  | .text => .text
  | .number => .number

inductive Nonterminal where
  | interface
  | definitions
  | definition
  | actorOption
  | actor
  | actorType
  | serviceBody
  | methods
  | method
  | signature
  | modes
  | members (separator : Separator)
  | memberList (separator : Separator)
  | member (separator : Separator)
  | datatype
  | label
  | empty
  deriving DecidableEq, Repr

inductive Symbol where
  | terminal (kind : TokenKind)
  | nonterminal (name : Nonterminal)
  deriving DecidableEq, Repr

namespace Symbol

abbrev word (reserved : Reserved) : Symbol :=
  .terminal (.reserved reserved)

end Symbol

open Candid.Idl.Symbol (word terminal nonterminal) in
inductive Production : Nonterminal → List Symbol → Type where
  | interface :
      Production .interface [nonterminal .definitions, nonterminal .actorOption]
  | moreDefinitions :
      Production .definitions [nonterminal .definitions, nonterminal .definition]
  | noDefinitions : Production .definitions [nonterminal .empty]
  | typeDefinition :
      Production .definition
        [word .typeWord, terminal .identifier, terminal .equals, nonterminal .datatype,
          terminal .semicolon]
  | importDefinition :
      Production .definition [word .importWord, terminal .text, terminal .semicolon]
  | actorBare : Production .actorOption [nonterminal .actor]
  | actorEnded : Production .actorOption [nonterminal .actor, terminal .semicolon]
  | noActor : Production .actorOption [nonterminal .empty]
  | anonymousActor :
      Production .actor [word .serviceWord, terminal .colon, nonterminal .actorType]
  | namedActor :
      Production .actor
        [word .serviceWord, terminal .identifier, terminal .colon, nonterminal .actorType]
  | actorBody : Production .actorType [nonterminal .serviceBody]
  | actorName : Production .actorType [terminal .identifier]
  | actorInitBody :
      Production .actorType
        [terminal .leftParen, nonterminal (.members .comma), terminal .rightParen,
          terminal .arrow, nonterminal .serviceBody]
  | actorInitName :
      Production .actorType
        [terminal .leftParen, nonterminal (.members .comma), terminal .rightParen,
          terminal .arrow, terminal .identifier]
  | serviceBody :
      Production .serviceBody
        [terminal .leftBrace, nonterminal .methods, terminal .rightBrace]
  | moreMethods : Production .methods [nonterminal .methods, nonterminal .method]
  | noMethods : Production .methods [nonterminal .empty]
  | signatureMethod :
      Production .method
        [nonterminal .label, terminal .colon, nonterminal .signature, terminal .semicolon]
  | aliasMethod :
      Production .method
        [nonterminal .label, terminal .colon, terminal .identifier, terminal .semicolon]
  | signature :
      Production .signature
        [terminal .leftParen, nonterminal (.members .comma), terminal .rightParen,
          terminal .arrow, terminal .leftParen, nonterminal (.members .comma),
          terminal .rightParen, nonterminal .modes]
  | moreModes (mode : Mode) : Production .modes [nonterminal .modes, word mode.word]
  | noModes : Production .modes [nonterminal .empty]
  | membersBare (separator : Separator) :
      Production (.members separator) [nonterminal (.memberList separator)]
  | membersEnded (separator : Separator) :
      Production (.members separator)
        [nonterminal (.memberList separator), terminal separator.kind]
  | noMembers (separator : Separator) : Production (.members separator) [nonterminal .empty]
  | oneMember (separator : Separator) :
      Production (.memberList separator) [nonterminal (.member separator)]
  | moreMembers (separator : Separator) :
      Production (.memberList separator)
        [nonterminal (.memberList separator), terminal separator.kind,
          nonterminal (.member separator)]
  | labelledMember (separator : Separator) :
      Production (.member separator)
        [nonterminal .label, terminal .colon, nonterminal .datatype]
  | bareMember (separator : Separator) :
      Production (.member separator) [nonterminal .datatype]
  | typeName : Production .datatype [terminal .identifier]
  | wrapped (wrapper : Wrapper) :
      Production .datatype [word wrapper.word, nonterminal .datatype]
  | angled (wrapper : Wrapper) :
      Production .datatype
        [word wrapper.word, terminal .leftAngle, nonterminal .datatype, terminal .rightAngle]
  | compound (compound : Compound) :
      Production .datatype
        [word compound.word, terminal .leftBrace, nonterminal (.members .semicolon),
          terminal .rightBrace]
  | funcType : Production .datatype [word .funcWord, nonterminal .signature]
  | serviceType : Production .datatype [word .serviceWord, nonterminal .serviceBody]
  | label (form : LabelForm) : Production .label [terminal form.kind]
  | empty : Production .empty []

mutual

/-- A derivation tree of a symbol. A leaf is a token of the terminal's kind, and an inner node one
production with a tree for each symbol of its right side. -/
inductive Derivation : Symbol → Type where
  | leaf {kind : TokenKind} (token : Token) (fits : token.kind = kind) :
      Derivation (.terminal kind)
  | node {name : Nonterminal} {right : List Symbol} (production : Production name right)
      (children : Derivations right) : Derivation (.nonterminal name)

inductive Derivations : List Symbol → Type where
  | nil : Derivations []
  | cons {symbol : Symbol} {symbols : List Symbol} (first : Derivation symbol)
      (others : Derivations symbols) : Derivations (symbol :: symbols)

end

theorem Derivation.eq_empty (tree : Derivation (.nonterminal .empty)) : tree = .node .empty .nil := by
  cases tree with
  | node production children =>
      cases production
      cases children
      rfl

theorem Derivation.exists_labelLeaf (label : Derivation (.nonterminal .label)) :
    ∃ (form : LabelForm) (token : Token) (fits : token.kind = form.kind),
      label = .node (.label form) (.cons (.leaf token fits) .nil) := by
  cases label with
  | node production children =>
      cases production with
      | label form =>
          match children with
          | .cons (.leaf token fits) .nil => exact ⟨form, token, fits, rfl⟩

def Derivation.token {kind : TokenKind} : Derivation (.terminal kind) → Token
  | .leaf token _ => token

def Derivations.first {symbol : Symbol} {symbols : List Symbol} :
    Derivations (symbol :: symbols) → Derivation symbol
  | .cons first _ => first

def Derivations.others {symbol : Symbol} {symbols : List Symbol} :
    Derivations (symbol :: symbols) → Derivations symbols
  | .cons _ others => others

mutual

def Derivation.yield : {symbol : Symbol} → Derivation symbol → List Token
  | _, .leaf token _ => [token]
  | _, .node _ children => children.yield

def Derivations.yield : {symbols : List Symbol} → Derivations symbols → List Token
  | _, .nil => []
  | _, .cons first others => first.yield ++ others.yield

end

@[simp] theorem Derivation.yield_leaf {kind : TokenKind} (token : Token)
    (fits : token.kind = kind) : (Derivation.leaf token fits).yield = [token] := rfl

@[simp] theorem Derivation.yield_node {name : Nonterminal} {right : List Symbol}
    (production : Production name right) (children : Derivations right) :
    (Derivation.node production children).yield = children.yield := rfl

@[simp] theorem Derivations.yield_nil : Derivations.nil.yield = [] := rfl

@[simp] theorem Derivations.yield_cons {symbol : Symbol} {symbols : List Symbol}
    (first : Derivation symbol) (others : Derivations symbols) :
    (Derivations.cons first others).yield = first.yield ++ others.yield := rfl

inductive Derivations.All (property : {symbol : Symbol} → Derivation symbol → Prop) :
    {symbols : List Symbol} → Derivations symbols → Prop where
  | nil : All property .nil
  | cons {symbol : Symbol} {symbols : List Symbol} {first : Derivation symbol}
      {others : Derivations symbols} :
      property first → All property others → All property (.cons first others)

theorem Derivations.All.imp {property other : {symbol : Symbol} → Derivation symbol → Prop}
    {symbols : List Symbol} {trees : Derivations symbols} (all : trees.All property)
    (implies : ∀ {symbol : Symbol} {tree : Derivation symbol}, property tree → other tree) :
    trees.All other := by
  induction all with
  | nil => exact .nil
  | cons first _ ih => exact .cons (implies first) ih

mutual

/-- Induction over derivation trees: a property of every leaf that each production passes on from the
children to the node holds of every tree. -/
theorem Derivation.induction {property : {symbol : Symbol} → Derivation symbol → Prop}
    (leaf : ∀ {kind : TokenKind} (token : Token) (fits : token.kind = kind),
      property (.leaf token fits))
    (node : ∀ {name : Nonterminal} {right : List Symbol} (production : Production name right)
      (children : Derivations right), children.All property → property (.node production children)) :
    {symbol : Symbol} → (tree : Derivation symbol) → property tree
  | _, .leaf token fits => leaf token fits
  | _, .node production children =>
      node production children (Derivations.induction leaf node children)

theorem Derivations.induction {property : {symbol : Symbol} → Derivation symbol → Prop}
    (leaf : ∀ {kind : TokenKind} (token : Token) (fits : token.kind = kind),
      property (.leaf token fits))
    (node : ∀ {name : Nonterminal} {right : List Symbol} (production : Production name right)
      (children : Derivations right), children.All property → property (.node production children)) :
    {symbols : List Symbol} → (trees : Derivations symbols) → trees.All property
  | _, .nil => .nil
  | _, .cons first others =>
      .cons (Derivation.induction leaf node first) (Derivations.induction leaf node others)

end

/-- The values of the symbols of a right side: a terminal has its token, and a nonterminal a value
of its own type. -/
def Values (Value : Nonterminal → Type) : List Symbol → Type
  | [] => Unit
  | .terminal _ :: symbols => Token × Values Value symbols
  | .nonterminal name :: symbols => Value name × Values Value symbols

/-- What is computed at the nodes of derivation trees: a type for each nonterminal, and for each
production the value of its node from the tokens of the node and the values of its children. -/
structure Attribution where
  Value : Nonterminal → Type
  action {name : Nonterminal} {right : List Symbol} :
    Production name right → List Token → Values Value right → Value name

def Attribution.SymbolValue (attribution : Attribution) : Symbol → Type
  | .terminal _ => Token
  | .nonterminal name => attribution.Value name

mutual

def Derivation.value (attribution : Attribution) :
    {symbol : Symbol} → Derivation symbol → attribution.SymbolValue symbol
  | _, .leaf token _ => token
  | _, .node production children =>
      attribution.action production children.yield (children.values attribution)

def Derivations.values (attribution : Attribution) :
    {symbols : List Symbol} → Derivations symbols → Values attribution.Value symbols
  | _, .nil => ()
  | .terminal _ :: _, .cons first others =>
      (first.value attribution, others.values attribution)
  | .nonterminal _ :: _, .cons first others =>
      (first.value attribution, others.values attribution)

end

end Candid.Idl
