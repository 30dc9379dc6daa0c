import Candid.Idl.Datatype
import Candid.Idl.Lexer

/-!
# Reading datatypes and documents

A predictive reader of token lists. Every choice is made by the next token, or by the next two where
a name may be a label. A failure is the list of tokens from the first one that cannot stand at its
place; it is empty where the list ends too early.
-/

set_option autoImplicit false

namespace Candid.Idl

/-- The tokens from the first impossible one on. -/
abbrev Unread := List Token

def expect (kind : TokenKind) : List Token → Except Unread (List Token)
  | [] => .error []
  | token :: rest => if token.kind = kind then .ok rest else .error (token :: rest)

def readModes : List Token → List Mode × List Token
  | ⟨.reserved .queryWord, _, _, _⟩ :: rest =>
    let (modes, behind) := readModes rest
    (.query :: modes, behind)
  | ⟨.reserved .compositeQueryWord, _, _, _⟩ :: rest =>
    let (modes, behind) := readModes rest
    (.compositeQuery :: modes, behind)
  | ⟨.reserved .onewayWord, _, _, _⟩ :: rest =>
    let (modes, behind) := readModes rest
    (.oneway :: modes, behind)
  | tokens => ([], tokens)

def readLabel : List Token → Except Unread (Text × List Token)
  | ⟨.identifier, label, _, _⟩ :: rest => .ok (label, rest)
  | ⟨.text, label, _, _⟩ :: rest => .ok (label, rest)
  | ⟨.number, label, _, _⟩ :: rest => .ok (label, rest)
  | tokens => .error tokens

mutual

def readDatatype : (fuel : Nat) → List Token → Except Unread (Datatype × List Token)
  | 0, tokens => .error tokens
  | fuel + 1, tokens =>
    match tokens with
    | ⟨.identifier, name, _, _⟩ :: rest => .ok (.name name, rest)
    | ⟨.reserved .optWord, _, _, _⟩ :: rest => do
      let (inner, behind) ← readWrapped fuel rest
      pure (.opt inner, behind)
    | ⟨.reserved .vecWord, _, _, _⟩ :: rest => do
      let (inner, behind) ← readWrapped fuel rest
      pure (.vec inner, behind)
    | ⟨.reserved .recordWord, _, _, _⟩ :: rest => do
      let start ← expect .leftBrace rest
      let (fields, behind) ← readFields .semicolon .rightBrace fuel start
      pure (.record fields, behind)
    | ⟨.reserved .variantWord, _, _, _⟩ :: rest => do
      let start ← expect .leftBrace rest
      let (fields, behind) ← readFields .semicolon .rightBrace fuel start
      pure (.variant fields, behind)
    | ⟨.reserved .funcWord, _, _, _⟩ :: rest => do
      let (signature, behind) ← readSignature fuel rest
      pure (.func signature, behind)
    | ⟨.reserved .serviceWord, _, _, _⟩ :: rest => do
      let start ← expect .leftBrace rest
      let (members, behind) ← readMembers fuel start
      pure (.service members, behind)
    | _ => .error tokens

def readWrapped : (fuel : Nat) → List Token → Except Unread (Datatype × List Token)
  | 0, tokens => .error tokens
  | fuel + 1, tokens =>
    match tokens with
    | ⟨.leftAngle, _, _, _⟩ :: rest => do
      let (inner, behind) ← readDatatype fuel rest
      let behind ← expect .rightAngle behind
      pure (inner, behind)
    | _ => readDatatype fuel tokens

/-- Reads a member with or without a label. A name is a label exactly when a colon follows it. -/
def readField : (fuel : Nat) → List Token → Except Unread (Field × List Token)
  | 0, tokens => .error tokens
  | fuel + 1, tokens =>
    let labelled (label : Text) (start : List Token) : Except Unread (Field × List Token) := do
      let (type, behind) ← readDatatype fuel start
      pure (.mk (some label) type, behind)
    match tokens with
    | ⟨.identifier, label, _, _⟩ :: ⟨.colon, _, _, _⟩ :: rest => labelled label rest
    | ⟨.text, label, _, _⟩ :: rest => do labelled label (← expect .colon rest)
    | ⟨.number, label, _, _⟩ :: rest => do labelled label (← expect .colon rest)
    | _ => do
      let (type, behind) ← readDatatype fuel tokens
      pure (.mk none type, behind)

/-- Reads members up to the closing token, with a separator between neighbours and at most one
behind the last. -/
def readFields (separator closing : TokenKind) :
    (fuel : Nat) → List Token → Except Unread (List Field × List Token)
  | 0, tokens => .error tokens
  | fuel + 1, tokens =>
    match expect closing tokens with
    | .ok behind => .ok ([], behind)
    | .error _ => do
      let (field, behind) ← readField fuel tokens
      match expect separator behind with
      | .ok rest => do
        let (others, behind) ← readFields separator closing fuel rest
        pure (field :: others, behind)
      | .error _ => do
        let behind ← expect closing behind
        pure ([field], behind)

def readSignature : (fuel : Nat) → List Token → Except Unread (Signature × List Token)
  | 0, tokens => .error tokens
  | fuel + 1, tokens => do
    let start ← expect .leftParen tokens
    let (args, behind) ← readFields .comma .rightParen fuel start
    let behind ← expect .arrow behind
    let start ← expect .leftParen behind
    let (results, behind) ← readFields .comma .rightParen fuel start
    let (modes, behind) := readModes behind
    pure (.mk args results modes, behind)

def readMembers : (fuel : Nat) → List Token → Except Unread (List Member × List Token)
  | 0, tokens => .error tokens
  | fuel + 1, tokens =>
    match expect .rightBrace tokens with
    | .ok behind => .ok ([], behind)
    | .error _ => do
      let (label, behind) ← readLabel tokens
      let start ← expect .colon behind
      let (member, behind) ← (match start with
        | ⟨.identifier, typeName, _, offset⟩ :: rest =>
          Except.ok (Member.referenced label typeName offset, rest)
        | _ => do
          let (signature, behind) ← readSignature fuel start
          pure (Member.declared label signature, behind))
      let rest ← expect .semicolon behind
      let (others, behind) ← readMembers fuel rest
      pure (member :: others, behind)

end

/-- What a document declares its service to be: methods of its own, or a named service type. -/
inductive ActorType where
  | body (members : List Member)
  | named (name : Text)

structure Actor where
  init : List Field
  type : ActorType

structure Definition where
  name : Text
  type : Datatype
  offset : Nat

inductive Entry where
  | definition (definition : Definition)
  | imported (path : Text)

structure Document where
  entries : List Entry
  actor : Option Actor

def readActorType (fuel : Nat) (tokens : List Token) :
    Except Unread (ActorType × List Token) :=
  match tokens with
  | ⟨.leftBrace, _, _, _⟩ :: rest => do
    let (members, behind) ← readMembers fuel rest
    pure (.body members, behind)
  | ⟨.identifier, name, _, _⟩ :: rest => .ok (.named name, rest)
  | _ => .error tokens

def readActor (fuel : Nat) (tokens : List Token) : Except Unread (Actor × List Token) :=
  match tokens with
  | ⟨.leftParen, _, _, _⟩ :: rest => do
    let (init, behind) ← readFields .comma .rightParen fuel rest
    let start ← expect .arrow behind
    let (type, behind) ← readActorType fuel start
    pure (⟨init, type⟩, behind)
  | _ => do
    let (type, behind) ← readActorType fuel tokens
    pure (⟨[], type⟩, behind)

def readEnd (tokens : List Token) : Except Unread Unit :=
  match tokens with
  | [] => .ok ()
  | [⟨.semicolon, _, _, _⟩] => .ok ()
  | ⟨.semicolon, _, _, _⟩ :: rest => .error rest
  | _ => .error tokens

def readService (fuel : Nat) (tokens : List Token) : Except Unread Actor := do
  let rest :=
    match tokens with
    | ⟨.identifier, _, _, _⟩ :: rest => rest
    | _ => tokens
  let start ← expect .colon rest
  let (actor, behind) ← readActor fuel start
  readEnd behind
  pure actor

def readEntry? (fuel : Nat) : List Token → Option (Except Unread (Entry × List Token))
  | ⟨.reserved .typeWord, _, _, _⟩ :: rest =>
    some (match rest with
      | ⟨.identifier, name, _, offset⟩ :: rest => do
        let start ← expect .equals rest
        let (type, behind) ← readDatatype fuel start
        let behind ← expect .semicolon behind
        pure (.definition ⟨name, type, offset⟩, behind)
      | _ => .error rest)
  | ⟨.reserved .importWord, _, _, _⟩ :: rest =>
    some (match rest with
      | ⟨.text, path, _, _⟩ :: rest => do
        let behind ← expect .semicolon rest
        pure (.imported path, behind)
      | _ => .error rest)
  | _ => none

/-- The entries in front, and the tokens behind the last, unless an entry fails. -/
structure Entries where
  entries : List Entry
  behind : Except Unread (List Token)

def readEntries : (fuel : Nat) → List Token → Entries
  | 0, tokens => ⟨[], .error tokens⟩
  | fuel + 1, tokens =>
    match readEntry? fuel tokens with
    | none => ⟨[], .ok tokens⟩
    | some (.error unread) => ⟨[], .error unread⟩
    | some (.ok (entry, rest)) =>
      let others := readEntries fuel rest
      ⟨entry :: others.entries, others.behind⟩

def readDocument (fuel : Nat) (tokens : List Token) : Except Unread Document :=
  let front := readEntries fuel tokens
  front.behind.bind fun
    | [] => .ok ⟨front.entries, none⟩
    | ⟨.reserved .serviceWord, _, _, _⟩ :: rest =>
      (readService fuel rest).map fun actor => ⟨front.entries, some actor⟩
    | unread => .error unread

/-- The imports that are known to be complete, in order. An entry is complete once the token behind it
is seen to be possible; `cut` says that the tokens end before the source does. -/
def completeImports (fuel : Nat) (cut : Bool) (tokens : List Token) : List Text :=
  let front := readEntries fuel tokens
  let complete : List Entry :=
    match front.behind with
    | .error _ => front.entries
    | .ok [] => if cut then front.entries.dropLast else front.entries
    | .ok (token :: _) =>
      if token.kind = .reserved .serviceWord then front.entries else front.entries.dropLast
  complete.filterMap fun
    | .imported path => some path
    | .definition _ => none

/-- Fuel that suffices for a token list: between two tokens at most three readers are entered. -/
def fuelFor (tokens : List Token) : Nat :=
  4 * tokens.length + 4

end Candid.Idl
