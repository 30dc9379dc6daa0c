import Candid.Dictionary
import Candid.Idl.Grammar
import Candid.Notice

/-!
# Interfaces

The meaning of a document: its type table, its methods and its initial arguments. A method that is
declared by the name of a function type gets that type's signature, and a service that is declared by
the name of a service type gets that type's methods; both names may be defined anywhere.
-/

set_option autoImplicit false

namespace Candid.Idl

inductive ParseError where
  | illegalCharacter (illegal : IllegalCharacter)
  | unexpectedToken (token : Token)
  | endOfInput
  | repeatedType (name : Text) (offset : Nat)
  | notFunction (method typeName : Text) (offset : Nat)
  | undefinedService (name : Text)
  deriving DecidableEq, Repr

def ParseError.message : ParseError → Text
  | .illegalCharacter ⟨character, line, offset⟩ =>
    "Illegal character '".toList ++ character :: "' at line ".toList ++ Numeral.ofNat line ++
      " (position ".toList ++ Numeral.ofNat offset ++ ")".toList
  | .unexpectedToken token =>
    "Syntax error at '".toList ++ token.text ++ "' (line ".toList ++ Numeral.ofNat token.line ++
      ", position ".toList ++ Numeral.ofNat token.offset ++ ")".toList
  | .endOfInput => "Syntax error at end of input".toList
  | .repeatedType name offset =>
    "Type '".toList ++ name ++ "' is already defined (position ".toList ++
      Numeral.ofNat offset ++ ")".toList
  | .notFunction method typeName offset =>
    "Method '".toList ++ method ++ "' refers to '".toList ++ typeName ++
      "', which is not a function type (position ".toList ++ Numeral.ofNat offset ++ ")".toList
  | .undefinedService name => "Service type '".toList ++ name ++ "' is not defined".toList

structure Interface where
  methods : List Method
  aliases : Dictionary Text
  initArgs : List Text
  deriving DecidableEq, Repr

def Interface.method? (interface : Interface) (name : Text) : Option Method :=
  interface.methods.find? (·.name == name)

def Document.definitions (document : Document) : List Definition :=
  document.entries.filterMap fun
    | .definition definition => some definition
    | .imported _ => none

/-- The document of a token stream. The first impossible token is the error; where the tokens are
used up, it is the illegal character that ended them, or the end of the input. -/
def TokenStream.document (stream : TokenStream) : Except ParseError Document :=
  match readDocument (fuelFor stream.tokens) stream.tokens, stream.stop with
  | .error (token :: _), _ => .error (.unexpectedToken token)
  | _, some illegal => .error (.illegalCharacter illegal)
  | .error [], none => .error .endOfInput
  | .ok document, none => .ok document

def typeTable (defined : Dictionary Datatype) :
    List Definition → Except ParseError (Dictionary Datatype)
  | [] => .ok defined
  | definition :: rest =>
    match Dictionary.find? definition.name defined with
    | some _ => .error (.repeatedType definition.name definition.offset)
    | none => typeTable (Dictionary.put definition.name definition.type defined) rest

def Member.method (types : Dictionary Datatype) : Member → Except ParseError Method
  | .declared label signature => .ok (.ofSignature label signature.toText)
  | .referenced label typeName offset =>
    match Dictionary.find? typeName types with
    | some (.func signature) => .ok (.ofSignature label signature.toText)
    | _ => .error (.notFunction label.unquoted typeName offset)

def ActorType.methods (types : Dictionary Datatype) :
    ActorType → Except ParseError (List Method)
  | .body members => members.mapM (·.method types)
  | .named name =>
    match Dictionary.find? name types with
    | some (.service members) => members.mapM (·.method types)
    | _ => .error (.undefinedService name)

def Document.interface (document : Document) : Except ParseError Interface := do
  let types ← typeTable [] document.definitions
  let aliases := types.map fun (name, type) => (name, type.render)
  match document.actor with
  | none => pure ⟨[], aliases, []⟩
  | some actor =>
    let methods ← actor.type.methods types
    pure ⟨methods, aliases, (fieldTexts actor.init).map (·.type)⟩

def parse (source : Text) : Except ParseError Interface := do
  let document ← (tokenStream source).document
  document.interface

/-- What parsing a source reports: its complete imports, and the sizes of the interface if it is
one. -/
def parseNotices (source : Text) : List Notice :=
  let stream := tokenStream source
  let imports := completeImports (fuelFor stream.tokens) stream.stop.isSome stream.tokens
  imports.map .importIgnored ++
    match parse source with
    | .ok interface => [.interfaceParsed interface.aliases.length interface.methods.length]
    | .error _ => []

end Candid.Idl
