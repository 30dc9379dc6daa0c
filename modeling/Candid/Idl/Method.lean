import Candid.Text.Basic

/-!
# Methods

A service method with its argument and result types as text, and the written form of its signature.
-/

set_option autoImplicit false

namespace Candid.Idl

inductive Mode where
  | query
  | compositeQuery
  | oneway
  deriving DecidableEq, Repr

def Mode.text : Mode → Text
  | .query => "query".toList
  | .compositeQuery => "composite_query".toList
  | .oneway => "oneway".toList

/-- How a method is called: as an update, or in the strongest of its modes. -/
inductive MethodKind where
  | update
  | annotated (mode : Mode)
  deriving DecidableEq, Repr

namespace MethodKind

/-- The kind that a list of modes gives: composite queries come before queries, these before
one-way calls. -/
def ofModes (modes : List Mode) : MethodKind :=
  if .compositeQuery ∈ modes then .annotated .compositeQuery
  else if .query ∈ modes then .annotated .query
  else if .oneway ∈ modes then .annotated .oneway
  else .update

def text : MethodKind → Text
  | .update => "update".toList
  | .annotated mode => mode.text

def isQuery : MethodKind → Bool
  | .annotated .query => true
  | .annotated .compositeQuery => true
  | _ => false

end MethodKind

structure LabelledText where
  label : Option Text
  type : Text
  deriving DecidableEq, Repr

def LabelledText.render (entry : LabelledText) : Text :=
  match entry.label with
  | none => entry.type
  | some label => label ++ " : ".toList ++ entry.type

structure SignatureText where
  args : List LabelledText
  results : List LabelledText
  modes : List Mode
  deriving DecidableEq, Repr

def SignatureText.render (signature : SignatureText) : Text :=
  let listed (entries : List LabelledText) : Text :=
    '(' :: Text.joined ", ".toList (entries.map (·.render)) ++ [')']
  listed signature.args ++ " -> ".toList ++ listed signature.results ++
    signature.modes.flatMap fun mode => ' ' :: mode.text

structure Method where
  name : Text
  kind : MethodKind
  args : List Text
  results : List Text
  argNames : List (Option Text)
  deriving DecidableEq, Repr

namespace Method

/-- The method that a label and a function type declare. The name loses its quotes; names of
arguments keep theirs. -/
def ofSignature (label : Text) (signature : SignatureText) : Method :=
  { name := label.unquoted
    kind := .ofModes signature.modes
    args := signature.args.map (·.type)
    results := signature.results.map (·.type)
    argNames := signature.args.map (·.label) }

/-- The argument and result types of a method and its kind, unless it is an update. -/
def typeText (method : Method) : Text :=
  '(' :: Text.joined ", ".toList method.args ++ ") -> (".toList ++
    Text.joined ", ".toList method.results ++ ')' ::
    match method.kind with
    | .update => []
    | .annotated mode => ' ' :: mode.text

def signature (method : Method) : Text :=
  method.name ++ " : ".toList ++ method.typeText

end Method

end Candid.Idl
