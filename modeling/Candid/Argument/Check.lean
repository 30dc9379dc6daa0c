import Candid.Argument.Error
import Candid.Fragment.Outline
import Candid.Json.Reader

/-!
# Checking values

Every way in which a JSON value does not have the shape of a type. Nothing fails: a malformed text is
a finding of its own. The strict mode also looks at the case name and the payload of a variant.
-/

set_option autoImplicit false

namespace Candid.Argument

open Json

inductive Problem where
  | expectedText
  | expectedPrincipal
  | expectedBoolean
  | expectedNumeral
  | expectedNumber
  | expectedArray
  | itemCount (expected actual : Nat)
  | expectedObject
  | missingField (name : Text)
  | expectedCase (names : List Text)
  | unknownCase (name : Text) (names : List Text)
  | expectedNull
  deriving DecidableEq, Repr

def listed (names : List Text) : Text :=
  Text.joined ", ".toList names

def Problem.message : Problem → Text
  | .expectedText => "expected string".toList
  | .expectedPrincipal => "expected principal text".toList
  | .expectedBoolean => "expected boolean".toList
  | .expectedNumeral => "expected number or numeric string".toList
  | .expectedNumber => "expected number".toList
  | .expectedArray => "expected array".toList
  | .itemCount expected actual =>
    "expected ".toList ++ Numeral.ofNat expected ++ " items for record, got ".toList ++
      Numeral.ofNat actual
  | .expectedObject => "expected object with named fields".toList
  | .missingField name => "missing field ".toList ++ name
  | .expectedCase names =>
    "expected variant as object with ".toList ++
      if names.isEmpty then "a single case object".toList
      else "one of: ".toList ++ listed names
  | .unknownCase name names =>
    "unknown variant case ".toList ++ name ++ " (expected one of: ".toList ++ listed names ++
      ")".toList
  | .expectedNull => "expected null".toList

structure Violation where
  path : Text
  problem : Problem
  deriving DecidableEq, Repr

/-- A violation in words; the empty path is the root. -/
def Violation.message (violation : Violation) : Text :=
  (if violation.path.isEmpty then "(root)".toList else violation.path) ++ ' ' ::
    violation.problem.message

def violationUnless (fits : Bool) (path : Text) (problem : Problem) : List Violation :=
  if fits then [] else [⟨path, problem⟩]

def checkScalar (scalar : Scalar) (value : Value) (path : Text) : List Violation :=
  match scalar with
  | .text => violationUnless (value.isNull || value.isText) path .expectedText
  | .principal => violationUnless (value.isNull || value.isText) path .expectedPrincipal
  | .bool => violationUnless value.isBool path .expectedBoolean
  | .nat | .int => violationUnless (value.isNumber || value.isText) path .expectedNumeral
  | _ => violationUnless value.isNumber path .expectedNumber

def checkItems (checkItem : Value → Text → List Violation) (path : Text) :
    (index : Nat) → List Value → List Violation
  | _, [] => []
  | index, item :: rest =>
    checkItem item (itemPath path index) ++ checkItems checkItem path (index + 1) rest

def checkSequence (checkItem : Value → Text → List Violation) (value : Value) (path : Text) :
    List Violation :=
  match value with
  | .list items => checkItems checkItem path 0 items
  | _ => [⟨path, .expectedArray⟩]

/-- The violations of a leaf of an outline; what is no scalar type admits every value. -/
def checkLeaf (leaf : Text) (value : Value) (path : Text) : List Violation :=
  match Scalar.ofText? leaf with
  | some scalar => checkScalar scalar value path
  | none => if isBlob leaf then checkSequence (checkScalar .nat8) value path else []

mutual

def check (strict : Bool) : Outline → Value → Text → List Violation
  | .opt inner, value, path => if value.isNull then [] else check strict inner value path
  | .vec inner, value, path => checkSequence (fun item => check strict inner item) value path
  | .record fields, value, path =>
    match value with
    | .list items =>
      if items.length ≠ fields.length then [⟨path, .itemCount fields.length items.length⟩]
      else checkListed strict fields items path
    | .object members => checkNamed strict fields members path
    | _ => [⟨path, .expectedObject⟩]
  | .variant cases, value, path =>
    match value with
    | .object [(name, payload)] =>
      if strict then checkCase cases (cases.map (·.1)) name payload path else []
    | _ => [⟨path, .expectedCase (cases.map (·.1))⟩]
  | .leaf leaf, value, path => checkLeaf leaf value path

/-- The violations of the fields of a record by the members of an object. Only an optional field may
be missing. -/
def checkNamed (strict : Bool) :
    List (Text × Outline) → List (Text × Value) → Text → List Violation
  | [], _, _ => []
  | (name, type) :: rest, members, path =>
    (match Dictionary.find? name members with
      | none => violationUnless type.isOptional path (.missingField name)
      | some member => check strict type member (fieldPath path name)) ++
    checkNamed strict rest members path

def checkListed (strict : Bool) :
    List (Text × Outline) → List Value → Text → List Violation
  | (name, type) :: rest, item :: items, path =>
    check strict type item (fieldPath path name) ++ checkListed strict rest items path
  | _, _, _ => []

def checkCase : List (Text × Option Outline) → List Text → Text → Value → Text → List Violation
  | [], names, name, _, path => [⟨path, .unknownCase name names⟩]
  | (caseName, type) :: rest, names, name, payload, path =>
    if caseName = name then
      match type with
      | none => violationUnless payload.isNull (fieldPath path name) .expectedNull
      | some type => check true type payload (fieldPath path name)
    else checkCase rest names name payload path

end

inductive Finding where
  | invalidJson (error : ReadError)
  | argumentCount (expected : Nat)
  | misfit (violation : Violation)
  deriving DecidableEq, Repr

def Finding.message : Finding → Text
  | .invalidJson error => "Invalid JSON: ".toList ++ error.message
  | .argumentCount expected =>
    "Expected JSON array with ".toList ++ Numeral.ofNat expected ++ " items".toList
  | .misfit violation => violation.message

def checkArguments (strict : Bool) : (index : Nat) → List Text → List Value → List Violation
  | index, type :: types, value :: values =>
    check strict (.ofText type) value (itemPath [] index) ++
      checkArguments strict (index + 1) types values
  | _, _, _ => []

def checkValue (strict : Bool) (types : List Text) (value : Value) : List Finding :=
  match types with
  | [type] => (check strict (.ofText type) value []).map .misfit
  | _ =>
    match value with
    | .list values =>
      if values.length ≠ types.length then [.argumentCount types.length]
      else (checkArguments strict 0 types values).map .misfit
    | _ => [.argumentCount types.length]

/-- The findings for an argument text. A blank text is the value null, and fits where there are no
arguments. -/
def validate (strict : Bool) (types : List Text) (text : Text) : List Finding :=
  if text.trim.isEmpty then
    if types.isEmpty then [] else checkValue strict types .null
  else
    match Json.read text with
    | .ok value => checkValue strict types value
    | .error error => [.invalidJson error]

end Candid.Argument
