import Candid.Argument.Convert

/-!
# Argument literals

Candid literals put together from raw texts, without reading the texts as values.
-/

set_option autoImplicit false

namespace Candid.Argument

open Json

/-- The texts that are not blank, trimmed, as an argument tuple. -/
def composeArgs (raws : List Text) : Text :=
  '(' :: Text.joined ", ".toList ((raws.map Text.trim).filter (!·.isEmpty)) ++ [')']

/-- A text between quotes: as it is if it is already quoted, and escaped otherwise. -/
def quoteText (raw : Text) : Text :=
  if raw.trim.isQuoted then raw.trim else Json.quoted false raw

def formatScalar (scalar : Scalar) (raw : Text) : Text :=
  match scalar with
  | .text => quoteText raw
  | .principal =>
    if "principal".toList.isPrefixOf raw.trim then raw.trim
    else "principal ".toList ++ quoteText raw.trim
  | .bool =>
    if ["true".toList, "false".toList].contains raw.trim.lowerLatin then raw.trim.lowerLatin
    else raw.trim
  | _ => raw.trim

/-- A raw text as a literal of the type with an outline. Only options and scalar types have a format
of their own. -/
def formatOutline : Outline → Text → Text
  | .opt inner, raw =>
    if raw.trim.isEmpty || raw.trim == "null".toList then "null".toList
    else "opt ".toList ++ formatOutline inner raw.trim
  | .leaf leaf, raw =>
    match Scalar.ofText? leaf with
    | some scalar => formatScalar scalar raw
    | none => raw.trim
  | _, raw => raw.trim

def formatLiteral (type raw : Text) : Text :=
  formatOutline (.ofText type) raw

/-- The parts of a record literal, one for each field; a field whose literal is empty has no value. -/
def recordParts : List FieldText → List Text → Except Error (List Text)
  | field :: fields, raw :: raws =>
    let literal := formatLiteral field.type raw
    if literal.isEmpty then .error (.located (.missingValue field.name) [])
    else do
      let parts ← recordParts fields raws
      let part := field.name ++ " = ".toList ++ literal ++ " : ".toList ++ field.type.trim
      pure (part :: parts)
  | _, _ => .ok []

def recordLiteral (fields : List FieldText) (raws : List Text) : Except Error Text :=
  if raws.length ≠ fields.length then
    .error (.located (.valueCount fields.length raws.length) [])
  else (recordParts fields raws).map (Text.braced "record".toList)

def singleRecordArg (fields : List FieldText) (raws : List Text) : Except Error Text :=
  (recordLiteral fields raws).map fun literal => '(' :: literal ++ [')']

def rawText (value : Value) : Except Error Text :=
  match value with
  | .null => .ok []
  | .bool flag => .ok (if flag then "true".toList else "false".toList)
  | _ => shown value

/-- The raw texts of the fields from `position` on, each found in an object by its name or else by
its position. -/
def rawMembers (members : List (Text × Value)) :
    (position : Nat) → List FieldText → Except Error (List Text)
  | _, [] => .ok []
  | position, field :: rest =>
    match (Dictionary.find? field.name members).or
        (Dictionary.find? (Numeral.ofNat position) members) with
    | none => .error (.located (.missingField field.name) [])
    | some member => do
      let raw ← rawText member
      let raws ← rawMembers members (position + 1) rest
      pure (raw :: raws)

def recordOfValue (fields : List FieldText) (value : Value) : Except Error Text :=
  match value with
  | .list items => do
    let raws ← items.mapM rawText
    recordLiteral fields raws
  | .object members => do
    let raws ← rawMembers members 0 fields
    recordLiteral fields raws
  | _ => .error (.located (.notRecord value.kindName) [])

end Candid.Argument
