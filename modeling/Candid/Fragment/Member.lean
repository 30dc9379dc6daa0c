import Candid.Fragment.Nesting
import Candid.Fragment.Scalar
import Candid.Number.Numeral
import Candid.Text.LowerCase

/-!
# Members of a type expression

One level of the structure of a type expression that is kept as text: the type inside `opt` and
`vec`, the fields of a record and the cases of a variant, and the written form of both.
-/

set_option autoImplicit false

namespace Candid

structure FieldText where
  name : Text
  type : Text
  deriving DecidableEq, Repr

/-- A case of a variant; without a type it carries no value. -/
structure CaseText where
  name : Text
  type : Option Text
  deriving DecidableEq, Repr

/-- The text between the first opening brace and the last closing one. -/
def bracedBody? (expression : Text) : Option Text :=
  (Text.cut? '{' expression.trim).bind fun (_, behind) => behind.beforeLast? '}'

def withoutAngles (expression : Text) : Text :=
  if expression.head? == some '<' && expression.getLast? == some '>' then
    Text.trim (expression.drop 1).dropLast
  else expression

/-- The type that a keyword wraps: what stands behind the keyword, with or without angle brackets.
Without the keyword, the expression itself is read so. The keyword is given in lower case and may be
in any script. -/
def innerType (keyword expression : Text) : Text :=
  let whole := expression.trim
  withoutAngles
    (if keyword.isPrefixOf whole.lower then Text.trim (whole.drop keyword.length) else whole)

def memberParts (expression : Text) : List Text :=
  match bracedBody? expression with
  | none => []
  | some body => splitTopLevel ';' body

/-- The field that the part at a position declares. A part without a label takes its position as
name; so does one whose label is empty, and it keeps its colon. -/
def FieldText.ofPart (position : Nat) (part : Text) : FieldText :=
  match partitionTopLevel? ':' part with
  | none => ⟨Numeral.ofNat position, part⟩
  | some (label, type) =>
    if label.isEmpty then ⟨Numeral.ofNat position, part⟩ else ⟨label.unquoted, type⟩

def CaseText.ofPart (part : Text) : CaseText :=
  match partitionTopLevel? ':' part with
  | none => ⟨part.unquoted, none⟩
  | some (label, type) => ⟨label.unquoted, if type.isEmpty then none else some type⟩

def recordFields (expression : Text) : List FieldText :=
  (memberParts expression).mapIdx FieldText.ofPart

def variantCases (expression : Text) : List CaseText :=
  (memberParts expression).map CaseText.ofPart

def FieldText.render (field : FieldText) : Text :=
  field.name ++ " : ".toList ++ field.type

def CaseText.render (item : CaseText) : Text :=
  match item.type with
  | none => item.name
  | some type => item.name ++ " : ".toList ++ type

def renderRecord (fields : List FieldText) : Text :=
  Text.braced "record".toList (fields.map (·.render))

def renderVariant (cases : List CaseText) : Text :=
  Text.braced "variant".toList (cases.map (·.render))

end Candid
