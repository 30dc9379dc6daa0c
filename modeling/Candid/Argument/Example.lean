import Candid.Fragment.Outline
import Candid.Json.Writer

/-!
# Example values

A representative value for each type, to fill a form in advance.
-/

set_option autoImplicit false

namespace Candid.Argument

open Json

def samplePrincipal : Text := "ryjl3-tyaaa-aaaaa-aaaba-cai".toList

/-- The example of a scalar type. Integers of any size are shown as numerals. -/
def scalarExample : Scalar → Value
  | .text => .text "example".toList
  | .bool => .bool true
  | .float32 | .float64 => .float (.ofDecimal false 314 (-2))
  | .principal => .text samplePrincipal
  | .nat => .text "100000000000000000000".toList
  | .int => .text "-100000000000000000000".toList
  | .nat8 | .nat16 | .nat32 | .nat64 => .integer 0
  | .int8 | .int16 | .int32 | .int64 => .integer (-1)

/-- The example of a leaf; what is no scalar type is named in a placeholder. -/
def leafExample (leaf : Text) : Value :=
  match Scalar.ofText? leaf with
  | some scalar => scalarExample scalar
  | none =>
    if isBlob leaf then .list [.integer 0]
    else .text ("<value for ".toList ++ leaf ++ ['>'])

mutual

/-- The example of a type: null for an option, one item for a sequence, the first case for a
variant. -/
def exampleOf : Outline → Value
  | .opt _ => .null
  | .vec inner => .list [exampleOf inner]
  | .record fields => .object (Dictionary.ofList (exampleFields fields))
  | .variant cases => .object (exampleCase cases)
  | .leaf leaf => leafExample leaf

def exampleFields : List (Text × Outline) → List (Text × Value)
  | [] => []
  | (name, type) :: rest => (name, exampleOf type) :: exampleFields rest

def exampleCase : List (Text × Option Outline) → List (Text × Value)
  | [] => []
  | (name, none) :: _ => [(name, .null)]
  | (name, some type) :: _ => [(name, exampleOf type)]

end

def exampleValue (type : Text) : Value :=
  exampleOf (.ofText type)

def writeExample (value : Value) : Except WriteError Text :=
  value.write (.indented .written)

def exampleText (type : Text) : Except WriteError Text :=
  writeExample (exampleValue type)

/-- The written example of arguments: nothing for none, one value for one, a list otherwise. -/
def examples (types : List Text) : Except WriteError Text :=
  match types with
  | [] => .ok []
  | [type] => exampleText type
  | _ => writeExample (.list (types.map exampleValue))

end Candid.Argument
