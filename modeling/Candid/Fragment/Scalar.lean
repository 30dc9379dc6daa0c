import Candid.Text.Blank
import Candid.Text.Name

/-!
# Scalar types and keywords

The built-in names of the type language, and the leading keyword of a type expression. Names and
keywords are found whatever the case of their letters.
-/

set_option autoImplicit false

namespace Candid

inductive Scalar where
  | text
  | bool
  | float32
  | float64
  | principal
  | nat
  | int
  | nat8
  | nat16
  | nat32
  | nat64
  | int8
  | int16
  | int32
  | int64
  deriving DecidableEq, Repr

namespace Scalar

def all : List Scalar :=
  [.text, .bool, .float32, .float64, .principal, .nat, .int, .nat8, .nat16, .nat32, .nat64, .int8,
    .int16, .int32, .int64]

def name : Scalar → Text
  | .text => "text".toList
  | .bool => "bool".toList
  | .float32 => "float32".toList
  | .float64 => "float64".toList
  | .principal => "principal".toList
  | .nat => "nat".toList
  | .int => "int".toList
  | .nat8 => "nat8".toList
  | .nat16 => "nat16".toList
  | .nat32 => "nat32".toList
  | .nat64 => "nat64".toList
  | .int8 => "int8".toList
  | .int16 => "int16".toList
  | .int32 => "int32".toList
  | .int64 => "int64".toList

def ofText? (expression : Text) : Option Scalar :=
  all.find? (·.name == expression.trim.lowerLatin)

def bitWidth? : Scalar → Option Nat
  | .nat8 => some 8
  | .nat16 => some 16
  | .nat32 => some 32
  | .nat64 => some 64
  | .int8 => some 8
  | .int16 => some 16
  | .int32 => some 32
  | .int64 => some 64
  | _ => none

def isFloat : Scalar → Bool
  | .float32 => true
  | .float64 => true
  | _ => false

def isUnbounded : Scalar → Bool
  | .nat => true
  | .int => true
  | _ => false

def isSigned : Scalar → Bool
  | .int => true
  | .int8 => true
  | .int16 => true
  | .int32 => true
  | .int64 => true
  | _ => false

end Scalar

/-- The word in front of a type expression, in lower case; empty if no word stands there. -/
def leadingWord (expression : Text) : Text :=
  match expression.trimStart with
  | [] => []
  | c :: rest => if isNameStart c then Text.lowerLatin (c :: rest.takeWhile isNamePart) else []

def blobName : Text := "blob".toList

def blobExpansion : Text := "vec nat8".toList

def isBlob (expression : Text) : Bool :=
  expression.trim.lowerLatin == blobName

def isBuiltin (expression : Text) : Bool :=
  (Scalar.ofText? expression).isSome || isBlob expression

def compoundKeywords : List Text :=
  ["opt".toList, "vec".toList, "record".toList, "variant".toList, "func".toList, "service".toList]

def isCompound (expression : Text) : Bool :=
  compoundKeywords.contains (leadingWord expression)

def isOptional (expression : Text) : Bool :=
  leadingWord expression == "opt".toList

end Candid
