import Candid.Json.Writer

/-!
# Argument errors

Why values do not fit the types of the arguments. The path of an error locates the offending value
inside the argument, by field names and list positions; it is empty at the top.
-/

set_option autoImplicit false

namespace Candid.Argument

inductive Fault where
  | invalidBoolean (shown : Text)
  | invalidFloat (shown : Text)
  | invalidInteger (shown : Text)
  | integerTooLong
  | expectedSequence
  | missingField (name : Text)
  | itemCount (expected actual : Nat)
  | notRecord (kind : Text)
  | inputCount (expected actual : Nat)
  | valueCount (expected actual : Nat)
  | missingValue (name : Text)
  | unwritable (error : Json.WriteError)
  deriving DecidableEq, Repr

/-- Why a conversion fails: a fault at a path, or an integer whose numeral is over the limit where
the value's text is needed. -/
inductive Error where
  | located (fault : Fault) (path : Text)
  | digitLimit (limit : DigitLimitError)
  deriving DecidableEq, Repr

def expectedCount (expected actual : Nat) (noun : Text) : Text :=
  "Expected ".toList ++ Numeral.ofNat expected ++ noun ++ ", got ".toList ++ Numeral.ofNat actual

def Fault.message : Fault → Text
  | .invalidBoolean shown => "Invalid bool: ".toList ++ shown
  | .invalidFloat shown => "Invalid float: ".toList ++ shown
  | .invalidInteger shown => "Invalid integer: ".toList ++ shown
  | .integerTooLong => "Integer is too large to convert to text".toList
  | .expectedSequence => "Expected List for vec type".toList
  | .missingField name => "Missing field ".toList ++ name
  | .itemCount expected actual => expectedCount expected actual " items for record".toList
  | .notRecord kind => "Unsupported record input: ".toList ++ kind
  | .inputCount expected actual => expectedCount expected actual " inputs".toList
  | .valueCount expected actual => expectedCount expected actual " values for record".toList
  | .missingValue name => "Missing value for field ".toList ++ name
  | .unwritable error => error.message

def Error.path : Error → Text
  | .located _ path => path
  | .digitLimit _ => []

def Error.message : Error → Text
  | .located fault path =>
    if path.isEmpty then fault.message else fault.message ++ " at ".toList ++ path
  | .digitLimit limit => limit.message

def fieldPath (path name : Text) : Text :=
  path ++ '.' :: name

def itemPath (path : Text) (index : Nat) : Text :=
  path ++ '[' :: Numeral.ofNat index ++ [']']

end Candid.Argument
