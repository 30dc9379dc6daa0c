import Candid.Dictionary
import Candid.Number.Binary64

/-!
# JSON values

Integers and floating-point numbers are told apart, integers have any size, and the members of an
object keep their order.
-/

set_option autoImplicit false

namespace Candid.Json

inductive Value where
  | null
  | bool (flag : Bool)
  | integer (number : Int)
  | float (number : Binary64)
  | text (content : Text)
  | list (items : List Value)
  | object (members : List (Text × Value))

namespace Value

def isNull : Value → Bool
  | .null => true
  | _ => false

def isText : Value → Bool
  | .text _ => true
  | _ => false

def isBool : Value → Bool
  | .bool _ => true
  | _ => false

def isNumber : Value → Bool
  | .integer _ => true
  | .float _ => true
  | _ => false

def kindName : Value → Text
  | .null => "NoneType".toList
  | .bool _ => "bool".toList
  | .integer _ => "int".toList
  | .float _ => "float".toList
  | .text _ => "str".toList
  | .list _ => "list".toList
  | .object _ => "dict".toList

end Value

end Candid.Json
