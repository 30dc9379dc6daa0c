import Candid.Alias.Expand
import Candid.Argument.Error
import Candid.Idl.Interface

/-!
# Failures

Everything that a request can fail with.
-/

set_option autoImplicit false

namespace Candid

inductive Failure where
  | parse (error : Idl.ParseError)
  | resolution (error : ResolutionError)
  | argument (error : Argument.Error)
  | unwritable (error : Json.WriteError)
  | unknownMethod (name : Text)
  deriving DecidableEq, Repr

def Failure.message : Failure → Text
  | .parse error => error.message
  | .resolution error => error.message
  | .argument error => error.message
  | .unwritable error => error.message
  | .unknownMethod name => "Method '".toList ++ name ++ "' not found".toList

end Candid
