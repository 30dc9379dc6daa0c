import Candid.Text.Basic

/-!
# Names

The words of the type language: a Latin letter or an underscore, then Latin letters, digits and
underscores.
-/

set_option autoImplicit false

namespace Candid

def isNameStart (c : Char) : Bool :=
  c.isAlpha || c == '_'

def isNamePart (c : Char) : Bool :=
  c.isAlphanum || c == '_'

def isName : Text → Bool
  | [] => false
  | c :: rest => isNameStart c && rest.all isNamePart

end Candid
