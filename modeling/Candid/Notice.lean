import Candid.Number.Numeral

/-!
# Notices

What the stages report beside their results. A notice is shown on request, one to a line, behind the
name of the channel it is reported on.
-/

set_option autoImplicit false

namespace Candid

/-- Something worth reporting that is no failure. -/
inductive Notice where
  | importIgnored (path : Text)
  | interfaceParsed (types methods : Nat)
  | declarationSkipped (offset : Nat)
  | declarationUnterminated (name : Text)
  | nameKept (name : Text)
  | textKept
  deriving DecidableEq, Repr

namespace Notice

def channel : Notice → Text
  | .importIgnored _ => "candid_forms.parsing.idl_parser".toList
  | .interfaceParsed .. => "candid_forms.parsing.idl_parser".toList
  | .declarationSkipped _ => "candid_forms.resolver".toList
  | .declarationUnterminated _ => "candid_forms.resolver".toList
  | .nameKept _ => "candid_forms.resolver".toList
  | .textKept => "candid_forms.form_model".toList

def message : Notice → Text
  | .importIgnored path => "Ignoring import of ".toList ++ path
  | .interfaceParsed types methods =>
    "Parsed interface: ".toList ++ Numeral.ofNat types ++ " types, ".toList ++
      Numeral.ofNat methods ++ " methods".toList
  | .declarationSkipped offset =>
    "Skipping malformed type declaration at position ".toList ++ Numeral.ofNat offset
  | .declarationUnterminated name =>
    "Unterminated declaration of type '".toList ++ name ++ "'".toList
  | .nameKept name => "Leaving unresolved type name '".toList ++ name ++ "' as-is".toList
  | .textKept => "Input looked like JSON but did not decode; keeping text".toList

def line (notice : Notice) : Text :=
  notice.channel ++ ": ".toList ++ notice.message ++ ['\n']

end Notice

end Candid
