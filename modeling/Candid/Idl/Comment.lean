import Candid.Idl.Lexeme

/-!
# Comment stripping

Removes line comments first and block comments from what is left. Quoted text is not spared.
-/

set_option autoImplicit false

namespace Candid.Idl

def withoutLineComments : Text → Text
  | [] => []
  | '/' :: '/' :: rest => withoutLineComments (rest.dropWhile (· ≠ '\n'))
  | c :: rest => c :: withoutLineComments rest
termination_by text => text.length
decreasing_by
  · have := Text.length_dropWhile_le (fun c => decide (c ≠ '\n')) rest
    simp only [List.length_cons]
    omega
  · simp

/-- The text without block comments; an opening mark that is never closed stays. -/
def withoutBlockComments : Text → Text
  | [] => []
  | '/' :: '*' :: rest =>
    match _found : Lexeme.closeComment? rest with
    | some (_, behind) => withoutBlockComments behind
    | none => '/' :: withoutBlockComments ('*' :: rest)
  | c :: rest => c :: withoutBlockComments rest
termination_by text => text.length
decreasing_by
  · have whole := congrArg List.length (Lexeme.closeComment?_append _found)
    simp only [List.length_append] at whole
    simp only [List.length_cons]
    omega
  · simp
  · simp

def withoutComments (source : Text) : Text :=
  withoutBlockComments (withoutLineComments source)

end Candid.Idl
