import Candid.Text.Basic

/-!
# Document lines

The lines of a document as an editor counts them: every line break of Unicode ends one, a carriage
return with a line feed behind it counts as one break, and each line keeps its break.
-/

set_option autoImplicit false

namespace Candid

/-- Line feed to carriage return, the separators of files, groups and records, the next-line
character, and the two separators of Unicode. -/
def isLineBreak (c : Char) : Bool :=
  let code := c.toNat
  (10 ≤ code && code ≤ 13) || (28 ≤ code && code ≤ 30) || code == 0x85 || code == 0x2028 ||
    code == 0x2029

namespace Text

def lines : Text → List Text
  | [] => []
  | '\r' :: '\n' :: rest => ['\r', '\n'] :: lines rest
  | c :: rest =>
    if isLineBreak c then [c] :: lines rest
    else
      match lines rest with
      | [] => [[c]]
      | line :: others => (c :: line) :: others

theorem lines_flatten (text : Text) : text.lines.flatten = text := by
  fun_induction lines text with
  | case1 => rfl
  | case2 rest ih => simp [ih]
  | case3 c rest _ isBreak ih => simp [ih]
  | case4 c rest _ inside none ih => simp_all
  | case5 c rest _ inside line others some ih => simp_all

end Text

end Candid
