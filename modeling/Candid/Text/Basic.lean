/-!
# Text

Source text, type expressions and messages are lists of code points, so that an offset, a length
and a cut are the list's own.
-/

set_option autoImplicit false

namespace Candid

/-- A text as its code points in order. -/
abbrev Text := List Char

instance : LawfulBEq Text :=
  inferInstance

namespace Text

/-- Lower case of the Latin letters `A` to `Z`; every other character stays. The words of the language
are Latin and none of them has a `k`, the one letter that is also the lower case of a character beyond
ASCII, so this decides the look-ups of words whatever their case. -/
def lowerLatin (text : Text) : Text :=
  text.map Char.toLower

def after? (lead text : Text) : Option Text :=
  if lead.isPrefixOf text then some (text.drop lead.length) else none

def joined (separator : Text) (parts : List Text) : Text :=
  List.intercalate separator parts

@[simp] theorem joined_singleton (separator part : Text) : joined separator [part] = part := by
  simp [joined, List.intercalate, List.intersperse]

theorem joined_cons (separator first second : Text) (rest : List Text) :
    joined separator (first :: second :: rest) =
      first ++ (separator ++ joined separator (second :: rest)) := by
  simp [joined, List.intercalate, List.intersperse]

def braced (keyword : Text) (members : List Text) : Text :=
  if members.isEmpty then keyword ++ " \x7b\x7d".toList
  else keyword ++ " \x7b ".toList ++ joined "; ".toList members ++ " \x7d".toList

def cut? (mark : Char) : Text → Option (Text × Text)
  | [] => none
  | c :: rest =>
    if c = mark then some ([], rest)
    else (cut? mark rest).map fun (before, behind) => (c :: before, behind)

def beforeLast? (mark : Char) (text : Text) : Option Text :=
  match text.reverse.dropWhile (· ≠ mark) with
  | [] => none
  | _ :: before => some before.reverse

/-- The pieces between the occurrences of `mark`; a text without one is its only piece. -/
def pieces (mark : Char) : Text → List Text
  | [] => [[]]
  | c :: rest =>
    if c = mark then [] :: pieces mark rest
    else
      match pieces mark rest with
      | [] => [[c]]
      | piece :: others => (c :: piece) :: others

/-- Whether the text begins and ends with a double quote, and these are two characters. -/
def isQuoted (text : Text) : Bool :=
  2 ≤ text.length && text.head? == some '"' && text.getLast? == some '"'

def unquoted (label : Text) : Text :=
  if label.isQuoted then (label.drop 1).dropLast else label

end Text

end Candid
