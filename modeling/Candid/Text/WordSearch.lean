import Candid.Text.Word

/-!
# Word search

Whether one of some Latin words stands in a text as a word of its own, whatever its case.
-/

set_option autoImplicit false

namespace Candid.Text

/-- The characters that stand for a letter where case is ignored, beside the letter in either case:
the long s, and the two forms of i that differ by their dot. -/
def caseVariants : List (Char × List Char) :=
  [('i', ['\u0130', '\u0131']), ('s', ['\u017F'])]

def matchesLetter (letter c : Char) : Bool :=
  c.toLower == letter || ((caseVariants.lookup letter).getD []).contains c

def wordInFront : (word text : Text) → Bool
  | [], text => !text.beginsWithWord
  | _ :: _, [] => false
  | letter :: word, c :: rest => matchesLetter letter c && wordInFront word rest

/-- Whether one of the words stands anywhere in a text as a word of its own. `previous` is the
character before the text. -/
def containsWord (words : List Text) (previous : Option Char) : Text → Bool
  | [] => false
  | c :: rest =>
    (!endsInWord previous && words.any fun word => wordInFront word (c :: rest)) ||
      containsWord words (some c) rest

end Candid.Text
