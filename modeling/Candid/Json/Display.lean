import Candid.Json.Value
import Candid.Number.Scientific
import Candid.Text.Printable

/-!
# Displayed values

The text of a value inside a message, and of a value that is taken as text. Null and booleans are
capitalised words. A text that stands alone is displayed bare, and one inside a container is quoted.
An integer over the digit limit has no display.
-/

set_option autoImplicit false

namespace Candid.Json

namespace Display

def hexadecimal (width number : Nat) : Text :=
  let digits := Nat.toDigits 16 number
  List.replicate (width - digits.length) '0' ++ digits

def character (quote c : Char) : Text :=
  if c = quote ∨ c = '\\' then ['\\', c]
  else if c = '\n' then ['\\', 'n']
  else if c = '\r' then ['\\', 'r']
  else if c = '\t' then ['\\', 't']
  else if isPrintable c then [c]
  else
    let code := c.toNat
    if code < 0x100 then '\\' :: 'x' :: hexadecimal 2 code
    else if code < 0x10000 then '\\' :: 'u' :: hexadecimal 4 code
    else '\\' :: 'U' :: hexadecimal 8 code

/-- A quoted text: in double quotes if it holds single quotes and no double ones, in single quotes
otherwise. -/
def quoted (content : Text) : Text :=
  let quote := if content.contains '\x27' && !content.contains '"' then '"' else '\x27'
  quote :: content.flatMap (character quote) ++ [quote]

mutual

def inner : Value → Except DigitLimitError Text
  | .null => .ok "None".toList
  | .bool true => .ok "True".toList
  | .bool false => .ok "False".toList
  | .integer number => Numeral.write number
  | .float number => .ok number.text
  | .text content => .ok (quoted content)
  | .list items => do
    let parts ← innerItems items
    pure ('[' :: Text.joined [',', ' '] parts ++ [']'])
  | .object members => do
    let parts ← innerMembers members
    pure ('{' :: Text.joined [',', ' '] parts ++ ['}'])

def innerItems : List Value → Except DigitLimitError (List Text)
  | [] => .ok []
  | item :: rest => do
    let part ← inner item
    let parts ← innerItems rest
    pure (part :: parts)

def innerMembers : List (Text × Value) → Except DigitLimitError (List Text)
  | [] => .ok []
  | (name, member) :: rest => do
    let part ← inner member
    let parts ← innerMembers rest
    pure ((quoted name ++ ':' :: ' ' :: part) :: parts)

end

end Display

def Value.display : Value → Except DigitLimitError Text
  | .text content => .ok content
  | value => Display.inner value

end Candid.Json
