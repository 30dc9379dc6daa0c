import Candid.Text.Basic

/-!
# Quoted text

A text between double quotes. Quote, backslash and control characters are escaped; characters
outside ASCII are escaped or kept, as the caller chooses.
-/

set_option autoImplicit false

namespace Candid.Json

namespace Quoted

def unitEscape (unit : Nat) : Text :=
  let digit (place : Nat) : Char := Nat.digitChar (unit / place % 16)
  ['\\', 'u', digit 4096, digit 256, digit 16, digit 1]

/-- The escape of a character by its code units: one, or a pair of surrogates. -/
def unicodeEscape (c : Char) : Text :=
  let code := c.toNat
  if code < 0x10000 then unitEscape code
  else
    let rest := code - 0x10000
    unitEscape (0xD800 + rest / 0x400) ++ unitEscape (0xDC00 + rest % 0x400)

def character (asciiOnly : Bool) (c : Char) : Text :=
  if c = '"' then ['\\', '"']
  else if c = '\\' then ['\\', '\\']
  else if c = '\n' then ['\\', 'n']
  else if c = '\r' then ['\\', 'r']
  else if c = '\t' then ['\\', 't']
  else if c = '\x08' then ['\\', 'b']
  else if c = '\x0c' then ['\\', 'f']
  else if c.toNat < 32 ∨ (asciiOnly ∧ 126 < c.toNat) then unicodeEscape c
  else [c]

end Quoted

def quoted (asciiOnly : Bool) (content : Text) : Text :=
  '"' :: content.flatMap (Quoted.character asciiOnly) ++ ['"']

end Candid.Json
