import Candid.Number.Digit

/-!
# Integer numerals

Decimal numerals of integers, written and read. Numerals longer than `digitLimit` are refused in
both directions.
-/

set_option autoImplicit false

namespace Candid

/-- The greatest number of digits of a numeral, its sign not counted. -/
def digitLimit : Nat := 4300

/-- A numeral over the limit: one met in a text, or one that an integer would need. -/
inductive DigitLimitError where
  | reading (digits : Nat)
  | writing
  deriving DecidableEq, Repr

namespace Numeral

/-- The number that the digit values spell, the most significant first. -/
def ofDigits (digits : List Nat) : Nat :=
  digits.foldl (fun number digit => 10 * number + digit) 0

def ofNat (number : Nat) : Text :=
  Nat.toDigits 10 number

def ofInt (number : Int) : Text :=
  if number < 0 then '-' :: ofNat number.natAbs else ofNat number.natAbs

def write (number : Int) : Except DigitLimitError Text :=
  if (ofNat number.natAbs).length ≤ digitLimit then .ok (ofInt number) else .error .writing

def digits? (text : Text) : Option (List Nat) :=
  if text.isEmpty then none else text.mapM digitValue?

def signed? : Text → Option (Bool × List Nat)
  | '-' :: rest => (digits? rest).map (true, ·)
  | text => (digits? text).map (false, ·)

def withoutFinalLineFeed (text : Text) : Text :=
  if text.getLast? == some '\n' then text.dropLast else text

/-- Whether the text is an integer numeral, perhaps with a line feed behind it. -/
def isInteger (text : Text) : Bool :=
  (signed? (withoutFinalLineFeed text)).isSome

def value (negative : Bool) (digits : List Nat) : Except DigitLimitError Int :=
  if digitLimit < digits.length then .error (.reading digits.length)
  else if negative then .ok (-(ofDigits digits : Int))
  else .ok (ofDigits digits)

/-- The integer of a numeral, perhaps with a line feed behind it; `none` for any other text. -/
def read? (text : Text) : Option (Except DigitLimitError Int) :=
  (signed? (withoutFinalLineFeed text)).map fun (negative, digits) => value negative digits

end Numeral

def DigitLimitError.message : DigitLimitError → Text
  | .reading digits =>
    "Exceeds the limit (4300 digits) for integer string conversion: value has ".toList ++
      Numeral.ofNat digits ++
      " digits; use sys.set_int_max_str_digits() to increase the limit".toList
  | .writing =>
    "Exceeds the limit (4300 digits) for integer string conversion; use ".toList ++
      "sys.set_int_max_str_digits() to increase the limit".toList

end Candid
