import Candid.Number.Binary64
import Candid.Number.Numeral

/-!
# Floating-point numerals

The numerals that a person may type for a floating-point number: an optional sign, digits with an
optional point among, before or behind them, and an optional power of ten. Digits of every script
count.
-/

set_option autoImplicit false

namespace Candid

namespace FloatNumeral

def digitRun : Text → List Nat × Text
  | [] => ([], [])
  | c :: rest =>
    match digitValue? c with
    | none => ([], c :: rest)
    | some digit =>
      let (others, behind) := digitRun rest
      (digit :: others, behind)

def sign : Text → Bool × Text
  | '-' :: rest => (true, rest)
  | '+' :: rest => (false, rest)
  | text => (false, text)

/-- The digits on both sides of an optional point, at least one in all, and the text behind. -/
def mantissa? (text : Text) : Option (List Nat × List Nat × Text) :=
  let (whole, behind) := digitRun text
  match behind with
  | '.' :: rest =>
    let (parts, behind) := digitRun rest
    if whole.isEmpty && parts.isEmpty then none else some (whole, parts, behind)
  | _ => if whole.isEmpty then none else some (whole, [], behind)

def power? : Text → Option Int
  | [] => some 0
  | mark :: rest =>
    if mark = 'e' ∨ mark = 'E' then
      let (negative, digits) := sign rest
      (Numeral.digits? digits).map fun values =>
        if negative then -(Numeral.ofDigits values : Int) else Numeral.ofDigits values
    else none

def read? (text : Text) : Option Binary64 := do
  let (negative, rest) := sign text
  let (whole, parts, behind) ← mantissa? rest
  let power ← power? behind
  pure (.ofDecimal negative (Numeral.ofDigits (whole ++ parts)) (power - parts.length))

end FloatNumeral

end Candid
