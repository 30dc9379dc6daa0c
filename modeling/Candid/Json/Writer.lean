import Candid.Json.Quoted
import Candid.Json.Value
import Candid.Number.Scientific

/-!
# Writing JSON

The text of a JSON value on one line or with one item to a line. Texts are written in ASCII. Numbers
that are not finite are written as words or refused, and integers over the digit limit are always
refused; of two refusals the first in the order of the text is reported.
-/

set_option autoImplicit false

namespace Candid.Json

inductive NonFinite where
  | written
  | refused
  | refusedByName
  deriving DecidableEq, Repr

/-- The layout of a written value. With an `indent`, each item has a line of its own, indented by
that many spaces for each level; without, items are separated by a comma and `itemGap`. -/
structure Style where
  indent : Option Nat
  itemGap : Text
  memberGap : Text
  nonFinite : NonFinite

namespace Style

def compact (nonFinite : NonFinite) : Style := ⟨none, [], [], nonFinite⟩

def spaced (nonFinite : NonFinite) : Style := ⟨none, [' '], [' '], nonFinite⟩

def indented (nonFinite : NonFinite) : Style := ⟨some 2, [], [' '], nonFinite⟩

def lineBreak (style : Style) (level : Nat) : Text :=
  match style.indent with
  | none => []
  | some width => '\n' :: List.replicate (width * level) ' '

def separator (style : Style) (level : Nat) : Text :=
  match style.indent with
  | none => ',' :: style.itemGap
  | some _ => ',' :: style.lineBreak level

end Style

inductive WriteError where
  | nonFinite (number : Binary64) (named : Bool)
  | digitLimit (limit : DigitLimitError)
  deriving DecidableEq, Repr

def WriteError.message : WriteError → Text
  | .nonFinite number named =>
    "Out of range float values are not JSON compliant".toList ++
      (if named then ": ".toList ++ number.text else [])
  | .digitLimit limit => limit.message

def writeFloat (policy : NonFinite) (number : Binary64) : Except WriteError Text :=
  match number with
  | .finite .. => .ok number.text
  | _ =>
    match policy with
    | .refused => .error (.nonFinite number false)
    | .refusedByName => .error (.nonFinite number true)
    | .written =>
      match number with
      | .infinite true => .ok "-Infinity".toList
      | .infinite false => .ok "Infinity".toList
      | _ => .ok "NaN".toList

def writeInteger (number : Int) : Except WriteError Text :=
  (Numeral.write number).mapError .digitLimit

def enclosed (style : Style) (level : Nat) (opening closing : Char) (parts : List Text) : Text :=
  if parts.isEmpty then [opening, closing]
  else
    opening :: style.lineBreak (level + 1) ++ Text.joined (style.separator (level + 1)) parts ++
      style.lineBreak level ++ [closing]

mutual

def Value.writeAt (style : Style) (level : Nat) : Value → Except WriteError Text
  | .null => .ok "null".toList
  | .bool true => .ok "true".toList
  | .bool false => .ok "false".toList
  | .integer number => writeInteger number
  | .float number => writeFloat style.nonFinite number
  | .text content => .ok (quoted true content)
  | .list items => do
    let parts ← writeItems style (level + 1) items
    pure (enclosed style level '[' ']' parts)
  | .object members => do
    let parts ← writeMembers style (level + 1) members
    pure (enclosed style level '{' '}' parts)

def writeItems (style : Style) (level : Nat) : List Value → Except WriteError (List Text)
  | [] => .ok []
  | item :: rest => do
    let part ← item.writeAt style level
    let parts ← writeItems style level rest
    pure (part :: parts)

def writeMembers (style : Style) (level : Nat) :
    List (Text × Value) → Except WriteError (List Text)
  | [] => .ok []
  | (name, member) :: rest => do
    let part ← member.writeAt style level
    let parts ← writeMembers style level rest
    pure ((quoted true name ++ ':' :: style.memberGap ++ part) :: parts)

end

def Value.write (style : Style) (value : Value) : Except WriteError Text :=
  value.writeAt style 0

end Candid.Json
