import Candid.Argument.Error
import Candid.Fragment.Outline
import Candid.Json.Display
import Candid.Json.Reader
import Candid.Notice
import Candid.Number.FloatNumeral

/-!
# Converting values

From values as a person enters them to values of a type. A text that is JSON in all but name is
decoded first; then each scalar type accepts the spellings it can tell apart, containers are converted
member by member, and what is neither scalar, sequence, option nor record passes unchanged.
-/

set_option autoImplicit false

namespace Candid.Argument

open Json

def looksLikeJson (text : Text) : Bool :=
  (text.head? == some '{' && text.getLast? == some '}') ||
    (text.head? == some '[' && text.getLast? == some ']') ||
    ["null".toList, "true".toList, "false".toList].contains text

/-- The value that a text spells if it looks like JSON and is; any other value as it is. -/
def preParse (value : Value) : Value :=
  match value with
  | .text content =>
    if looksLikeJson content.trim then
      match Json.read content.trim with
      | .ok decoded => decoded
      | .error _ => value
    else value
  | _ => value

def preParseNotices (value : Value) : List Notice :=
  match value with
  | .text content =>
    if looksLikeJson content.trim then
      match Json.read content.trim with
      | .ok _ => []
      | .error _ => [.textKept]
    else []
  | _ => []

def shown (value : Value) : Except Error Text :=
  value.display.mapError .digitLimit

def refuse {α : Type} (fault : Text → Fault) (path : Text) (value : Value) : Except Error α := do
  let text ← shown value
  .error (.located (fault text) path)

/-- A value as text: null is empty, booleans are lower-case words, containers are JSON. -/
def asText (value : Value) : Except Error Text :=
  match value with
  | .null => .ok []
  | .bool flag => .ok (if flag then "true".toList else "false".toList)
  | .list _ | .object _ =>
    (value.write (.compact .written)).mapError fun
      | .digitLimit limit => .digitLimit limit
      | error => .located (.unwritable error) []
  | _ => shown value

/-- A value as a boolean: a boolean, or a display that is a boolean word in any case. -/
def asBool (value : Value) (path : Text) : Except Error Value :=
  match value with
  | .bool flag => .ok (.bool flag)
  | _ => do
    let text ← shown value
    if Text.lowerLatin text = "true".toList then .ok (.bool true)
    else if Text.lowerLatin text = "false".toList then .ok (.bool false)
    else .error (.located (.invalidBoolean text) path)

/-- A value as a floating-point number: any integer, a finite number, or a numeral of one. -/
def asFloat (value : Value) (path : Text) : Except Error Value :=
  match value with
  | .integer number => .ok (.integer number)
  | .float number =>
    if number.isFinite then .ok (.float number) else refuse .invalidFloat path value
  | .text content =>
    match FloatNumeral.read? content.trim with
    | some number =>
      if number.isFinite then .ok (.float number) else refuse .invalidFloat path value
    | none => refuse .invalidFloat path value
  | _ => refuse .invalidFloat path value

/-- How many characters of a refused value an integer error shows. -/
def shownLimit : Nat := 40

def refuseInteger {α : Type} (path : Text) (value : Value) : Except Error α :=
  refuse (fun text => .invalidInteger (text.take shownLimit)) path value

/-- A value as an integer of fixed width: an integer, a finite number without its fraction, or a
numeral within the digit limit. The width is not enforced. -/
def asInteger (value : Value) (path : Text) : Except Error Value :=
  match value with
  | .integer number => .ok (.integer number)
  | .float number =>
    match number.truncate? with
    | some whole => .ok (.integer whole)
    | none => refuseInteger path value
  | .text content =>
    match Numeral.read? content.trim with
    | some (.ok number) => .ok (.integer number)
    | _ => refuseInteger path value
  | _ => refuseInteger path value

/-- Numerals of more digits are kept as text, since they may not fit 64 bits. -/
def nativeDigits : Nat := 19

def numeralLength (text : Text) : Nat :=
  (text.dropWhile (· = '-')).length

/-- A value as an integer of any size. Null is zero. Integers and whole numbers are kept, an integer
from `10 ^ 19` on as its numeral; a numeral becomes an integer if it is short enough, and every other
value passes unchanged. -/
def asUnbounded (value : Value) (path : Text) : Except Error Value :=
  match value with
  | .null => .ok (.text ['0'])
  | .bool _ => refuse .invalidInteger path value
  | .integer number =>
    if number.natAbs < tenTo nativeDigits then .ok (.integer number)
    else
      match Numeral.write number with
      | .ok text => .ok (.text text)
      | .error _ => .error (.located .integerTooLong path)
  | .float number =>
    if number.isFinite then
      if number.isInteger then .ok (.integer (number.truncate?.getD 0)) else .ok value
    else refuse .invalidInteger path value
  | .text content =>
    match Numeral.read? content with
    | none => .ok value
    | some decoded =>
      if nativeDigits < numeralLength content then .ok value
      else
        match decoded with
        | .ok number => .ok (.integer number)
        | .error limit => .error (.digitLimit limit)
  | .list _ | .object _ => do
    let _ ← shown value
    .ok value

def convertScalar (scalar : Scalar) (value : Value) (path : Text) : Except Error Value :=
  match scalar with
  | .text | .principal => do
    let text ← asText value
    .ok (.text text)
  | .bool => asBool value path
  | .float32 | .float64 => asFloat value path
  | .nat | .int => asUnbounded value path
  | _ => asInteger value path

def convertItems (convertItem : Value → Text → Except Error Value) (path : Text) :
    (index : Nat) → List Value → Except Error (List Value)
  | _, [] => .ok []
  | index, item :: rest => do
    let item ← convertItem item (itemPath path index)
    let rest ← convertItems convertItem path (index + 1) rest
    pure (item :: rest)

def convertSequence (convertItem : Value → Text → Except Error Value) (value : Value)
    (path : Text) : Except Error Value :=
  match value with
  | .list items => do
    let items ← convertItems convertItem path 0 items
    pure (.list items)
  | _ => .error (.located .expectedSequence path)

def convertLeaf (leaf : Text) (value : Value) (path : Text) : Except Error Value :=
  match Scalar.ofText? leaf with
  | some scalar => convertScalar scalar value path
  | none =>
    if isBlob leaf then convertSequence (convertScalar .nat8) value path else .ok value

mutual

def convert : Outline → Value → Text → Except Error Value
  | .opt inner, value, path =>
    match value with
    | .null => .ok .null
    | _ => convert inner value path
  | .vec inner, value, path => convertSequence (fun item => convert inner item) value path
  | .record fields, value, path =>
    if fields.isEmpty then .ok (.object [])
    else
      match value with
      | .object members => do
        let converted ← convertNamed fields members path
        pure (.object (Dictionary.ofList converted))
      | .list items =>
        if items.length ≠ fields.length then
          .error (.located (.itemCount fields.length items.length) path)
        else do
          let converted ← convertListed fields items path
          pure (.object (Dictionary.ofList converted))
      | _ => .error (.located (.notRecord value.kindName) path)
  | .variant _, value, _ => .ok value
  | .leaf leaf, value, path => convertLeaf leaf value path

def convertNamed :
    List (Text × Outline) → List (Text × Value) → Text → Except Error (List (Text × Value))
  | [], _, _ => .ok []
  | (name, type) :: rest, members, path =>
    match Dictionary.find? name members with
    | none => .error (.located (.missingField name) path)
    | some member => do
      let value ← convert type member (fieldPath path name)
      let others ← convertNamed rest members path
      pure ((name, value) :: others)

def convertListed :
    List (Text × Outline) → List Value → Text → Except Error (List (Text × Value))
  | (name, type) :: rest, item :: items, path => do
    let value ← convert type item (fieldPath path name)
    let others ← convertListed rest items path
    pure ((name, value) :: others)
  | _, _, _ => .ok []

end

def buildValue (type : Text) (raw : Value) : Except Error Value :=
  convert (Outline.ofText type) (preParse raw) []

def buildValues : List Text → List Value → Except Error (List Value)
  | type :: types, raw :: raws => do
    let value ← buildValue type raw
    let values ← buildValues types raws
    pure (value :: values)
  | _, _ => .ok []

/-- The values of all arguments: a single value for a single type, a list otherwise. -/
def build (types : List Text) (raws : List Value) : Except Error Value :=
  if raws.length ≠ types.length then .error (.located (.inputCount types.length raws.length) [])
  else do
    let values ← buildValues types raws
    match values with
    | [value] => pure value
    | _ => pure (.list values)

def buildJson (types : List Text) (raws : List Value) : Except Error Text :=
  if types.isEmpty then
    if raws.isEmpty then .ok [] else .error (.located (.inputCount 0 raws.length) [])
  else do
    let value ← build types raws
    (value.write (.compact .refused)).mapError fun error => .located (.unwritable error) []

/-- What building arguments reports: one notice for each text that is kept though it looks like JSON,
up to the first argument that fails. -/
def buildNotices (types : List Text) (raws : List Value) : List Notice :=
  if raws.length ≠ types.length then []
  else noticesOf types raws
where
  /-- The notices of the arguments up to the first that fails. -/
  noticesOf : List Text → List Value → List Notice
    | type :: types, raw :: raws =>
      preParseNotices raw ++
        match buildValue type raw with
        | .ok _ => noticesOf types raws
        | .error _ => []
    | _, _ => []

end Candid.Argument
