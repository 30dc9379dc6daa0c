import Candid.Json.Value
import Candid.Number.Numeral

/-!
# Reading JSON

A reader of one JSON value. Besides the standard's values it takes `NaN`, `Infinity` and
`-Infinity`; an integer numeral is read exactly, within the digit limit. Each failure is found at
the first character that no JSON text could have there, and is reported by that character's place.
Inside the reader a place is the text that remains from it on.
-/

set_option autoImplicit false

namespace Candid.Json

inductive Flaw where
  | expectedValue
  | expectedName
  | expectedColon
  | expectedComma
  | extraData
  | unterminatedText
  | controlCharacter
  | unknownEscape
  | malformedUnicodeEscape
  deriving DecidableEq, Repr

inductive Container where
  | list
  | object
  deriving DecidableEq, Repr

/-- Why a text is no JSON value. The place of a flaw is an offset with its line and column, both
counted from one. -/
inductive ReadError where
  | flawed (flaw : Flaw) (offset line column : Nat)
  | byteOrderMark
  | tooDeep (container : Container)
  | digitLimit (limit : DigitLimitError)
  deriving DecidableEq, Repr

namespace Reader

/-- A failure inside the reader; `rest` is the text from the flaw on. -/
inductive Failure where
  | flawed (flaw : Flaw) (rest : Text)
  | tooDeep (container : Container)
  | digitLimit (limit : DigitLimitError)

def depthLimit : Nat := 990

def isSpace (c : Char) : Bool :=
  c == ' ' || c == '\t' || c == '\n' || c == '\r'

def skipSpace (text : Text) : Text :=
  text.dropWhile isSpace

def hexQuad? : Text → Option (Nat × Text)
  | a :: b :: c :: d :: rest => do
    let a ← hexValue? a
    let b ← hexValue? b
    let c ← hexValue? c
    let d ← hexValue? d
    pure (((a * 16 + b) * 16 + c) * 16 + d, rest)
  | _ => none

def isHighSurrogate (unit : Nat) : Bool :=
  0xD800 ≤ unit && unit ≤ 0xDBFF

def isLowSurrogate (unit : Nat) : Bool :=
  0xDC00 ≤ unit && unit ≤ 0xDFFF

/-- The character of a code unit. The decoder that this reader follows (`loads`) keeps a surrogate that
stands alone as a code point of its string. A `Char` cannot be one, so the replacement character stands
for it here. -/
def characterOfUnit (unit : Nat) : Char :=
  if isHighSurrogate unit || isLowSurrogate unit then '\uFFFD' else Char.ofNat unit

def characterOfPair (high low : Nat) : Char :=
  Char.ofNat (0x10000 + (high - 0xD800) * 0x400 + (low - 0xDC00))

/-- Reads behind `\u`. At least one character has to follow the four digits. A high surrogate takes a
second escape, if one follows, to form a pair with it; a second escape that is no low surrogate is
left to be read again. `start` is the text from the letter `u` on. -/
def unicodeEscape (start digits : Text) : Except Failure (Char × Text) :=
  match hexQuad? digits with
  | some (unit, rest@(_ :: _)) =>
    if isHighSurrogate unit then
      match rest with
      | '\\' :: 'u' :: second =>
        if second.length < 5 then .ok (characterOfUnit unit, rest)
        else
          match hexQuad? second with
          | none => .error (.flawed .malformedUnicodeEscape ('u' :: second))
          | some (low, behind) =>
            if isLowSurrogate low then .ok (characterOfPair unit low, behind)
            else .ok (characterOfUnit unit, rest)
      | _ => .ok (characterOfUnit unit, rest)
    else .ok (characterOfUnit unit, rest)
  | _ => .error (.flawed .malformedUnicodeEscape start)

def escapedCharacter? : Char → Option Char
  | '"' => some '"'
  | '\\' => some '\\'
  | '/' => some '/'
  | 'b' => some '\x08'
  | 'f' => some '\x0c'
  | 'n' => some '\n'
  | 'r' => some '\r'
  | 't' => some '\t'
  | _ => none

/-- Reads the inside of a quoted text and its closing quote. `opening` is the text from the opening
quote on; `fuel` bounds the number of characters. -/
def quoted (opening : Text) : (fuel : Nat) → Text → Except Failure (Text × Text)
  | 0, _ => .error (.flawed .unterminatedText opening)
  | _ + 1, [] => .error (.flawed .unterminatedText opening)
  | _ + 1, '"' :: rest => .ok ([], rest)
  | _ + 1, ['\\'] => .error (.flawed .unterminatedText opening)
  | fuel + 1, '\\' :: 'u' :: rest => do
    let (c, rest) ← unicodeEscape ('u' :: rest) rest
    let (others, rest) ← quoted opening fuel rest
    pure (c :: others, rest)
  | fuel + 1, '\\' :: letter :: rest =>
    match escapedCharacter? letter with
    | none => .error (.flawed .unknownEscape ('\\' :: letter :: rest))
    | some c => do
      let (others, rest) ← quoted opening fuel rest
      pure (c :: others, rest)
  | fuel + 1, c :: rest =>
    if c.toNat < 32 then .error (.flawed .controlCharacter (c :: rest))
    else do
      let (others, rest) ← quoted opening fuel rest
      pure (c :: others, rest)

def text (fuel : Nat) (rest : Text) : Except Failure (Text × Text) :=
  quoted ('"' :: rest) fuel rest

def digitRun (text : Text) : List Nat × Text :=
  ((text.takeWhile Char.isDigit).map fun c => c.toNat - '0'.toNat, text.dropWhile Char.isDigit)

/-- The whole part of a numeral: a single zero, or digits that do not begin with zero. -/
def wholeDigits? (text : Text) : Option (List Nat × Text) :=
  match text with
  | '0' :: rest => some ([0], rest)
  | _ =>
    match digitRun text with
    | ([], _) => none
    | run => some run

def fraction (text : Text) : List Nat × Text :=
  match text with
  | '.' :: rest =>
    match digitRun rest with
    | ([], _) => ([], text)
    | run => run
  | _ => ([], text)

def exponent? (text : Text) : Option Int × Text :=
  let unsigned (sign : Int) (rest : Text) : Option Int × Text :=
    match digitRun rest with
    | ([], _) => (none, text)
    | (digits, behind) => (some (sign * Numeral.ofDigits digits), behind)
  let signed (rest : Text) : Option Int × Text :=
    match rest with
    | '-' :: rest => unsigned (-1) rest
    | '+' :: rest => unsigned 1 rest
    | _ => unsigned 1 rest
  match text with
  | 'e' :: rest => signed rest
  | 'E' :: rest => signed rest
  | _ => (none, text)

/-- Reads the digits of a number behind its sign. A numeral with a fraction or a power of ten is a
floating-point number, any other an integer. -/
def number? (negative : Bool) (text : Text) : Option (Except Failure (Value × Text)) :=
  (wholeDigits? text).map fun (whole, rest) =>
    match fraction rest with
    | (parts, behind) =>
      match parts, exponent? behind with
      | [], (none, _) =>
        match Numeral.value negative whole with
        | .ok number => .ok (.integer number, rest)
        | .error limit => .error (.digitLimit limit)
      | _, (power, behind) =>
        .ok (.float (Binary64.ofDecimal negative (Numeral.ofDigits (whole ++ parts))
          (power.getD 0 - parts.length)), behind)

def words : List (Text × Value) := [
  ("null".toList, .null),
  ("true".toList, .bool true),
  ("false".toList, .bool false),
  ("NaN".toList, .float .nan),
  ("Infinity".toList, .float (.infinite false)),
  ("-Infinity".toList, .float (.infinite true))]

def plain (text : Text) : Except Failure (Value × Text) :=
  match words.findSome? fun (word, value) => (word.after? text).map (value, ·) with
  | some found => .ok found
  | none =>
    let number :=
      match text with
      | '-' :: rest => number? true rest
      | _ => number? false text
    number.getD (.error (.flawed .expectedValue text))

def colon (rest : Text) : Except Failure Text :=
  match skipSpace rest with
  | ':' :: behind => .ok (skipSpace behind)
  | other => .error (.flawed .expectedColon other)

mutual

/-- Reads a value. `depth` is the number of containers that may still be opened. A step of `fuel` is
spent on each call, and no two calls in a row leave the text as it is, so twice the length of the text
and two more always suffice. -/
def value (depth : Nat) : (fuel : Nat) → Text → Except Failure (Value × Text)
  | 0, rest => .error (.flawed .expectedValue rest)
  | fuel + 1, '"' :: rest => do
    let (content, behind) ← text fuel rest
    pure (.text content, behind)
  | fuel + 1, '[' :: rest =>
    match depth with
    | 0 => .error (.tooDeep .list)
    | depth + 1 =>
      match skipSpace rest with
      | ']' :: behind => .ok (.list [], behind)
      | start => do
        let (items, behind) ← items depth fuel start
        pure (.list items, behind)
  | fuel + 1, '{' :: rest =>
    match depth with
    | 0 => .error (.tooDeep .object)
    | depth + 1 =>
      match skipSpace rest with
      | '}' :: behind => .ok (.object [], behind)
      | start => do
        let (members, behind) ← members depth fuel start
        pure (.object (Dictionary.ofList members), behind)
  | _ + 1, other => plain other

def items (depth : Nat) : (fuel : Nat) → Text → Except Failure (List Value × Text)
  | 0, rest => .error (.flawed .expectedValue rest)
  | fuel + 1, start => do
    let (item, behind) ← value depth fuel start
    match skipSpace behind with
    | ']' :: behind => pure ([item], behind)
    | ',' :: next => do
      let (others, behind) ← items depth fuel (skipSpace next)
      pure (item :: others, behind)
    | other => .error (.flawed .expectedComma other)

def members (depth : Nat) : (fuel : Nat) → Text → Except Failure (List (Text × Value) × Text)
  | 0, rest => .error (.flawed .expectedName rest)
  | fuel + 1, '"' :: rest => do
    let (name, behind) ← text fuel rest
    let start ← colon behind
    let (member, behind) ← value depth fuel start
    match skipSpace behind with
    | '}' :: behind => pure ([(name, member)], behind)
    | ',' :: next => do
      let (others, behind) ← members depth fuel (skipSpace next)
      pure ((name, member) :: others, behind)
    | other => .error (.flawed .expectedComma other)
  | _ + 1, other => .error (.flawed .expectedName other)

end

def place (source rest : Text) : Nat × Nat × Nat :=
  let before := source.take (source.length - rest.length)
  (before.length, before.count '\n' + 1, (before.reverse.takeWhile (· ≠ '\n')).length + 1)

def Failure.inText (source : Text) : Failure → ReadError
  | .flawed flaw rest =>
    let (offset, line, column) := place source rest
    .flawed flaw offset line column
  | .tooDeep container => .tooDeep container
  | .digitLimit limit => .digitLimit limit

end Reader

def read (source : Text) : Except ReadError Value :=
  if source.head? = some '\uFEFF' then .error .byteOrderMark
  else
    match Reader.value Reader.depthLimit (2 * source.length + 2) (Reader.skipSpace source) with
    | .error failure => .error (failure.inText source)
    | .ok (value, behind) =>
      match Reader.skipSpace behind with
      | [] => .ok value
      | rest => .error ((Reader.Failure.flawed .extraData rest).inText source)

def Flaw.message : Flaw → Text
  | .expectedValue => "Expecting value".toList
  | .expectedName => "Expecting property name enclosed in double quotes".toList
  | .expectedColon => "Expecting ':' delimiter".toList
  | .expectedComma => "Expecting ',' delimiter".toList
  | .extraData => "Extra data".toList
  | .unterminatedText => "Unterminated string starting at".toList
  | .controlCharacter => "Invalid control character at".toList
  | .unknownEscape => "Invalid \\escape".toList
  | .malformedUnicodeEscape => "Invalid \\uXXXX escape".toList

def messageAt (message : Text) (offset line column : Nat) : Text :=
  message ++ ": line ".toList ++ Numeral.ofNat line ++ " column ".toList ++ Numeral.ofNat column ++
    " (char ".toList ++ Numeral.ofNat offset ++ ")".toList

def ReadError.message : ReadError → Text
  | .flawed flaw offset line column => messageAt flaw.message offset line column
  | .byteOrderMark =>
    messageAt "Unexpected UTF-8 BOM (decode using utf-8-sig)".toList 0 1 1
  | .tooDeep container =>
    "maximum recursion depth exceeded while decoding a JSON ".toList ++
      (match container with
        | .list => "array".toList
        | .object => "object".toList) ++
      " from a unicode string".toList
  | .digitLimit limit => limit.message

end Candid.Json
