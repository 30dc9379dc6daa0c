import Candid.Number.Numeral

/-!
# Positions

Offsets of a text as line and character, both counted from zero. Lines end at line feeds only. Both
numbers of a position are limited to 31 bits.
-/

set_option autoImplicit false

namespace Candid

structure Position where
  line : Nat
  character : Nat
  deriving DecidableEq, Repr

/-- A place that is out of bounds; the line is looked at first. -/
inductive PositionError where
  | line (number : Int)
  | character (number : Int)
  deriving DecidableEq, Repr

namespace Position

def limit : Nat := 2147483647

def isWithin (number : Int) : Bool :=
  0 ≤ number && number ≤ limit

def make (line character : Int) : Except PositionError Position :=
  if !isWithin line then .error (.line line)
  else if !isWithin character then .error (.character character)
  else .ok ⟨line.toNat, character.toNat⟩

/-- Where a text is cut for an offset: at most at its end. A negative offset counts from the end. -/
def cut (source : Text) (offset : Int) : Nat :=
  if offset < 0 then (source.length + offset).toNat else min offset.toNat source.length

def lineStart (source : Text) (cut : Nat) : Nat :=
  let before := source.take cut
  before.length - (before.reverse.takeWhile (· ≠ '\n')).length

/-- The position of an offset: the line feeds before it, and its distance from the last of them. -/
def ofOffset (source : Text) (offset : Int) : Except PositionError Position :=
  let cut := cut source offset
  make ((source.take cut).count '\n') (offset - lineStart source cut)

end Position

def PositionError.message (error : PositionError) : Text :=
  let outside (part : Text) (number : Int) : Text :=
    "Position.".toList ++ part ++ " should be in range [0:2147483647], but was ".toList ++
      Numeral.ofInt number ++ ['.']
  match error with
  | .line number => outside "line".toList number
  | .character number => outside "character".toList number

structure Range where
  start : Position
  finish : Position
  deriving DecidableEq, Repr

/-- The part of one line that begins at an offset and has a length, of one character at least. -/
def Range.ofOffset (source : Text) (offset : Int) (length : Nat) : Except PositionError Range := do
  let start ← Position.ofOffset source offset
  let finish ← Position.make start.line (start.character + max length 1 : Nat)
  pure ⟨start, finish⟩

end Candid
