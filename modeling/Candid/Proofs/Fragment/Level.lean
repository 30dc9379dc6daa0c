import Candid.Fragment.Nesting
import Candid.Proofs.Grammar.Brackets

/-!
# Level texts

A text is level at a depth of brackets if the reader of nested brackets, started there outside quotes,
is back at that depth behind the text and has marked no separator in it. Level texts are put together
to level texts, and a text is split at exactly the separators between its level parts.
-/

set_option autoImplicit false

namespace Candid

open Idl (outermost)
open Alias (Depth)

inductive IsSeparator : Char → Prop where
  | semicolon : IsSeparator ';'
  | colon : IsSeparator ':'

def unmarked (text : Text) : List (Char × Bool) :=
  text.map (·, false)

namespace Nesting

/-- The reader outside quotes at a depth, behind a hyphen or not. -/
def atDepth (depth : Depth) (hyphen : Bool) : Nesting :=
  ⟨depth.braces, depth.parens, depth.angles, false, false, hyphen⟩

theorem run_append (state : Nesting) (text rest : Text) :
    state.run (text ++ rest) = (state.run text).run rest :=
  List.foldl_append

theorem marked_append (separator : Char) (state : Nesting) (text rest : Text) :
    state.marked separator (text ++ rest) =
      state.marked separator text ++ (state.run text).marked separator rest := by
  induction text generalizing state with
  | nil => rfl
  | cons c text ih => simp [marked, run, ih]

theorem isTop_atDepth (depth : Depth) (hyphen : Bool) :
    (atDepth depth hyphen).isTop = true ↔ depth = outermost := by
  obtain ⟨braces, parens, angles⟩ := depth
  simp [isTop, atDepth, outermost, and_assoc]

def isOrdinary (c : Char) : Bool :=
  !isStructural c && c != ';' && c != ':'

theorem step_ordinary {c : Char} (ordinary : isOrdinary c = true) (depth : Depth)
    (hyphen : Bool) : (atDepth depth hyphen).step c = atDepth depth (c == '-') := by
  simp only [isOrdinary, isStructural, Bool.and_eq_true, Bool.not_eq_true', Bool.or_eq_false_iff,
    beq_eq_false_iff_ne, bne_iff_ne, ne_eq] at ordinary
  obtain ⟨⟨⟨⟨⟨⟨⟨⟨quote, brace⟩, unbrace⟩, paren⟩, unparen⟩, angle⟩, unangle⟩, _⟩, _⟩ := ordinary
  simp [step, atDepth]

/-- Over characters that it passes over the reader keeps its depth, and is behind a hyphen only if it
was so before or meets one. -/
theorem run_ordinary {separator : Char} (separates : IsSeparator separator) (depth : Depth)
    (hyphen : Bool) {text : Text} (ordinary : ∀ c ∈ text, isOrdinary c = true) :
    (∃ last, (atDepth depth hyphen).run text = atDepth depth last ∧
        (last = true → hyphen = true ∨ '-' ∈ text)) ∧
      (atDepth depth hyphen).marked separator text = unmarked text := by
  induction text generalizing hyphen with
  | nil => exact ⟨⟨hyphen, rfl, .inl⟩, rfl⟩
  | cons c text ih =>
      have first := ordinary c (by simp)
      have other : c ≠ separator := by
        rintro rfl
        cases separates <;> revert first <;> decide
      obtain ⟨⟨last, finish, back⟩, marks⟩ :=
        ih (c == '-') fun c member => ordinary c (by simp [member])
      constructor
      · refine ⟨last, ?_, fun ends => .inr ?_⟩
        · simpa only [run, List.foldl_cons, step_ordinary first] using finish
        · rcases back ends with here | later
          · simp [eq_of_beq here]
          · simp [later]
      · simp only [marked, step_ordinary first, marks, unmarked, List.map_cons]
        simp [Nesting.separates, other]

/-- Behind a separator, unless it is a hyphen, the reader starts anew. -/
theorem step_separator {separator : Char} {state : Nesting} (other : separator ≠ '-')
    (separates : state.separates separator separator = true) : state.step separator = start := by
  obtain ⟨braces, parens, angles, quoted, escaped, afterHyphen⟩ := state
  simp only [Nesting.separates, isStructural, isTop, Bool.and_eq_true, Bool.not_eq_true',
    Bool.or_eq_false_iff, beq_eq_false_iff_ne, beq_iff_eq] at separates
  obtain ⟨⟨_, plain⟩, ⟨⟨⟨rfl, rfl⟩, rfl⟩, rfl⟩, rfl⟩ := separates
  simp [step, start, plain, other]

end Nesting

open Nesting

/-- From the depth the reader is back at it behind the text, and no separator in it is marked. -/
structure Level (separator : Char) (depth : Depth) (text : Text) : Prop where
  back : ∃ hyphen, (atDepth depth false).run text = atDepth depth hyphen
  quiet : (atDepth depth false).marked separator text = unmarked text

section Level

variable {separator : Char} {depth : Depth} {text other : Text}

theorem level_of_ordinary (separates : IsSeparator separator) (depth : Depth)
    (ordinary : ∀ c ∈ text, isOrdinary c = true) : Level separator depth text := by
  obtain ⟨⟨last, finish, _⟩, marks⟩ := run_ordinary separates depth false ordinary
  exact ⟨⟨last, finish⟩, marks⟩

theorem Level.space (separates : IsSeparator separator) (front : Level separator depth text)
    (behind : Level separator depth other) : Level separator depth (text ++ ' ' :: other) := by
  obtain ⟨⟨hyphen, stop⟩, frontMarks⟩ := front
  obtain ⟨finish, marks⟩ := behind
  have blank : (atDepth depth hyphen).step ' ' = atDepth depth false := rfl
  constructor
  · rw [run_append, stop]
    simpa only [run, List.foldl_cons, blank] using finish
  · rw [marked_append, stop, frontMarks]
    have other : Nesting.separates (atDepth depth hyphen) separator ' ' = false := by
      cases separates <;> rfl
    simp only [marked, other, blank, marks]
    simp [unmarked]

theorem level_colon (depth : Depth) : Level ';' depth [':'] :=
  ⟨⟨false, rfl⟩, rfl⟩

theorem Level.semicolon (inner : depth ≠ outermost) (front : Level ';' depth text)
    (behind : Level ';' depth other) : Level ';' depth (text ++ ';' :: ' ' :: other) := by
  obtain ⟨⟨hyphen, stop⟩, frontMarks⟩ := front
  obtain ⟨finish, marks⟩ := behind
  have separator : (atDepth depth hyphen).step ';' = atDepth depth false := rfl
  have blank : (atDepth depth false).step ' ' = atDepth depth false := rfl
  constructor
  · rw [run_append, stop]
    simpa only [run, List.foldl_cons, separator, blank] using finish
  · have unseparated : (atDepth depth hyphen).separates ';' ';' = false := by
      simpa [Nesting.separates, isStructural, ← isTop_atDepth depth hyphen] using inner
    have other : (atDepth depth false).separates ';' ' ' = false := rfl
    rw [marked_append, stop, frontMarks]
    simp only [marked, separator, blank, unseparated, other, marks]
    simp [unmarked]

theorem Level.braces (separates : IsSeparator separator)
    (inside : Level separator { depth with braces := depth.braces + 1 } text) :
    Level separator depth ('{' :: (text ++ ['}'])) := by
  obtain ⟨⟨hyphen, stop⟩, marks⟩ := inside
  have opened : (atDepth depth false).step '{' =
      atDepth { depth with braces := depth.braces + 1 } false := rfl
  have closed : (atDepth { depth with braces := depth.braces + 1 } hyphen).step '}' =
      atDepth depth false := by
    simp [step, atDepth]
  constructor
  · have shape : (atDepth depth false).run ('{' :: (text ++ ['}'])) =
        (((atDepth depth false).step '{').run text).step '}' := by
      simp [run]
    exact ⟨false, by rw [shape, opened, stop, closed]⟩
  · have brace (state : Nesting) : state.separates separator '{' = false := by
      cases separates <;> rfl
    have unbrace (state : Nesting) : state.separates separator '}' = false := by
      cases separates <;> rfl
    simp only [marked, marked_append, brace, unbrace, opened, marks]
    simp [unmarked]

end Level

theorem piecesBetweenMarks_unmarked (text : Text) :
    piecesBetweenMarks (unmarked text) = [text] := by
  induction text with
  | nil => rfl
  | cons c text ih => simp_all [unmarked, piecesBetweenMarks]

theorem piecesBetweenMarks_append (text : Text) (separator : Char) (marks : List (Char × Bool)) :
    piecesBetweenMarks (unmarked text ++ (separator, true) :: marks) =
      text :: piecesBetweenMarks marks := by
  induction text with
  | nil => simp [unmarked, piecesBetweenMarks]
  | cons c text ih => simp_all [unmarked, piecesBetweenMarks]

theorem cutAtMark_unmarked (text : Text) : cutAtMark? (unmarked text) = none := by
  induction text with
  | nil => rfl
  | cons c text ih => simp_all [unmarked, cutAtMark?]

theorem cutAtMark_append (text : Text) (separator : Char) (marks : List (Char × Bool)) :
    cutAtMark? (unmarked text ++ (separator, true) :: marks) =
      some (text, marks.map (·.1)) := by
  induction text with
  | nil => simp [unmarked, cutAtMark?]
  | cons c text ih => simp_all [unmarked, cutAtMark?]

section Splitting

variable {separator : Char} {text rest : Text}

/-- A separator behind a text without one is marked, and behind it the reader starts anew. -/
theorem marked_of_separates (other : separator ≠ '-')
    (none : start.marked separator text = unmarked text)
    (separates : (start.run text).separates separator separator = true) (rest : Text) :
    start.marked separator (text ++ separator :: rest) =
      unmarked text ++ (separator, true) :: start.marked separator rest := by
  rw [marked_append, none, marked, separates, step_separator other separates]

/-- A level text holds no separator, and one can follow it. -/
theorem marked_separator (separates : IsSeparator separator) (level : Level separator outermost text)
    (rest : Text) :
    start.marked separator (text ++ separator :: rest) =
      unmarked text ++ (separator, true) :: start.marked separator rest := by
  obtain ⟨⟨hyphen, stop⟩, quiet⟩ := level
  have begins : start = atDepth outermost false := rfl
  refine marked_of_separates (by cases separates <;> decide) (begins ▸ quiet) ?_ rest
  rw [begins, stop]
  cases separates <;> rfl

theorem splitTopLevel_of_unmarked (none : start.marked separator text = unmarked text) :
    splitTopLevel separator text = [text.trim].filter (!·.isEmpty) := by
  rw [splitTopLevel, none, piecesBetweenMarks_unmarked]
  rfl

/-- A text in front of its first separator is the first part, unless it is blank. -/
theorem splitTopLevel_of_marked
    (marks : start.marked separator (text ++ separator :: rest) =
      unmarked text ++ (separator, true) :: start.marked separator rest) :
    splitTopLevel separator (text ++ separator :: rest) =
      [text.trim].filter (!·.isEmpty) ++ splitTopLevel separator rest := by
  rw [splitTopLevel, marks, piecesBetweenMarks_append, List.map_cons, ← List.singleton_append,
    List.filter_append]
  rfl

theorem splitTopLevel_of_level (level : Level separator outermost text) :
    splitTopLevel separator text = [text.trim].filter (!·.isEmpty) :=
  splitTopLevel_of_unmarked level.quiet

/-- A level text in front of a separator is the first part. -/
theorem splitTopLevel_separator (separates : IsSeparator separator)
    (level : Level separator outermost text) (rest : Text) :
    splitTopLevel separator (text ++ separator :: rest) =
      [text.trim].filter (!·.isEmpty) ++ splitTopLevel separator rest :=
  splitTopLevel_of_marked (marked_separator separates level rest)

theorem partitionTopLevel_of_level (level : Level separator outermost text) :
    partitionTopLevel? separator text = none := by
  have begins : start = atDepth outermost false := rfl
  rw [partitionTopLevel?, begins, level.quiet, cutAtMark_unmarked]
  rfl

theorem partitionTopLevel_separator (separates : IsSeparator separator)
    (level : Level separator outermost text) (rest : Text) :
    partitionTopLevel? separator (text ++ separator :: rest) = some (text.trim, rest.trim) := by
  rw [partitionTopLevel?, marked_separator separates level, cutAtMark_append, marked_map_fst]
  rfl

end Splitting

end Candid
