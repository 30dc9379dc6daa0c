import Candid.Text.Blank

/-!
# Nesting

A reader that follows braces, parentheses and angle brackets through a type expression, each kind with
a counter of its own, and skips quoted labels. The closing angle of an arrow `->` does not count. A
separator is at top level where all three counters are zero.
-/

set_option autoImplicit false

namespace Candid

structure Nesting where
  braces : Int
  parens : Int
  angles : Int
  quoted : Bool
  escaped : Bool
  afterHyphen : Bool
  deriving DecidableEq, Repr

namespace Nesting

def start : Nesting := ⟨0, 0, 0, false, false, false⟩

def step (state : Nesting) (c : Char) : Nesting :=
  let next := { state with escaped := false, afterHyphen := c == '-' }
  if state.escaped then next
  else if state.quoted then
    if c = '\\' then { next with escaped := true }
    else if c = '"' then { next with quoted := false }
    else next
  else
    match c with
    | '"' => { next with quoted := true }
    | '{' => { next with braces := state.braces + 1 }
    | '}' => { next with braces := state.braces - 1 }
    | '(' => { next with parens := state.parens + 1 }
    | ')' => { next with parens := state.parens - 1 }
    | '<' => { next with angles := state.angles + 1 }
    | '>' => if state.afterHyphen then next else { next with angles := state.angles - 1 }
    | _ => next

def run (state : Nesting) (text : Text) : Nesting :=
  text.foldl step state

/-- Whether the reader is outside quotes with all counters at zero. -/
def isTop (state : Nesting) : Bool :=
  !state.escaped && !state.quoted && state.braces == 0 && state.parens == 0 && state.angles == 0

/-- The characters that the reader itself takes note of; none of them separates. -/
def isStructural (c : Char) : Bool :=
  c == '"' || c == '{' || c == '}' || c == '(' || c == ')' || c == '<' || c == '>'

def separates (state : Nesting) (separator c : Char) : Bool :=
  c == separator && !isStructural c && state.isTop

def marked (separator : Char) (state : Nesting) : Text → List (Char × Bool)
  | [] => []
  | c :: rest => (c, state.separates separator c) :: marked separator (state.step c) rest

end Nesting

def separatorOffsets (separator : Char) (text : Text) : List Nat :=
  (Nesting.start.marked separator text).zipIdx.filterMap fun ((_, mark), offset) =>
    if mark then some offset else none

def piecesBetweenMarks : List (Char × Bool) → List Text
  | [] => [[]]
  | (c, mark) :: rest =>
    if mark then [] :: piecesBetweenMarks rest
    else
      match piecesBetweenMarks rest with
      | [] => [[c]]
      | piece :: others => (c :: piece) :: others

/-- The parts between top-level separators, trimmed; blank parts are dropped. -/
def splitTopLevel (separator : Char) (text : Text) : List Text :=
  (piecesBetweenMarks (Nesting.start.marked separator text)).map Text.trim |>.filter (!·.isEmpty)

def cutAtMark? : List (Char × Bool) → Option (Text × Text)
  | [] => none
  | (c, mark) :: rest =>
    if mark then some ([], rest.map (·.1))
    else (cutAtMark? rest).map fun (before, behind) => (c :: before, behind)

def partitionTopLevel? (separator : Char) (text : Text) : Option (Text × Text) :=
  (cutAtMark? (Nesting.start.marked separator text)).map fun (before, behind) =>
    (before.trim, behind.trim)

namespace Nesting

theorem marked_map_fst (separator : Char) (state : Nesting) (text : Text) :
    (state.marked separator text).map (·.1) = text := by
  induction text generalizing state with
  | nil => rfl
  | cons c rest ih => simp [marked, ih]

end Nesting

theorem length_of_mem_piecesBetweenMarks {marks : List (Char × Bool)} {piece : Text}
    (member : piece ∈ piecesBetweenMarks marks) : piece.length ≤ marks.length := by
  induction marks generalizing piece with
  | nil => simp_all [piecesBetweenMarks]
  | cons entry rest ih =>
    obtain ⟨c, mark⟩ := entry
    simp only [piecesBetweenMarks] at member
    split at member
    · rcases List.mem_cons.mp member with rfl | later
      · simp
      · exact Nat.le_succ_of_le (ih later)
    · split at member
      · rename_i empty
        simp_all
      · rename_i first others split
        rcases List.mem_cons.mp member with rfl | later
        · have : first.length ≤ rest.length := ih (by simp [split])
          simp only [List.length_cons]
          omega
        · exact Nat.le_succ_of_le (ih (by simp [split, later]))

theorem length_of_mem_splitTopLevel {separator : Char} {text part : Text}
    (member : part ∈ splitTopLevel separator text) : part.length ≤ text.length := by
  simp only [splitTopLevel, List.mem_filter, List.mem_map] at member
  obtain ⟨⟨piece, inside, rfl⟩, _⟩ := member
  have bound := length_of_mem_piecesBetweenMarks inside
  have whole := congrArg List.length (Nesting.marked_map_fst separator .start text)
  rw [List.length_map] at whole
  exact Nat.le_trans (Text.length_trim_le piece) (whole ▸ bound)

theorem length_of_cutAtMark {marks : List (Char × Bool)} {before behind : Text}
    (cut : cutAtMark? marks = some (before, behind)) :
    before.length + behind.length < marks.length := by
  induction marks generalizing before behind with
  | nil => simp [cutAtMark?] at cut
  | cons entry rest ih =>
    obtain ⟨c, mark⟩ := entry
    simp only [cutAtMark?] at cut
    split at cut
    · simp only [Option.some.injEq, Prod.mk.injEq] at cut
      obtain ⟨rfl, rfl⟩ := cut
      simp
    · obtain ⟨⟨first, second⟩, step, same⟩ := Option.map_eq_some_iff.mp cut
      simp only [Prod.mk.injEq] at same
      obtain ⟨rfl, rfl⟩ := same
      have := ih step
      simp only [List.length_cons]
      omega

theorem length_of_partitionTopLevel {separator : Char} {text before behind : Text}
    (cut : partitionTopLevel? separator text = some (before, behind)) :
    before.length + behind.length < text.length := by
  obtain ⟨⟨first, second⟩, found, same⟩ := Option.map_eq_some_iff.mp cut
  simp only [Prod.mk.injEq] at same
  obtain ⟨rfl, rfl⟩ := same
  have bound := length_of_cutAtMark found
  have whole := congrArg List.length (Nesting.marked_map_fst separator .start text)
  rw [List.length_map] at whole
  have := Text.length_trim_le first
  have := Text.length_trim_le second
  omega

end Candid
