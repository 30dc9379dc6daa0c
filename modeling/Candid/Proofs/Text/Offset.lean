import Candid.Proofs.Text.Lines
import Mathlib.Algebra.GroupWithZero.Nat

/-!
# Offsets of positions

The lines of a text are the pieces between its line feeds. The position of an offset is a place on
these lines, and the offset is told by it: the lengths of the lines in front, a line feed for each of
them, and the character. So within the 31 bits offsets and places correspond one to one, in order.
-/

set_option autoImplicit false

namespace Candid

namespace Position

/-- The offset at which a line begins: the lengths of the lines in front, with their line feeds. -/
def startOf (lines : List Text) (line : Nat) : Nat :=
  ((lines.take line).map List.length).sum + line

/-- The position is a character of one of the lines, or the end of a line. -/
def IsOn (lines : List Text) (position : Position) : Prop :=
  ∃ line, lines[position.line]? = some line ∧ position.character ≤ line.length

def Before (first second : Position) : Prop :=
  first.line < second.line ∨ first.line = second.line ∧ first.character < second.character

section Lines

variable {lines : List Text} {line : Text} {first second position : Position}

theorem startOf_cons (line : Text) (lines : List Text) (number : Nat) :
    startOf (line :: lines) (number + 1) = line.length + 1 + startOf lines number := by
  simp only [startOf, List.take_succ_cons, List.map_cons, List.sum_cons]
  omega

theorem startOf_succ {number : Nat} (found : lines[number]? = some line) :
    startOf lines (number + 1) = startOf lines number + line.length + 1 := by
  simp only [startOf, List.take_add_one, found, Option.toList_some, List.map_append, List.map_cons,
    List.map_nil, List.sum_append, List.sum_cons, List.sum_nil]
  omega

theorem startOf_mono (lines : List Text) {number later : Nat} (order : number ≤ later) :
    startOf lines number ≤ startOf lines later := by
  induction order with
  | refl => exact Nat.le_refl _
  | @step later _ ih =>
      apply Nat.le_trans ih
      cases found : lines[later]? with
      | some line =>
          rw [startOf_succ found]
          omega
      | none =>
          simp only [startOf, List.take_add_one, found, Option.toList_none, List.append_nil]
          omega

/-- What stands earlier on the lines has the smaller offset. -/
theorem offset_lt_of_before (place : first.IsOn lines) (order : first.Before second) :
    startOf lines first.line + first.character < startOf lines second.line + second.character := by
  obtain ⟨line, found, inside⟩ := place
  rcases order with earlier | ⟨same, left⟩
  · have next := startOf_succ found
    have later := startOf_mono lines (show first.line + 1 ≤ second.line from earlier)
    omega
  · rw [same]
    omega

theorem before_or_eq (first second : Position) :
    first.Before second ∨ first = second ∨ second.Before first := by
  rcases Nat.lt_trichotomy first.line second.line with earlier | same | later
  · exact .inl (.inl earlier)
  · rcases Nat.lt_trichotomy first.character second.character with left | equal | right
    · exact .inl (.inr ⟨same, left⟩)
    · right
      left
      cases first
      cases second
      cases same
      cases equal
      rfl
    · exact .inr (.inr (.inr ⟨same.symm, right⟩))
  · exact .inr (.inr (.inl later))

/-- Places on the lines are in the order of their offsets. -/
theorem before_iff (place : first.IsOn lines) (other : second.IsOn lines) :
    first.Before second ↔
      startOf lines first.line + first.character < startOf lines second.line + second.character := by
  constructor
  · exact offset_lt_of_before place
  · intro less
    rcases before_or_eq first second with before | rfl | behind
    · exact before
    · omega
    · have more := offset_lt_of_before other behind
      omega

theorem eq_of_offset_eq (place : first.IsOn lines) (other : second.IsOn lines)
    (same : startOf lines first.line + first.character =
      startOf lines second.line + second.character) : first = second := by
  rcases before_or_eq first second with before | equal | behind
  · have less := offset_lt_of_before place before
    omega
  · exact equal
  · have less := offset_lt_of_before other behind
    omega

end Lines

end Position

namespace Text

theorem exists_pieces (mark : Char) (text : Text) :
    ∃ piece others, text.pieces mark = piece :: others := by
  cases text with
  | nil => exact ⟨[], [], rfl⟩
  | cons c rest =>
      rw [pieces]
      split
      · exact ⟨_, _, rfl⟩
      · split <;> exact ⟨_, _, rfl⟩

theorem pieces_cons_of_ne {mark c : Char} {text piece : Text} {others : List Text} (other : c ≠ mark)
    (split : text.pieces mark = piece :: others) :
    pieces mark (c :: text) = (c :: piece) :: others := by
  rw [pieces, if_neg other, split]

theorem pieces_feed (text : Text) : pieces '\n' ('\n' :: text) = [] :: pieces '\n' text := by
  rw [pieces, if_pos rfl]

theorem startOf_pieces (text : Text) :
    Position.startOf (text.pieces '\n') (text.pieces '\n').length = text.length + 1 := by
  induction text with
  | nil => rfl
  | cons c text ih =>
      by_cases feed : c = '\n'
      · cases feed
        rw [pieces_feed, List.length_cons, Position.startOf_cons, ih, List.length_cons,
          List.length_nil]
        omega
      · obtain ⟨piece, others, split⟩ := exists_pieces '\n' text
        rw [split, List.length_cons, Position.startOf_cons] at ih
        rw [pieces_cons_of_ne feed split, List.length_cons, Position.startOf_cons]
        simp only [List.length_cons]
        omega

/-- The end of the front of a text stands on its lines: as many lines are in front as there are line
feeds, and the character is the length of the open line. -/
theorem isOn_of_front (front rest : Text) :
    let position : Position := ⟨front.count '\n', front.openLine.length⟩
    position.IsOn ((front ++ rest).pieces '\n') ∧
      Position.startOf ((front ++ rest).pieces '\n') position.line + position.character =
        front.length := by
  -- A line feed in front adds an empty line; any other character stands on the first line.
  induction front with
  | nil =>
      obtain ⟨piece, others, split⟩ := exists_pieces '\n' rest
      exact ⟨⟨piece, by simp [split], Nat.zero_le _⟩, rfl⟩
  | cons c front ih =>
      obtain ⟨⟨line, found, inside⟩, offset⟩ := ih
      simp only at found inside offset
      rw [List.cons_append]
      by_cases feed : c = '\n'
      · cases feed
        rw [pieces_feed, openLine_feed, List.count_cons_self]
        refine ⟨⟨line, by simpa using found, inside⟩, ?_⟩
        simp only [Position.startOf_cons, List.length_nil, List.length_cons]
        omega
      · obtain ⟨piece, others, split⟩ := exists_pieces '\n' (front ++ rest)
        rw [split] at found offset
        rw [pieces_cons_of_ne feed split, List.count_cons_of_ne feed]
        by_cases fed : '\n' ∈ front
        · obtain ⟨number, counted⟩ := Nat.exists_eq_succ_of_ne_zero (List.count_pos_iff.mpr fed).ne'
          rw [counted] at found offset ⊢
          rw [openLine_cons_of_mem c fed]
          refine ⟨⟨line, by simpa using found, inside⟩, ?_⟩
          simp only [Position.startOf_cons, List.length_cons] at offset ⊢
          omega
        · have none : front.count '\n' = 0 := List.count_eq_zero.mpr fed
          have whole : openLine (c :: front) = c :: front :=
            openLine_of_not_mem (by simp [fed, Ne.symm feed])
          rw [openLine_of_not_mem fed] at inside
          rw [none] at found ⊢
          have same : piece = line := by simpa using found
          subst same
          rw [whole]
          refine ⟨⟨c :: piece, rfl, Nat.succ_le_succ inside⟩, ?_⟩
          simp [Position.startOf]

end Text

namespace Position

variable {source : Text}

/-- The position of an offset is a place on the lines and tells the offset. -/
theorem exists_ofOffset {offset : Nat} (bound : source.length ≤ limit)
    (inside : offset ≤ source.length) :
    ∃ position, ofOffset source offset = .ok position ∧ position.IsOn (source.pieces '\n') ∧
      startOf (source.pieces '\n') position.line + position.character = offset := by
  have front : (source.take offset).length = offset := List.length_take_of_le inside
  have found := ofOffset_append (source.drop offset) (Nat.le_trans front.le (inside.trans bound))
  obtain ⟨place, told⟩ := Text.isOn_of_front (source.take offset) (source.drop offset)
  rw [List.take_append_drop, front] at found
  rw [List.take_append_drop] at place told
  exact ⟨_, found, place, told.trans front⟩

theorem offset_le_of_isOn {position : Position} (place : position.IsOn (source.pieces '\n')) :
    startOf (source.pieces '\n') position.line + position.character ≤ source.length := by
  obtain ⟨line, found, inside⟩ := place
  have next := startOf_succ found
  obtain ⟨within, _⟩ := List.getElem?_eq_some_iff.mp found
  have last := startOf_mono (source.pieces '\n')
    (show position.line + 1 ≤ (source.pieces '\n').length from within)
  have whole := source.startOf_pieces
  omega

/-- In a text of fewer than 2 ^ 31 characters every offset has a position on the lines, which tells the
offset; every place on the lines is the position of the offset that it tells; and greater offsets have
later positions. -/
theorem ofOffset_correspondence (bound : source.length < 2 ^ 31) :
    (∀ offset : Nat, offset ≤ source.length →
      ∃ position, ofOffset source offset = .ok position ∧ position.IsOn (source.pieces '\n') ∧
        startOf (source.pieces '\n') position.line + position.character = offset) ∧
    (∀ position : Position, position.IsOn (source.pieces '\n') →
      ∃ offset : Nat, offset ≤ source.length ∧ ofOffset source offset = .ok position) ∧
    (∀ (offset other : Nat) (position later : Position), offset ≤ source.length →
      other ≤ source.length → ofOffset source offset = .ok position →
      ofOffset source other = .ok later → (offset < other ↔ position.Before later)) := by
  have short : source.length ≤ limit := Nat.le_of_lt_succ bound
  refine ⟨fun offset inside => exists_ofOffset short inside, fun position place => ?_, ?_⟩
  · have inside := offset_le_of_isOn place
    obtain ⟨same, found, on, told⟩ := exists_ofOffset short inside
    cases eq_of_offset_eq on place told
    exact ⟨_, inside, found⟩
  · intro offset other position later inside within found further
    obtain ⟨_, again, place, told⟩ := exists_ofOffset short inside
    cases found.symm.trans again
    obtain ⟨_, again, behind, last⟩ := exists_ofOffset short within
    cases further.symm.trans again
    rw [before_iff place behind, told, last]

/-- A line feed ends its own line, and behind the last one an empty line is left. -/
theorem ofOffset_correspondence_of_feeds :
    "\nab\n".toList.length < 2 ^ 31 ∧
      ofOffset "\nab\n".toList 3 = .ok ⟨1, 2⟩ ∧ ofOffset "\nab\n".toList 4 = .ok ⟨2, 0⟩ ∧
      (∀ offset : Nat, offset ≤ "\nab\n".toList.length →
        ∃ position, ofOffset "\nab\n".toList offset = .ok position ∧
          position.IsOn (Text.pieces '\n' "\nab\n".toList) ∧
          startOf (Text.pieces '\n' "\nab\n".toList) position.line + position.character = offset) ∧
      (∀ position : Position, position.IsOn (Text.pieces '\n' "\nab\n".toList) →
        ∃ offset : Nat, offset ≤ "\nab\n".toList.length ∧
          ofOffset "\nab\n".toList offset = .ok position) ∧
      (∀ (offset other : Nat) (position later : Position), offset ≤ "\nab\n".toList.length →
        other ≤ "\nab\n".toList.length → ofOffset "\nab\n".toList offset = .ok position →
        ofOffset "\nab\n".toList other = .ok later → (offset < other ↔ position.Before later)) :=
  ⟨by decide, by decide, by decide, ofOffset_correspondence (by decide)⟩

end Position

end Candid
