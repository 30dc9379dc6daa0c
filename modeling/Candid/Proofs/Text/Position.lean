import Candid.Text.Position

/-!
# Positions of offsets

An offset of a text is cut there, and its line and its character are not greater than the offset. So
within the 31 bits every offset has a position.
-/

set_option autoImplicit false

namespace Candid

section Position

variable {source : Text} {offset : Nat}

theorem Position.cut_of_le (inside : offset ≤ source.length) : Position.cut source offset = offset := by
  rw [Position.cut, if_neg (by omega), Int.toNat_natCast]
  exact Nat.min_eq_left inside

theorem Position.lineStart_le (source : Text) (cut : Nat) : Position.lineStart source cut ≤ cut := by
  have taken := List.length_take_le cut source
  unfold Position.lineStart
  simp only
  omega

theorem Position.feeds_le (source : Text) (cut : Nat) : (source.take cut).count '\n' ≤ cut :=
  Nat.le_trans List.count_le_length (List.length_take_le cut source)

theorem Position.make_of_le {line character : Nat} (lineBound : line ≤ Position.limit)
    (characterBound : character ≤ Position.limit) :
    Position.make line character = .ok ⟨line, character⟩ := by
  have within {number : Nat} (bound : number ≤ Position.limit) :
      Position.isWithin number = true := by
    simp only [Position.isWithin, Bool.and_eq_true, decide_eq_true_eq]
    omega
  simp [Position.make, within lineBound, within characterBound]

theorem Position.ofOffset_of_le (inside : offset ≤ source.length) (bound : offset ≤ Position.limit) :
    Position.ofOffset source offset =
      .ok ⟨(source.take offset).count '\n', offset - Position.lineStart source offset⟩ := by
  have lines := Position.feeds_le source offset
  have start := Position.lineStart_le source offset
  rw [Position.ofOffset]
  simp only [Position.cut_of_le inside]
  rw [← Int.ofNat_sub start]
  exact Position.make_of_le (by omega) (by omega)

theorem Range.ofOffset_of_le {length : Nat} (inside : offset + max length 1 ≤ source.length)
    (bound : source.length ≤ Position.limit) :
    ∃ start, Position.ofOffset source offset = .ok start ∧
      Range.ofOffset source offset length =
        .ok ⟨start, ⟨start.line, start.character + max length 1⟩⟩ := by
  have place := Position.ofOffset_of_le (by omega : offset ≤ source.length) (by omega)
  refine ⟨_, place, ?_⟩
  have lines := Position.feeds_le source offset
  have finish : Position.make ((source.take offset).count '\n' : Nat)
      (offset - Position.lineStart source offset + max length 1 : Nat) = .ok ⟨_, _⟩ :=
    Position.make_of_le (by omega) (by omega)
  simp only [Range.ofOffset, place, bind, Except.bind, finish]
  rfl

theorem Range.ofOffset_of_lt (inside : offset < source.length)
    (bound : source.length ≤ Position.limit) :
    ∃ start, Position.ofOffset source offset = .ok start ∧
      Range.ofOffset source offset 1 = .ok ⟨start, ⟨start.line, start.character + 1⟩⟩ :=
  Range.ofOffset_of_le (by omega) bound

end Position

end Candid
