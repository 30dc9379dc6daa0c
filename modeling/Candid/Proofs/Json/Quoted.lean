import Candid.Json.Quoted
import Candid.Json.Reader
import Mathlib.Data.Nat.Init

/-!
# Reading quoted texts

A text that was written between double quotes is read back, whatever stands behind its closing quote.
Each character is read from its own escape: the reader needs one step of fuel for it, and one character
behind it.
-/

set_option autoImplicit false

namespace Candid.Json

namespace Quoted

theorem hexValue_digitChar {digit : Nat} (hex : digit < 16) :
    hexValue? (Nat.digitChar digit) = some digit := by
  decide +revert

/-- The escape of a code unit is a backslash, a letter and four digits that spell the unit. -/
theorem unitEscape_append {unit : Nat} (bound : unit < 0x10000) (rest : Text) :
    ∃ digits, unitEscape unit ++ rest = '\\' :: 'u' :: digits ∧
      Reader.hexQuad? digits = some (unit, rest) ∧ digits.length = rest.length + 4 := by
  have digit (place : Nat) :
      hexValue? (Nat.digitChar (unit / place % 16)) = some (unit / place % 16) :=
    hexValue_digitChar (Nat.mod_lt _ (by decide))
  have whole : ((unit / 4096 % 16 * 16 + unit / 256 % 16) * 16 + unit / 16 % 16) * 16 +
      unit / 1 % 16 = unit := by omega
  refine ⟨Nat.digitChar (unit / 4096 % 16) :: Nat.digitChar (unit / 256 % 16) ::
    Nat.digitChar (unit / 16 % 16) :: Nat.digitChar (unit / 1 % 16) :: rest, rfl, ?_, rfl⟩
  simp only [Reader.hexQuad?, digit, Option.bind_eq_bind, Option.bind_some, whole]
  rfl

/-- No character is a surrogate, and the greatest is `0x10FFFF`. -/
theorem toNat_valid (c : Char) :
    c.toNat < 0xD800 ∨ (0xDFFF < c.toNat ∧ c.toNat < 0x110000) :=
  c.valid

/-- A character is read from its escape by code units. -/
theorem read_unicodeEscape (c : Char) {rest : Text} (more : rest ≠ []) :
    ∃ digits, unicodeEscape c ++ rest = '\\' :: 'u' :: digits ∧
      ∀ start, Reader.unicodeEscape start digits = .ok (c, rest) := by
  obtain ⟨next, others, rfl⟩ := List.exists_cons_of_ne_nil more
  have valid := toNat_valid c
  unfold unicodeEscape
  simp only
  split
  · rename_i one
    obtain ⟨digits, shape, read, _⟩ := unitEscape_append one (next :: others)
    refine ⟨digits, shape, fun start => ?_⟩
    have high : Reader.isHighSurrogate c.toNat = false := by
      simp only [Reader.isHighSurrogate, Bool.and_eq_false_iff, decide_eq_false_iff_not]
      omega
    have low : Reader.isLowSurrogate c.toNat = false := by
      simp only [Reader.isLowSurrogate, Bool.and_eq_false_iff, decide_eq_false_iff_not]
      omega
    simp [Reader.unicodeEscape, read, high, low, Reader.characterOfUnit]
  · rename_i two
    have least : 0xD800 + (c.toNat - 0x10000) / 0x400 < 0x10000 := by omega
    have last : 0xDC00 + (c.toNat - 0x10000) % 0x400 < 0x10000 := by omega
    obtain ⟨second, lowShape, lowRead, lowSize⟩ := unitEscape_append last (next :: others)
    obtain ⟨digits, shape, read, _⟩ := unitEscape_append least ('\\' :: 'u' :: second)
    refine ⟨digits, by rw [List.append_assoc, lowShape, shape], fun start => ?_⟩
    have high : Reader.isHighSurrogate (0xD800 + (c.toNat - 0x10000) / 0x400) = true := by
      simp only [Reader.isHighSurrogate, Bool.and_eq_true, decide_eq_true_eq]
      omega
    have low : Reader.isLowSurrogate (0xDC00 + (c.toNat - 0x10000) % 0x400) = true := by
      simp only [Reader.isLowSurrogate, Bool.and_eq_true, decide_eq_true_eq]
      omega
    have long : ¬ second.length < 5 := by
      rw [lowSize, List.length_cons]
      omega
    have pair : Reader.characterOfPair (0xD800 + (c.toNat - 0x10000) / 0x400)
        (0xDC00 + (c.toNat - 0x10000) % 0x400) = c := by
      have code : 0x10000 + (0xD800 + (c.toNat - 0x10000) / 0x400 - 0xD800) * 0x400 +
          (0xDC00 + (c.toNat - 0x10000) % 0x400 - 0xDC00) = c.toNat := by omega
      rw [Reader.characterOfPair, code, Char.ofNat_toNat]
    simp only [Reader.unicodeEscape, read, high, if_neg long, lowRead, low, pair, ↓reduceIte]

/-- A character is escaped by a letter, escaped by its code units, or stands for itself. -/
theorem character_cases (asciiOnly : Bool) (c : Char) :
    (∃ letter, character asciiOnly c = ['\\', letter] ∧ letter ≠ 'u' ∧
        Reader.escapedCharacter? letter = some c) ∨
      character asciiOnly c = unicodeEscape c ∨
      (character asciiOnly c = [c] ∧ c ≠ '"' ∧ c ≠ '\\' ∧ 32 ≤ c.toNat) := by
  unfold character
  iterate 7
    split
    · rename_i same
      exact .inl ⟨_, rfl, by decide, by rw [same]; rfl⟩
  split
  · exact .inr (.inl rfl)
  · rename_i quote backslash _ _ _ _ _ shown
    exact .inr (.inr ⟨rfl, quote, backslash, by omega⟩)

theorem character_ne_nil (asciiOnly : Bool) (c : Char) : character asciiOnly c ≠ [] := by
  rcases character_cases asciiOnly c with ⟨_, shape, _⟩ | shape | ⟨shape, _⟩
  · simp [shape]
  · rw [shape]
    unfold unicodeEscape
    simp only
    split <;> simp [unitEscape]
  · simp [shape]

end Quoted

namespace Reader

open Quoted

/-- A written character is read with one step of fuel. -/
theorem quoted_character (asciiOnly : Bool) (c : Char) {opening rest others behind : Text} {fuel : Nat}
    (more : rest ≠ []) (read : quoted opening fuel rest = .ok (others, behind)) :
    quoted opening (fuel + 1) (character asciiOnly c ++ rest) = .ok (c :: others, behind) := by
  rcases character_cases asciiOnly c with ⟨letter, shape, other, meaning⟩ | shape | ⟨shape, plain⟩
  · rw [shape, List.cons_append, List.cons_append, List.nil_append, quoted]
    · simp only [meaning, read]
      rfl
    · exact other
  · obtain ⟨digits, escape, unit⟩ := read_unicodeEscape c more
    rw [shape, escape, quoted, unit]
    simp only [bind, Except.bind, read]
    rfl
  · obtain ⟨quote, backslash, least⟩ := plain
    rw [shape, List.singleton_append, quoted]
    · simp only [if_neg (Nat.not_lt.mpr least), read]
      rfl
    · exact quote
    · intro same
      exact absurd same backslash
    · intro rest same
      exact absurd same backslash
    · intro letter rest same
      exact absurd same backslash

/-- A text is read back from its written characters and the closing quote. -/
theorem quoted_content (asciiOnly : Bool) (opening content rest : Text) {fuel : Nat}
    (enough : content.length < fuel) :
    quoted opening fuel (content.flatMap (character asciiOnly) ++ '"' :: rest) =
      .ok (content, rest) := by
  induction content generalizing fuel with
  | nil =>
      obtain ⟨fuel, rfl⟩ := Nat.exists_eq_add_one_of_ne_zero (Nat.ne_of_gt enough)
      rw [List.flatMap_nil, List.nil_append, quoted]
  | cons c content ih =>
      obtain ⟨fuel, rfl⟩ := Nat.exists_eq_add_one_of_ne_zero (Nat.ne_of_gt (Nat.zero_lt_of_lt enough))
      rw [List.flatMap_cons, List.append_assoc]
      exact quoted_character asciiOnly c (by simp) (ih (by simpa using enough))

end Reader

/-- The written characters are at least as many as those of the text. -/
theorem length_lt_quoted (asciiOnly : Bool) (content : Text) :
    content.length + 2 ≤ (quoted asciiOnly content).length := by
  have each : content.length ≤ (content.flatMap (Quoted.character asciiOnly)).length := by
    induction content with
    | nil => simp
    | cons c content ih =>
        have some := List.length_pos_iff.mpr (Quoted.character_ne_nil asciiOnly c)
        rw [List.flatMap_cons, List.length_append, List.length_cons]
        omega
  simpa [quoted] using each

end Candid.Json
