import Candid.Editor.Declared
import Candid.Proofs.Editor.Diagnostic

/-!
# The search for heads of definitions

A head is the word `type`, blanks, a name, perhaps more blanks and an equals sign. In front of a text
the search finds just the heads, and it goes on behind their equals sign. A stretch of text in which no
head begins is passed over; whether one begins does not depend on what follows, unless it goes on
there.
-/

set_option autoImplicit false

namespace Candid.Editor

/-- What a head holds between the word `type` and its equals sign. -/
structure Head where
  gap : Text
  name : Text
  space : Text
  apart : gap ≠ []
  gapBlank : ∀ c ∈ gap, isBlank c = true
  named : isName name = true
  spaceBlank : ∀ c ∈ space, isBlank c = true

namespace Head

def stem (head : Head) : Text :=
  "type".toList ++ (head.gap ++ (head.name ++ head.space))

variable (head : Head)

theorem exists_name : ∃ c tail, head.name = c :: tail ∧ isNameStart c = true ∧
    ∀ d ∈ tail, isNamePart d = true := by
  have named := head.named
  cases shape : head.name with
  | nil => simp [shape, isName] at named
  | cons c tail =>
      rw [shape, isName, Bool.and_eq_true] at named
      exact ⟨c, tail, rfl, named.1, List.all_eq_true.mp named.2⟩

theorem part_of_mem_name {c : Char} (member : c ∈ head.name) : isNamePart c = true := by
  obtain ⟨first, tail, shape, start, parts⟩ := head.exists_name
  rw [shape] at member
  rcases List.mem_cons.mp member with rfl | later
  · exact isNamePart_of_isNameStart start
  · exact parts c later

end Head

theorem trimStart_append {blanks : Text} (blank : ∀ c ∈ blanks, isBlank c = true) {c : Char}
    (solid : isBlank c = false) (rest : Text) : Text.trimStart (blanks ++ c :: rest) = c :: rest := by
  rw [Text.trimStart, List.dropWhile_append_of_pos blank]
  exact Text.trimStart_cons_of_not_blank solid rest

section Stretch

variable {text rest : Text} {previous : Option Char} {offset : Nat}

/-- No head begins in the text in front of the rest. -/
def Quiet (previous : Option Char) : Text → Text → Prop
  | [], _ => True
  | c :: text, rest =>
    (Text.endsInWord previous = true ∨ declaredInFront? (c :: (text ++ rest)) = none) ∧
      Quiet (some c) text rest

/-- A head begins at the end of the text and goes on up to an equals sign of the rest. -/
def Crosses (text rest : Text) : Prop :=
  ∃ (head : Head) (start tail behind : Text), start <:+ text ∧ start ≠ [] ∧
    head.stem = start ++ tail ∧ rest = tail ++ '=' :: behind

theorem Crosses.cons (c : Char) (crosses : Crosses text rest) : Crosses (c :: text) rest := by
  obtain ⟨head, start, tail, behind, suffix, parts⟩ := crosses
  exact ⟨head, start, tail, behind, suffix.trans (List.suffix_cons c text), parts⟩

/-- Where a head goes on behind a blank, there stands its equals sign, or its name and its equals sign. -/
theorem Crosses.blanked (crosses : Crosses text rest) (blank : ∀ c ∈ rest.head?, isBlank c = true) :
    (∃ space behind, rest = space ++ '=' :: behind ∧ ∀ c ∈ space, isBlank c = true) ∨
      ∃ (head : Head) (gap behind : Text), (∀ c ∈ gap, isBlank c = true) ∧
        rest = gap ++ (head.name ++ (head.space ++ '=' :: behind)) := by
  obtain ⟨head, start, tail, behind, _, _, stem, rfl⟩ := crosses
  -- The rest begins with a blank, so the cut is in the gap or in the space of the head.
  have solid {c : Char} {text : Text} (front : tail = c :: text) : isNamePart c = false := by
    have begins := blank c (by simp [front])
    cases part : isNamePart c with
    | false => rfl
    | true => simp [isBlank_of_isNamePart part] at begins
  have spaced {front : Text} (cut : head.space = front ++ tail) :
      ∀ c ∈ tail, isBlank c = true := by
    intro c member
    exact head.spaceBlank c (by simp [cut, member])
  rcases List.append_eq_append_iff.mp stem with ⟨_, _, behindKeyword⟩ | ⟨front, keyword, rfl⟩
  · rcases List.append_eq_append_iff.mp behindKeyword with ⟨_, _, behindGap⟩ | ⟨gap, inGap, rfl⟩
    · rcases List.append_eq_append_iff.mp behindGap with ⟨_, _, inSpace⟩ | ⟨word, inName, rfl⟩
      · exact .inl ⟨tail, behind, rfl, spaced inSpace⟩
      · cases word with
        | nil => exact .inl ⟨head.space, behind, rfl, head.spaceBlank⟩
        | cons c word =>
            have part := head.part_of_mem_name (c := c) (by simp [inName])
            rw [solid rfl] at part
            cases part
    · refine .inr ⟨head, gap, behind, fun c member => head.gapBlank c ?_, by simp⟩
      simp [inGap, member]
  · cases front with
    | nil => exact .inr ⟨head, head.gap, behind, head.gapBlank, by simp⟩
    | cons c front =>
        have part := List.all_eq_true.mp (by decide : "type".toList.all isNamePart = true) c
          (by simp [keyword])
        rw [solid rfl] at part
        cases part

end Stretch

end Candid.Editor
