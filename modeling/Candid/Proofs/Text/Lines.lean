import Candid.Proofs.Text.Character
import Candid.Proofs.Text.Position
import Candid.Text.Lines
import Candid.Text.Word
import Mathlib.Data.List.TakeWhile

/-!
# Lines and columns

Positions count line feeds, and documents have more line breaks than these. Up to a place before which
only line feeds end lines, with a carriage return in front or without, both have the same lines, and
the character of a position is the column in its line.
-/

set_option autoImplicit false

namespace Candid

namespace Text

/-- Whether only line feeds end lines in a text, with a carriage return in front or without. -/
def feedsOnly : Text → Bool
  | [] => true
  | '\r' :: '\n' :: rest => feedsOnly rest
  | c :: rest => (c == '\n' || !isLineBreak c) && feedsOnly rest

/-- The part of a text behind its last line feed. -/
def openLine (text : Text) : Text :=
  (text.reverse.takeWhile (· ≠ '\n')).reverse

variable {text rest : Text}

theorem openLine_of_not_mem (absent : '\n' ∉ text) : openLine text = text := by
  have others : ∀ c ∈ text.reverse, decide (c ≠ '\n') = true := by
    intro c member
    have other : c ≠ '\n' := by
      rintro rfl
      exact absent (List.mem_reverse.mp member)
    simpa using other
  rw [openLine, List.takeWhile_eq_self_iff.mpr others, List.reverse_reverse]

theorem openLine_cons_of_mem (c : Char) (fed : '\n' ∈ text) :
    openLine (c :: text) = openLine text := by
  have stops : ¬ (text.reverse.takeWhile (· ≠ '\n')).length = text.reverse.length := by
    intro whole
    have same := (List.takeWhile_prefix (l := text.reverse) (· ≠ '\n')).eq_of_length whole
    have kept := List.takeWhile_eq_self_iff.mp same '\n' (List.mem_reverse.mpr fed)
    simp at kept
  rw [openLine, List.reverse_cons, List.takeWhile_append, if_neg stops, openLine]

theorem openLine_feed (text : Text) : openLine ('\n' :: text) = openLine text := by
  rw [openLine, List.reverse_cons, List.takeWhile_append]
  split
  · rename_i whole
    have same := (List.takeWhile_prefix (l := text.reverse) (· ≠ '\n')).eq_of_length whole
    rw [openLine, same]
    simp
  · rfl

/-- The open line of a text ends with the last character of the text, unless it is empty. -/
theorem mem_getLast?_of_openLine {c : Char} (member : c ∈ (openLine text).getLast?) :
    c ∈ text.getLast? := by
  rw [openLine, List.getLast?_reverse] at member
  rw [← List.head?_reverse]
  cases shape : text.reverse with
  | nil => simp [shape] at member
  | cons d others =>
      rw [shape, List.takeWhile_cons] at member
      split at member
      · exact member
      · cases member

theorem lines_feed (text : Text) : lines ('\n' :: text) = ['\n'] :: lines text := by
  rw [lines]
  · rfl
  · intro rest shape
    cases shape

theorem exists_lines_of_ne_nil (more : text ≠ []) :
    ∃ line others, text.lines = line :: others := by
  cases split : text.lines with
  | cons line others => exact ⟨line, others, rfl⟩
  | nil =>
      have whole := lines_flatten text
      rw [split] at whole
      exact absurd whole.symm more

theorem lines_cons_of_inside {c : Char} {line : Text} {others : List Text}
    (inside : isLineBreak c = false) (split : text.lines = line :: others) :
    lines (c :: text) = (c :: line) :: others := by
  rw [lines, inside]
  · simp [split]
  · rintro rest rfl
    cases inside

/-- The line on which a text is continued has its open line in front. -/
theorem lines_append (fed : feedsOnly text = true) (more : rest ≠ []) :
    (text ++ rest).lines[text.count '\n']? = rest.lines.head?.map (openLine text ++ ·) := by
  -- A line feed starts the count and the open line anew; any other character stands on the first of
  -- the lines that follow it.
  fun_induction feedsOnly text with
  | case1 =>
      obtain ⟨line, others, split⟩ := exists_lines_of_ne_nil more
      simp [openLine, split]
  | case2 text ih =>
      have front : openLine ('\r' :: '\n' :: text) = openLine text := by
        rw [openLine_cons_of_mem _ List.mem_cons_self, openLine_feed]
      rw [front, ← ih fed]
      simp [lines]
  | case3 c text noPair ih =>
      rw [Bool.and_eq_true] at fed
      obtain ⟨inside, further⟩ := fed
      by_cases feed : c = '\n'
      · cases feed
        rw [openLine_feed, ← ih further, List.cons_append, lines_feed]
        simp
      · have inside : isLineBreak c = false := by simpa [feed] using inside
        obtain ⟨line, others, split⟩ := exists_lines_of_ne_nil (by simp [more] : text ++ rest ≠ [])
        rw [List.cons_append, lines_cons_of_inside inside split, List.count_cons_of_ne feed]
        have found := ih further
        rw [split] at found
        by_cases fed : '\n' ∈ text
        · obtain ⟨number, counted⟩ := Nat.exists_eq_succ_of_ne_zero (List.count_pos_iff.mpr fed).ne'
          rw [openLine_cons_of_mem c fed, ← found, counted]
          rfl
        · have absent : c :: text = openLine (c :: text) :=
            (openLine_of_not_mem (by simp [fed, Ne.symm feed])).symm
          rw [openLine_of_not_mem fed] at found
          rw [List.count_eq_zero.mpr fed] at found ⊢
          rw [← absent]
          cases front : rest.lines.head? with
          | none => simp [front] at found
          | some tail => simpa [front] using found

theorem exists_line_of_cons (c : Char) (rest : Text) :
    ∃ tail, (lines (c :: rest)).head? = some (c :: tail) := by
  rw [lines.eq_def]
  split
  · contradiction
  · rename_i shape
    cases shape
    exact ⟨_, rfl⟩
  · rename_i shape
    cases shape
    split
    · exact ⟨[], rfl⟩
    · split
      · exact ⟨[], rfl⟩
      · exact ⟨_, rfl⟩

/-- A text without line breaks stands on one line with the character behind. -/
theorem exists_line_of_inside {c : Char} (inside : ∀ d ∈ text, isLineBreak d = false) :
    ∃ tail, (text ++ c :: rest).lines.head? = some (text ++ c :: tail) := by
  induction text with
  | nil => exact exists_line_of_cons c rest
  | cons d text ih =>
      obtain ⟨tail, front⟩ := ih fun e member => inside e (List.mem_cons_of_mem d member)
      obtain ⟨others, split⟩ := List.head?_eq_some_iff.mp front
      refine ⟨tail, ?_⟩
      rw [List.cons_append, lines_cons_of_inside (inside d List.mem_cons_self) split]
      rfl

/-- A word between characters that belong to no word is found at its first character. -/
theorem wordAt_append {front behind : Text} {c : Char} {tail : Text}
    (within : ∀ d ∈ c :: tail, isWordCharacter d = true)
    (before : ∀ d ∈ front.getLast?, isWordCharacter d = false)
    (after : ∀ d ∈ behind.head?, isWordCharacter d = false) :
    wordAt (front ++ (c :: tail ++ behind)) front.length = c :: tail := by
  have first : isWordCharacter c = true := within c List.mem_cons_self
  have others : ∀ d ∈ tail, isWordCharacter d = true :=
    fun d member => within d (List.mem_cons_of_mem c member)
  have left : front.reverse.takeWhile isWordCharacter = [] := by
    rw [← List.head?_reverse] at before
    cases shape : front.reverse with
    | nil => rfl
    | cons d others => exact List.takeWhile_cons_of_neg (by simp [before d (by simp [shape])])
  rw [wordAt, List.drop_left, List.take_left, List.cons_append]
  simp [first, left, (span_eq others after).1]

end Text

theorem isLineBreak_of_isNamePart {c : Char} (part : isNamePart c = true) :
    isLineBreak c = false := by
  have all := forall_ascii (p := fun c => !isNamePart c || !isLineBreak c) (by decide +kernel)
    (toNat_lt_of_isNamePart part)
  simpa [part] using all

/-- The character of a position is the length of the open line in front of it. -/
theorem Position.ofOffset_append {front : Text} (rest : Text) (bound : front.length ≤ Position.limit) :
    Position.ofOffset (front ++ rest) front.length =
      .ok ⟨front.count '\n', front.openLine.length⟩ := by
  have short := (List.takeWhile_prefix (l := front.reverse) (· ≠ '\n')).length_le
  rw [List.length_reverse] at short
  rw [Position.ofOffset_of_le (by simp) bound, Position.lineStart, List.take_left, Text.openLine,
    List.length_reverse, Nat.sub_sub_self short]

end Candid
