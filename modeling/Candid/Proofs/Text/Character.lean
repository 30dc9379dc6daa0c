import Candid.Number.Digit
import Candid.Text.LowerCase
import Candid.Text.Blank
import Candid.Text.Name
import Candid.Text.Word
import Mathlib.Data.List.TakeWhile

/-!
# Kinds of characters

The blank characters, the digits and the characters of names exclude each other as far as the readers
rely on it. The longest front of characters of a kind ends where another kind begins, and the last
blank of a text is trimmed away.
-/

set_option autoImplicit false

namespace Candid

/-- A property of the ASCII characters is decided by going through them. -/
theorem forall_ascii {p : Char → Bool} (all : ∀ n < 128, p (Char.ofNat n) = true) {c : Char}
    (ascii : c.toNat < 128) : p c = true := by
  have here := all c.toNat ascii
  rwa [Char.ofNat_toNat] at here

def blankCodes : List Nat :=
  [9, 10, 11, 12, 13, 28, 29, 30, 31, 32, 0x85, 0xA0, 0x1680, 0x2000, 0x2001, 0x2002, 0x2003,
    0x2004, 0x2005, 0x2006, 0x2007, 0x2008, 0x2009, 0x200A, 0x2028, 0x2029, 0x202F, 0x205F, 0x3000]

theorem mem_blankCodes {c : Char} (blank : isBlank c = true) : c.toNat ∈ blankCodes := by
  simp only [isBlank, Bool.or_eq_true, Bool.and_eq_true, decide_eq_true_eq, beq_iff_eq] at blank
  simp only [blankCodes, List.mem_cons, List.not_mem_nil, or_false]
  omega

theorem isBlank_of_isDigit {c : Char} (digit : isDigit c = true) : isBlank c = false := by
  cases blank : isBlank c with
  | false => rfl
  | true =>
      have noDigit : ∀ code ∈ blankCodes,
          digitZeros.find? (fun first => first ≤ code && code < first + 10) = none := by
        decide +kernel
      simp [isDigit, digitValue?, noDigit c.toNat (mem_blankCodes blank)] at digit

theorem digitValue?_of_decimal {c : Char} (decimal : c.isDigit = true) :
    digitValue? c = some (c.toNat - '0'.toNat) := by
  have ascii : c.toNat < 128 := by
    simp only [Char.isDigit, Bool.and_eq_true, decide_eq_true_eq] at decimal
    have bound : c.toNat ≤ 57 := decimal.2
    omega
  have all := forall_ascii
    (p := fun c => !c.isDigit || digitValue? c == some (c.toNat - '0'.toNat))
    (by decide +kernel) ascii
  simpa [decimal] using all

theorem isDigit_of_decimal {c : Char} (decimal : c.isDigit = true) : isDigit c = true := by
  rw [isDigit, digitValue?_of_decimal decimal]
  rfl

theorem isBlank_of_isNamePart {c : Char} (part : isNamePart c = true) : isBlank c = false := by
  have all := forall_ascii (p := fun c => !isNamePart c || !isBlank c) (by decide +kernel)
    (toNat_lt_of_isNamePart part)
  simpa [part] using all

theorem isWordCharacter_of_isNamePart {c : Char} (part : isNamePart c = true) :
    isWordCharacter c = true := by
  have all := forall_ascii (p := fun c => !isNamePart c || isWordCharacter c) (by decide +kernel)
    (toNat_lt_of_isNamePart part)
  simpa [part] using all

theorem toLower_of_not_isUpper {c : Char} (other : ¬ c.isUpper = true) : c.toLower = c :=
  dif_neg fun range => other (decide_eq_true range)

theorem isNameStart_of_toLower {c : Char} (lower : isNameStart c.toLower = true) :
    isNameStart c = true := by
  by_cases upper : c.isUpper = true
  · show ((c.isUpper || c.isLower) || c == '_') = true
    rw [upper]
    rfl
  · rwa [toLower_of_not_isUpper upper] at lower

theorem isNamePart_of_toLower {c : Char} (lower : isNamePart c.toLower = true) :
    isNamePart c = true := by
  by_cases upper : c.isUpper = true
  · show (((c.isUpper || c.isLower) || c.isDigit) || c == '_') = true
    rw [upper]
    rfl
  · rwa [toLower_of_not_isUpper upper] at lower

theorem span_eq {p : Char → Bool} {tail rest : Text} (all : ∀ d ∈ tail, p d = true)
    (ends : ∀ d ∈ rest.head?, p d = false) :
    (tail ++ rest).takeWhile p = tail ∧ (tail ++ rest).dropWhile p = rest := by
  rw [List.takeWhile_append_of_pos all, List.dropWhile_append_of_pos all]
  cases rest with
  | nil => simp
  | cons c rest =>
      have no := ends c rfl
      simp [no]

theorem all_of_span {p : Char → Bool} {text tail rest : Text} (taken : text.takeWhile p = tail)
    (left : text.dropWhile p = rest) :
    (∀ d ∈ tail, p d = true) ∧ ∀ d ∈ rest.head?, p d = false := by
  subst taken left
  refine ⟨fun d member => List.all_eq_true.mp List.all_takeWhile d member, ?_⟩
  intro d front
  have stop := List.head?_dropWhile_not p text
  rw [Option.mem_def] at front
  rw [front] at stop
  simpa using stop

namespace Text

theorem trimEnd_append_of_blank {c : Char} (blank : isBlank c = true) (text : Text) :
    trimEnd (text ++ [c]) = trimEnd text := by
  simp [trimEnd, blank]

theorem trimEnd_append_of_solid {c : Char} (solid : isBlank c = false) (text : Text) :
    trimEnd (text ++ [c]) = text ++ [c] := by
  simp [trimEnd, solid]

theorem blank_of_trim_nil {text : Text} (nothing : text.trim = []) :
    ∀ c ∈ text, isBlank c = true := by
  rcases trimStart_eq_nil_or_cons text with none | ⟨c, rest, shape, solid⟩
  · exact List.dropWhile_eq_nil_iff.mp none
  · rw [trim, shape, trimEnd_cons, solid] at nothing
    simp at nothing

/-- The last character in front of a text that goes on by one more. -/
theorem getLast?_or_cons {previous : Option Char} (c : Char) (text : Text) :
    (c :: text).getLast?.or previous = text.getLast?.or (some c) := by
  rw [List.getLast?_cons]
  cases text.getLast? <;> rfl

/-- A text is its trimmed part between blanks. -/
theorem exists_trim (text : Text) :
    ∃ front back, text = front ++ (text.trim ++ back) ∧ (∀ c ∈ front, isBlank c = true) ∧
      ∀ c ∈ back, isBlank c = true := by
  have begins := List.takeWhile_append_dropWhile (p := isBlank) (l := text)
  have ends := congrArg List.reverse
    (List.takeWhile_append_dropWhile (p := isBlank) (l := text.trimStart.reverse))
  rw [List.reverse_append, List.reverse_reverse] at ends
  refine ⟨text.takeWhile isBlank, (text.trimStart.reverse.takeWhile isBlank).reverse, ?_,
    List.all_eq_true.mp List.all_takeWhile, fun c member => ?_⟩
  · rw [trim, trimEnd, ends]
    exact begins.symm
  · exact List.all_eq_true.mp List.all_takeWhile c (List.mem_reverse.mp member)

end Text

end Candid
