import Candid.Text.Basic

/-!
# Blank characters

The white space characters of Unicode together with the four information separators, and the
trimming of a text by them.
-/

set_option autoImplicit false

namespace Candid

/-- Tab to carriage return, the information separators, the space, and the spaces and separators
of Unicode beyond Latin. The zero-width space and the byte order mark are not blank. -/
def isBlank (c : Char) : Bool :=
  let code := c.toNat
  (9 ≤ code && code ≤ 13) || (28 ≤ code && code ≤ 32) || code == 0x85 || code == 0xA0 ||
    code == 0x1680 || (0x2000 ≤ code && code ≤ 0x200A) || code == 0x2028 || code == 0x2029 ||
    code == 0x202F || code == 0x205F || code == 0x3000

namespace Text

def trimStart (text : Text) : Text :=
  text.dropWhile isBlank

def trimEnd (text : Text) : Text :=
  (text.reverse.dropWhile isBlank).reverse

def trim (text : Text) : Text :=
  text.trimStart.trimEnd

theorem length_dropWhile_le {α : Type} (p : α → Bool) (items : List α) :
    (items.dropWhile p).length ≤ items.length := by
  induction items with
  | nil => simp
  | cons item rest ih =>
    simp only [List.dropWhile_cons, List.length_cons]
    split
    · omega
    · simp

theorem length_trim_le (text : Text) : text.trim.length ≤ text.length := by
  have start := length_dropWhile_le isBlank text
  have finish := length_dropWhile_le isBlank text.trimStart.reverse
  simp only [trim, trimEnd, List.length_reverse] at *
  exact Nat.le_trans finish start

theorem trimEnd_cons (c : Char) (rest : Text) :
    trimEnd (c :: rest) =
      if (trimEnd rest).isEmpty && isBlank c then [] else c :: trimEnd rest := by
  unfold trimEnd
  rw [List.reverse_cons, List.dropWhile_append]
  cases List.dropWhile isBlank rest.reverse with
  | nil =>
    cases blank : isBlank c with
    | true => simp only [List.dropWhile_cons, blank, List.isEmpty_nil, ↓reduceIte, List.reverse_nil,
        Bool.and_true, List.dropWhile_nil]
    | false => simp only [List.dropWhile_cons, blank, List.isEmpty_nil, ↓reduceIte,
        List.reverse_nil, Bool.and_false, Bool.false_eq_true, List.reverse_singleton]
  | cons d others =>
    simp only [List.isEmpty_cons, Bool.false_eq_true, ↓reduceIte, List.reverse_append,
      List.reverse_singleton, List.singleton_append, List.isEmpty_reverse, Bool.false_and]

theorem trimStart_cons_of_not_blank {c : Char} (solid : isBlank c = false) (rest : Text) :
    trimStart (c :: rest) = c :: rest := by
  simp [trimStart, solid]

theorem trimStart_eq_nil_or_cons (text : Text) :
    trimStart text = [] ∨ ∃ c rest, trimStart text = c :: rest ∧ isBlank c = false := by
  induction text with
  | nil => simp [trimStart]
  | cons c rest ih =>
    by_cases blank : isBlank c = true
    · simpa [trimStart, blank] using ih
    · have solid : isBlank c = false := by simpa using blank
      exact .inr ⟨c, rest, trimStart_cons_of_not_blank solid rest, solid⟩

@[simp] theorem trimStart_trim (text : Text) : trimStart (trim text) = trim text := by
  rcases trimStart_eq_nil_or_cons text with empty | ⟨c, rest, front, solid⟩
  · rw [trim, empty]
    rfl
  · simp only [trim, front, trimEnd_cons, solid, Bool.and_false, Bool.false_eq_true, ↓reduceIte]
    exact trimStart_cons_of_not_blank solid _

@[simp] theorem trimEnd_trimEnd (text : Text) : trimEnd (trimEnd text) = trimEnd text := by
  induction text with
  | nil => rfl
  | cons c rest ih =>
    rw [trimEnd_cons]
    split
    · rfl
    · rename_i kept
      rw [trimEnd_cons, ih, if_neg kept]

@[simp] theorem trim_trim (text : Text) : trim (trim text) = trim text := by
  rw [trim, trimStart_trim, trim, trimEnd_trimEnd]

end Text

end Candid
