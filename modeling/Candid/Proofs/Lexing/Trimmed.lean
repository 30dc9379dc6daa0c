import Candid.Proofs.Lexing.Placed
import Mathlib.Data.List.Induction

/-!
# Trimmed rows

Trimming the text of a plain row drops the blanks in front of its first token and behind its last one,
and no more: no token begins or ends with a blank character.
-/

set_option autoImplicit false

namespace Candid.Idl

theorem isBlank_of_isBlankLayout {c : Char} (blank : Lexeme.isBlankLayout c = true) :
    isBlank c = true := by
  simp only [Lexeme.isBlankLayout, Bool.or_eq_true, beq_iff_eq] at blank
  rcases blank with ((rfl | rfl) | rfl) | rfl <;> decide

theorem Quoted.last {inside : Text} (quoted : Quoted inside) :
    ∃ front, inside = front ++ ['"'] := by
  induction quoted with
  | close => exact ⟨[], rfl⟩
  | @escape c inside _ _ ih =>
      obtain ⟨front, rfl⟩ := ih
      exact ⟨'\\' :: c :: front, rfl⟩
  | @plain c inside _ _ _ _ ih =>
      obtain ⟨front, rfl⟩ := ih
      exact ⟨c :: front, rfl⟩

theorem Form.solid {kind : TokenKind} {text : Text} (form : Form kind text) :
    (∃ c tail, text = c :: tail ∧ isBlank c = false) ∧
      ∃ front c, text = front ++ [c] ∧ isBlank c = false := by
  have ended {p : Char → Bool} (noBlank : ∀ d, p d = true → isBlank d = false) (c : Char)
      (tail : Text) (start : p c = true) (parts : ∀ d ∈ tail, p d = true) :
      ∃ front d, c :: tail = front ++ [d] ∧ isBlank d = false := by
    have nonempty : c :: tail ≠ [] := List.cons_ne_nil c tail
    refine ⟨(c :: tail).dropLast, (c :: tail).getLast nonempty,
      (List.dropLast_concat_getLast nonempty).symm, noBlank _ ?_⟩
    rcases List.mem_cons.mp (List.getLast_mem nonempty) with same | later
    · rw [same]
      exact start
    · exact parts _ later
  cases form with
  | @quoted inside quoted =>
      obtain ⟨front, rfl⟩ := quoted.last
      exact ⟨⟨'"', _, rfl, by decide⟩, '"' :: front, '"', rfl, by decide⟩
  | @number c tail digit digits =>
      exact ⟨⟨c, tail, rfl, isBlank_of_isDigit digit⟩,
        ended (fun _ => isBlank_of_isDigit) c tail digit digits⟩
  | @word c tail start parts =>
      have part := isNamePart_of_isNameStart start
      exact ⟨⟨c, tail, rfl, isBlank_of_isNamePart part⟩,
        ended (fun _ => isBlank_of_isNamePart) c tail part parts⟩
  | arrow => exact ⟨⟨'-', ['>'], rfl, by decide⟩, ['-'], '>', rfl, by decide⟩
  | @mark c kind punctuation =>
      have noBlank : punctuationMarks.all (!isBlank ·) = true := by decide
      have solid : isBlank c = false := by
        simpa using List.all_eq_true.mp noBlank c (mem_punctuationMarks punctuation)
      exact ⟨⟨c, [], rfl, solid⟩, [], c, rfl, solid⟩

def Lexeme.isLayout (lexeme : Lexeme) : Bool :=
  lexeme.kind == .layout

def trimmed (row : List Lexeme) : List Lexeme :=
  ((row.dropWhile Lexeme.isLayout).reverse.dropWhile Lexeme.isLayout).reverse

/-- The lexeme is a blank, or a token in one of its spellings. -/
def Lexeme.Sound (lexeme : Lexeme) : Prop :=
  (∃ c, lexeme = ⟨.layout, [c]⟩ ∧ Lexeme.isBlankLayout c = true) ∨
    ∃ kind text, lexeme = ⟨.token kind, text⟩ ∧ Form kind text

theorem sound_of_stand {row : List Lexeme} {rest : Text} (stand : Stand row rest)
    (plain : ∀ lexeme ∈ row, lexeme.Plain) : ∀ lexeme ∈ row, lexeme.Sound := by
  induction row with
  | nil => simp
  | cons lexeme row ih =>
      intro other member
      rcases List.mem_cons.mp member with rfl | later
      · obtain ⟨kind, text⟩ := other
        rcases plain _ member with ⟨kind, rfl⟩ | ⟨rfl, c, rfl, blank⟩
        · exact .inr ⟨kind, text, rfl, (form_of_stands stand.1).1⟩
        · exact .inl ⟨c, rfl, blank⟩
      · exact ih stand.2 (fun lexeme inside => plain lexeme (by simp [inside])) other later

theorem form_of_mem_tokensOf {row : List Lexeme} (sound : ∀ lexeme ∈ row, lexeme.Sound)
    {line offset : Nat} {token : Token} (member : token ∈ tokensOf line offset row) :
    Form token.kind token.text := by
  induction row generalizing line offset with
  | nil => cases member
  | cons lexeme row ih =>
      have rowSound : ∀ lexeme ∈ row, lexeme.Sound :=
        fun lexeme inside => sound lexeme (by simp [inside])
      rcases sound lexeme (by simp) with ⟨c, rfl, _⟩ | ⟨kind, text, rfl, form⟩
      · exact ih rowSound member
      · rcases List.mem_cons.mp member with rfl | later
        · exact form
        · exact ih rowSound later

theorem trimStart_spelling {row : List Lexeme} (sound : ∀ lexeme ∈ row, lexeme.Sound) :
    Text.trimStart (spelling row) = spelling (row.dropWhile Lexeme.isLayout) := by
  induction row with
  | nil => rfl
  | cons lexeme row ih =>
      have others := ih fun lexeme member => sound lexeme (by simp [member])
      rcases sound lexeme (by simp) with ⟨c, rfl, blank⟩ | ⟨kind, text, rfl, form⟩
      · simpa [Text.trimStart, Lexeme.isLayout, isBlank_of_isBlankLayout blank] using others
      · obtain ⟨⟨c, tail, rfl, solid⟩, _⟩ := form.solid
        simp [Text.trimStart, Lexeme.isLayout, solid]

theorem trimEnd_spelling {row : List Lexeme} (sound : ∀ lexeme ∈ row, lexeme.Sound) :
    Text.trimEnd (spelling row) = spelling (row.reverse.dropWhile Lexeme.isLayout).reverse := by
  induction row using List.reverseRecOn with
  | nil => rfl
  | append_singleton row lexeme ih =>
      have others := ih fun lexeme member => sound lexeme (by simp [member])
      rcases sound lexeme (by simp) with ⟨c, rfl, blank⟩ | ⟨kind, text, rfl, form⟩
      · have solid := isBlank_of_isBlankLayout blank
        simp [Lexeme.isLayout, Text.trimEnd_append_of_blank solid, others]
      · obtain ⟨_, front, c, rfl, solid⟩ := form.solid
        rw [spelling_append, spelling_cons, spelling_nil, List.append_nil, ← List.append_assoc,
          Text.trimEnd_append_of_solid solid]
        simp [Lexeme.isLayout]

theorem trim_spelling {row : List Lexeme} (sound : ∀ lexeme ∈ row, lexeme.Sound) :
    Text.trim (spelling row) = spelling (trimmed row) := by
  rw [Text.trim, trimStart_spelling sound, trimEnd_spelling]
  · rfl
  · intro lexeme member
    exact sound lexeme ((List.dropWhile_suffix _).mem member)

/-- What trimming takes away is layout. -/
theorem exists_trimmed (row : List Lexeme) :
    ∃ front behind, row = front ++ trimmed row ++ behind ∧
      (∀ lexeme ∈ front, lexeme.isLayout = true) ∧ ∀ lexeme ∈ behind, lexeme.isLayout = true := by
  have start := List.takeWhile_append_dropWhile (p := Lexeme.isLayout) (l := row)
  have finish := List.takeWhile_append_dropWhile (p := Lexeme.isLayout)
    (l := (row.dropWhile Lexeme.isLayout).reverse)
  refine ⟨row.takeWhile Lexeme.isLayout,
    ((row.dropWhile Lexeme.isLayout).reverse.takeWhile Lexeme.isLayout).reverse, ?_, ?_, ?_⟩
  · have both := congrArg List.reverse finish
    rw [List.reverse_append, List.reverse_reverse] at both
    rw [List.append_assoc, trimmed, both, start]
  · exact fun lexeme member => List.all_eq_true.mp List.all_takeWhile lexeme member
  · intro lexeme member
    exact List.all_eq_true.mp List.all_takeWhile lexeme (List.mem_reverse.mp member)

theorem speltTokens_append (row others : List Lexeme) :
    speltTokens (row ++ others) = speltTokens row ++ speltTokens others :=
  List.filterMap_append

theorem speltTokens_of_layout {row : List Lexeme}
    (layout : ∀ lexeme ∈ row, lexeme.isLayout = true) : speltTokens row = [] := by
  rw [speltTokens, List.filterMap_eq_nil_iff]
  intro lexeme member
  have kind : lexeme.kind = .layout := by simpa [Lexeme.isLayout] using layout lexeme member
  simp [kind]

theorem speltTokens_trimmed (row : List Lexeme) : speltTokens (trimmed row) = speltTokens row := by
  obtain ⟨front, behind, shape, first, last⟩ := exists_trimmed row
  have whole := congrArg speltTokens shape
  rw [speltTokens_append, speltTokens_append, speltTokens_of_layout first,
    speltTokens_of_layout last, List.nil_append, List.append_nil] at whole
  exact whole.symm

end Candid.Idl
