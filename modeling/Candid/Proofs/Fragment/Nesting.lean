import Candid.Proofs.Fragment.Quotation
import Candid.Proofs.Lexing.Extent

/-!
# Nesting over lexemes

Over the text of a row of lexemes the reader of nested brackets does what counting the bracket tokens
does: between two lexemes it stands outside quotes with the counters of the tokens so far. It marks a
separator exactly where the separator is a token outside all brackets.
-/

set_option autoImplicit false

namespace Candid

open Idl
open Alias (Depth)

inductive Separates : Char → TokenKind → Prop where
  | semicolon : Separates ';' .semicolon
  | colon : Separates ':' .colon

theorem Separates.isSeparator {separator : Char} {mark : TokenKind}
    (separates : Separates separator mark) : IsSeparator separator := by
  cases separates
  · exact .semicolon
  · exact .colon

/-- The tokens leave no bracket open, and none of the kind `mark` stands outside all brackets. -/
def Closed (mark : TokenKind) (kinds : List TokenKind) : Prop :=
  Depth.behind outermost kinds = outermost ∧ Quiet mark outermost kinds

theorem Closed.append {mark : TokenKind} {kinds others : List TokenKind}
    (closed : Closed mark kinds) (further : Closed mark others) :
    Closed mark (kinds ++ others) := by
  obtain ⟨back, quiet⟩ := closed
  refine ⟨?_, quiet_append.mpr ⟨quiet, ?_⟩⟩
  · rw [behind_append, back, further.1]
  · rw [back]
    exact further.2

theorem Idl.Quoted.quotedRest {inside : Text} (quoted : Quoted inside) : QuotedRest inside := by
  induction quoted with
  | close => exact .close
  | escape _ _ ih => exact .escape ih
  | plain noQuote noEscape _ _ ih => exact .plain noQuote noEscape ih

namespace Nesting

theorem isOrdinary_of_isNamePart {c : Char} (part : isNamePart c = true) :
    isOrdinary c = true := by
  have all := forall_ascii (p := fun c => !isNamePart c || isOrdinary c) (by decide +kernel)
    (toNat_lt_of_isNamePart part)
  simpa [part] using all

theorem isOrdinary_of_isDigit {c : Char} (digit : isDigit c = true) : isOrdinary c = true := by
  have other {d : Char} (noDigit : isDigit d = false) : c ≠ d := by
    rintro rfl
    rw [digit] at noDigit
    cases noDigit
  have marks : ['"', '{', '}', '(', ')', '<', '>', ';', ':'].all (!isDigit ·) = true := by
    decide
  simp only [List.all_cons, Bool.and_eq_true, Bool.not_eq_true'] at marks
  obtain ⟨quote, brace, unbrace, paren, unparen, angle, unangle, semicolon, colon, _⟩ := marks
  simp [isOrdinary, isStructural, other quote, other brace, other unbrace, other paren,
    other unparen, other angle, other unangle, other semicolon, other colon]

theorem isOrdinary_of_isBlankLayout {c : Char} (blank : Lexeme.isBlankLayout c = true) :
    isOrdinary c = true := by
  simp only [Lexeme.isBlankLayout, Bool.or_eq_true, beq_iff_eq] at blank
  rcases blank with ((rfl | rfl) | rfl) | rfl <;> decide

theorem run_even {separator : Char} (separates : IsSeparator separator) (depth : Depth)
    {text : Text} (ordinary : ∀ c ∈ text, isOrdinary c = true) (even : '-' ∉ text) :
    (atDepth depth false).run text = atDepth depth false ∧
      (atDepth depth false).marked separator text = unmarked text := by
  obtain ⟨⟨last, finish, back⟩, marks⟩ := run_ordinary separates depth false ordinary
  cases last with
  | false => exact ⟨finish, marks⟩
  | true => simp [even] at back

/-- The reader goes over a token as the counters do, and marks nothing in it unless it separates. -/
theorem run_token {kind : TokenKind} {text : Text} (form : Form kind text) {separator : Char}
    {mark : TokenKind} (separates : Separates separator mark) (depth : Depth) :
    (atDepth depth false).run text = atDepth (depth.step kind) false ∧
      ((kind = mark → depth ≠ outermost) →
        (atDepth depth false).marked separator text = unmarked text) := by
  cases form with
  | @quoted inside quoted =>
      have enter : (atDepth depth false).step '"' =
          { atDepth depth false with quoted := true } := by
        simp [step, atDepth]
      obtain ⟨finish, marks⟩ :=
        run_quotedRest quoted.quotedRest separator { atDepth depth false with quoted := true } rfl
          rfl
      refine ⟨?_, fun _ => ?_⟩
      · rw [run, List.foldl_cons, enter]
        exact finish
      · simp only [marked, enter, marks, unmarked, List.map_cons]
        simp [Nesting.separates, isStructural]
  | @number c tail digit digits =>
      have all : ∀ d ∈ c :: tail, isDigit d = true := List.forall_mem_cons.mpr ⟨digit, digits⟩
      obtain ⟨finish, marks⟩ := run_even separates.isSeparator depth
        (fun d member => isOrdinary_of_isDigit (all d member))
        (fun hyphen => absurd (all _ hyphen) (by decide))
      exact ⟨finish, fun _ => marks⟩
  | @word c tail start parts =>
      have all : ∀ d ∈ c :: tail, isNamePart d = true :=
        List.forall_mem_cons.mpr ⟨isNamePart_of_isNameStart start, parts⟩
      obtain ⟨finish, marks⟩ := run_even separates.isSeparator depth
        (fun d member => isOrdinary_of_isNamePart (all d member))
        (fun hyphen => absurd (all _ hyphen) (by decide))
      have flat : depth.step (TokenKind.ofWord (c :: tail)) = depth := by
        unfold TokenKind.ofWord
        split <;> rfl
      rw [flat]
      exact ⟨finish, fun _ => marks⟩
  | arrow =>
      refine ⟨by simp [run, step, atDepth, Depth.step], fun _ => ?_⟩
      cases separates <;> simp [marked, unmarked, Nesting.separates]
  | @mark c kind punctuation =>
      unfold Lexeme.punctuation? at punctuation
      split at punctuation <;> cases punctuation <;>
        refine ⟨by simp [run, step, atDepth, Depth.step], fun inside => ?_⟩ <;>
        cases separates <;>
        simp_all [marked, unmarked, Nesting.separates, isStructural, ← isTop_atDepth _ false]

/-- The reader goes over a row of lexemes as the counters go over its tokens. -/
theorem run_row {row : List Lexeme} (sound : ∀ lexeme ∈ row, lexeme.Sound) {separator : Char}
    {mark : TokenKind} (separates : Separates separator mark) (depth : Depth) :
    (atDepth depth false).run (spelling row) =
        atDepth (Depth.behind depth ((speltTokens row).map (·.1))) false ∧
      (Quiet mark depth ((speltTokens row).map (·.1)) →
        (atDepth depth false).marked separator (spelling row) = unmarked (spelling row)) := by
  induction row generalizing depth with
  | nil => exact ⟨rfl, fun _ => rfl⟩
  | cons lexeme row ih =>
      have others := ih fun other member => sound other (by simp [member])
      simp only [spelling_cons, run_append, marked_append, unmarked, List.map_append]
      rcases sound lexeme (by simp) with ⟨c, rfl, blank⟩ | ⟨kind, text, rfl, form⟩
      · have even : '-' ∉ [c] := by
          intro hyphen
          cases List.mem_singleton.mp hyphen
          cases blank
        obtain ⟨same, marks⟩ := run_even separates.isSeparator depth
          (by simpa using isOrdinary_of_isBlankLayout blank) even
        rw [same, marks]
        obtain ⟨finish, further⟩ := others depth
        exact ⟨finish, fun quiet => congrArg _ (further quiet)⟩
      · obtain ⟨next, marks⟩ := run_token form separates depth
        rw [next]
        obtain ⟨finish, further⟩ := others (depth.step kind)
        refine ⟨finish, fun quiet => ?_⟩
        rw [marks quiet.1, further quiet.2]
        rfl

end Nesting

namespace Idl.Covers

variable {source : Text} {row : List Lexeme} {tokens : List Token}

theorem kinds (covers : Covers source row tokens) :
    (speltTokens row).map (·.1) = tokens.map (·.kind) := by
  rw [covers.spelt, List.map_map]
  rfl

/-- Over tokens that leave the depth as it is, and separate nothing there, the text is level. -/
theorem level (covers : Covers source row tokens) (clean : Clean source) {separator : Char}
    {mark : TokenKind} (separates : Separates separator mark) {depth : Depth}
    (back : Depth.behind depth (tokens.map (·.kind)) = depth)
    (quiet : Quiet mark depth (tokens.map (·.kind))) : Level separator depth (spelling row) := by
  obtain ⟨finish, marks⟩ := Nesting.run_row (covers.sound clean) separates depth
  rw [covers.kinds] at finish marks
  rw [back] at finish
  exact ⟨⟨false, finish⟩, marks quiet⟩

/-- Over closed tokens the text is level outside all brackets. -/
theorem level_of_closed (covers : Covers source row tokens) (clean : Clean source)
    {separator : Char} {mark : TokenKind} (separates : Separates separator mark)
    (closed : Closed mark (tokens.map (·.kind))) : Level separator outermost (spelling row) :=
  covers.level clean separates closed.1 closed.2

end Idl.Covers

end Candid
