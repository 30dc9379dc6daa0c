import Candid.Editor.Diagnostic
import Candid.Proofs.Fragment.Row
import Candid.Proofs.Interface.Located
import Candid.Proofs.Lexing.Spelled
import Candid.Proofs.Number.Numeral
import Candid.Proofs.Text.Position

/-!
# Diagnostics of parse errors

The offset of a parse error reaches its diagnostic through the wording of the error alone. The wording
also quotes the source, in front of the offset: the first of both that reads as an offset is taken. So
the diagnostic stands at the offset of the error unless the quoted text itself mentions an offset.
-/

set_option autoImplicit false

namespace Candid.Editor

def offsetMark : Text :=
  ['p', 'o', 's', 'i', 't', 'i', 'o', 'n', ' ']

theorem offsetMark_eq : "position ".toList = offsetMark := by
  decide

def wordingBreaks : Text :=
  ['\'', '(', ')', ',']

theorem not_mem_of_break {c : Char} (breaks : c ∈ wordingBreaks) :
    c ∉ offsetMark ∧ isDigit c = false := by
  have all : wordingBreaks.all (fun d => !offsetMark.contains d && !isDigit d) = true := by
    decide +kernel
  have here := List.all_eq_true.mp all c breaks
  simpa only [Bool.and_eq_true, Bool.not_eq_true', List.contains_eq_mem, decide_eq_false_iff_not]
    using here

/-- What the wording of an error quotes of the source, unless that is a name or one character: the token
of a syntax error, and the label of a method. -/
def quotedText : Idl.ParseError → Text
  | .unexpectedToken token => token.text
  | .notFunction method _ _ => method
  | _ => []

def MentionsOffset (text : Text) : Prop :=
  ∃ front digit behind, text = front ++ (offsetMark ++ digit :: behind) ∧ isDigit digit = true

def leadingDigits? (behind : Text) : Option (List Nat) :=
  match (behind.takeWhile isDigit).filterMap digitValue? with
  | digit :: digits => some (digit :: digits)
  | [] => none

section After

variable {lead text : Text} {c : Char}

theorem after?_eq_some {behind : Text} :
    Text.after? lead text = some behind ↔ text = lead ++ behind := by
  unfold Text.after?
  split
  · rename_i front
    obtain ⟨rest, rfl⟩ := List.isPrefixOf_iff_prefix.mp front
    simp
  · rename_i other
    simp only [reduceCtorEq, false_iff]
    rintro rfl
    exact other (List.isPrefixOf_iff_prefix.mpr (List.prefix_append _ _))

/-- A mark does not reach over a character that it does not hold. -/
theorem after?_append (apart : c ∉ lead) (text rest : Text) :
    Text.after? lead (text ++ c :: rest) = (Text.after? lead text).map (· ++ c :: rest) := by
  induction lead generalizing text with
  | nil => rfl
  | cons first lead ih =>
      rw [List.mem_cons, not_or] at apart
      cases text with
      | nil => simp [Text.after?, List.isPrefixOf, Ne.symm apart.1]
      | cons d text =>
          have further := ih apart.2 text
          by_cases same : first = d
          · subst same
            simpa [Text.after?] using further
          · simp [Text.after?, same]

theorem after?_eq_none (held : c ∈ lead) (absent : c ∉ text) : Text.after? lead text = none := by
  cases found : Text.after? lead text with
  | none => rfl
  | some behind =>
      rw [after?_eq_some.mp found] at absent
      exact absurd (List.mem_append_left behind held) absent

end After

section Mentioned

variable {text rest : Text} {c : Char}

theorem positionDigits?_cons (c : Char) (rest : Text) :
    positionDigits? (c :: rest) =
      ((Text.after? offsetMark (c :: rest)).bind leadingDigits?).or (positionDigits? rest) := by
  rw [positionDigits?, offsetMark_eq]
  cases Text.after? offsetMark (c :: rest) with
  | none => rfl
  | some behind =>
      simp only [Option.map_some, Option.bind_some, leadingDigits?]
      cases (behind.takeWhile isDigit).filterMap digitValue? with
      | nil => rfl
      | cons digit digits => rfl

/-- A break parts the search in two. -/
theorem positionDigits?_append (breaks : c ∈ wordingBreaks) (text rest : Text) :
    positionDigits? (text ++ c :: rest) = (positionDigits? text).or (positionDigits? rest) := by
  obtain ⟨apart, noDigit⟩ := not_mem_of_break breaks
  have bounded (behind : Text) : leadingDigits? (behind ++ c :: rest) = leadingDigits? behind := by
    have taken : (behind ++ c :: rest).takeWhile isDigit = behind.takeWhile isDigit := by
      induction behind with
      | nil => simp [noDigit]
      | cons d behind ih => simp only [List.cons_append, List.takeWhile_cons, ih]
    rw [leadingDigits?, taken, leadingDigits?]
  induction text with
  | nil =>
      have none := after?_append apart [] rest
      rw [List.nil_append, positionDigits?_cons, ← List.nil_append (c :: rest), none]
      rfl
  | cons d text ih =>
      have here := after?_append apart (d :: text) rest
      rw [List.cons_append] at here ⊢
      rw [positionDigits?_cons, positionDigits?_cons, ih, here, Option.or_assoc]
      cases Text.after? offsetMark (d :: text) with
      | none => rfl
      | some behind => simp only [Option.map_some, Option.bind_some, bounded]

theorem positionDigits?_of_absent (held : c ∈ offsetMark) (absent : c ∉ text) :
    positionDigits? text = none := by
  induction text with
  | nil => rfl
  | cons d text ih =>
      rw [positionDigits?_cons, after?_eq_none held absent,
        ih fun later => absent (List.mem_cons_of_mem d later)]
      rfl

theorem positionDigits?_cons_of_ne (other : c ≠ 'p') (rest : Text) :
    positionDigits? (c :: rest) = positionDigits? rest := by
  have none : Text.after? offsetMark (c :: rest) = none := by
    cases found : Text.after? offsetMark (c :: rest) with
    | none => rfl
    | some behind =>
        have shape := after?_eq_some.mp found
        rw [offsetMark, List.cons_append] at shape
        exact absurd (List.cons.inj shape).1 other
  rw [positionDigits?_cons, none]
  rfl

theorem leadingDigits?_eq_none {behind : Text} :
    leadingDigits? behind = none ↔ ∀ d ∈ behind.head?, isDigit d = false := by
  cases behind with
  | nil => simp [leadingDigits?]
  | cons d behind =>
      cases digit : digitValue? d with
      | none => simp [leadingDigits?, isDigit, digit]
      | some value => simp [leadingDigits?, isDigit, digit]

/-- The search finds digits where the text mentions an offset, and nowhere else. -/
theorem positionDigits?_eq_none : positionDigits? text = none ↔ ¬ MentionsOffset text := by
  induction text with
  | nil =>
      refine ⟨fun _ => ?_, fun _ => rfl⟩
      rintro ⟨front, digit, behind, shape, _⟩
      simpa using congrArg List.length shape
  | cons c text ih =>
      rw [positionDigits?_cons, Option.or_eq_none_iff, ih, Option.bind_eq_none_iff]
      constructor
      · rintro ⟨here, later⟩ ⟨front, digit, behind, shape, decimal⟩
        cases front with
        | nil =>
            have ends := leadingDigits?_eq_none.mp (here _ (after?_eq_some.mpr shape)) digit rfl
            rw [decimal] at ends
            cases ends
        | cons d front =>
            exact later ⟨front, digit, behind, (List.cons.inj shape).2, decimal⟩
      · intro unmentioned
        refine ⟨fun behind found => leadingDigits?_eq_none.mpr ?_, ?_⟩
        · have shape := after?_eq_some.mp found
          cases behind with
          | nil => simp
          | cons d behind =>
              cases digit : isDigit d with
              | false => simpa using digit
              | true => exact absurd ⟨[], d, behind, shape, digit⟩ unmentioned
        · rintro ⟨front, digit, behind, rfl, decimal⟩
          exact unmentioned ⟨c :: front, digit, behind, rfl, decimal⟩

end Mentioned

section Numeral

theorem not_mem_ofNat {c : Char} (noDigit : c.isDigit = false) (number : Nat) :
    c ∉ Numeral.ofNat number := by
  intro member
  rw [Numeral.isDigit_of_mem_ofNat member] at noDigit
  cases noDigit

theorem positionDigits?_ofNat (offset : Nat) :
    positionDigits? ("position ".toList ++ (Numeral.ofNat offset ++ ")".toList)) =
      some (Numeral.digitValues (Numeral.ofNat offset)) := by
  have decimal : ∀ d ∈ Numeral.ofNat offset, isDigit d = true :=
    fun d member => isDigit_of_decimal (Numeral.isDigit_of_mem_ofNat member)
  have bracket : ")".toList = [')'] := by decide
  have ends : ∀ d ∈ [')'].head?, isDigit d = false := by
    intro d front
    cases front
    exact (not_mem_of_break (.tail _ (.tail _ (.head _)))).2
  have taken : (Numeral.ofNat offset ++ [')']).takeWhile isDigit = Numeral.ofNat offset :=
    (span_eq decimal ends).1
  have values : (Numeral.ofNat offset).filterMap digitValue? =
      Numeral.digitValues (Numeral.ofNat offset) := by
    rw [Numeral.digitValues, ← List.filterMap_eq_map]
    exact List.filterMap_congr fun d member =>
      digitValue?_of_decimal (Numeral.isDigit_of_mem_ofNat member)
  have nonempty : Numeral.digitValues (Numeral.ofNat offset) ≠ [] := by
    rw [Numeral.digitValues, ne_eq, List.map_eq_nil_iff]
    exact Nat.toDigits_ne_nil
  have leading : leadingDigits? (Numeral.ofNat offset ++ [')']) =
      some (Numeral.digitValues (Numeral.ofNat offset)) := by
    rw [leadingDigits?, taken, values]
    cases shape : Numeral.digitValues (Numeral.ofNat offset) with
    | nil => exact absurd shape nonempty
    | cons digit digits => rfl
  have found : Text.after? offsetMark (offsetMark ++ (Numeral.ofNat offset ++ [')'])) =
      some (Numeral.ofNat offset ++ [')']) := after?_eq_some.mpr rfl
  rw [offsetMark_eq, bracket]
  rw [offsetMark, List.cons_append] at found ⊢
  rw [positionDigits?_cons, offsetMark, found, Option.bind_some, leading, Option.some_or]

end Numeral

section Message

theorem positionDigits?_quoted (text rest : Text) :
    positionDigits? (text ++ '\'' :: rest) = (positionDigits? text).or (positionDigits? rest) :=
  positionDigits?_append (.head _) text rest

theorem positionDigits?_bracketed (text : Text) (offset : Nat) :
    positionDigits? (text ++ '(' :: ("position ".toList ++ (Numeral.ofNat offset ++ ")".toList))) =
      (positionDigits? text).or (some (Numeral.digitValues (Numeral.ofNat offset))) := by
  rw [positionDigits?_append (.tail _ (.head _)), positionDigits?_ofNat]

theorem positionDigits?_singleton (c : Char) : positionDigits? [c] = none := by
  by_cases blank : c = ' '
  · exact positionDigits?_of_absent (c := 'p') (.head _) (by simp [blank])
  · exact positionDigits?_of_absent (c := ' ') (by simp [offsetMark]) (by simp [Ne.symm blank])

theorem positionDigits?_numeral {front behind : Text} (frontFree : 'p' ∉ front)
    (behindFree : 'p' ∉ behind) (number : Nat) :
    positionDigits? (front ++ (Numeral.ofNat number ++ behind)) = none := by
  refine positionDigits?_of_absent (c := 'p') (.head _) ?_
  rw [List.mem_append, List.mem_append, not_or, not_or]
  exact ⟨frontFree, not_mem_ofNat rfl number, behindFree⟩

theorem positionDigits?_name {name : Text} (form : Idl.Form .identifier name) :
    positionDigits? name = none := by
  refine positionDigits?_of_absent (c := ' ') (by simp [offsetMark]) fun member => ?_
  obtain ⟨c, tail, rfl, start, parts, _⟩ := form.of_word rfl
  have part : isNamePart ' ' = true := by
    rcases List.mem_cons.mp member with rfl | later
    · exact isNamePart_of_isNameStart start
    · exact parts ' ' later
  exact absurd part (by decide)

/-- The fixed parts of the wordings of errors with an offset, taken apart at the breaks. -/
private theorem wordings_parted :
    ("Illegal character '".toList = "Illegal character ".toList ++ ['\''] ∧
      "' at line ".toList = '\'' :: " at line ".toList ∧
      " (position ".toList = ' ' :: '(' :: "position ".toList) ∧
    ("Syntax error at '".toList = "Syntax error at ".toList ++ ['\''] ∧
      "' (line ".toList = '\'' :: " (line ".toList ∧
      ", position ".toList = ',' :: ' ' :: "position ".toList) ∧
    ("Type '".toList = "Type ".toList ++ ['\''] ∧
      "' is already defined (position ".toList =
        '\'' :: (" is already defined ".toList ++ '(' :: "position ".toList)) ∧
    ("Method '".toList = "Method ".toList ++ ['\''] ∧
      "' refers to '".toList = '\'' :: (" refers to ".toList ++ ['\'']) ∧
      "', which is not a function type (position ".toList =
        '\'' :: (", which is not a function type ".toList ++ '(' :: "position ".toList)) := by
  decide +kernel

/-- The fixed parts between the breaks read as no offset, with a numeral behind them or without. -/
private theorem wordings_silent :
    (positionDigits? "Illegal character ".toList = none ∧ 'p' ∉ " at line ".toList) ∧
    (positionDigits? "Syntax error at ".toList = none ∧ 'p' ∉ " (line ".toList) ∧
    (positionDigits? "Type ".toList = none ∧
      positionDigits? " is already defined ".toList = none) ∧
    (positionDigits? "Method ".toList = none ∧ positionDigits? " refers to ".toList = none ∧
      positionDigits? ", which is not a function type ".toList = none) := by
  decide +kernel

theorem positionDigits?_illegalCharacter (illegal : Idl.IllegalCharacter) :
    positionDigits? (Idl.ParseError.illegalCharacter illegal).message =
      some (Numeral.digitValues (Numeral.ofNat illegal.offset)) := by
  obtain ⟨c, line, offset⟩ := illegal
  obtain ⟨opening, middle, closing⟩ := wordings_parted.1
  obtain ⟨silent, free⟩ := wordings_silent.1
  have parted : (Idl.ParseError.illegalCharacter ⟨c, line, offset⟩).message =
      "Illegal character ".toList ++ '\'' :: ([c] ++ '\'' :: ((" at line ".toList ++
        (Numeral.ofNat line ++ [' '])) ++ '(' ::
          ("position ".toList ++ (Numeral.ofNat offset ++ ")".toList)))) := by
    change "Illegal character '".toList ++ c :: "' at line ".toList ++ Numeral.ofNat line ++
      " (position ".toList ++ Numeral.ofNat offset ++ ")".toList = _
    rw [opening, middle, closing]
    simp only [List.append_assoc, List.cons_append, List.nil_append]
  rw [parted, positionDigits?_quoted, positionDigits?_quoted, positionDigits?_bracketed, silent,
    positionDigits?_singleton, positionDigits?_numeral free (by simp)]
  rfl

theorem positionDigits?_unexpectedToken (token : Idl.Token) :
    positionDigits? (Idl.ParseError.unexpectedToken token).message =
      (positionDigits? token.text).or
        (some (Numeral.digitValues (Numeral.ofNat token.offset))) := by
  obtain ⟨kind, text, line, offset⟩ := token
  obtain ⟨opening, middle, closing⟩ := wordings_parted.2.1
  obtain ⟨silent, free⟩ := wordings_silent.2.1
  have parted : (Idl.ParseError.unexpectedToken ⟨kind, text, line, offset⟩).message =
      "Syntax error at ".toList ++ '\'' :: (text ++ '\'' :: ((" (line ".toList ++
        (Numeral.ofNat line ++ [])) ++ ',' :: (' ' ::
          ("position ".toList ++ (Numeral.ofNat offset ++ ")".toList))))) := by
    change "Syntax error at '".toList ++ text ++ "' (line ".toList ++ Numeral.ofNat line ++
      ", position ".toList ++ Numeral.ofNat offset ++ ")".toList = _
    rw [opening, middle, closing]
    simp only [List.append_assoc, List.cons_append, List.nil_append]
  rw [parted, positionDigits?_quoted, positionDigits?_quoted, silent, Option.none_or,
    positionDigits?_append (.tail _ (.tail _ (.tail _ (.head _)))), positionDigits?_numeral free (by simp),
    Option.none_or, positionDigits?_cons_of_ne (by simp), positionDigits?_ofNat]

theorem positionDigits?_repeatedType {name : Text} (form : Idl.Form .identifier name)
    (offset : Nat) : positionDigits? (Idl.ParseError.repeatedType name offset).message =
      some (Numeral.digitValues (Numeral.ofNat offset)) := by
  obtain ⟨opening, closing⟩ := wordings_parted.2.2.1
  obtain ⟨silent, furtherSilent⟩ := wordings_silent.2.2.1
  have parted : (Idl.ParseError.repeatedType name offset).message =
      "Type ".toList ++ '\'' :: (name ++ '\'' :: (" is already defined ".toList ++ '(' ::
        ("position ".toList ++ (Numeral.ofNat offset ++ ")".toList)))) := by
    change "Type '".toList ++ name ++ "' is already defined (position ".toList ++
      Numeral.ofNat offset ++ ")".toList = _
    rw [opening, closing]
    simp only [List.append_assoc, List.cons_append, List.nil_append]
  rw [parted, positionDigits?_quoted, positionDigits?_quoted, positionDigits?_bracketed, silent,
    furtherSilent, positionDigits?_name form]
  rfl

theorem positionDigits?_notFunction (method : Text) {typeName : Text}
    (form : Idl.Form .identifier typeName) (offset : Nat) :
    positionDigits? (Idl.ParseError.notFunction method typeName offset).message =
      (positionDigits? method).or (some (Numeral.digitValues (Numeral.ofNat offset))) := by
  obtain ⟨opening, middle, closing⟩ := wordings_parted.2.2.2
  obtain ⟨silent, refers, kind⟩ := wordings_silent.2.2.2
  have parted : (Idl.ParseError.notFunction method typeName offset).message =
      "Method ".toList ++ '\'' :: (method ++ '\'' :: (" refers to ".toList ++ '\'' :: (typeName ++
        '\'' :: (", which is not a function type ".toList ++ '(' ::
          ("position ".toList ++ (Numeral.ofNat offset ++ ")".toList)))))) := by
    change "Method '".toList ++ method ++ "' refers to '".toList ++ typeName ++
      "', which is not a function type (position ".toList ++ Numeral.ofNat offset ++ ")".toList = _
    rw [opening, middle, closing]
    simp only [List.append_assoc, List.cons_append, List.nil_append]
  rw [parted, positionDigits?_quoted, positionDigits?_quoted, positionDigits?_quoted,
    positionDigits?_quoted, positionDigits?_bracketed, silent, refers, kind,
    positionDigits?_name form]
  rfl

/-- The offset that the wording of an error mentions is the first one that its quoted text mentions, or
else the error's own. -/
theorem positionDigits?_message {source : Text} {error : Idl.ParseError} {offset : Nat}
    (fails : Idl.parse source = .error error) (placed : error.offset? = some offset) :
    positionDigits? error.message = (positionDigits? (quotedText error)).or
      (some (Numeral.digitValues (Numeral.ofNat offset))) := by
  have located := Idl.locatedIn_of_parse fails
  have spelt : ∀ token ∈ (Idl.tokenStream source).tokens, Idl.Form token.kind token.text :=
    fun token member => Idl.form_of_tokenStream member
  cases error with
  | illegalCharacter illegal =>
      cases placed
      exact positionDigits?_illegalCharacter illegal
  | unexpectedToken token =>
      cases placed
      exact positionDigits?_unexpectedToken token
  | repeatedType name place =>
      cases placed
      exact positionDigits?_repeatedType (Idl.NameAt.form spelt located) offset
  | notFunction method typeName place =>
      cases placed
      exact positionDigits?_notFunction method (Idl.NameAt.form spelt located) offset
  | endOfInput | undefinedService name => cases placed

end Message

/-- The digits of an offset within 31 bits are read as the offset. -/
theorem value_of_offset {offset : Nat} (bound : offset ≤ Position.limit) :
    Numeral.value false (Numeral.digitValues (Numeral.ofNat offset)) = .ok (offset : Int) := by
  have short : (Numeral.ofNat offset).length ≤ 10 :=
    (Numeral.length_ofNat_le (by decide)).mpr
      (Nat.lt_of_le_of_lt bound (by decide))
  have within : ¬ digitLimit < (Numeral.digitValues (Numeral.ofNat offset)).length := by
    rw [Numeral.length_digitValues, digitLimit]
    omega
  rw [Numeral.value, if_neg within, Numeral.ofDigits_ofNat]
  rfl

/-- An error about a place of a source, whose length has 31 bits, is the only diagnostic. Unless what it
quotes mentions an offset of its own, it marks the one character at the offset of the error, and what the
error is about begins there. -/
theorem diagnostics_of_parse_error {source : Text} {error : Idl.ParseError} {offset : Nat}
    (fails : Idl.parse source = .error error) (placed : error.offset? = some offset)
    (bound : source.length ≤ Position.limit) (unmentioned : ¬ MentionsOffset (quotedText error)) :
    error.subject <+: source.drop offset ∧ error.subject ≠ [] ∧
      ∃ start, Position.ofOffset source offset = .ok start ∧
        diagnostics source =
          .ok [⟨⟨start, ⟨start.line, start.character + 1⟩⟩, .error, error.message⟩] := by
  obtain ⟨stands, nonempty⟩ := Idl.subject_at_offset fails placed
  refine ⟨stands, nonempty, ?_⟩
  have inside : offset < source.length := by
    have room := stands.length_le
    have some := List.length_pos_iff.mpr nonempty
    rw [List.length_drop] at room
    omega
  obtain ⟨start, position, range⟩ := Range.ofOffset_of_lt inside bound
  refine ⟨start, position, ?_⟩
  have mentioned : mentionedOffset error.message = .ok (some (offset : Int)) := by
    rw [mentionedOffset, positionDigits?_message fails placed,
      positionDigits?_eq_none.mpr unmentioned, Option.none_or]
    simp only [value_of_offset (Nat.le_trans inside.le bound), Except.map]
  have marked : parseDiagnostic source error =
      .ok ⟨⟨start, ⟨start.line, start.character + 1⟩⟩, .error, error.message⟩ := by
    simp only [parseDiagnostic, mentioned, rangeAt, Option.getD_some, range, Except.mapError, bind,
      Except.bind, pure, Except.pure]
  simp only [diagnostics, fails, marked, bind, Except.bind, pure, Except.pure]

section Example

open Idl (Lexeme spelling)

private def repeatedSource : List Lexeme :=
  [.word "type".toList, .blank, .word "A".toList, .blank, .mark .equals '=', .blank,
    .word "nat".toList, .mark .semicolon ';', ⟨.layout, ['\n']⟩, .word "type".toList, .blank,
    .word "A".toList, .blank, .mark .equals '=', .blank, .word "int".toList, .mark .semicolon ';']

/-- A type that is defined again is marked at its name, on the second line. -/
theorem diagnostics_of_repeated_type :
    let source := "type A = nat;\ntype A = int;".toList
    let error := Idl.ParseError.repeatedType "A".toList 19
    Idl.parse source = .error error ∧ source.length ≤ Position.limit ∧
      ¬ MentionsOffset (quotedText error) ∧
      diagnostics source = .ok [⟨⟨⟨1, 5⟩, ⟨1, 6⟩⟩, .error, error.message⟩] := by
  intro source error
  have spelt : source = spelling repeatedSource := by decide +kernel
  have fails : Idl.parse source = .error error := by
    rw [spelt, Idl.parse, Idl.tokenStream_spelling_of_legal _ (by decide +kernel) (by decide)]
    rfl
  have bound : source.length ≤ Position.limit := by decide
  have unmentioned : ¬ MentionsOffset (quotedText error) := positionDigits?_eq_none.mp rfl
  refine ⟨fails, bound, unmentioned, ?_⟩
  obtain ⟨_, _, start, position, marked⟩ :=
    diagnostics_of_parse_error fails rfl bound unmentioned
  have place : Position.ofOffset source 19 = .ok ⟨1, 5⟩ := by decide +kernel
  cases position.symm.trans place
  exact marked

private def quotingSource : List Lexeme :=
  [.word "type".toList, .blank, .word "A".toList, .blank, .mark .equals '=', .blank,
    ⟨.token .text, "\"position 0\"".toList⟩, .mark .semicolon ';']

/-- A quoted text at which a source is refused is marked at the offset that it mentions. -/
theorem diagnostics_of_quoted_offset :
    let source := "type A = \"position 0\";".toList
    let error := Idl.ParseError.unexpectedToken ⟨.text, "\"position 0\"".toList, 1, 9⟩
    Idl.parse source = .error error ∧ Position.ofOffset source 9 = .ok ⟨0, 9⟩ ∧
      diagnostics source = .ok [⟨⟨⟨0, 0⟩, ⟨0, 1⟩⟩, .error, error.message⟩] := by
  intro source error
  have spelt : source = spelling quotingSource := by decide +kernel
  have fails : Idl.parse source = .error error := by
    rw [spelt, Idl.parse, Idl.tokenStream_spelling_of_legal _ (by decide +kernel) (by decide)]
    rfl
  have place : Position.ofOffset source 9 = .ok ⟨0, 9⟩ := by decide +kernel
  refine ⟨fails, place, ?_⟩
  have digits : positionDigits? error.message = some [0] := by
    have quoted : positionDigits? "\"position 0\"".toList = some [0] := by decide +kernel
    rw [positionDigits?_unexpectedToken, quoted, Option.some_or]
  have range : Range.ofOffset source 0 1 = .ok ⟨⟨0, 0⟩, ⟨0, 1⟩⟩ := by decide +kernel
  have value : Numeral.value false [0] = .ok 0 := by decide
  have mentioned : mentionedOffset error.message = .ok (some 0) := by
    rw [mentionedOffset, digits]
    simp only [value, Except.map]
  have marked : parseDiagnostic source error = .ok ⟨⟨⟨0, 0⟩, ⟨0, 1⟩⟩, .error, error.message⟩ := by
    simp only [parseDiagnostic, mentioned, rangeAt, Option.getD_some, range, Except.mapError, bind,
      Except.bind, pure, Except.pure]
  simp only [diagnostics, fails, marked, bind, Except.bind, pure, Except.pure]

end Example

end Candid.Editor
