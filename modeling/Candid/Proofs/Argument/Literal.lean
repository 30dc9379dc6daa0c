import Candid.Argument.Literal
import Candid.Proofs.Fragment.Row
import Candid.Proofs.Json.Quoted
import Candid.Proofs.Lexing.Layout

/-!
# Literals

What literals are made of raw texts. A text that is quoted by escaping is one quoted text for the scanner;
a raw text that begins and ends with a quote is taken as it is, so it must be one by itself. A record
literal has a part for each field, unless a field that needs a value has a blank raw text.
-/

set_option autoImplicit false

namespace Candid

section Names

/-- A scalar type is led by its own name, so by no keyword. -/
theorem leadingWord_of_scalar {type : Text} {scalar : Scalar}
    (named : Scalar.ofText? type = some scalar) : leadingWord type.trim = scalar.name := by
  have same : scalar.name = type.trim.lowerLatin := by simpa using List.find?_some named
  have isName : isName type.trim.lowerLatin = true := by
    rw [← same]
    cases scalar <;> decide
  rw [same]
  cases shape : type.trim with
  | nil =>
      rw [shape] at isName
      cases isName
  | cons c tail =>
      rw [shape, Text.lowerLatin, List.map_cons, Candid.isName, Bool.and_eq_true,
        List.all_eq_true] at isName
      obtain ⟨start, parts⟩ := isName
      have tailParts : ∀ d ∈ tail, isNamePart d = true := fun d member =>
        isNamePart_of_toLower (parts d.toLower (List.mem_map_of_mem member))
      have word : leadingWord (c :: tail ++ []) = Text.lowerLatin (c :: tail) :=
        leadingWord_append (isNameStart_of_toLower start) tailParts (by simp)
      rwa [List.append_nil] at word

theorem takeWhile_isNamePart_trimEnd (text : Text) :
    text.trimEnd.takeWhile isNamePart = text.takeWhile isNamePart := by
  induction text with
  | nil => rfl
  | cons c rest ih =>
      rw [Text.trimEnd_cons]
      split
      · rename_i gone
        rw [Bool.and_eq_true] at gone
        have noPart : isNamePart c = false := by
          cases part : isNamePart c with
          | false => rfl
          | true =>
              have solid := isBlank_of_isNamePart part
              rw [gone.2] at solid
              cases solid
        simp [noPart]
      · rw [List.takeWhile_cons, List.takeWhile_cons, ih]

theorem leadingWord_trim (type : Text) : leadingWord type.trim = leadingWord type := by
  rw [leadingWord, leadingWord, Text.trimStart_trim, Text.trim]
  cases Text.trimStart_eq_nil_or_cons type with
  | inl none =>
      rw [none]
      rfl
  | inr front =>
      obtain ⟨c, rest, shape, solid⟩ := front
      rw [shape, Text.trimEnd_cons, solid, Bool.and_false, if_neg Bool.false_ne_true]
      simp only [takeWhile_isNamePart_trimEnd]

end Names

namespace Idl

section Quotes

variable {inside : Text}

theorem digitChar_plain {digit : Nat} (hex : digit < 16) :
    Nat.digitChar digit ≠ '"' ∧ Nat.digitChar digit ≠ '\\' ∧ Nat.digitChar digit ≠ '\n' := by
  decide +revert

theorem Quoted.digit (quoted : Quoted inside) (number : Nat) :
    Quoted (Nat.digitChar (number % 16) :: inside) := by
  obtain ⟨noQuote, noEscape, noFeed⟩ := digitChar_plain (Nat.mod_lt number (by decide : 16 > 0))
  exact .plain noQuote noEscape noFeed quoted

theorem Quoted.unitEscape (quoted : Quoted inside) (unit : Nat) :
    Quoted (Json.Quoted.unitEscape unit ++ inside) :=
  .escape (by decide) ((((quoted.digit _).digit _).digit _).digit _)

theorem Quoted.unicodeEscape (quoted : Quoted inside) (c : Char) :
    Quoted (Json.Quoted.unicodeEscape c ++ inside) := by
  unfold Json.Quoted.unicodeEscape
  simp only
  split
  · exact quoted.unitEscape _
  · rw [List.append_assoc]
    exact (quoted.unitEscape _).unitEscape _

/-- A written character ends no quoted text. -/
theorem Quoted.character (quoted : Quoted inside) (asciiOnly : Bool) (c : Char) :
    Quoted (Json.Quoted.character asciiOnly c ++ inside) := by
  obtain ⟨letter, shape, _, meaning⟩ | shape | ⟨shape, noQuote, noEscape, printable⟩ :=
    Json.Quoted.character_cases asciiOnly c
  · have noFeed : letter ≠ '\n' := by
      intro feed
      subst feed
      cases meaning
    rw [shape]
    exact .escape noFeed quoted
  · rw [shape]
    exact quoted.unicodeEscape c
  · have noFeed : c ≠ '\n' := by
      intro feed
      subst feed
      exact absurd printable (by decide)
    rw [shape]
    exact .plain noQuote noEscape noFeed quoted

theorem form_quoted (asciiOnly : Bool) (content : Text) :
    Form .text (Json.quoted asciiOnly content) := by
  have inside : Quoted (content.flatMap (Json.Quoted.character asciiOnly) ++ ['"']) := by
    induction content with
    | nil => exact .close
    | cons c content ih =>
        rw [List.flatMap_cons, List.append_assoc]
        exact ih.character asciiOnly c
  exact .quoted inside

end Quotes

end Idl

namespace Argument

open Idl

section Formats

variable {type : Text} {scalar : Scalar} (raw : Text)

theorem formatLiteral_of_option (leads : isOptional type = true) :
    formatLiteral type raw =
      if raw.trim.isEmpty || raw.trim == "null".toList then "null".toList
      else "opt ".toList ++ formatLiteral (innerType "opt".toList type.trim) raw.trim := by
  have word : leadingWord type.trim = "opt".toList := by
    rw [leadingWord_trim]
    exact eq_of_beq leads
  rw [formatLiteral, Outline.ofText_of_opt word, formatOutline]
  rfl

theorem formatLiteral_of_scalar (named : Scalar.ofText? type = some scalar) :
    formatLiteral type raw = formatScalar scalar raw := by
  have leaf : leadingWord type.trim ∉
      ["opt".toList, "vec".toList, "record".toList, "variant".toList] := by
    rw [leadingWord_of_scalar named]
    cases scalar <;> decide
  have same : Scalar.ofText? type.trim = some scalar := by
    rw [← named, Scalar.ofText?, Scalar.ofText?, Text.trim_trim]
  rw [formatLiteral, Outline.ofText_of_leaf leaf, formatOutline, same]

theorem formatLiteral_of_other (noOption : isOptional type = false)
    (noScalar : Scalar.ofText? type = none) : formatLiteral type raw = raw.trim := by
  have same : Scalar.ofText? type.trim = none := by
    rw [← noScalar, Scalar.ofText?, Scalar.ofText?, Text.trim_trim]
  have other : leadingWord type.trim ≠ "opt".toList := by
    rw [leadingWord_trim]
    exact ne_of_beq_false noOption
  rw [formatLiteral, Outline.ofText_eq, if_neg other]
  split
  · rfl
  split
  · rfl
  split
  · rfl
  · rw [formatOutline, same]

end Formats

section Quoting

variable (scanner : Scanner) (raw : Text)

theorem formatLiteral_text : formatLiteral "text".toList raw = quoteText raw :=
  formatLiteral_of_scalar raw (show Scalar.ofText? "text".toList = some .text by decide)

/-- Only a raw text that is taken as it is may fail to be one quoted text. -/
theorem form_quoteText_iff :
    Form .text (quoteText raw) ↔ (raw.trim.isQuoted = true → Form .text raw.trim) := by
  unfold quoteText
  split
  · rename_i quoted
    simp [quoted]
  · rename_i other
    simp [other, form_quoted]

/-- A text literal is one complete quoted text exactly if its raw text is one already wherever it begins
and ends with a quote. -/
theorem formatLiteral_text_single_iff :
    (∃ last, scanner.tokenizeStrict (formatLiteral "text".toList raw) =
        .ok ([⟨.text, formatLiteral "text".toList raw, 1, 0⟩], last)) ↔
      (raw.trim.isQuoted = true → Form .text raw.trim) := by
  rw [tokenizeStrict_single_iff, formatLiteral_text, form_quoteText_iff]

/-- A raw text that begins and ends with a quote ends its literal early, and the rest spills. -/
theorem formatLiteral_text_spills :
    ∃ last, Scanner.idle.tokenizeStrict (formatLiteral "text".toList "\"a\"; b = \"c\"".toList) =
      .ok ([⟨.text, "\"a\"".toList, 1, 0⟩, ⟨.semicolon, [';'], 1, 3⟩, ⟨.identifier, ['b'], 1, 5⟩,
        ⟨.equals, ['='], 1, 7⟩, ⟨.text, "\"c\"".toList, 1, 9⟩], last) := by
  let row : List Lexeme := [⟨.token .text, "\"a\"".toList⟩, ⟨.token .semicolon, [';']⟩,
    ⟨.layout, [' ']⟩, ⟨.token .identifier, ['b']⟩, ⟨.layout, [' ']⟩, ⟨.token .equals, ['=']⟩,
    ⟨.layout, [' ']⟩, ⟨.token .text, "\"c\"".toList⟩]
  have kept : formatLiteral "text".toList "\"a\"; b = \"c\"".toList = spelling row := by
    rw [formatLiteral_text]
    decide
  rw [kept, Scanner.tokenizeStrict_eq_ok_iff]
  exact tokenStream_spelling_of_legal row (by decide) (by decide)

end Quoting

section Records

/-- Whether the raw text of a field is blank although there is no literal for a blank text of its type.
There is one for options, for texts and for principals. -/
def isMissing (field : FieldText) (raw : Text) : Bool :=
  raw.all isBlank && !isOptional field.type &&
    !([some .text, some .principal].contains (Scalar.ofText? field.type))

def recordPart (field : FieldText) (raw : Text) : Text :=
  field.name ++ " = ".toList ++ formatLiteral field.type raw ++ " : ".toList ++ field.type.trim

theorem isEmpty_trim (raw : Text) : raw.trim.isEmpty = raw.all isBlank := by
  rw [Bool.eq_iff_iff, List.isEmpty_iff, List.all_eq_true]
  constructor
  · exact Text.blank_of_trim_nil
  · intro blank
    rw [Text.trim, Text.trimStart, List.dropWhile_eq_nil_iff.mpr blank]
    rfl

theorem isEmpty_quoteText (raw : Text) : (quoteText raw).isEmpty = false := by
  unfold quoteText
  split
  · rename_i quoted
    cases shape : raw.trim with
    | nil =>
        rw [shape] at quoted
        cases quoted
    | cons c rest => rfl
  · rfl

theorem isEmpty_formatScalar (scalar : Scalar) (raw : Text) :
    (formatScalar scalar raw).isEmpty =
      (raw.all isBlank && !([Scalar.text, .principal].contains scalar)) := by
  have passed (other : [Scalar.text, .principal].contains scalar = false) :
      raw.trim.isEmpty = (raw.all isBlank && !([Scalar.text, .principal].contains scalar)) := by
    rw [other, Bool.not_false, Bool.and_true, isEmpty_trim]
  cases scalar with
  | text =>
      rw [formatScalar, isEmpty_quoteText]
      simp
  | principal =>
      rw [formatScalar]
      split
      · rename_i leads
        cases shape : raw.trim with
        | nil =>
            rw [shape] at leads
            cases leads
        | cons c rest => simp
      · simp
  | bool =>
      rw [formatScalar]
      split
      · rw [← passed rfl]
        simp [Text.lowerLatin]
      · exact passed rfl
  | _ => exact passed rfl

theorem isEmpty_formatLiteral (field : FieldText) (raw : Text) :
    (formatLiteral field.type raw).isEmpty = isMissing field raw := by
  unfold isMissing
  cases optional : isOptional field.type with
  | true =>
      rw [formatLiteral_of_option raw optional]
      split <;> simp
  | false =>
      cases named : Scalar.ofText? field.type with
      | none =>
          rw [formatLiteral_of_other raw optional named, isEmpty_trim]
          simp
      | some scalar =>
          rw [formatLiteral_of_scalar raw named, isEmpty_formatScalar]
          cases scalar <;> simp

theorem recordParts_eq {fields : List FieldText} {raws : List Text}
    (same : raws.length = fields.length) :
    recordParts fields raws =
      match (fields.zip raws).find? fun item => isMissing item.1 item.2 with
      | some item => .error (.located (.missingValue item.1.name) [])
      | none => .ok ((fields.zip raws).map fun item => recordPart item.1 item.2) := by
  induction fields generalizing raws with
  | nil => rfl
  | cons field fields ih =>
      cases raws with
      | nil => cases same
      | cons raw raws =>
          have further := ih (Nat.succ.inj same)
          rw [recordParts, isEmpty_formatLiteral]
          cases missing : isMissing field raw with
          | true => simp [missing]
          | false =>
              simp only [Bool.false_eq_true, ↓reduceIte, further, List.zip_cons_cons,
                List.find?_cons, missing]
              cases (fields.zip raws).find? fun item => isMissing item.1 item.2 <;> rfl

/-- With a raw text for each field, a record literal has a part for each field in order, unless a value
is missing: the error names the first field that it is missing for. -/
theorem recordLiteral_eq {fields : List FieldText} {raws : List Text}
    (same : raws.length = fields.length) :
    recordLiteral fields raws =
      match (fields.zip raws).find? fun item => isMissing item.1 item.2 with
      | some item => .error (.located (.missingValue item.1.name) [])
      | none => .ok (Text.braced "record".toList
          ((fields.zip raws).map fun item => recordPart item.1 item.2)) := by
  rw [recordLiteral, if_neg (not_not.mpr same), recordParts_eq same]
  cases (fields.zip raws).find? fun item => isMissing item.1 item.2 <;> rfl

/-- A blank text is a value, a blank number is none. -/
theorem recordLiteral_of_blank_number :
    [" ".toList, "\t".toList, []].length =
        [(⟨"name".toList, "text".toList⟩ : FieldText), ⟨"size".toList, "nat".toList⟩,
          ⟨"flag".toList, "bool".toList⟩].length ∧
      recordLiteral [⟨"name".toList, "text".toList⟩, ⟨"size".toList, "nat".toList⟩,
          ⟨"flag".toList, "bool".toList⟩] [" ".toList, "\t".toList, []] =
        .error (.located (.missingValue "size".toList) []) :=
  ⟨rfl, recordLiteral_eq rfl⟩

/-- No value is missing where a principal is blank: the literal has quotes around nothing. -/
theorem recordLiteral_of_blank_principal :
    recordLiteral [⟨"owner".toList, "principal".toList⟩] [" ".toList] =
      .ok "record \x7b owner = principal \"\" : principal \x7d".toList := by
  have literal : formatLiteral "principal".toList " ".toList = "principal \"\"".toList :=
    formatLiteral_of_scalar " ".toList
      (show Scalar.ofText? "principal".toList = some .principal by decide)
  rw [recordLiteral, if_neg (by decide), recordParts_eq rfl]
  simp only [recordPart, literal, List.zip_cons_cons, List.zip_nil_right, List.map_cons]
  rfl

end Records

end Argument

end Candid
