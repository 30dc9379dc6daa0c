import Candid.Proofs.Argument.Converted
import Candid.Proofs.Fragment.PlainOutline
import Candid.Proofs.Number.Numeral

/-!
# Names of fields

A field of a record is named by its label without quotes, or by its position. So the names are
distinct exactly if the labels are and none of them is the position of a field without a label; and
then a list of as many values as there are fields is converted to one entry for each of them.
-/

set_option autoImplicit false

namespace Candid

open Idl

namespace Numeral

theorem ofNat_injective : Function.Injective ofNat := by
  intro number other same
  rw [← ofDigits_ofNat number, same, ofDigits_ofNat]

end Numeral

def fieldNames (labels : List (Option Text)) : List Text :=
  labels.mapIdx fun position label => label.getD (Numeral.ofNat position)

/-- The labels are distinct, and none of them is the numeral of a position without a label. -/
structure LabelsApart (labels : List (Option Text)) : Prop where
  distinct : labels.Pairwise fun label other => ∀ name, label = some name → other ≠ some name
  free : ∀ position, labels[position]? = some none → some (Numeral.ofNat position) ∉ labels

theorem length_fieldNames (labels : List (Option Text)) :
    (fieldNames labels).length = labels.length :=
  List.length_mapIdx

theorem getElem_fieldNames {labels : List (Option Text)} {position : Nat}
    (inside : position < labels.length) (within : position < (fieldNames labels).length) :
    (fieldNames labels)[position] = labels[position].getD (Numeral.ofNat position) :=
  List.getElem_mapIdx ..

theorem nodup_fieldNames_iff {labels : List (Option Text)} :
    (fieldNames labels).Nodup ↔ LabelsApart labels := by
  have size := length_fieldNames labels
  constructor
  · intro nodup
    have same {position other : Nat} (inside : position < labels.length) (within : other < labels.length)
        (names : labels[position].getD (Numeral.ofNat position) =
          labels[other].getD (Numeral.ofNat other)) : position = other := by
      rw [← getElem_fieldNames inside (by omega), ← getElem_fieldNames within (by omega)] at names
      exact nodup.getElem_inj_iff.mp names
    constructor
    · refine List.pairwise_iff_getElem.mpr fun position other inside within before name first second => ?_
      have equal := same inside within (by rw [first, second]; rfl)
      omega
    · intro position bare labelled
      obtain ⟨inside, here⟩ := List.getElem?_eq_some_iff.mp bare
      obtain ⟨other, within, there⟩ := List.getElem_of_mem labelled
      cases same inside within (by rw [here, there]; rfl)
      cases here.symm.trans there
  · rintro ⟨distinct, free⟩
    refine List.pairwise_iff_getElem.mpr fun position other inside within before names => ?_
    rw [getElem_fieldNames (by omega), getElem_fieldNames (by omega)] at names
    rw [size] at inside within
    have bare {position : Nat} (inside : position < labels.length) (none : labels[position] = none)
        {other : Nat} (within : other < labels.length) :
        labels[other] ≠ some (Numeral.ofNat position) := by
      intro label
      exact free position (by rw [List.getElem?_eq_getElem inside, none])
        (label ▸ List.getElem_mem within)
    cases first : labels[position] with
    | none =>
        cases second : labels[other] with
        | none =>
            rw [first, second] at names
            have equal := Numeral.ofNat_injective names
            omega
        | some name =>
            rw [first, second] at names
            cases names
            exact bare inside first within second
    | some name =>
        cases second : labels[other] with
        | none =>
            rw [first, second] at names
            cases names
            exact bare within second inside first
        | some other =>
            rw [first, second] at names
            cases names
            exact List.pairwise_iff_getElem.mp distinct _ _ inside within before _ first second

namespace Idl

variable {source : Text}

def Derivation.labels (members : Derivation (.nonterminal (.members .semicolon))) :
    List (Option Text) :=
  (members.outline []).map (·.label)

theorem name_of_member (clean : Clean source) {row : List Lexeme}
    {member : Derivation (.nonterminal (.member .semicolon))} (covers : Covers source row member.yield)
    (position : Nat) :
    (FieldText.ofPart position (spelling row).trim).name =
      (member.outline []).label.getD (Numeral.ofNat position) := by
  cases member with
  | node production children =>
      cases production with
      | labelledMember =>
          obtain _ | ⟨label, _ | ⟨⟨colon, fits⟩, _ | ⟨type, ⟨⟩⟩⟩⟩ := children
          obtain ⟨form, token, labelled, rfl⟩ := label.exists_labelLeaf
          have covers : Covers source row (token :: colon :: type.yield) := by simpa using covers
          obtain ⟨back, parts, solid, _⟩ := partition_labelledMember clean labelled fits covers
          simp only [FieldText.ofPart, parts, List.isEmpty_eq_false_iff.mpr solid]
          rfl
      | bareMember =>
          obtain _ | ⟨type, ⟨⟩⟩ := children
          have covers : Covers source row type.yield := by simpa using covers
          simp only [FieldText.ofPart, partition_bareMember clean covers]
          rfl

theorem names_of_members (clean : Clean source) {row : List Lexeme}
    {members : Derivation (.nonterminal (.members .semicolon))}
    (covers : Covers source row members.yield) :
    ((splitTopLevel ';' (spelling row)).mapIdx FieldText.ofPart).map (·.name) =
      fieldNames members.labels := by
  have named {ending : List Token}
      (ended : ending = [] ∨ ∃ token : Token, ending = [token] ∧ token.kind = .semicolon)
      (list : Derivation (.nonterminal (.memberList .semicolon)))
      (covers : Covers source row (list.yield ++ ending)) :
      ((splitTopLevel ';' (spelling row)).mapIdx FieldText.ofPart).map (·.name) =
        fieldNames ((list.outline []).map (·.label)) := by
    obtain ⟨first, items, rfl, _, _⟩ := list.listed
    rw [Derivation.yield_memberList, List.append_assoc] at covers
    obtain ⟨rows, matched, parts⟩ := splitTopLevel_members clean ended items first row covers
    obtain ⟨size, covered⟩ := List.forall₂_iff_get.mp matched
    rw [parts, Derivation.outline_memberList, fieldNames]
    refine List.ext_getElem (by simp [← size]) fun position inParts inMembers => ?_
    have inList : position < (first :: items.map (·.2)).length := by simpa using inMembers
    have inRows : position < rows.length := size ▸ inList
    simp only [List.getElem_map, List.getElem_mapIdx]
    exact name_of_member clean (covered position inList inRows) position
  cases members with
  | node production children =>
      cases production with
      | membersBare =>
          obtain _ | ⟨list, ⟨⟩⟩ := children
          exact named (.inl rfl) list covers
      | membersEnded =>
          obtain _ | ⟨list, _ | ⟨⟨token, fits⟩, ⟨⟩⟩⟩ := children
          exact named (.inr ⟨token, rfl, fits⟩) list (by simpa using covers)
      | noMembers =>
          obtain _ | ⟨tree, ⟨⟩⟩ := children
          cases tree.eq_empty
          have covers : Covers source row [] := covers
          rw [splitTopLevel_of_level (covers.level_of_closed clean .semicolon ⟨rfl, trivial⟩),
            covers.trim_nil clean]
          rfl

/-- The text is a record type with these members: the grammar derives its tokens, and there is nothing
else in it but blanks. -/
structure IsRecord (text : Text) (members : Derivation (.nonterminal (.members .semicolon))) :
    Prop where
  derives : ∃ word opening closing : Token, word.kind = .reserved .recordWord ∧
    opening.kind = .leftBrace ∧ closing.kind = .rightBrace ∧
    tokenStream text = ⟨word :: opening :: (members.yield ++ [closing]), none⟩
  clean : Clean text

theorem names_of_isRecord {text : Text} {members : Derivation (.nonterminal (.members .semicolon))}
    (isRecord : IsRecord text members) :
    leadingWord text.trim = "record".toList ∧
      (recordFields text).map (·.name) = fieldNames members.labels := by
  obtain ⟨⟨word, opening, closing, fits, opens, closes, derives⟩, clean⟩ := isRecord
  have covers := covers_of_derives derives
  obtain ⟨body, leads, found, between⟩ := covers.bracedBody clean fits opens closes
  rw [spelling_lexemes] at leads found
  refine ⟨leads, ?_⟩
  rw [← recordFields_trim, recordFields, memberParts, found]
  exact names_of_members clean between

end Idl

namespace Argument

open Json

/-- The fields of a record type are named by their labels and positions, and the names are distinct
exactly if the labels are apart. Then a list of one value for each field, each of which is converted,
becomes an object with one entry for each field, in order. -/
theorem recordFields_of_isRecord {text : Text}
    {members : Derivation (.nonterminal (.members .semicolon))} (isRecord : IsRecord text members) :
    (recordFields text).map (·.name) = fieldNames members.labels ∧
      (((recordFields text).map (·.name)).Nodup ↔ LabelsApart members.labels) ∧
      ∀ items path, LabelsApart members.labels →
        List.Forall₂ (fun (field : FieldText) item => ∀ place, ∃ value,
          convert (.ofText field.type) item place = .ok value) (recordFields text) items →
        ∃ entries, convert (.ofText text) (.list items) path = .ok (.object entries) ∧
          List.Forall₂ (fun (place : FieldText × Value) entry => entry.1 = place.1.name ∧
            ∃ path, convert (.ofText place.1.type) place.2 path = .ok entry.2)
            ((recordFields text).zip items) entries := by
  obtain ⟨leads, names⟩ := names_of_isRecord isRecord
  have distinct : ((recordFields text).map (·.name)).Nodup ↔ LabelsApart members.labels := by
    rw [names]
    exact nodup_fieldNames_iff
  refine ⟨names, distinct, fun items path apart converts => ?_⟩
  let outlined (field : FieldText) : Text × Outline := (field.name, Outline.ofText field.type)
  have each : List.Forall₂ (fun field item => ∀ place, ∃ value, convert field.2 item place = .ok value)
      ((recordFields text).map outlined) items := List.forall₂_map_left_iff.mpr converts
  have nodup : (((recordFields text).map outlined).map (·.1)).Nodup := by
    rw [List.map_map]
    exact distinct.mpr apart
  obtain ⟨entries, found, matched⟩ := convert_list_of_each nodup each path
  refine ⟨entries, ?_, ?_⟩
  · rw [Outline.ofText_of_record leads, recordFields_trim]
    exact found
  · rw [List.zip_map_left] at matched
    exact List.forall₂_map_left_iff.mp matched

section Example

private def bareMember (name : Text) (line offset : Nat) : Derivation (.nonterminal (.member .semicolon)) :=
  .node (.bareMember .semicolon)
    (.cons (.node .typeName (.cons (.leaf ⟨.identifier, name, line, offset⟩ rfl) .nil)) .nil)

private def labelledMember (form : LabelForm) (label : Char) (name : Text) :
    Derivation (.nonterminal (.member .semicolon)) :=
  .node (.labelledMember .semicolon)
    (.cons (.node (.label form) (.cons (.leaf ⟨form.kind, [label], 1, 9⟩ rfl) .nil))
      (.cons (.leaf ⟨.colon, [':'], 1, 11⟩ rfl)
        (.cons (.node .typeName (.cons (.leaf ⟨.identifier, name, 1, 13⟩ rfl) .nil)) .nil)))

def numberedMembers (label : Char) : Derivation (.nonterminal (.members .semicolon)) :=
  .node (.membersBare .semicolon)
    (.cons (Derivation.memberList (labelledMember .number label "nat".toList)
      [(.leaf ⟨.semicolon, [';'], 1, 16⟩ rfl, bareMember "text".toList 1 18)]) .nil)

def numberedRow (label : Char) : List Lexeme :=
  [⟨.token (.reserved .recordWord), "record".toList⟩, ⟨.layout, [' ']⟩, ⟨.token .leftBrace, ['{']⟩,
    ⟨.layout, [' ']⟩, ⟨.token .number, [label]⟩, ⟨.layout, [' ']⟩, ⟨.token .colon, [':']⟩,
    ⟨.layout, [' ']⟩, ⟨.token .identifier, "nat".toList⟩, ⟨.token .semicolon, [';']⟩,
    ⟨.layout, [' ']⟩, ⟨.token .identifier, "text".toList⟩, ⟨.layout, [' ']⟩,
    ⟨.token .rightBrace, ['}']⟩]

theorem isRecord_numbered {label : Char} (inLine : label ≠ '\n') (stand : Stand (numberedRow label) []) :
    IsRecord (spelling (numberedRow label)) (numberedMembers label) := by
  have simple : ∀ lexeme ∈ numberedRow label, lexeme.Plain := by
    simp [numberedRow, Lexeme.Plain, Lexeme.isBlankLayout]
  have flat : [label].count '\n' = 0 := List.count_eq_zero.mpr (by simpa using inLine.symm)
  constructor
  · refine ⟨⟨.reserved .recordWord, "record".toList, 1, 0⟩, ⟨.leftBrace, ['{'], 1, 7⟩,
      ⟨.rightBrace, ['}'], 1, 23⟩, rfl, rfl, rfl, ?_⟩
    rw [tokenStream_spelling stand simple]
    simp only [numberedRow, tokensOf, flat]
    rfl
  · rwa [Clean, lexemes_spelling stand]

theorem convert_nat_and_text :
    List.Forall₂ (fun (field : FieldText) item => ∀ place, ∃ value,
      convert (.ofText field.type) item place = .ok value)
      [⟨"7".toList, "nat".toList⟩, ⟨"1".toList, "text".toList⟩] [.integer 5, .text "x".toList] := by
  refine .cons (fun place => ⟨.integer 5, ?_⟩) (.cons (fun place => ⟨.text "x".toList, ?_⟩) .nil)
  · rw [Outline.ofText_nat]
    rfl
  · rw [Outline.ofText_text]
    rfl

/-- A record of a number label and a bare type behind it has two fields, and two entries. -/
theorem recordFields_of_isRecord_numbered :
    let text : Text := "record \x7b 7 : nat; text \x7d".toList
    IsRecord text (numberedMembers '7') ∧ LabelsApart (numberedMembers '7').labels ∧
      (recordFields text).map (·.name) = ["7".toList, "1".toList] ∧
      ∃ entries, convert (.ofText text) (.list [.integer 5, .text "x".toList]) [] =
        .ok (.object entries) ∧ entries.map (·.1) = ["7".toList, "1".toList] := by
  intro text
  have isRecord : IsRecord text (numberedMembers '7') := isRecord_numbered (by decide) (by decide)
  have fields : recordFields text =
      [⟨"7".toList, "nat".toList⟩, ⟨"1".toList, "text".toList⟩] := by decide
  obtain ⟨_, distinct, converts⟩ := recordFields_of_isRecord isRecord
  have apart : LabelsApart (numberedMembers '7').labels := distinct.mp (by rw [fields]; decide)
  obtain ⟨entries, found, matched⟩ := converts [.integer 5, .text "x".toList] [] apart
    (by rw [fields]; exact convert_nat_and_text)
  refine ⟨isRecord, apart, by rw [fields]; rfl, entries, found, ?_⟩
  rw [fields] at matched
  match entries, matched with
  | [_, _], .cons ⟨first, _⟩ (.cons ⟨second, _⟩ .nil) =>
      rw [List.map_cons, List.map_singleton, first, second]

def endedMembers : Derivation (.nonterminal (.members .semicolon)) :=
  .node (.membersEnded .semicolon)
    (.cons (Derivation.memberList (labelledMember .identifier 'a' "nat".toList) [])
      (.cons (.leaf ⟨.semicolon, [';'], 1, 16⟩ rfl) .nil))

/-- The label `1` in front of a bare type clashes with its position, and a value is lost. A comment is
taken for fields, and may repeat a label too. -/
theorem recordFields_clash :
    let text : Text := "record \x7b 1 : nat; text \x7d".toList
    let commented : Text := "record \x7b a : nat; // ; a : nat\n \x7d".toList
    IsRecord text (numberedMembers '1') ∧
      (numberedMembers '1').labels = [some "1".toList, none] ∧
      (recordFields text).map (·.name) = ["1".toList, "1".toList] ∧
      convert (.ofText text) (.list [.integer 5, .text "x".toList]) [] =
        .ok (.object [("1".toList, .text "x".toList)]) ∧
      tokenStream commented = ⟨⟨.reserved .recordWord, "record".toList, 1, 0⟩ ::
        ⟨.leftBrace, ['{'], 1, 7⟩ :: (endedMembers.yield ++ [⟨.rightBrace, ['}'], 2, 32⟩]), none⟩ ∧
      endedMembers.labels = [some "a".toList] ∧
      (recordFields commented).map (·.name) = ["a".toList, "1".toList, "a".toList] := by
  intro text commented
  have fields : recordFields text =
      [⟨"1".toList, "nat".toList⟩, ⟨"1".toList, "text".toList⟩] := by decide
  let row : List Lexeme :=
    [⟨.token (.reserved .recordWord), "record".toList⟩, ⟨.layout, [' ']⟩, ⟨.token .leftBrace, ['{']⟩,
      ⟨.layout, [' ']⟩, ⟨.token .identifier, ['a']⟩, ⟨.layout, [' ']⟩, ⟨.token .colon, [':']⟩,
      ⟨.layout, [' ']⟩, ⟨.token .identifier, "nat".toList⟩, ⟨.token .semicolon, [';']⟩,
      ⟨.layout, [' ']⟩, ⟨.layout, "// ; a : nat".toList⟩, ⟨.layout, ['\n']⟩, ⟨.layout, [' ']⟩,
      ⟨.token .rightBrace, ['}']⟩]
  have tokens := tokenStream_spelling_of_legal row (by decide) (by decide)
  refine ⟨isRecord_numbered (by decide) (by decide), rfl, by rw [fields]; rfl, ?_, tokens, rfl,
    by decide⟩
  rw [Outline.ofText_of_record (by decide), recordFields_trim, fields]
  simp only [List.map_cons, List.map_nil, Outline.ofText_nat, Outline.ofText_text]
  rfl

end Example

end Argument

end Candid
