import Candid.Proofs.Alias.Expansion
import Candid.Proofs.Argument.SameMeaning
import Candid.Proofs.Fragment.PlainOutline

/-!
# Normal forms

Resolving a type expression over the empty table replaces the shorthand for bytes and nothing else. Of
a plain type expression the result is a text with the same meaning, and a record or variant keeps its
labels.
-/

set_option autoImplicit false

namespace Candid

open Idl (structuredWords)
open Argument (SameMeaning SameFields SameCases)

namespace Alias

/-- Resolving over the empty table expands the outline that is read from the text. -/
theorem expand_nil (text : Text) :
    ∃ expanded, expand [] false text = .ok expanded ∧ Expands [] (.ofText text) expanded := by
  have noEntry (name other : Text) : ¬ Refers [] name other := by
    rintro ⟨_, _, found, _⟩
    cases found
  refine substituted fun leaf _ => expandLeaf_expands (by rintro _ ⟨⟩) [] leaf (by simp) ?_
  intro name _ cycle
  obtain ⟨_, refers, _⟩ := Relation.TransGen.head'_iff.mp cycle
  exact noEntry _ _ refers

mutual

theorem Expands.sameMeaning : {outline expanded : Outline} → Expands [] outline expanded →
    SameMeaning outline expanded
  | _, _, .opt inner => inner.sameMeaning.opt
  | _, _, .vec inner => inner.sameMeaning.vec
  | _, _, .record fields => .record fields.sameFields
  | _, _, .variant cases => .variant cases.sameCases
  | _, _, .declared found _ _ => by cases found
  | _, _, .bytes _ shorthand => .bytes shorthand
  | _, _, .kept _ _ => .refl _

theorem ExpandsFields.sameFields : {fields expanded : List (Text × Outline)} →
    ExpandsFields [] fields expanded → SameFields fields expanded
  | _, _, .nil => .nil
  | _, _, .cons type rest => .cons ⟨rfl, type.sameMeaning⟩ rest.sameFields

theorem ExpandsCases.sameCases : {cases expanded : List (Text × Option Outline)} →
    ExpandsCases [] cases expanded → SameCases cases expanded
  | _, _, .nil => .nil
  | _, _, .bare rest => .cons ⟨rfl, .none⟩ rest.sameCases
  | _, _, .cons type rest => .cons ⟨rfl, .some type.sameMeaning⟩ rest.sameCases

end

theorem legible_nat8 : (Outline.leaf Scalar.nat8.name).Legible := by
  have ordinary : ∀ c ∈ Scalar.nat8.name, Nesting.isOrdinary c = true :=
    List.all_eq_true.mp (by decide)
  refine .leaf ⟨Text.solid_of_trim (by decide) (by decide), by decide, fun depth _ => ?_⟩ (by decide)
  exact level_of_ordinary .semicolon depth ordinary

theorem ExpandsFields.names {table : AliasTable} {fields expanded : List (Text × Outline)}
    (expands : ExpandsFields table fields expanded) :
    expanded.map (·.1) = fields.map (·.1) := by
  induction fields generalizing expanded with
  | nil =>
      cases expands
      rfl
  | cons field rest ih =>
      cases expands with
      | cons _ others => simp [ih others]

theorem ExpandsCases.names {table : AliasTable} {cases expanded : List (Text × Option Outline)}
    (expands : ExpandsCases table cases expanded) :
    expanded.map (·.1) = cases.map (·.1) := by
  induction cases generalizing expanded with
  | nil =>
      cases expands
      rfl
  | cons item rest ih =>
      cases expands with
      | bare others => simp [ih others]
      | cons _ others => simp [ih others]

mutual

theorem Expands.legible {table : AliasTable} : {outline expanded : Outline} →
    Expands table outline expanded → outline.Legible → expanded.Legible
  | _, _, .opt inner, .opt type => .opt (inner.legible type)
  | _, _, .vec inner, .vec type => .vec (inner.legible type)
  | _, _, .record fields, .record labels types =>
      .record (fields.legible labels types).1 (fields.legible labels types).2
  | _, _, .variant cases, .variant labels types =>
      .variant (cases.legible labels types).1 (cases.legible labels types).2
  | _, _, .declared _ plain definition, _ => definition.legible (Idl.legible_of_plain plain)
  | _, _, .bytes _ _, _ => .vec legible_nat8
  | _, _, .kept _ _, legible => legible

theorem ExpandsFields.legible {table : AliasTable} : {fields expanded : List (Text × Outline)} →
    ExpandsFields table fields expanded → (∀ field ∈ fields, IsLegibleLabel field.1) →
    (∀ field ∈ fields, field.2.Legible) →
    (∀ field ∈ expanded, IsLegibleLabel field.1) ∧ ∀ field ∈ expanded, field.2.Legible
  | _, _, .nil, _, _ => ⟨by rintro _ ⟨⟩, by rintro _ ⟨⟩⟩
  | _, _, .cons type rest, labels, types => by
      obtain ⟨label, labels⟩ := List.forall_mem_cons.mp labels
      obtain ⟨first, types⟩ := List.forall_mem_cons.mp types
      obtain ⟨others, further⟩ := rest.legible labels types
      exact ⟨List.forall_mem_cons.mpr ⟨label, others⟩,
        List.forall_mem_cons.mpr ⟨type.legible first, further⟩⟩

theorem ExpandsCases.legible {table : AliasTable} :
    {cases expanded : List (Text × Option Outline)} →
    ExpandsCases table cases expanded → (∀ item ∈ cases, IsLegibleLabel item.1) →
    (∀ item ∈ cases, ∀ type ∈ item.2, type.Legible) →
    (∀ item ∈ expanded, IsLegibleLabel item.1) ∧ ∀ item ∈ expanded, ∀ type ∈ item.2, type.Legible
  | _, _, .nil, _, _ => ⟨by rintro _ ⟨⟩, by rintro _ ⟨⟩⟩
  | _, _, .bare rest, labels, types => by
      obtain ⟨label, labels⟩ := List.forall_mem_cons.mp labels
      obtain ⟨_, types⟩ := List.forall_mem_cons.mp types
      obtain ⟨others, further⟩ := rest.legible labels types
      exact ⟨List.forall_mem_cons.mpr ⟨label, others⟩,
        List.forall_mem_cons.mpr ⟨by rintro _ ⟨⟩, further⟩⟩
  | _, _, .cons type rest, labels, types => by
      obtain ⟨label, labels⟩ := List.forall_mem_cons.mp labels
      obtain ⟨payload, types⟩ := List.forall_mem_cons.mp types
      obtain ⟨others, further⟩ := rest.legible labels types
      refine ⟨List.forall_mem_cons.mpr ⟨label, others⟩, List.forall_mem_cons.mpr ⟨?_, further⟩⟩
      rintro _ ⟨⟩
      exact type.legible (payload _ rfl)

end

/-- Resolving a plain type expression over the empty table gives the text of a legible outline, which
is read from that text again. -/
theorem resolve_nil {text : Text} {type : Idl.Derivation (.nonterminal .datatype)}
    (plain : Idl.Plain text type) :
    ∃ expanded, Expands [] (.ofText text) expanded ∧ expanded.Legible ∧
      resolve [] false text = .ok expanded.render := by
  obtain ⟨expanded, found, expands⟩ := expand_nil text
  have legible := Idl.legible_of_plain plain
  rw [← Idl.outline_of_plain plain] at legible
  exact ⟨expanded, expands, expands.legible legible, by rw [resolve, found]; rfl⟩

def labelledTree (label : Text) : Idl.Derivation (.nonterminal .datatype) :=
  let behind := 9 + label.length
  let member : Idl.Derivation (.nonterminal (.member .semicolon)) :=
    .node (.labelledMember .semicolon)
      (.cons (.node (.label .text) (.cons (.leaf ⟨.text, label, 1, 9⟩ rfl) .nil))
        (.cons (.leaf ⟨.colon, ":".toList, 1, behind + 1⟩ rfl)
          (.cons (nameTree "nat".toList (behind + 3)) .nil)))
  .node (.compound .record) (.cons (.leaf ⟨.reserved .recordWord, "record".toList, 1, 0⟩ rfl)
    (.cons (.leaf ⟨.leftBrace, ['{'], 1, 7⟩ rfl)
      (.cons (.node (.membersBare .semicolon)
          (.cons (.node (.oneMember .semicolon) (.cons member .nil)) .nil))
        (.cons (.leaf ⟨.rightBrace, ['}'], 1, behind + 7⟩ rfl) .nil))))

def labelledRow (label : Text) : List Idl.Lexeme :=
  [⟨.token (.reserved .recordWord), "record".toList⟩, ⟨.layout, [' ']⟩, ⟨.token .leftBrace, ['{']⟩,
    ⟨.layout, [' ']⟩, ⟨.token .text, label⟩, ⟨.layout, [' ']⟩, ⟨.token .colon, [':']⟩,
    ⟨.layout, [' ']⟩, ⟨.token .identifier, "nat".toList⟩, ⟨.layout, [' ']⟩,
    ⟨.token .rightBrace, ['}']⟩]

theorem stand_labelledRow {label : Text} (form : Idl.Form .text label) :
    Idl.Stand (labelledRow label) [] := by
  have recordWord : Idl.Form (.reserved .recordWord) "record".toList :=
    @Idl.Form.word 'r' "ecord".toList (by decide) (List.all_eq_true.mp (by decide))
  have blank (rest : Text) : Idl.Lexeme.Stands ⟨.layout, [' ']⟩ rest :=
    Idl.stands_blank (by decide) rest
  have apart (rest : Text) (kind : Idl.TokenKind) : Idl.Bounded kind (' ' :: rest) :=
    (Idl.apart_cons (by decide) (by decide) rest).bounded kind
  exact ⟨recordWord.stands (apart _ _), blank _, (Idl.Form.mark rfl).stands trivial, blank _,
    form.stands trivial, blank _, (Idl.Form.mark rfl).stands trivial, blank _,
    natName.stands (apart _ _), blank _, (Idl.Form.mark rfl).stands trivial, trivial⟩

theorem plain_labelled :
    Idl.Plain "record \x7b \"a\" : nat \x7d".toList (labelledTree "\"a\"".toList) := by
  have label : Idl.Form .text "\"a\"".toList :=
    .quoted (.plain (by decide) (by decide) (by decide) .close)
  exact Idl.plain_of_row (stand_labelledRow label)
    (by simp [labelledRow, Idl.Lexeme.Plain, Idl.Lexeme.isBlankLayout]) rfl (by decide)

/-- Resolving a plain type expression over the empty table does not change what it means: every value
is checked and converted alike against both texts, and they have the same example. -/
theorem resolve_same_meaning {text : Text} {type : Idl.Derivation (.nonterminal .datatype)}
    (plain : Idl.Plain text type) :
    ∃ normal, resolve [] false text = .ok normal ∧
      (∀ strict value path,
        Argument.check strict (.ofText normal) value path =
          Argument.check strict (.ofText text) value path) ∧
      (∀ value path,
        Argument.convert (.ofText normal) value path = Argument.convert (.ofText text) value path) ∧
      Argument.exampleValue normal = Argument.exampleValue text := by
  obtain ⟨expanded, expands, legible, resolved⟩ := resolve_nil plain
  have same := expands.sameMeaning
  refine ⟨expanded.render, resolved, ?_, ?_, ?_⟩
  · intro strict value path
    rw [legible.ofText_render]
    exact (same.checked strict value path).symm
  · intro value path
    rw [legible.ofText_render]
    exact (same.converted value path).symm
  · rw [Argument.exampleValue, Argument.exampleValue, legible.ofText_render]
    exact same.shown.symm

/-- A record with a quoted label means the same when it is resolved. -/
theorem resolve_labelled_same_meaning :
    Idl.Plain "record \x7b \"a\" : nat \x7d".toList (labelledTree "\"a\"".toList) ∧
      ∃ normal, resolve [] false "record \x7b \"a\" : nat \x7d".toList = .ok normal ∧
        (∀ strict value path,
          Argument.check strict (.ofText normal) value path =
            Argument.check strict (.ofText "record \x7b \"a\" : nat \x7d".toList) value path) ∧
        (∀ value path,
          Argument.convert (.ofText normal) value path =
            Argument.convert (.ofText "record \x7b \"a\" : nat \x7d".toList) value path) ∧
        Argument.exampleValue normal =
          Argument.exampleValue "record \x7b \"a\" : nat \x7d".toList :=
  ⟨plain_labelled, resolve_same_meaning plain_labelled⟩

theorem names_of_record {text : Text} {fields : List (Text × Outline)}
    (read : Outline.ofText text = .record fields) :
    (recordFields text).map (·.name) = fields.map (·.1) := by
  rw [Outline.ofText_eq] at read
  split_ifs at read
  cases read
  rw [List.map_map, recordFields_trim]
  rfl

theorem names_of_variant {text : Text} {cases : List (Text × Option Outline)}
    (read : Outline.ofText text = .variant cases) :
    (variantCases text).map (·.name) = cases.map (·.1) := by
  rw [Outline.ofText_eq] at read
  split_ifs at read
  cases read
  rw [List.map_map, variantCases_trim]
  rfl

/-- Resolving a plain record or variant type over the empty table keeps the names of its members. -/
theorem resolve_keeps_names {text : Text} {type : Idl.Derivation (.nonterminal .datatype)}
    (plain : Idl.Plain text type) :
    ∃ normal, resolve [] false text = .ok normal ∧
      ((∃ children, type = .node (.compound .record) children) →
        (recordFields normal).map (·.name) = (recordFields text).map (·.name)) ∧
      ((∃ children, type = .node (.compound .variant) children) →
        (variantCases normal).map (·.name) = (variantCases text).map (·.name)) := by
  obtain ⟨expanded, expands, legible, resolved⟩ := resolve_nil plain
  have again := legible.ofText_render
  have read := Idl.outline_of_plain plain
  refine ⟨expanded.render, resolved, ?_, ?_⟩
  · rintro ⟨children, rfl⟩
    match children with
    | .cons _ (.cons _ (.cons _ (.cons _ .nil))) =>
        rw [read] at expands
        cases expands with
        | record fields =>
            rw [names_of_record again, names_of_record read]
            exact fields.names
  · rintro ⟨children, rfl⟩
    match children with
    | .cons _ (.cons _ (.cons _ (.cons _ .nil))) =>
        rw [read] at expands
        cases expands with
        | variant cases =>
            rw [names_of_variant again, names_of_variant read]
            exact cases.names

/-- A record with a quoted label keeps its name when it is resolved. -/
theorem resolve_labelled_keeps_names :
    Idl.Plain "record \x7b \"a\" : nat \x7d".toList (labelledTree "\"a\"".toList) ∧
      ∃ normal, resolve [] false "record \x7b \"a\" : nat \x7d".toList = .ok normal ∧
        ((∃ children, labelledTree "\"a\"".toList = .node (.compound .record) children) →
          (recordFields normal).map (·.name) =
            (recordFields "record \x7b \"a\" : nat \x7d".toList).map (·.name)) ∧
        ((∃ children, labelledTree "\"a\"".toList = .node (.compound .variant) children) →
          (variantCases normal).map (·.name) =
            (variantCases "record \x7b \"a\" : nat \x7d".toList).map (·.name)) :=
  ⟨plain_labelled, resolve_keeps_names plain_labelled⟩

theorem resolve_nat_field {text name : Text} (leads : leadingWord text.trim = "record".toList)
    (fields : recordFields text.trim = [⟨name, "nat".toList⟩]) :
    resolve [] false text = .ok (Outline.record [(name, .leaf "nat".toList)]).render := by
  rw [resolve, expand, Outline.ofText_of_record leads, fields]
  simp only [List.map_cons, List.map_nil, Outline.ofText_nat, Outline.substitute,
    Outline.substituteFields]
  rw [expandLeaf]
  rfl

/-- A quoted label is printed without its quotes. Where it holds a semicolon, the resolved record has
two fields in its place. -/
theorem resolve_splits_label :
    Idl.tokenStream "record \x7b \"a;b\" : nat \x7d".toList =
        ⟨(labelledTree "\"a;b\"".toList).yield, none⟩ ∧
      (recordFields "record \x7b \"a;b\" : nat \x7d".toList).map (·.name) = ["a;b".toList] ∧
      ∃ normal, resolve [] false "record \x7b \"a;b\" : nat \x7d".toList = .ok normal ∧
        (recordFields normal).map (·.name) = ["0".toList, "b".toList] := by
  refine ⟨?_, by decide, "record \x7b a;b : nat \x7d".toList, ?_, by decide⟩
  · have closed : Idl.Lexeme.closeQuote? "a;b\"".toList = some ("a;b\"".toList, []) := by decide
    have label : Idl.Form .text "\"a;b\"".toList := .quoted (Idl.quoted_of_closeQuote closed)
    exact Idl.tokenStream_spelling (stand_labelledRow label)
      (by simp [labelledRow, Idl.Lexeme.Plain, Idl.Lexeme.isBlankLayout])
  · have fields : recordFields (Text.trim "record \x7b \"a;b\" : nat \x7d".toList) =
        [⟨"a;b".toList, "nat".toList⟩] := by decide
    exact resolve_nat_field (by decide) fields

end Alias

end Candid
