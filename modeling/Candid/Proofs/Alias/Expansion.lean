import Candid.Alias.Expand
import Candid.Proofs.Dictionary
import Candid.Proofs.Fragment.Leaves
import Candid.Proofs.Fragment.Outline
import Candid.Proofs.Outcome
import Mathlib.Logic.Relation

/-!
# Expansion of plain type expressions

The expansion of an outline as a relation: a declared name becomes the expansion of the outline of its
definition's tree, the shorthand for bytes a sequence, and any other leaf stays. Where no cycle of
declarations can be reached there is exactly one expansion, and resolving the text finds it.
-/

set_option autoImplicit false

namespace Candid.Alias

open Idl

mutual

/-- The second outline is the first with every declared name replaced by the expansion of its
definition, and every other shorthand for bytes by a sequence. -/
inductive Expands (table : AliasTable) : Outline → Outline → Prop where
  | opt {inner expanded : Outline} :
      Expands table inner expanded → Expands table (.opt inner) (.opt expanded)
  | vec {inner expanded : Outline} :
      Expands table inner expanded → Expands table (.vec inner) (.vec expanded)
  | record {fields expanded : List (Text × Outline)} :
      ExpandsFields table fields expanded → Expands table (.record fields) (.record expanded)
  | variant {cases expanded : List (Text × Option Outline)} :
      ExpandsCases table cases expanded → Expands table (.variant cases) (.variant expanded)
  | declared {name definition : Text} {type : Derivation (.nonterminal .datatype)}
      {expanded : Outline} (found : Dictionary.find? name table = some definition)
      (plain : Plain definition type) :
      Expands table (type.outline definition) expanded → Expands table (.leaf name) expanded
  | bytes {name : Text} (free : Dictionary.find? name table = none)
      (shorthand : isBlob name = true) :
      Expands table (.leaf name) (.vec (.leaf Scalar.nat8.name))
  | kept {name : Text} (free : Dictionary.find? name table = none)
      (other : isBlob name = false) : Expands table (.leaf name) (.leaf name)

inductive ExpandsFields (table : AliasTable) :
    List (Text × Outline) → List (Text × Outline) → Prop where
  | nil : ExpandsFields table [] []
  | cons {name : Text} {type expanded : Outline} {rest others : List (Text × Outline)} :
      Expands table type expanded → ExpandsFields table rest others →
      ExpandsFields table ((name, type) :: rest) ((name, expanded) :: others)

inductive ExpandsCases (table : AliasTable) :
    List (Text × Option Outline) → List (Text × Option Outline) → Prop where
  | nil : ExpandsCases table [] []
  | bare {name : Text} {rest others : List (Text × Option Outline)} :
      ExpandsCases table rest others →
      ExpandsCases table ((name, none) :: rest) ((name, none) :: others)
  | cons {name : Text} {type expanded : Outline} {rest others : List (Text × Option Outline)} :
      Expands table type expanded → ExpandsCases table rest others →
      ExpandsCases table ((name, some type) :: rest) ((name, some expanded) :: others)

end

mutual

theorem Expands.unique {table : AliasTable} : {outline expanded other : Outline} →
    Expands table outline expanded → Expands table outline other → other = expanded
  | _, _, _, .opt first, .opt second => congrArg Outline.opt (first.unique second)
  | _, _, _, .vec first, .vec second => congrArg Outline.vec (first.unique second)
  | _, _, _, .record first, .record second => congrArg Outline.record (first.unique second)
  | _, _, _, .variant first, .variant second => congrArg Outline.variant (first.unique second)
  | _, _, _, .declared found plain first, .declared again other second => by
      cases found.symm.trans again
      rw [← outline_of_plain other, outline_of_plain plain] at second
      exact first.unique second
  | _, _, _, .declared found _ _, .bytes free _ => by cases found.symm.trans free
  | _, _, _, .declared found _ _, .kept free _ => by cases found.symm.trans free
  | _, _, _, .bytes free _, .declared found _ _ => by cases found.symm.trans free
  | _, _, _, .kept free _, .declared found _ _ => by cases found.symm.trans free
  | _, _, _, .bytes _ _, .bytes _ _ => rfl
  | _, _, _, .kept _ _, .kept _ _ => rfl
  | _, _, _, .bytes _ shorthand, .kept _ other => by cases shorthand.symm.trans other
  | _, _, _, .kept _ other, .bytes _ shorthand => by cases shorthand.symm.trans other

theorem ExpandsFields.unique {table : AliasTable} : {fields expanded other : List (Text × Outline)} →
    ExpandsFields table fields expanded → ExpandsFields table fields other → other = expanded
  | _, _, _, .nil, .nil => rfl
  | _, _, _, .cons first rest, .cons second others => by
      rw [first.unique second, rest.unique others]

theorem ExpandsCases.unique {table : AliasTable} :
    {cases expanded other : List (Text × Option Outline)} →
    ExpandsCases table cases expanded → ExpandsCases table cases other → other = expanded
  | _, _, _, .nil, .nil => rfl
  | _, _, _, .bare rest, .bare others => by rw [rest.unique others]
  | _, _, _, .cons first rest, .cons second others => by
      rw [first.unique second, rest.unique others]

end

/-- The definition of a name has another name as a leaf. -/
def Refers (table : AliasTable) (name other : Text) : Prop :=
  ∃ definition type, Dictionary.find? name table = some definition ∧ Plain definition type ∧
    other ∈ (type.outline definition).leaves

/-- From the leaf no name can be reached that refers to itself, directly or through others. -/
def Acyclic (table : AliasTable) (leaf : Text) : Prop :=
  ∀ name, Relation.ReflTransGen (Refers table) leaf name →
    ¬ Relation.TransGen (Refers table) name name

def PlainTable (table : AliasTable) : Prop :=
  ∀ entry ∈ table, ∃ type, Plain entry.2 type

section Substitution

variable {table : AliasTable} {replace : Text → Except ResolutionError Outline}

def Substituted (table : AliasTable) (replace : Text → Except ResolutionError Outline)
    (outline : Outline) : Prop :=
  ∃ expanded, outline.substitute replace = .ok expanded ∧ Expands table outline expanded

theorem substituteFields_expands {fields : List (Text × Outline)}
    (each : ∀ field ∈ fields, Substituted table replace field.2) :
    ∃ expanded, Outline.substituteFields replace fields = .ok expanded ∧
      ExpandsFields table fields expanded := by
  induction fields with
  | nil => exact ⟨[], rfl, .nil⟩
  | cons field rest ih =>
      obtain ⟨name, type⟩ := field
      obtain ⟨first, replaced, expands⟩ := each (name, type) (by simp)
      obtain ⟨others, step, further⟩ := ih fun field member => each field (by simp [member])
      refine ⟨(name, first) :: others, ?_, .cons expands further⟩
      simp only [Outline.substituteFields, replaced, step]
      rfl

theorem substituteCases_expands {cases : List (Text × Option Outline)}
    (each : ∀ item ∈ cases, ∀ type ∈ item.2, Substituted table replace type) :
    ∃ expanded, Outline.substituteCases replace cases = .ok expanded ∧
      ExpandsCases table cases expanded := by
  induction cases with
  | nil => exact ⟨[], rfl, .nil⟩
  | cons item rest ih =>
      obtain ⟨others, step, further⟩ := ih fun item member => each item (by simp [member])
      match item with
      | (name, none) =>
          refine ⟨(name, none) :: others, ?_, .bare further⟩
          simp only [Outline.substituteCases, step]
          rfl
      | (name, some type) =>
          obtain ⟨first, replaced, expands⟩ := each (name, some type) (by simp) type rfl
          refine ⟨(name, some first) :: others, ?_, .cons expands further⟩
          simp only [Outline.substituteCases, replaced, step]
          rfl

theorem substituted {outline : Outline}
    (each : ∀ leaf ∈ outline.leaves, Substituted table replace (.leaf leaf)) :
    Substituted table replace outline := by
  induction outline using Outline.induction with
  | opt inner ih =>
      obtain ⟨expanded, step, expands⟩ := ih each
      exact ⟨.opt expanded, by simp only [Outline.substitute, step]; rfl, .opt expands⟩
  | vec inner ih =>
      obtain ⟨expanded, step, expands⟩ := ih each
      exact ⟨.vec expanded, by simp only [Outline.substitute, step]; rfl, .vec expands⟩
  | record fields ih =>
      obtain ⟨expanded, step, expands⟩ := substituteFields_expands fun field member =>
        ih field member fun leaf inside =>
          each leaf (Outline.mem_fieldLeaves.mpr ⟨field, member, inside⟩)
      exact ⟨.record expanded, by simp only [Outline.substitute, step]; rfl, .record expands⟩
  | variant cases ih =>
      obtain ⟨expanded, step, expands⟩ := substituteCases_expands fun item member type payload =>
        ih item member type payload fun leaf inside =>
          each leaf (Outline.mem_caseLeaves.mpr ⟨item, member, type, payload, inside⟩)
      exact ⟨.variant expanded, by simp only [Outline.substitute, step]; rfl, .variant expands⟩
  | leaf text => exact each text (by simp [Outline.leaves])

end Substitution

/-- A leaf from which no cycle can be reached is expanded. Each name under expansion leads to the
leaf, so the leaf is none of them. -/
theorem expandLeaf_expands {table : AliasTable} (plain : PlainTable table)
    (expanding : List Text) (leaf : Text)
    (leads : ∀ name ∈ expanding, Relation.TransGen (Refers table) name leaf)
    (acyclic : Acyclic table leaf) :
    ∃ expanded, expandLeaf table false expanding leaf = .ok expanded ∧
      Expands table (.leaf leaf) expanded := by
  fun_induction expandLeaf table false expanding leaf with
  | case1 expanding leaf _ _ closes =>
      exact absurd (leads leaf closes) (acyclic leaf .refl)
  | case2 expanding leaf definition found _ ih =>
      obtain ⟨type, derived⟩ := plain (leaf, definition) (Dictionary.mem_of_find? found)
      rw [outline_of_plain derived]
      have each : ∀ inner ∈ (type.outline definition).leaves,
          Substituted table (expandLeaf table false (expanding ++ [leaf])) (.leaf inner) := by
        intro inner member
        have refers : Refers table leaf inner := ⟨definition, type, found, derived, member⟩
        refine ih inner (fun name among => ?_) fun name reached => acyclic name (.head refers reached)
        rcases List.mem_append.mp among with before | last
        · exact (leads name before).tail refers
        · cases List.mem_singleton.mp last
          exact .single refers
      obtain ⟨expanded, replaced, expands⟩ := substituted each
      exact ⟨expanded, replaced, .declared found derived expands⟩
  | case3 expanding leaf free shorthand => exact ⟨_, rfl, .bytes free shorthand⟩
  | case4 expanding leaf _ _ strict => cases strict
  | case5 expanding leaf free other => exact ⟨_, rfl, .kept free (by simpa using other)⟩

def nameTree (name : Text) (offset : Nat) : Derivation (.nonterminal .datatype) :=
  .node .typeName (.cons (.leaf ⟨.identifier, name, 1, offset⟩ rfl) .nil)

theorem plain_name {name : Text} (form : Form .identifier name) (plain : isPlainName name = true) :
    Plain name (nameTree name 0) := by
  have single : Plain (spelling [⟨.token .identifier, name⟩]) (nameTree name 0) :=
    plain_of_row ⟨form.stands (by simp [Bounded]), trivial⟩ (by simp [Lexeme.Plain]) rfl plain
  simpa using single

/-- Over a table whose one definition is another name no cycle can be reached. -/
theorem acyclic_of_name {name definition : Text} (form : Form .identifier definition)
    (plain : isPlainName definition = true) (other : definition ≠ name) (leaf : Text) :
    Acyclic [(name, definition)] leaf := by
  have refers {first second : Text} (step : Refers [(name, definition)] first second) :
      first = name ∧ second = definition := by
    obtain ⟨_, type, found, derived, member⟩ := step
    cases Dictionary.mem_of_find? found with
    | head =>
        rw [← outline_of_plain derived, outline_of_plain (plain_name form plain)] at member
        exact ⟨rfl, List.mem_singleton.mp member⟩
    | tail _ none => cases none
  intro last _ cycle
  obtain ⟨_, first, _⟩ := Relation.TransGen.head'_iff.mp cycle
  obtain ⟨_, _, final⟩ := Relation.TransGen.tail'_iff.mp cycle
  exact other ((refers final).2.symm.trans (refers first).1)

def optionTree (name : Text) : Derivation (.nonterminal .datatype) :=
  .node (.angled .opt) (.cons (.leaf ⟨.reserved .optWord, "opt".toList, 1, 0⟩ rfl)
    (.cons (.leaf ⟨.leftAngle, "<".toList, 1, 4⟩ rfl) (.cons (nameTree name 5)
      (.cons (.leaf ⟨.rightAngle, ">".toList, 1, 5 + name.length⟩ rfl) .nil))))

def functionTree (name : Text) : Derivation (.nonterminal .datatype) :=
  let noMembers (separator : Separator) : Derivation (.nonterminal (.members separator)) :=
    .node (.noMembers separator) (.cons (.node .empty .nil) .nil)
  let arguments : Derivation (.nonterminal (.members .comma)) :=
    .node (.membersBare .comma) (.cons (.node (.oneMember .comma)
      (.cons (.node (.bareMember .comma) (.cons (nameTree name 6) .nil)) .nil)) .nil)
  let behind := 6 + name.length
  .node .funcType (.cons (.leaf ⟨.reserved .funcWord, "func".toList, 1, 0⟩ rfl)
    (.cons (.node .signature (.cons (.leaf ⟨.leftParen, "(".toList, 1, 5⟩ rfl)
      (.cons arguments (.cons (.leaf ⟨.rightParen, ")".toList, 1, behind⟩ rfl)
      (.cons (.leaf ⟨.arrow, "->".toList, 1, behind + 2⟩ rfl)
      (.cons (.leaf ⟨.leftParen, "(".toList, 1, behind + 5⟩ rfl)
      (.cons (noMembers .comma) (.cons (.leaf ⟨.rightParen, ")".toList, 1, behind + 6⟩ rfl)
      (.cons (.node .noModes (.cons (.node .empty .nil) .nil)) .nil))))))))) .nil))

theorem natName : Form .identifier "nat".toList :=
  @Form.word 'n' "at".toList (by decide) (List.all_eq_true.mp (by decide))

theorem plain_option : Plain "opt <t>".toList (optionTree "t".toList) := by
  have optWord : Form (.reserved .optWord) "opt".toList :=
    @Form.word 'o' "pt".toList (by decide) (List.all_eq_true.mp (by decide))
  have name : Form .identifier "t".toList := @Form.word 't' [] (by decide) (by simp)
  let row : List Lexeme := [⟨.token (.reserved .optWord), "opt".toList⟩, ⟨.layout, [' ']⟩,
    ⟨.token .leftAngle, ['<']⟩, ⟨.token .identifier, "t".toList⟩, ⟨.token .rightAngle, ['>']⟩]
  show Plain (spelling row) _
  refine plain_of_row ⟨?_, stands_blank (by decide) _, (Form.mark rfl).stands trivial, ?_,
      (Form.mark rfl).stands trivial, trivial⟩ (by simp [row, Lexeme.Plain, Lexeme.isBlankLayout]) rfl
    (by decide)
  · exact optWord.stands ((apart_cons (by decide) (by decide) _).bounded _)
  · exact name.stands ((apart_cons (by decide) (by decide) _).bounded _)

theorem plain_function : Plain "func (t) -> ()".toList (functionTree "t".toList) := by
  have funcWord : Form (.reserved .funcWord) "func".toList :=
    @Form.word 'f' "unc".toList (by decide) (List.all_eq_true.mp (by decide))
  have name : Form .identifier "t".toList := @Form.word 't' [] (by decide) (by simp)
  let row : List Lexeme := [⟨.token (.reserved .funcWord), "func".toList⟩, ⟨.layout, [' ']⟩,
    ⟨.token .leftParen, ['(']⟩, ⟨.token .identifier, "t".toList⟩, ⟨.token .rightParen, [')']⟩,
    ⟨.layout, [' ']⟩, ⟨.token .arrow, ['-', '>']⟩, ⟨.layout, [' ']⟩, ⟨.token .leftParen, ['(']⟩,
    ⟨.token .rightParen, [')']⟩]
  show Plain (spelling row) _
  refine plain_of_row ⟨?_, stands_blank (by decide) _, (Form.mark rfl).stands trivial, ?_,
      (Form.mark rfl).stands trivial, stands_blank (by decide) _, Form.arrow.stands trivial,
      stands_blank (by decide) _, (Form.mark rfl).stands trivial, (Form.mark rfl).stands trivial,
      trivial⟩ (by simp [row, Lexeme.Plain, Lexeme.isBlankLayout]) rfl rfl
  · exact funcWord.stands ((apart_cons (by decide) (by decide) _).bounded _)
  · exact name.stands ((apart_cons (by decide) (by decide) _).bounded _)

def natTable : AliasTable := [("t".toList, "nat".toList)]

theorem plainTable_natTable : PlainTable natTable := by
  intro entry member
  cases List.mem_singleton.mp member
  exact ⟨_, plain_name natName (by decide)⟩

theorem acyclic_natTable (leaf : Text) : Acyclic natTable leaf :=
  acyclic_of_name natName (by decide) (by decide) leaf

/-- Resolving a plain type expression over a table of plain definitions gives the text of the one
expansion of its tree, if no cycle can be reached from its names. -/
theorem resolve_eq_expansion {table : AliasTable} {text : Text}
    {type : Derivation (.nonterminal .datatype)} (plain : Plain text type)
    (definitions : PlainTable table)
    (acyclic : ∀ leaf ∈ (type.outline text).leaves, Acyclic table leaf) :
    ∃ expanded, Expands table (type.outline text) expanded ∧
      (∀ other, Expands table (type.outline text) other → other = expanded) ∧
      resolve table false text = .ok expanded.render := by
  have each : ∀ leaf ∈ (type.outline text).leaves,
      Substituted table (expandLeaf table false []) (.leaf leaf) := fun leaf member =>
    expandLeaf_expands definitions [] leaf (by simp) (acyclic leaf member)
  obtain ⟨expanded, replaced, expands⟩ := substituted each
  refine ⟨expanded, expands, fun other => expands.unique, ?_⟩
  rw [resolve, expand, outline_of_plain plain, replaced]
  rfl

/-- An option of a declared name becomes an option of its definition. -/
theorem resolve_option :
    Plain "opt <t>".toList (optionTree "t".toList) ∧ PlainTable natTable ∧
      (∀ leaf ∈ ((optionTree "t".toList).outline "opt <t>".toList).leaves,
        Acyclic natTable leaf) ∧
      ∃ expanded,
        Expands natTable ((optionTree "t".toList).outline "opt <t>".toList) expanded ∧
        (∀ other, Expands natTable ((optionTree "t".toList).outline "opt <t>".toList) other →
          other = expanded) ∧
        resolve natTable false "opt <t>".toList = .ok expanded.render :=
  ⟨plain_option, plainTable_natTable, fun leaf _ => acyclic_natTable leaf,
    resolve_eq_expansion plain_option plainTable_natTable fun leaf _ => acyclic_natTable leaf⟩

/-- A declared name inside a function type stays: the type is kept as it is written, although the
canonical text with the name replaced is another. -/
theorem resolve_function :
    Plain "func (t) -> ()".toList (functionTree "t".toList) ∧ PlainTable natTable ∧
      (∀ leaf, Acyclic natTable leaf) ∧
      (functionTree "nat".toList).yield.map Token.spelt =
        (functionTree "t".toList).yield.map (fun token =>
          if token.text = "t".toList then (.identifier, "nat".toList) else token.spelt) ∧
      (functionTree "nat".toList).record.text = "func (nat) -> ()".toList ∧
      resolve natTable false "func (t) -> ()".toList = .ok "func (t) -> ()".toList ∧
      resolve natTable false "func (t) -> ()".toList ≠ .ok (functionTree "nat".toList).record.text := by
  have outline : (functionTree "t".toList).outline "func (t) -> ()".toList =
      .leaf "func (t) -> ()".toList := rfl
  have kept : resolve natTable false "func (t) -> ()".toList = .ok "func (t) -> ()".toList := by
    rw [resolve, expand, outline_of_plain plain_function, outline, Outline.substitute, expandLeaf]
    rfl
  have canonical : (functionTree "nat".toList).record.text = "func (nat) -> ()".toList := rfl
  refine ⟨plain_function, plainTable_natTable, acyclic_natTable, by decide, canonical, kept, ?_⟩
  rw [kept, canonical]
  decide

end Candid.Alias
