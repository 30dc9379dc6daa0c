import Candid.Proofs.Fragment.Legible

/-!
# Outlines of plain type expressions

The outline of the tree of a plain type expression is legible: its labels are plain, and its leaves
are texts of whole types.
-/

set_option autoImplicit false

namespace Candid

open Idl

theorem isLegibleLabel_of_isNamePart {name : Text} (some : name ≠ [])
    (parts : ∀ c ∈ name, isNamePart c = true) : IsLegibleLabel name where
  solid := by
    constructor
    · obtain ⟨c, rest, rfl⟩ := List.exists_cons_of_ne_nil some
      exact ⟨c, rest, rfl, isBlank_of_isNamePart (parts c (by simp))⟩
    · obtain none | ⟨front, c, rfl⟩ := List.eq_nil_or_concat' name
      · exact absurd none some
      · exact ⟨front, c, rfl, isBlank_of_isNamePart (parts c (by simp))⟩
  ordinary c member := Nesting.isOrdinary_of_isNamePart (parts c member)

theorem isLegibleLabel_ofNat (number : Nat) : IsLegibleLabel (Numeral.ofNat number) := by
  refine isLegibleLabel_of_isNamePart Nat.toDigits_ne_nil fun c member => ?_
  have digit := Nat.isDigit_of_mem_toDigits (by decide) (by decide) member
  simp [isNamePart, Char.isAlphanum, digit]

namespace Idl

/-- The reader of nested brackets passes over names and numbers. -/
theorem Form.isOrdinary {kind : TokenKind} {text : Text} (form : Form kind text)
    (flat : kind = .identifier ∨ kind = .number) :
    ∀ c ∈ text, Nesting.isOrdinary c = true := by
  cases form with
  | quoted | arrow => simp at flat
  | @number c tail digit digits =>
      exact List.forall_mem_cons.mpr ⟨Nesting.isOrdinary_of_isDigit digit,
        fun d member => Nesting.isOrdinary_of_isDigit (digits d member)⟩
  | @word c tail start parts =>
      exact List.forall_mem_cons.mpr
        ⟨Nesting.isOrdinary_of_isNamePart (isNamePart_of_isNameStart start),
          fun d member => Nesting.isOrdinary_of_isNamePart (parts d member)⟩
  | mark punctuation =>
      unfold Lexeme.punctuation? at punctuation
      split at punctuation <;> cases punctuation <;> simp at flat

/-- Without its quotes a plain label is legible. -/
theorem isLegibleLabel_unquoted {token : Token} {form : LabelForm} (fits : token.kind = form.kind)
    (spelt : Form token.kind token.text) (plain : isPlainLabel token = true) :
    IsLegibleLabel token.text.unquoted := by
  have bare (flat : token.kind = .identifier ∨ token.kind = .number) :
      IsLegibleLabel token.text.unquoted := by
    have legible : IsLegibleLabel token.text :=
      ⟨⟨spelt.solid.1, spelt.solid.2⟩, spelt.isOrdinary flat⟩
    rwa [legible.isLabel.unquoted]
  cases form with
  | identifier => exact bare (.inl fits)
  | number => exact bare (.inr fits)
  | text =>
      rw [isPlainLabel, fits] at plain
      simp only [LabelForm.kind, Bool.and_eq_true, Bool.not_eq_true', List.isEmpty_eq_false_iff,
        beq_iff_eq, List.all_eq_true] at plain
      obtain ⟨⟨some, trimmed⟩, unmarked⟩ := plain
      refine ⟨Text.solid_of_trim trimmed some, fun c member => ?_⟩
      have free := unmarked c member
      simp [labelMarks] at free
      simp [Nesting.isOrdinary, Nesting.isStructural, free]

end Idl

namespace Idl

variable {source : Text} {row : List Lexeme}

/-- The text of a type without its outer blanks is read as a type wherever a type may stand. -/
theorem Covers.isTypeText {type : Derivation (.nonterminal .datatype)}
    (covers : Covers source row type.yield) (clean : Clean source) :
    IsTypeText (spelling row).trim where
  solid := by
    obtain ⟨token, others, opening, _⟩ := type.opens
    rw [opening] at covers
    exact Text.solid_of_trim (Text.trim_trim _) (covers.trim_ne_nil clean)
  unbracketed := covers.unbracketed clean type.opens
  level depth counting := by
    obtain ⟨back, quiet⟩ := type.balanced (.inl rfl) rfl depth counting (by simp [Nonterminal.isBare])
    rw [covers.trim_spelling clean]
    exact covers.of_trimmed.level clean .semicolon back quiet

structure MemberOutline.LegibleField (member : MemberOutline) : Prop where
  label : ∀ label ∈ member.label, IsLegibleLabel label
  type : member.type.Legible

structure MemberOutline.LegibleCase (member : MemberOutline) : Prop where
  name : IsLegibleLabel member.case.1
  payload : ∀ type ∈ member.case.2, type.Legible

def Derivation.Legible (source : Text) : {symbol : Symbol} → Derivation symbol → Prop
  | .nonterminal .datatype, type => type.plain = true → ∀ row, Covers source row type.yield →
      (type.outline source).Legible
  | .nonterminal (.member .semicolon), member => ∀ row, Covers source row member.yield →
      (member.plain.field = true → (member.outline source).LegibleField) ∧
        (member.plain.case = true → (member.outline source).LegibleCase)
  | .nonterminal (.members .semicolon), members => ∀ row, Covers source row members.yield →
      (members.plain.field = true → ∀ member ∈ members.outline source, member.LegibleField) ∧
        (members.plain.case = true → ∀ member ∈ members.outline source, member.LegibleCase)
  | _, _ => True

theorem legible_wrapped {wrapper : Wrapper}
    {children : Derivations [.word wrapper.word, .nonterminal .datatype]}
    (each : children.All (Derivation.Listed (Derivation.Legible source))) :
    Derivation.Legible source (.node (.wrapped wrapper) children) := by
  intro plain row covers
  match children, each with
  | .cons (.leaf token fits) (.cons type .nil), .cons _ (.cons inner .nil) =>
      have covers : Covers source row ([] ++ token :: type.yield) := by simpa using covers
      obtain ⟨_, rest, _, _, further⟩ := covers.cut
      have legible := inner plain rest further
      cases wrapper with
      | opt => exact .opt legible
      | vec => exact .vec legible

theorem legible_angled {wrapper : Wrapper}
    {children : Derivations [.word wrapper.word, .terminal .leftAngle, .nonterminal .datatype,
      .terminal .rightAngle]}
    (each : children.All (Derivation.Listed (Derivation.Legible source))) :
    Derivation.Legible source (.node (.angled wrapper) children) := by
  intro plain row covers
  match children, each with
  | .cons (.leaf token fits) (.cons (.leaf left opens) (.cons type (.cons (.leaf right closes)
      .nil))), .cons _ (.cons _ (.cons inner _)) =>
      have covers : Covers source row ([token] ++ left :: (type.yield ++ [right])) := by
        simpa using covers
      obtain ⟨_, rest, _, _, further⟩ := covers.cut
      obtain ⟨middle, _, _, between, _⟩ := further.cut
      have legible := inner plain middle between
      cases wrapper with
      | opt => exact .opt legible
      | vec => exact .vec legible

theorem legible_compound {compound : Compound}
    {children : Derivations [.word compound.word, .terminal .leftBrace,
      .nonterminal (.members .semicolon), .terminal .rightBrace]}
    (each : children.All (Derivation.Listed (Derivation.Legible source))) :
    Derivation.Legible source (.node (.compound compound) children) := by
  intro plain row covers
  match children, each with
  | .cons (.leaf token fits) (.cons (.leaf left opens) (.cons members (.cons (.leaf right closes)
      .nil))), .cons _ (.cons _ (.cons inner _)) =>
      have covers : Covers source row ([token] ++ left :: (members.yield ++ [right])) := by
        simpa using covers
      obtain ⟨_, rest, _, _, further⟩ := covers.cut
      obtain ⟨body, _, _, between, _⟩ := further.cut
      obtain ⟨fields, cases⟩ := inner body between
      cases compound with
      | record =>
          have legible := fields plain
          have named (position : Nat) {member : MemberOutline} (legible : member.LegibleField) :
              IsLegibleLabel (member.field position).1 := by
            obtain ⟨label, type⟩ := member
            cases label with
            | none => exact isLegibleLabel_ofNat position
            | some label => exact legible.label label rfl
          refine .record ?_ ?_
          · intro field inside
            obtain ⟨position, within, rfl⟩ := List.mem_mapIdx.mp inside
            exact named position (legible _ (List.getElem_mem within))
          · intro field inside
            obtain ⟨position, within, rfl⟩ := List.mem_mapIdx.mp inside
            exact (legible _ (List.getElem_mem within)).type
      | variant =>
          have legible := cases plain
          refine .variant ?_ ?_
          · intro item inside
            obtain ⟨member, within, rfl⟩ := List.mem_map.mp inside
            exact (legible member within).name
          · intro item inside
            obtain ⟨member, within, rfl⟩ := List.mem_map.mp inside
            exact (legible member within).payload

section Productions

variable (clean : Clean source)

include clean

/-- A type without structure of its own has its text as a legible leaf. -/
theorem legible_leaf {token : Token} {others : List Token}
    {type : Derivation (.nonterminal .datatype)} (covers : Covers source row type.yield)
    (front : type.yield = token :: others) (word : token.kind.isWord = true)
    (other : token.text.lowerLatin ∉ structuredWords) :
    (Outline.leaf (spelling row).trim).Legible := by
  have legible := covers.isTypeText clean
  rw [front] at covers
  obtain ⟨_, _, leads, _⟩ := covers.leadingWord clean word
  exact .leaf legible (leads ▸ other)

theorem legible_typeName (children : Derivations [.terminal .identifier]) :
    Derivation.Legible source (.node .typeName children) := by
  intro plain row covers
  match children with
  | .cons (.leaf token fits) .nil =>
      have plain : isPlainName token.text = true := plain
      have other : token.text.lowerLatin ∉ structuredWords := by simpa [isPlainName] using plain
      have legible := legible_leaf clean covers rfl (by rw [fits]; rfl) other
      have covers : Covers source row [token] := covers
      rw [covers.trim_single clean] at legible
      exact legible

theorem legible_funcType (children : Derivations [.word .funcWord, .nonterminal .signature]) :
    Derivation.Legible source (.node .funcType children) := by
  intro _ row covers
  match children with
  | .cons (.leaf token fits) (.cons signature .nil) =>
      have form := covers.form clean token (by simp)
      rw [fits] at form
      have other : token.text.lowerLatin ∉ structuredWords := by
        rw [form.of_reserved]
        decide
      have legible := legible_leaf clean covers rfl (by rw [fits]; rfl) other
      rw [covers.trim_spelling clean, ← covers.written_eq clean (by simp)] at legible
      exact legible

theorem legible_serviceType
    (children : Derivations [.word .serviceWord, .nonterminal .serviceBody]) :
    Derivation.Legible source (.node .serviceType children) := by
  intro _ row covers
  match children with
  | .cons (.leaf token fits) (.cons body .nil) =>
      have form := covers.form clean token (by simp)
      rw [fits] at form
      have other : token.text.lowerLatin ∉ structuredWords := by
        rw [form.of_reserved]
        decide
      have legible := legible_leaf clean covers rfl (by rw [fits]; rfl) other
      rw [covers.trim_spelling clean, ← covers.written_eq clean (by simp)] at legible
      exact legible

theorem legible_labelledMember
    {children : Derivations [.nonterminal .label, .terminal .colon, .nonterminal .datatype]}
    (each : children.All (Derivation.Listed (Derivation.Legible source))) :
    Derivation.Legible source (.node (.labelledMember .semicolon) children) := by
  intro row covers
  match children, each with
  | .cons label (.cons (.leaf colon fits) (.cons type .nil)), .cons _ (.cons _ (.cons inner _)) =>
      obtain ⟨form, token, labelled, rfl⟩ := label.exists_labelLeaf
      have covers : Covers source row ([token] ++ colon :: type.yield) := by
        simpa using covers
      obtain ⟨_, back, _, _, behind⟩ := covers.cut
      have label := covers.form clean token (by simp)
      have both (plain : (isPlainLabel token && type.plain) = true) :
          IsLegibleLabel token.text.unquoted ∧ (type.outline source).Legible := by
        obtain ⟨plainLabel, plainType⟩ := Bool.and_eq_true_iff.mp plain
        exact ⟨isLegibleLabel_unquoted labelled label plainLabel, inner plainType back behind⟩
      refine ⟨fun plain => ⟨?_, (both plain).2⟩, fun plain => ⟨(both plain).1, ?_⟩⟩
      · rintro _ ⟨⟩
        exact (both plain).1
      · rintro _ ⟨⟩
        exact (both plain).2

theorem legible_bareMember {children : Derivations [.nonterminal .datatype]}
    (each : children.All (Derivation.Listed (Derivation.Legible source))) :
    Derivation.Legible source (.node (.bareMember .semicolon) children) := by
  intro row covers
  match children, each with
  | .cons type .nil, .cons inner _ =>
      have covers : Covers source row type.yield := by simpa using covers
      refine ⟨fun plain => ⟨(by rintro _ ⟨⟩), inner plain row covers⟩, fun plain => ?_⟩
      have one : type.yield.length = 1 := by
        have plain : ((type.yield ++ []).length == 1) = true := plain
        simpa using plain
      obtain ⟨token, fits, rfl⟩ := exists_name one
      have form := covers.form clean token (by simp)
      refine ⟨⟨⟨form.solid.1, form.solid.2⟩, form.isOrdinary (.inl fits)⟩, ?_⟩
      rintro _ ⟨⟩

theorem legible_memberList {ending : List Token}
    (ended : ending = [] ∨ ∃ token : Token, ending = [token] ∧ token.kind = .semicolon)
    {list : Derivation (.nonterminal (.memberList .semicolon))}
    (listed : list.Listed (Derivation.Legible source)) {row : List Lexeme}
    (covers : Covers source row (list.yield ++ ending)) :
    (list.plain.field = true → ∀ member ∈ list.outline source, member.LegibleField) ∧
      (list.plain.case = true → ∀ member ∈ list.outline source, member.LegibleCase) := by
  obtain ⟨first, items, rfl, head, each⟩ := listed
  rw [Derivation.yield_memberList, List.append_assoc] at covers
  obtain ⟨rows, matched, _⟩ := splitTopLevel_members clean ended items first row covers
  obtain ⟨size, covered⟩ := List.forall₂_iff_get.mp matched
  have legible : ∀ member ∈ first :: items.map (·.2),
      Derivation.Legible source member ∧ ∃ row, Covers source row member.yield := by
    intro member inside
    constructor
    · rcases List.mem_cons.mp inside with rfl | later
      · exact head
      · obtain ⟨item, among, rfl⟩ := List.mem_map.mp later
        exact each item among
    · obtain ⟨position, here, rfl⟩ := List.getElem_of_mem inside
      exact ⟨_, covered position here (size ▸ here)⟩
  obtain ⟨fields, cases⟩ := Derivation.plain_memberList first items
  rw [Derivation.outline_memberList]
  constructor
  · intro plain outline inside
    obtain ⟨member, among, rfl⟩ := List.mem_map.mp inside
    obtain ⟨here, row, covered⟩ := legible member among
    exact (here row covered).1 (fields.mp plain member among)
  · intro plain outline inside
    obtain ⟨member, among, rfl⟩ := List.mem_map.mp inside
    obtain ⟨here, row, covered⟩ := legible member among
    exact (here row covered).2 (cases.mp plain member among)

/-- The outline of every plain type below a clean source is legible. -/
theorem listed_legible {symbol : Symbol} (tree : Derivation symbol) :
    tree.Listed (Derivation.Legible source) := by
  refine Derivation.listed_of_step (fun _ _ => trivial)
    (fun production children _ listed => ?_) tree
  cases production with
  | typeName => exact legible_typeName clean children
  | wrapped => exact legible_wrapped listed
  | angled => exact legible_angled listed
  | compound => exact legible_compound listed
  | funcType => exact legible_funcType clean children
  | serviceType => exact legible_serviceType clean children
  | labelledMember separator =>
      cases separator with
      | comma => trivial
      | semicolon => exact legible_labelledMember clean listed
  | bareMember separator =>
      cases separator with
      | comma => trivial
      | semicolon => exact legible_bareMember clean listed
  | membersBare separator =>
      cases separator with
      | comma => trivial
      | semicolon =>
          intro row covers
          match children, listed with
          | .cons list .nil, .cons items _ => exact legible_memberList clean (.inl rfl) items covers
  | membersEnded separator =>
      cases separator with
      | comma => trivial
      | semicolon =>
          intro row covers
          match children, listed with
          | .cons list (.cons (.leaf token fits) .nil), .cons items _ =>
              exact legible_memberList clean (.inr ⟨token, rfl, fits⟩) items covers
  | noMembers separator =>
      cases separator with
      | comma => trivial
      | semicolon =>
          intro _ _
          match children with
          | .cons tree .nil =>
              cases tree.eq_empty
              exact ⟨fun _ => by rintro _ ⟨⟩, fun _ => by rintro _ ⟨⟩⟩
  | _ => trivial

end Productions

theorem legible_of_plain {text : Text} {type : Derivation (.nonterminal .datatype)}
    (plain : Plain text type) : (type.outline text).Legible :=
  listed_legible plain.clean type plain.plain (lexemes text) plain.covers

end Idl

end Candid
