import Candid.Proofs.Fragment.Nesting
import Candid.Proofs.Fragment.Plain
import Candid.Proofs.Fragment.Row
import Mathlib.Data.List.Forall2

/-!
# Outlines of plain type expressions

The outline that is read from the text of a plain type expression, level by level, is the outline of
its tree.
-/

set_option autoImplicit false

namespace Candid.Idl

variable {source : Text} {row : List Lexeme} {tokens others : List Token} {token : Token}

theorem Covers.trim_ne_nil (covers : Covers source row (token :: others)) (clean : Clean source) :
    (spelling row).trim ≠ [] := by
  obtain ⟨rest, shape, form, _, _⟩ := covers.trimmed_cons clean
  obtain ⟨⟨c, tail, spelt, _⟩, _⟩ := form.solid
  rw [covers.trim_spelling clean, shape, spelling_cons, spelt]
  simp

theorem Covers.trim_nil (covers : Covers source row []) (clean : Clean source) :
    (spelling row).trim = [] := by
  rw [covers.trim_spelling clean]
  by_cases none : trimmed row = []
  · rw [none]
    rfl
  · obtain ⟨⟨kind, text, rest, shape⟩, _⟩ := ends_of_trimmed (covers.sound clean) none
    have layout := covers.of_trimmed.layout clean ⟨.token kind, text⟩ (by simp [shape])
    cases layout

theorem Covers.trim_single (covers : Covers source row [token]) (clean : Clean source) :
    (spelling row).trim = token.text := by
  rw [covers.trim_spelling clean, covers.trimmed_single clean]
  simp

/-- The label of a member is one token. -/
theorem exists_label (label : Derivation (.nonterminal .label)) :
    ∃ token : Token, label.yield = [token] ∧ ∃ form : LabelForm, token.kind = form.kind := by
  obtain ⟨form, token, fits, rfl⟩ := label.exists_labelLeaf
  exact ⟨token, rfl, form, fits⟩

theorem exists_name {type : Derivation (.nonterminal .datatype)} (one : type.yield.length = 1) :
    ∃ (token : Token) (fits : token.kind = .identifier),
      type = .node .typeName (.cons (.leaf token fits) .nil) := by
  cases type with
  | node production children =>
      have opening (tree : Derivation (.nonterminal .datatype)) : tree.yield.length ≠ 0 := by
        obtain ⟨_, _, shape, _⟩ := tree.opens
        simp [shape]
      cases production with
      | typeName =>
          rcases children with _ | ⟨⟨token, fits⟩, ⟨⟩⟩
          exact ⟨token, fits, rfl⟩
      | wrapped wrapper =>
          rcases children with _ | ⟨⟨_, _⟩, _ | ⟨inner, ⟨⟩⟩⟩
          have empty : inner.yield = [] := by simpa using one
          exact absurd (congrArg List.length empty) (opening inner)
      | angled wrapper =>
          rcases children with _ | ⟨⟨_, _⟩, _ | ⟨⟨_, _⟩, _ | ⟨_, _ | ⟨⟨_, _⟩, ⟨⟩⟩⟩⟩⟩
          simp at one
      | compound compound =>
          rcases children with _ | ⟨⟨_, _⟩, _ | ⟨⟨_, _⟩, _ | ⟨_, _ | ⟨⟨_, _⟩, ⟨⟩⟩⟩⟩⟩
          simp at one
      | funcType =>
          rcases children with _ | ⟨⟨_, _⟩, _ | ⟨signature, ⟨⟩⟩⟩
          obtain ⟨_, _, shape, _⟩ := signature.yield_signature
          simp [shape] at one
      | serviceType =>
          rcases children with _ | ⟨⟨_, _⟩, _ | ⟨_ | ⟨production, body⟩, ⟨⟩⟩⟩
          cases production
          rcases body with _ | ⟨⟨_, _⟩, _⟩
          simp at one

/-- A type leaves no bracket open, and its separators stand inside brackets. -/
theorem closed_of_datatype {separator : Char} {mark : TokenKind}
    (separates : Separates separator mark) (type : Derivation (.nonterminal .datatype)) :
    Closed mark (type.yield.map (·.kind)) := by
  have either : mark = .semicolon ∨ mark = .colon := by cases separates <;> simp
  exact type.balanced either rfl outermost ⟨Int.le_refl 0, Int.le_refl 0, Int.le_refl 0⟩
    (by simp [Nonterminal.isBare])

theorem closed_of_label (mark : TokenKind) (other : ∀ form : LabelForm, form.kind ≠ mark)
    (label : Derivation (.nonterminal .label)) : Closed mark (label.yield.map (·.kind)) := by
  obtain ⟨token, single, form, fits⟩ := exists_label label
  rw [single, List.map_cons, fits]
  refine ⟨?_, fun same => absurd same (other form), trivial⟩
  cases form <;> rfl

/-- A member leaves no bracket open, and its semicolons stand inside brackets. -/
theorem closed_of_member (member : Derivation (.nonterminal (.member .semicolon))) :
    Closed .semicolon (member.yield.map (·.kind)) := by
  cases member with
  | node production children =>
      cases production with
      | labelledMember =>
          obtain _ | ⟨label, _ | ⟨⟨colon, fits⟩, _ | ⟨type, ⟨⟩⟩⟩⟩ := children
          have front := closed_of_label .semicolon (by rintro (_ | _ | _) <;> decide) label
          have middle : Closed .semicolon [colon.kind] := by
            rw [fits]
            exact ⟨rfl, by simp [Quiet]⟩
          have behind := closed_of_datatype .semicolon type
          simpa using front.append (middle.append behind)
      | bareMember =>
          obtain _ | ⟨type, ⟨⟩⟩ := children
          simpa using closed_of_datatype .semicolon type

/-- The parts of a body are the members of the list, also if a semicolon ends it. -/
theorem splitTopLevel_members (clean : Clean source) {ending : List Token}
    (ended : ending = [] ∨ ∃ token : Token, ending = [token] ∧ token.kind = .semicolon)
    (items : List (Derivation.FurtherMember .semicolon))
    (first : Derivation (.nonterminal (.member .semicolon))) (row : List Lexeme)
    (covers : Covers source row
      (first.yield ++ (items.flatMap Derivation.furtherYield ++ ending))) :
    ∃ rows, List.Forall₂ (fun member row => Covers source row (Derivation.yield member))
        (first :: items.map (·.2)) rows ∧
      splitTopLevel ';' (spelling row) = rows.map fun row => (spelling row).trim := by
  have part {row : List Lexeme} {member : Derivation (.nonterminal (.member .semicolon))}
      (covers : Covers source row member.yield) :
      [(spelling row).trim].filter (!·.isEmpty) = [(spelling row).trim] := by
    obtain ⟨token, others, shape, _⟩ := member.opens
    rw [shape] at covers
    simp [covers.trim_ne_nil clean]
  have level {row : List Lexeme} {member : Derivation (.nonterminal (.member .semicolon))}
      (covers : Covers source row member.yield) : Level ';' outermost (spelling row) :=
    covers.level_of_closed clean .semicolon (closed_of_member member)
  have spelt {token : Token} (form : Form token.kind token.text)
      (kind : token.kind = .semicolon) : token.text = [';'] := by
    rw [kind] at form
    exact form.of_punctuation rfl
  induction items generalizing first row with
  | nil =>
      rcases ended with rfl | ⟨token, rfl, kind⟩
      · have covers : Covers source row first.yield := by simpa using covers
        refine ⟨[row], .cons covers .nil, ?_⟩
        rw [splitTopLevel_of_level (level covers), part covers]
        rfl
      · have text := spelt (covers.form clean token (by simp)) kind
        obtain ⟨front, back, rfl, member, blank⟩ := covers.cut
        refine ⟨[front], .cons member .nil, ?_⟩
        have none : splitTopLevel ';' (spelling back) = [] := by
          have level := blank.level_of_closed clean .semicolon ⟨rfl, trivial⟩
          rw [splitTopLevel_of_level level, blank.trim_nil clean]
          rfl
        rw [spelling_append, spelling_cons, text, List.singleton_append,
          splitTopLevel_separator .semicolon (level member), part member,
          none]
        rfl
  | cons item items ih =>
      match item with
      | (.leaf token kind, second) =>
          have shape : first.yield ++ ((((.leaf token kind, second) :: items).flatMap
                Derivation.furtherYield) ++ ending) =
              first.yield ++ token :: (second.yield ++
                (items.flatMap Derivation.furtherYield ++ ending)) := by
            simp [Derivation.furtherYield]
          rw [shape] at covers
          have text := spelt (covers.form clean token (by simp)) kind
          obtain ⟨front, back, rfl, member, further⟩ := covers.cut
          obtain ⟨rows, each, parts⟩ := ih second back further
          refine ⟨front :: rows, .cons member each, ?_⟩
          rw [spelling_append, spelling_cons, text, List.singleton_append,
            splitTopLevel_separator .semicolon (level member), part member, parts]
          rfl

def fieldOutline (position : Nat) (part : Text) : Text × Outline :=
  ((FieldText.ofPart position part).name, Outline.ofText (FieldText.ofPart position part).type)

def caseOutline (part : Text) : Text × Option Outline :=
  ((CaseText.ofPart part).name, (CaseText.ofPart part).type.map Outline.ofText)

/-- What is read from the text of a plain type, member or body is the outline of its tree. -/
def Derivation.Outlined (source : Text) : {symbol : Symbol} → Derivation symbol → Prop
  | .nonterminal .datatype, type => type.plain = true → ∀ row, Covers source row type.yield →
      Outline.ofText (spelling row) = type.outline source
  | .nonterminal (.member .semicolon), member => ∀ row, Covers source row member.yield →
      (member.plain.field = true → ∀ position,
        fieldOutline position (spelling row).trim = (member.outline source).field position) ∧
      (member.plain.case = true →
        caseOutline (spelling row).trim = (member.outline source).case)
  | .nonterminal (.members .semicolon), members => ∀ row, Covers source row members.yield →
      (members.plain.field = true → (splitTopLevel ';' (spelling row)).mapIdx fieldOutline =
        (members.outline source).mapIdx MemberOutline.field) ∧
      (members.plain.case = true → (splitTopLevel ';' (spelling row)).map caseOutline =
        (members.outline source).map MemberOutline.case)
  | _, _ => True

theorem fieldOutline_of_none {part : Text} (none : partitionTopLevel? ':' part = none)
    (position : Nat) :
    fieldOutline position part = (Numeral.ofNat position, Outline.ofText part) := by
  simp [fieldOutline, FieldText.ofPart, none]

theorem fieldOutline_of_some {part label type : Text}
    (parts : partitionTopLevel? ':' part = some (label, type)) (solid : label ≠ [])
    (position : Nat) :
    fieldOutline position part = (label.unquoted, Outline.ofText type) := by
  simp [fieldOutline, FieldText.ofPart, parts, solid]

theorem caseOutline_of_none {part : Text} (none : partitionTopLevel? ':' part = none) :
    caseOutline part = (part.unquoted, Option.none) := by
  simp [caseOutline, CaseText.ofPart, none]

theorem caseOutline_of_some {part label type : Text}
    (parts : partitionTopLevel? ':' part = some (label, type)) (solid : type ≠ []) :
    caseOutline part = (label.unquoted, some (Outline.ofText type)) := by
  simp [caseOutline, CaseText.ofPart, parts, solid]

theorem unquoted_of_identifier {text : Text} (form : Form .identifier text) :
    text.unquoted = text := by
  obtain ⟨c, tail, rfl, start, _⟩ := form.of_word rfl
  have other : c ≠ '"' := (front_of_isNameStart start).2.2.1
  simp [Text.unquoted, Text.isQuoted, other]

theorem map_recordFields {expression body : Text} (found : bracedBody? expression = some body) :
    (recordFields expression).map (fun field => (field.name, Outline.ofText field.type)) =
      (splitTopLevel ';' body).mapIdx fieldOutline := by
  simp only [recordFields, memberParts, found]
  refine List.ext_getElem (by simp) fun position _ _ => ?_
  simp [fieldOutline]

theorem map_variantCases {expression body : Text} (found : bracedBody? expression = some body) :
    (variantCases expression).map (fun item => (item.name, item.type.map Outline.ofText)) =
      (splitTopLevel ';' body).map caseOutline := by
  simp only [variantCases, memberParts, found, List.map_map]
  rfl

theorem ofText_of_wrapper {wrapper : Wrapper} {inner : Text}
    (leads : leadingWord inner.trim = wrapper.word.text) :
    Outline.ofText inner =
      wrapper.outline (Outline.ofText (innerType wrapper.word.text inner.trim)) := by
  cases wrapper with
  | opt => exact Outline.ofText_of_opt leads
  | vec => exact Outline.ofText_of_vec leads

section Productions

variable (clean : Clean source)

include clean

theorem outlined_typeName (children : Derivations [.terminal .identifier]) :
    Derivation.Outlined source (.node .typeName children) := by
  intro plain row covers
  match children with
  | .cons (.leaf token fits) .nil =>
      have covers : Covers source row [token] := covers
      obtain ⟨_, _, leads, _⟩ := covers.leadingWord clean (by rw [fits]; rfl)
      have other : token.text.lowerLatin ∉ structuredWords := by
        have plain : isPlainName token.text = true := plain
        simpa [isPlainName] using plain
      rw [Outline.ofText_of_leaf (leads ▸ other), covers.trim_single clean]
      rfl

theorem outlined_wrapped {wrapper : Wrapper}
    {children : Derivations [.word wrapper.word, .nonterminal .datatype]}
    (outlined : children.All (Derivation.Listed (Derivation.Outlined source))) :
    Derivation.Outlined source (.node (.wrapped wrapper) children) := by
  intro plain row covers
  match children, outlined with
  | .cons (.leaf token fits) (.cons type .nil), .cons _ (.cons inner .nil) =>
      have covers : Covers source row (token :: type.yield) := by simpa using covers
      obtain ⟨rest, leads, wrapped, further⟩ := covers.innerType clean fits
      rw [ofText_of_wrapper leads, wrapped, further.withoutAngles_of_opening clean type.opens,
        Outline.ofText_trim, inner plain rest further]
      rfl

theorem outlined_angled {wrapper : Wrapper}
    {children : Derivations [.word wrapper.word, .terminal .leftAngle, .nonterminal .datatype,
      .terminal .rightAngle]}
    (outlined : children.All (Derivation.Listed (Derivation.Outlined source))) :
    Derivation.Outlined source (.node (.angled wrapper) children) := by
  intro plain row covers
  match children, outlined with
  | .cons (.leaf token fits) (.cons (.leaf left opens) (.cons type (.cons (.leaf right closes)
      .nil))), .cons _ (.cons _ (.cons inner _)) =>
      have covers : Covers source row (token :: left :: (type.yield ++ [right])) := by
        simpa using covers
      obtain ⟨rest, leads, wrapped, further⟩ := covers.innerType clean fits
      obtain ⟨middle, bare, between⟩ := further.withoutAngles_of_angles clean opens closes
      rw [ofText_of_wrapper leads, wrapped, bare, Outline.ofText_trim, inner plain middle between]
      rfl

theorem outlined_compound {compound : Compound}
    {children : Derivations [.word compound.word, .terminal .leftBrace,
      .nonterminal (.members .semicolon), .terminal .rightBrace]}
    (outlined : children.All (Derivation.Listed (Derivation.Outlined source))) :
    Derivation.Outlined source (.node (.compound compound) children) := by
  intro plain row covers
  match children, outlined with
  | .cons (.leaf token fits) (.cons (.leaf left opens) (.cons members (.cons (.leaf right closes)
      .nil))), .cons _ (.cons _ (.cons inner _)) =>
      have covers : Covers source row (token :: left :: (members.yield ++ [right])) := by
        simpa using covers
      obtain ⟨body, leads, found, between⟩ := covers.bracedBody clean fits opens closes
      obtain ⟨fields, cases⟩ := inner body between
      cases compound with
      | record =>
          rw [Outline.ofText_of_record leads, map_recordFields found, fields plain]
          rfl
      | variant =>
          rw [Outline.ofText_of_variant leads, map_variantCases found, cases plain]
          rfl

/-- A type without structure of its own is a leaf with the text it is written in. -/
theorem ofText_of_written (covers : Covers source row (token :: others))
    (word : token.kind.isWord = true) (other : token.text.lowerLatin ∉ structuredWords) :
    Outline.ofText (spelling row) = .leaf (written source (token :: others)) := by
  obtain ⟨_, _, leads, _⟩ := covers.leadingWord clean word
  rw [Outline.ofText_of_leaf (leads ▸ other), covers.trim_spelling clean,
    covers.written_eq clean (by simp)]

theorem outlined_funcType (children : Derivations [.word .funcWord, .nonterminal .signature]) :
    Derivation.Outlined source (.node .funcType children) := by
  intro _ row covers
  match children with
  | .cons (.leaf token fits) (.cons signature .nil) =>
      have covers : Covers source row (token :: (signature.yield ++ [])) := covers
      have form := covers.form clean token (by simp)
      rw [fits] at form
      refine ofText_of_written clean covers (by rw [fits]; rfl) ?_
      rw [form.of_reserved]
      decide

theorem outlined_serviceType
    (children : Derivations [.word .serviceWord, .nonterminal .serviceBody]) :
    Derivation.Outlined source (.node .serviceType children) := by
  intro _ row covers
  match children with
  | .cons (.leaf token fits) (.cons body .nil) =>
      have covers : Covers source row (token :: (body.yield ++ [])) := covers
      have form := covers.form clean token (by simp)
      rw [fits] at form
      refine ofText_of_written clean covers (by rw [fits]; rfl) ?_
      rw [form.of_reserved]
      decide

/-- A labelled member is parted at its colon. -/
theorem partition_labelledMember {form : LabelForm} {label colon : Token}
    (labelled : label.kind = form.kind) (fits : colon.kind = .colon) {row : List Lexeme}
    (covers : Covers source row (label :: colon :: others)) :
    ∃ back, partitionTopLevel? ':' (spelling row).trim = some (label.text, (spelling back).trim) ∧
      label.text ≠ [] ∧ Covers source back others := by
  have covers : Covers source row ([label] ++ colon :: others) := covers
  have spelt : colon.text = [':'] := by
    have form := covers.form clean colon (by simp)
    rw [fits] at form
    exact form.of_punctuation rfl
  have solid : label.text ≠ [] := by
    obtain ⟨⟨c, tail, same, _⟩, _⟩ := (covers.form clean label (by simp)).solid
    simp [same]
  obtain ⟨front, back, shape, before, behind⟩ := covers.of_trimmed.cut
  have closed : Closed .colon ([label].map (·.kind)) := by
    rw [List.map_singleton, labelled]
    refine ⟨?_, fun same => ?_, trivial⟩ <;> cases form <;> first | rfl | cases same
  refine ⟨back, ?_, solid, behind⟩
  rw [covers.trim_spelling clean, shape, spelling_append, spelling_cons, spelt,
    ← before.trim_single clean]
  exact partitionTopLevel_separator .colon (before.level_of_closed clean .colon closed) _

/-- A member without a label is not parted. -/
theorem partition_bareMember {type : Derivation (.nonterminal .datatype)} {row : List Lexeme}
    (covers : Covers source row type.yield) :
    partitionTopLevel? ':' (spelling row).trim = none := by
  rw [covers.trim_spelling clean]
  exact partitionTopLevel_of_level
    (covers.of_trimmed.level_of_closed clean .colon (closed_of_datatype .colon type))

theorem outlined_labelledMember
    {children : Derivations [.nonterminal .label, .terminal .colon, .nonterminal .datatype]}
    (outlined : children.All (Derivation.Listed (Derivation.Outlined source))) :
    Derivation.Outlined source (.node (.labelledMember .semicolon) children) := by
  intro row covers
  match children, outlined with
  | .cons label (.cons (.leaf colon fits) (.cons type .nil)), .cons _ (.cons _ (.cons inner _)) =>
      obtain ⟨form, token, labelled, rfl⟩ := label.exists_labelLeaf
      have covers : Covers source row (token :: colon :: type.yield) := by
        simpa using covers
      obtain ⟨back, parts, solid, behind⟩ := partition_labelledMember clean labelled fits covers
      have payload (plain : (isPlainLabel token && type.plain) = true) :
          Outline.ofText (spelling back).trim = type.outline source := by
        rw [Outline.ofText_trim]
        exact inner (Bool.and_eq_true_iff.mp plain).2 back behind
      constructor
      · intro plain position
        rw [fieldOutline_of_some parts solid, payload plain]
        rfl
      · intro plain
        obtain ⟨first, others, opening, _⟩ := type.opens
        rw [opening] at behind
        rw [caseOutline_of_some parts (behind.trim_ne_nil clean), payload plain]
        rfl

theorem outlined_bareMember {children : Derivations [.nonterminal .datatype]}
    (outlined : children.All (Derivation.Listed (Derivation.Outlined source))) :
    Derivation.Outlined source (.node (.bareMember .semicolon) children) := by
  intro row covers
  match children, outlined with
  | .cons type .nil, .cons inner _ =>
      have covers : Covers source row type.yield := by simpa using covers
      have none := partition_bareMember clean covers
      constructor
      · intro plain position
        rw [fieldOutline_of_none none, Outline.ofText_trim, inner plain row covers]
        rfl
      · intro plain
        have one : type.yield.length = 1 := by
          have plain : ((type.yield ++ []).length == 1) = true := plain
          simpa using plain
        obtain ⟨token, fits, rfl⟩ := exists_name one
        have covers : Covers source row [token] := covers
        have form := covers.form clean token (by simp)
        rw [fits] at form
        rw [caseOutline_of_none none, covers.trim_single clean, unquoted_of_identifier form]
        rfl

theorem outlined_memberList {ending : List Token}
    (ended : ending = [] ∨ ∃ token : Token, ending = [token] ∧ token.kind = .semicolon)
    {list : Derivation (.nonterminal (.memberList .semicolon))}
    (outlined : list.Listed (Derivation.Outlined source)) {row : List Lexeme}
    (covers : Covers source row (list.yield ++ ending)) :
    (list.plain.field = true → (splitTopLevel ';' (spelling row)).mapIdx fieldOutline =
        (list.outline source).mapIdx MemberOutline.field) ∧
      (list.plain.case = true → (splitTopLevel ';' (spelling row)).map caseOutline =
        (list.outline source).map MemberOutline.case) := by
  obtain ⟨first, items, rfl, head, each⟩ := outlined
  rw [Derivation.yield_memberList, List.append_assoc] at covers
  obtain ⟨rows, matched, parts⟩ := splitTopLevel_members clean ended items first row covers
  obtain ⟨size, covered⟩ := List.forall₂_iff_get.mp matched
  have member : ∀ item ∈ first :: items.map (·.2), Derivation.Outlined source item := by
    intro item inside
    rcases List.mem_cons.mp inside with rfl | later
    · exact head
    · obtain ⟨further, among, rfl⟩ := List.mem_map.mp later
      exact each further among
  obtain ⟨fields, cases⟩ := Derivation.plain_memberList first items
  have here (position : Nat) (inList : position < (first :: items.map (·.2)).length)
      (inRows : position < rows.length) :
      let item := (first :: items.map (·.2))[position]
      let part := (spelling rows[position]).trim
      (item.plain.field = true →
          fieldOutline position part = (item.outline source).field position) ∧
        (item.plain.case = true → caseOutline part = (item.outline source).case) := by
    obtain ⟨field, case⟩ := member _ (List.getElem_mem inList) rows[position]
      (covered position inList inRows)
    exact ⟨fun plain => field plain position, case⟩
  rw [parts, Derivation.outline_memberList]
  constructor
  · intro plain
    refine List.ext_getElem (by simp [← size]) fun position inRows inList => ?_
    simp only [List.getElem_mapIdx, List.getElem_map]
    exact (here position (by simpa using inList) (by simpa using inRows)).1
      (fields.mp plain _ (List.getElem_mem _))
  · intro plain
    refine List.ext_getElem (by simp [← size]) fun position inRows inList => ?_
    simp only [List.getElem_map]
    exact (here position (by simpa using inList) (by simpa using inRows)).2
      (cases.mp plain _ (List.getElem_mem _))

theorem outlined_membersBare
    {children : Derivations [.nonterminal (.memberList .semicolon)]}
    (outlined : children.All (Derivation.Listed (Derivation.Outlined source))) :
    Derivation.Outlined source (.node (.membersBare .semicolon) children) := by
  intro row covers
  match children, outlined with
  | .cons list .nil, .cons listed _ =>
      exact outlined_memberList clean (.inl rfl) listed covers

theorem outlined_membersEnded
    {children : Derivations [.nonterminal (.memberList .semicolon), .terminal .semicolon]}
    (outlined : children.All (Derivation.Listed (Derivation.Outlined source))) :
    Derivation.Outlined source (.node (.membersEnded .semicolon) children) := by
  intro row covers
  match children, outlined with
  | .cons list (.cons (.leaf token fits) .nil), .cons listed _ =>
      exact outlined_memberList clean (.inr ⟨token, rfl, fits⟩) listed covers

theorem outlined_noMembers (children : Derivations [.nonterminal .empty]) :
    Derivation.Outlined source (.node (.noMembers .semicolon) children) := by
  intro row covers
  match children with
  | .cons tree .nil =>
      cases tree.eq_empty
      have covers : Covers source row [] := covers
      have none : splitTopLevel ';' (spelling row) = [] := by
        rw [splitTopLevel_of_level (covers.level_of_closed clean .semicolon ⟨rfl, trivial⟩),
          covers.trim_nil clean]
        rfl
      rw [none]
      exact ⟨fun _ => rfl, fun _ => rfl⟩

/-- Every plain type below a clean source is read as the outline of its tree. -/
theorem listed_outlined {symbol : Symbol} (tree : Derivation symbol) :
    tree.Listed (Derivation.Outlined source) := by
  refine Derivation.listed_of_step (fun _ _ => trivial)
    (fun production children _ listed => ?_) tree
  cases production with
  | typeName => exact outlined_typeName clean children
  | wrapped => exact outlined_wrapped clean listed
  | angled => exact outlined_angled clean listed
  | compound => exact outlined_compound clean listed
  | funcType => exact outlined_funcType clean children
  | serviceType => exact outlined_serviceType clean children
  | labelledMember separator =>
      cases separator with
      | comma => trivial
      | semicolon => exact outlined_labelledMember clean listed
  | bareMember separator =>
      cases separator with
      | comma => trivial
      | semicolon => exact outlined_bareMember clean listed
  | membersBare separator =>
      cases separator with
      | comma => trivial
      | semicolon => exact outlined_membersBare clean listed
  | membersEnded separator =>
      cases separator with
      | comma => trivial
      | semicolon => exact outlined_membersEnded clean listed
  | noMembers separator =>
      cases separator with
      | comma => trivial
      | semicolon => exact outlined_noMembers clean children
  | _ => trivial

end Productions

/-- The lexemes of a text without illegal characters cover its tokens. -/
theorem covers_of_derives {text : Text} {tokens : List Token}
    (derives : tokenStream text = ⟨tokens, none⟩) : Covers text (lexemes text) tokens := by
  have legal : ∀ lexeme ∈ lexemes text, lexeme.kind ≠ .illegal := by
    have placed : TokenStream.ofPlaced (placed 1 0 (lexemes text)) = ⟨tokens, none⟩ := derives
    exact legal_of_stop (stand_lexemes text) (congrArg TokenStream.stop placed)
  have same : tokensOf 1 0 (lexemes text) = tokens := by
    have both := (tokenStream_of_legal legal).symm.trans derives
    exact congrArg TokenStream.tokens both
  have covers := covers_lexemes text
  rwa [same] at covers

theorem Plain.covers {text : Text} {type : Derivation (.nonterminal .datatype)}
    (plain : Plain text type) : Covers text (lexemes text) type.yield :=
  covers_of_derives plain.derives

/-- The outline that is read from a plain type expression is that of its tree. -/
theorem outline_of_plain {text : Text} {type : Derivation (.nonterminal .datatype)}
    (plain : Plain text type) : Outline.ofText text = type.outline text := by
  have outlined := listed_outlined plain.clean type plain.plain (lexemes text) plain.covers
  rwa [spelling_lexemes] at outlined

end Candid.Idl
