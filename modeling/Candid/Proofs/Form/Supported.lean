import Candid.Proofs.Form.Keyword
import Candid.Proofs.Grammar.Written
import Candid.Proofs.Lexing.Edge

/-!
# Supported forms

A form is refused if one of its types holds a variant, function or service type at any depth, and also
if one of the names and labels of a type mentions such a word. Both are read off the text of the type,
level by level: what the outline of the text mentions is what the tokens of the tree do, in any layout
of blanks.
-/

set_option autoImplicit false

namespace Candid

namespace Idl

def namesUnsupported (tokens : List Token) : Bool :=
  tokens.any (·.text.namesUnsupported)

theorem namesUnsupported_cons (token : Token) (tokens : List Token) :
    namesUnsupported (token :: tokens) =
      (token.text.namesUnsupported || namesUnsupported tokens) :=
  List.any_cons

theorem namesUnsupported_append (tokens others : List Token) :
    namesUnsupported (tokens ++ others) = (namesUnsupported tokens || namesUnsupported others) :=
  List.any_append

/-- Marks at both ends mention nothing. -/
theorem namesUnsupported_between {left right : Token} {tokens : List Token}
    (before : left.text.namesUnsupported = false) (behind : right.text.namesUnsupported = false) :
    namesUnsupported (left :: (tokens ++ [right])) = namesUnsupported tokens := by
  simp [namesUnsupported, before, behind]

def partNamesUnsupported (part : Text) : Bool :=
  (fieldOutline 0 part).1.namesUnsupported || (fieldOutline 0 part).2.namesUnsupported

/-- The position of a part makes no difference, for a number is no word. -/
theorem partNamesUnsupported_eq (position : Nat) (part : Text) :
    partNamesUnsupported part =
      ((fieldOutline position part).1.namesUnsupported ||
        (fieldOutline position part).2.namesUnsupported) := by
  unfold partNamesUnsupported fieldOutline FieldText.ofPart
  split
  · simp only [Text.namesUnsupported_ofNat]
  · split <;> simp only [Text.namesUnsupported_ofNat]

theorem fieldsNameUnsupported_mapIdx (parts : List Text) :
    Outline.fieldsNameUnsupported (parts.mapIdx fieldOutline) = parts.any partNamesUnsupported := by
  have same : (parts.mapIdx fieldOutline).map
      (fun field => field.1.namesUnsupported || field.2.namesUnsupported) =
        parts.map partNamesUnsupported := by
    refine List.ext_getElem (by simp) fun position _ _ => ?_
    simp [partNamesUnsupported_eq position]
  have any := congrArg (List.any · id) same
  rw [Outline.fieldsNameUnsupported_eq]
  simpa [List.any_map, Function.comp_def] using any

section Name

variable {name : Text} (trimmed : name.trim = name) (leads : leadingWord name = name.lowerLatin)

include trimmed leads

/-- A name that is a keyword in whatever case has nothing behind the keyword. -/
theorem innerType_of_name : innerType name.lowerLatin name = [] := by
  have front := isPrefixOf_of_leadingWord leads
  rw [← trimmed, Text.trimStart_trim, trimmed] at front
  have size : name.lowerLatin.length = name.length := by simp [Text.lowerLatin]
  simp only [innerType, trimmed, front, ↓reduceIte]
  rw [size, List.drop_length]
  decide

omit leads in
theorem recordFields_of_name (absent : '{' ∉ name) : recordFields name = [] := by
  have none : Text.cut? '{' name = none := by
    clear trimmed
    induction name with
    | nil => rfl
    | cons c name ih =>
        rw [List.mem_cons, not_or] at absent
        simp [Text.cut?, Ne.symm absent.1, ih absent.2]
  simp [recordFields, memberParts, bracedBody?, trimmed, none]

/-- A name in another case may be read as a keyword, and yet its outline mentions what it does. -/
theorem namesUnsupported_ofText_of_name (parts : ∀ c ∈ name, isNamePart c = true) :
    (Outline.ofText name).namesUnsupported = name.namesUnsupported := by
  have named := Text.namesUnsupported_iff_of_name parts
  have inner : (Outline.ofText (innerType name.lowerLatin name)).namesUnsupported = false := by
    have none : Outline.ofText [] = .leaf [] := Outline.ofText_of_leaf (by decide)
    rw [innerType_of_name trimmed leads, none]
    rfl
  have absent : '{' ∉ name := fun member => absurd (parts _ member) (by decide)
  rw [Bool.eq_iff_iff, named, Outline.ofText_eq, trimmed, leads]
  split
  · rename_i keyword
    rw [keyword] at inner ⊢
    rw [Outline.namesUnsupported, inner]
    decide
  split
  · rename_i keyword
    rw [keyword] at inner ⊢
    rw [Outline.namesUnsupported, inner]
    decide
  split
  · rename_i keyword
    rw [keyword, recordFields_of_name trimmed absent]
    decide
  split
  · rename_i keyword
    rw [keyword]
    exact iff_of_true rfl (by decide)
  · exact named

end Name

/-- What the text of a type, member or body mentions is what its tokens do. -/
def Derivation.Searched (source : Text) : {symbol : Symbol} → Derivation symbol → Prop
  | .nonterminal .datatype, type => ∀ row, Covers source row type.yield →
      (Outline.ofText (spelling row)).namesUnsupported = namesUnsupported type.yield
  | .nonterminal (.member .semicolon), member => ∀ row, Covers source row member.yield →
      partNamesUnsupported (spelling row).trim = namesUnsupported member.yield
  | .nonterminal (.members .semicolon), members => ∀ row, Covers source row members.yield →
      (splitTopLevel ';' (spelling row)).any partNamesUnsupported = namesUnsupported members.yield
  | _, _ => True

/-- The parts that rows of lexemes spell mention what the tokens of their members do. -/
theorem names_matched {source : Text}
    {members : List (Derivation (.nonterminal (.member .semicolon)))} {rows : List (List Lexeme)}
    (matched : List.Forall₂ (fun member row => Covers source row (Derivation.yield member))
      members rows)
    (searched : ∀ member ∈ members, Derivation.Searched source member) :
    (rows.map fun row => (spelling row).trim).any partNamesUnsupported =
      members.any fun member => namesUnsupported member.yield := by
  induction matched with
  | nil => rfl
  | cons covers _ ih =>
      rw [List.map_cons, List.any_cons, List.any_cons, searched _ (by simp) _ covers,
        ih fun member inside => searched member (by simp [inside])]

theorem names_further {ending : List Token}
    (ended : ending = [] ∨ ∃ token : Token, ending = [token] ∧ token.kind = .semicolon)
    (items : List (Derivation.FurtherMember .semicolon))
    (marks : ∀ token ∈ items.flatMap Derivation.furtherYield ++ ending,
      token.kind = .semicolon → token.text.namesUnsupported = false) :
    namesUnsupported (items.flatMap Derivation.furtherYield ++ ending) =
      (items.map (·.2)).any fun member => namesUnsupported member.yield := by
  induction items with
  | nil =>
      rcases ended with rfl | ⟨token, rfl, kind⟩
      · rfl
      · simp [namesUnsupported, marks token (by simp) kind]
  | cons item items ih =>
      match item with
      | (.leaf token kind, second) =>
          have mark := marks token (by simp [Derivation.furtherYield]) kind
          have rest := ih fun token inside => marks token (by simp_all)
          have shape : ((.leaf token kind, second) :: items).flatMap Derivation.furtherYield ++ ending =
              token :: (second.yield ++ (items.flatMap Derivation.furtherYield ++ ending)) := by
            simp [Derivation.furtherYield]
          rw [shape, namesUnsupported_cons, mark, namesUnsupported_append, rest]
          rfl

section Productions

variable {source : Text} {row : List Lexeme} {token : Token} {others : List Token}
  (clean : Clean source)

include clean

theorem Covers.names_reserved {tokens : List Token} {word : Reserved}
    (covers : Covers source row tokens) (token : Token) (member : token ∈ tokens)
    (fits : token.kind = .reserved word) :
    token.text.namesUnsupported = (TokenKind.reserved word).isUnsupported := by
  have form := covers.form clean token member
  rw [fits] at form
  exact form.namesUnsupported_of_reserved

theorem Covers.names_mark {tokens : List Token} (covers : Covers source row tokens)
    (mark : Token) (c : Char) (member : mark ∈ tokens)
    (punctuation : Lexeme.punctuation? c = some mark.kind) : mark.text.namesUnsupported = false :=
  (covers.form clean mark member).namesUnsupported_of_punctuation punctuation

theorem searched_typeName (children : Derivations [.terminal .identifier]) :
    Derivation.Searched source (.node .typeName children) := by
  intro row covers
  match children with
  | .cons (.leaf token fits) .nil =>
      have covers : Covers source row [token] := covers
      obtain ⟨_, _, leads, form, _⟩ := covers.leadingWord clean (by rw [fits]; rfl)
      obtain ⟨c, tail, shape, start, tailParts, _⟩ := form.of_word (by rw [fits]; rfl)
      have whole := covers.trim_single clean
      have trimmed : token.text.trim = token.text := by rw [← whole, Text.trim_trim]
      have parts : ∀ d ∈ token.text, isNamePart d = true := by
        rw [shape]
        exact List.forall_mem_cons.mpr ⟨isNamePart_of_isNameStart start, tailParts⟩
      rw [whole] at leads
      rw [← Outline.ofText_trim, whole, namesUnsupported_ofText_of_name trimmed leads parts]
      simp [namesUnsupported]

theorem searched_wrapper {wrapper : Wrapper} {tokens : List Token} {inner : Outline}
    (covers : Covers source row (token :: tokens)) (fits : token.kind = .reserved wrapper.word)
    (searched : inner.namesUnsupported = namesUnsupported tokens) :
    (wrapper.outline inner).namesUnsupported = namesUnsupported (token :: tokens) := by
  rw [namesUnsupported_cons, covers.names_reserved clean token (by simp) fits]
  cases wrapper <;> exact searched

theorem searched_wrapped {wrapper : Wrapper}
    {children : Derivations [.word wrapper.word, .nonterminal .datatype]}
    (searched : children.All (Derivation.Listed (Derivation.Searched source))) :
    Derivation.Searched source (.node (.wrapped wrapper) children) := by
  intro row covers
  match children, searched with
  | .cons (.leaf token fits) (.cons type .nil), .cons _ (.cons inner .nil) =>
      have shape : (Derivation.node (.wrapped wrapper)
          (.cons (.leaf token fits) (.cons type .nil))).yield = token :: type.yield := by simp
      rw [shape] at covers ⊢
      obtain ⟨rest, leads, wrapped, further⟩ := covers.innerType clean fits
      rw [ofText_of_wrapper leads, wrapped, further.withoutAngles_of_opening clean type.opens,
        Outline.ofText_trim]
      exact searched_wrapper clean covers fits (inner rest further)

theorem searched_angled {wrapper : Wrapper}
    {children : Derivations [.word wrapper.word, .terminal .leftAngle, .nonterminal .datatype,
      .terminal .rightAngle]}
    (searched : children.All (Derivation.Listed (Derivation.Searched source))) :
    Derivation.Searched source (.node (.angled wrapper) children) := by
  intro row covers
  match children, searched with
  | .cons (.leaf token fits) (.cons (.leaf left opens) (.cons type (.cons (.leaf right closes)
      .nil))), .cons _ (.cons _ (.cons inner _)) =>
      have shape : (Derivation.node (.angled wrapper) (.cons (.leaf token fits)
          (.cons (.leaf left opens) (.cons type (.cons (.leaf right closes) .nil))))).yield =
            token :: left :: (type.yield ++ [right]) := by simp
      rw [shape] at covers ⊢
      obtain ⟨rest, leads, wrapped, further⟩ := covers.innerType clean fits
      obtain ⟨middle, bare, between⟩ := further.withoutAngles_of_angles clean opens closes
      have before := covers.names_mark clean left '<' (by simp) (by rw [opens]; rfl)
      have behind := covers.names_mark clean right '>' (by simp) (by rw [closes]; rfl)
      rw [ofText_of_wrapper leads, wrapped, bare, Outline.ofText_trim]
      refine searched_wrapper clean covers fits ?_
      rw [inner middle between, namesUnsupported_between before behind]

theorem searched_compound {compound : Compound}
    {children : Derivations [.word compound.word, .terminal .leftBrace,
      .nonterminal (.members .semicolon), .terminal .rightBrace]}
    (searched : children.All (Derivation.Listed (Derivation.Searched source))) :
    Derivation.Searched source (.node (.compound compound) children) := by
  intro row covers
  match children, searched with
  | .cons (.leaf token fits) (.cons (.leaf left opens) (.cons members (.cons (.leaf right closes)
      .nil))), .cons _ (.cons _ (.cons inner _)) =>
      have shape : (Derivation.node (.compound compound) (.cons (.leaf token fits)
          (.cons (.leaf left opens) (.cons members (.cons (.leaf right closes) .nil))))).yield =
            token :: left :: (members.yield ++ [right]) := by simp
      rw [shape] at covers ⊢
      obtain ⟨body, leads, found, between⟩ := covers.bracedBody clean fits opens closes
      have before := covers.names_mark clean left '{' (by simp) (by rw [opens]; rfl)
      have behind := covers.names_mark clean right '}' (by simp) (by rw [closes]; rfl)
      rw [namesUnsupported_cons, covers.names_reserved clean token (by simp) fits]
      cases compound with
      | record =>
          rw [Outline.ofText_of_record leads, map_recordFields found, Outline.namesUnsupported,
            fieldsNameUnsupported_mapIdx, inner body between, namesUnsupported_between before behind]
          rfl
      | variant =>
          rw [Outline.ofText_of_variant leads]
          rfl

/-- The keyword of a function or service type is found in front of its first mark. -/
theorem searched_marked {keyword : Reserved} {mark : Token} {c : Char}
    (covers : Covers source row (token :: mark :: others)) (fits : token.kind = .reserved keyword)
    (opens : Lexeme.punctuation? c = some mark.kind) (wordless : isWordCharacter c = false)
    (leaf : keyword.text ∉ structuredWords)
    (unsupported : (TokenKind.reserved keyword).isUnsupported = true) :
    (Outline.ofText (spelling row)).namesUnsupported = namesUnsupported (token :: mark :: others) := by
  have named := covers.names_reserved clean token (by simp) fits
  have spelt := (covers.form clean mark (by simp)).of_punctuation opens
  obtain ⟨rest, whole, leads, form, further⟩ := covers.leadingWord clean (by rw [fits]; rfl)
  rw [fits] at form
  rw [form.of_reserved, Reserved.lowerLatin_text] at leads
  have further : Covers source rest ([] ++ mark :: others) := further
  obtain ⟨blanks, back, rfl, before, _⟩ := further.cut
  have behind : ∃ d tail, spelling (blanks ++ ⟨.token mark.kind, mark.text⟩ :: back) = d :: tail ∧
      isWordCharacter d = false := by
    rw [spelling_append, spelling_cons, spelt]
    cases front : spelling blanks with
    | nil => exact ⟨c, spelling back, rfl, wordless⟩
    | cons d tail =>
        have blank := before.blank_of_mem clean d (by simp [front])
        exact ⟨d, _, rfl, isWordCharacter_of_isBlankLayout blank⟩
  obtain ⟨d, tail, next, apart⟩ := behind
  rw [Outline.ofText_of_leaf (leads ▸ leaf), Outline.namesUnsupported, whole, next,
    Text.namesUnsupported_append apart, namesUnsupported_cons, named, unsupported]
  rfl

theorem searched_funcType (children : Derivations [.word .funcWord, .nonterminal .signature]) :
    Derivation.Searched source (.node .funcType children) := by
  intro row covers
  match children with
  | .cons (.leaf token fits) (.cons signature .nil) =>
      obtain ⟨mark, others, front, opens⟩ := signature.yield_signature
      have shape : (Derivation.node .funcType (.cons (.leaf token fits)
          (.cons signature .nil))).yield = token :: mark :: others := by simp [front]
      rw [shape] at covers ⊢
      exact searched_marked clean (c := '(') covers fits (by rw [opens]; rfl) (by decide) (by decide)
        rfl

theorem searched_serviceType
    (children : Derivations [.word .serviceWord, .nonterminal .serviceBody]) :
    Derivation.Searched source (.node .serviceType children) := by
  intro row covers
  match children with
  | .cons (.leaf token fits) (.cons (.node production body) .nil) =>
      cases production
      match body with
      | .cons (.leaf mark opens) others =>
          exact searched_marked clean (c := '{') covers fits (by rw [opens]; rfl) (by decide)
            (by decide) rfl

theorem searched_labelledMember
    {children : Derivations [.nonterminal .label, .terminal .colon, .nonterminal .datatype]}
    (searched : children.All (Derivation.Listed (Derivation.Searched source))) :
    Derivation.Searched source (.node (.labelledMember .semicolon) children) := by
  intro row covers
  match children, searched with
  | .cons label (.cons (.leaf colon fits) (.cons type .nil)), .cons _ (.cons _ (.cons inner _)) =>
      obtain ⟨form, token, labelled, rfl⟩ := label.exists_labelLeaf
      have shape : (Derivation.node (.labelledMember .semicolon)
          (.cons (.node (.label form) (.cons (.leaf token labelled) .nil))
            (.cons (.leaf colon fits) (.cons type .nil)))).yield =
              token :: colon :: type.yield := by simp
      rw [shape] at covers ⊢
      obtain ⟨back, parts, solid, behind⟩ := partition_labelledMember clean labelled fits covers
      rw [partNamesUnsupported, fieldOutline_of_some parts solid, Outline.ofText_trim,
        inner back behind, Text.namesUnsupported_unquoted, namesUnsupported_cons,
        namesUnsupported_cons,
        covers.names_mark clean colon ':' (by simp) (by rw [fits]; rfl),
        Bool.false_or]

theorem searched_bareMember {children : Derivations [.nonterminal .datatype]}
    (searched : children.All (Derivation.Listed (Derivation.Searched source))) :
    Derivation.Searched source (.node (.bareMember .semicolon) children) := by
  intro row covers
  match children, searched with
  | .cons type .nil, .cons inner _ =>
      have shape : (Derivation.node (.bareMember .semicolon) (.cons type .nil)).yield =
          type.yield := by simp
      rw [shape] at covers ⊢
      rw [partNamesUnsupported, fieldOutline_of_none (partition_bareMember clean covers),
        Outline.ofText_trim, inner row covers, Text.namesUnsupported_ofNat, Bool.false_or]

theorem searched_memberList {ending : List Token}
    (ended : ending = [] ∨ ∃ token : Token, ending = [token] ∧ token.kind = .semicolon)
    {list : Derivation (.nonterminal (.memberList .semicolon))}
    (searched : list.Listed (Derivation.Searched source))
    (covers : Covers source row (list.yield ++ ending)) :
    (splitTopLevel ';' (spelling row)).any partNamesUnsupported =
      namesUnsupported (list.yield ++ ending) := by
  obtain ⟨first, items, rfl, head, each⟩ := searched
  rw [Derivation.yield_memberList, List.append_assoc] at covers ⊢
  obtain ⟨rows, matched, parts⟩ := splitTopLevel_members clean ended items first row covers
  have member : ∀ item ∈ first :: items.map (·.2), Derivation.Searched source item :=
    List.forall_mem_cons.mpr ⟨head, List.forall_mem_map.mpr each⟩
  have further := names_further ended items fun token inside kind =>
    covers.names_mark clean token ';' (List.mem_append_right _ inside) (by rw [kind]; rfl)
  rw [parts, names_matched matched member, namesUnsupported_append, further, List.any_cons]

theorem searched_membersBare
    {children : Derivations [.nonterminal (.memberList .semicolon)]}
    (searched : children.All (Derivation.Listed (Derivation.Searched source))) :
    Derivation.Searched source (.node (.membersBare .semicolon) children) := by
  intro row covers
  match children, searched with
  | .cons list .nil, .cons listed _ => exact searched_memberList clean (.inl rfl) listed covers

theorem searched_membersEnded
    {children : Derivations [.nonterminal (.memberList .semicolon), .terminal .semicolon]}
    (searched : children.All (Derivation.Listed (Derivation.Searched source))) :
    Derivation.Searched source (.node (.membersEnded .semicolon) children) := by
  intro row covers
  match children, searched with
  | .cons list (.cons (.leaf token fits) .nil), .cons listed _ =>
      exact searched_memberList clean (.inr ⟨token, rfl, fits⟩) listed covers

theorem searched_noMembers (children : Derivations [.nonterminal .empty]) :
    Derivation.Searched source (.node (.noMembers .semicolon) children) := by
  intro row covers
  match children with
  | .cons tree .nil =>
      cases tree.eq_empty
      have covers : Covers source row [] := covers
      rw [splitTopLevel_of_level (covers.level_of_closed clean .semicolon ⟨rfl, trivial⟩),
        covers.trim_nil clean]
      rfl

/-- Every type below a clean source mentions what its tokens do. -/
theorem listed_searched {symbol : Symbol} (tree : Derivation symbol) :
    tree.Listed (Derivation.Searched source) := by
  refine Derivation.listed_of_step (fun _ _ => trivial)
    (fun production children _ listed => ?_) tree
  cases production with
  | typeName => exact searched_typeName clean children
  | wrapped => exact searched_wrapped clean listed
  | angled => exact searched_angled clean listed
  | compound => exact searched_compound clean listed
  | funcType => exact searched_funcType clean children
  | serviceType => exact searched_serviceType clean children
  | labelledMember separator =>
      cases separator with
      | comma => trivial
      | semicolon => exact searched_labelledMember clean listed
  | bareMember separator =>
      cases separator with
      | comma => trivial
      | semicolon => exact searched_bareMember clean listed
  | membersBare separator =>
      cases separator with
      | comma => trivial
      | semicolon => exact searched_membersBare clean listed
  | membersEnded separator =>
      cases separator with
      | comma => trivial
      | semicolon => exact searched_membersEnded clean listed
  | noMembers separator =>
      cases separator with
      | comma => trivial
      | semicolon => exact searched_noMembers clean children
  | _ => trivial

/-- The tokens of a type mention a word without form input exactly if such a type stands in its tree, or
one of its names and labels mentions one. -/
theorem namesUnsupported_yield_iff {type : Derivation (.nonterminal .datatype)}
    (covers : Covers source row type.yield) :
    namesUnsupported type.yield = true ↔ type.isUnsupported = true ∨
      ∃ name, LabelIn type.yield name ∧ name.Mentions unsupportedWords := by
  have keyed : type.yield.any (·.kind.isUnsupported) = type.isUnsupported := type.keyed rfl
  have each (token : Token) (member : token ∈ type.yield) :=
    (covers.form clean token member).namesUnsupported_iff
  rw [← keyed, namesUnsupported, List.any_eq_true, List.any_eq_true]
  constructor
  · rintro ⟨token, member, found⟩
    rcases (each token member).mp found with keyword | ⟨label, named⟩
    · exact .inl ⟨token, member, keyword⟩
    · exact .inr ⟨token.text, ⟨token, member, label, rfl⟩, Text.namesUnsupported_iff.mp named⟩
  · rintro (⟨token, member, keyword⟩ | ⟨_, ⟨token, member, label, rfl⟩, named⟩)
    · exact ⟨token, member, (each token member).mpr (.inl keyword)⟩
    · exact ⟨token, member, Text.namesUnsupported_iff.mpr named⟩

end Productions

end Idl

open Idl

/-- A type expression without comments that the grammar derives, with its tree. -/
structure Derived (text : Text) (type : Derivation (.nonterminal .datatype)) : Prop where
  derives : tokenStream text = ⟨type.yield, none⟩
  clean : Clean text

theorem Idl.Plain.derived {text : Text} {type : Derivation (.nonterminal .datatype)}
    (plain : Plain text type) : Derived text type :=
  ⟨plain.derives, plain.clean⟩

/-- What a type is resolved to mentions a word without form input exactly if its tree holds such a type,
or a name or label of it mentions one. -/
theorem Derived.exists_resolve {text : Text} {type : Derivation (.nonterminal .datatype)}
    (derived : Derived text type) :
    ∃ normal, Alias.resolve [] false text = .ok normal ∧
      (normal.namesUnsupported = true ↔ type.isUnsupported = true ∨
        ∃ name, LabelIn type.yield name ∧ name.Mentions unsupportedWords) := by
  have covers := covers_of_derives derived.derives
  obtain ⟨normal, resolved, same⟩ := Alias.namesUnsupported_resolve text
  have searched := listed_searched derived.clean type (lexemes text) covers
  rw [spelling_lexemes] at searched
  exact ⟨normal, resolved, by rw [same, searched, namesUnsupported_yield_iff derived.clean covers]⟩

namespace Form

/-- A form of types without comments, resolved over the empty table, is refused exactly if one of them
holds a variant, function or service type, at any depth, or one of the names and labels of a type
mentions such a word. -/
theorem isSupported_eq_false_iff {types : List (Text × Derivation (.nonterminal .datatype))}
    (derived : ∀ type ∈ types, Derived type.1 type.2) :
    ∃ argTypes, (types.map (·.1)).mapM (Alias.resolve [] false) = .ok argTypes ∧
      ((Form.mk argTypes).isSupported = false ↔
        ∃ type ∈ types, type.2.isUnsupported = true ∨
          ∃ name, LabelIn type.2.yield name ∧ name.Mentions unsupportedWords) := by
  obtain ⟨argTypes, resolved, matched⟩ := exists_mapM fun type member =>
    (derived type member).exists_resolve
  refine ⟨argTypes, by rw [List.mapM_map]; exact resolved, ?_⟩
  have refused : (Form.mk argTypes).isSupported = false ↔
      argTypes.any Text.namesUnsupported = true := by
    rw [isSupported, Bool.not_eq_false']
    rfl
  rw [refused]
  clear derived resolved refused
  induction matched with
  | nil => simp
  | cons here _ ih =>
      rw [List.any_cons, Bool.or_eq_true, List.exists_mem_cons_iff]
      exact or_congr here ih

/-- The types of a form: an option of a name, which has input, and a function type, which has none. -/
theorem isSupported_eq_false_of_function :
    let types := [("opt <t>".toList, Alias.optionTree "t".toList),
      ("func (t) -> ()".toList, Alias.functionTree "t".toList)]
    (∀ type ∈ types, Derived type.1 type.2) ∧
      ∃ argTypes, (types.map (·.1)).mapM (Alias.resolve [] false) = .ok argTypes ∧
        (Form.mk argTypes).isSupported = false := by
  intro types
  have derived : ∀ type ∈ types, Derived type.1 type.2 := by
    simp only [types, List.forall_mem_cons]
    exact ⟨Alias.plain_option.derived, Alias.plain_function.derived, by simp⟩
  obtain ⟨argTypes, resolved, refused⟩ := isSupported_eq_false_iff derived
  exact ⟨derived, argTypes, resolved, refused.mpr ⟨_, .tail _ (.head _), .inl rfl⟩⟩

/-- A record with the quoted label "func" holds no type without input, and yet its form is refused: the
label is printed without its quotes, and is a word of the text. -/
theorem isSupported_eq_false_of_label :
    Derived "record \x7b \"func\" : nat \x7d".toList (Alias.labelledTree "\"func\"".toList) ∧
      (Alias.labelledTree "\"func\"".toList).isUnsupported = false ∧
      Alias.resolve [] false "record \x7b \"func\" : nat \x7d".toList =
        .ok "record \x7b func : nat \x7d".toList ∧
      (Form.mk ["record \x7b func : nat \x7d".toList]).isSupported = false := by
  have closed : Lexeme.closeQuote? "func\"".toList = some ("func\"".toList, []) := by decide
  have label : Idl.Form .text "\"func\"".toList := .quoted (quoted_of_closeQuote closed)
  have plain : Plain "record \x7b \"func\" : nat \x7d".toList
      (Alias.labelledTree "\"func\"".toList) :=
    plain_of_row (Alias.stand_labelledRow label)
      (by simp [Alias.labelledRow, Lexeme.Plain, Lexeme.isBlankLayout]) rfl (by decide)
  refine ⟨plain.derived, rfl, ?_, by decide +kernel⟩
  have fields : recordFields (Text.trim "record \x7b \"func\" : nat \x7d".toList) =
      [⟨"func".toList, "nat".toList⟩] := by decide
  exact Alias.resolve_nat_field (by decide) fields

end Form

end Candid
