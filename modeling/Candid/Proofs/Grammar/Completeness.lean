import Candid.Proofs.Grammar.Action

/-!
# Reading derived token lists

Every reader accepts what its nonterminal derives, leaves the tokens behind it, and returns a syntax
tree whose record is the value of the derivation. The property of each nonterminal is proved for one
production at a time; the lists of the grammar grow at their end while the readers go forward, so
their property speaks of what remains to be read behind the list.
-/

set_option autoImplicit false

namespace Candid.Idl

/-- Whether a token of this kind continues a type or member that could end in front of it. -/
def TokenKind.continues : TokenKind → Bool
  | .colon => true
  | .reserved .queryWord => true
  | .reserved .compositeQueryWord => true
  | .reserved .onewayWord => true
  | _ => false

/-- The token in front, if there is one, continues no type and no member. -/
def Delimited (rest : List Token) : Prop :=
  ∀ token ∈ rest.head?, token.kind.continues = false

theorem delimited_cons {token : Token} {rest : List Token}
    (ends : token.kind.continues = false) : Delimited (token :: rest) := by
  intro other member
  simp only [List.head?_cons, Option.mem_def, Option.some.injEq] at member
  subst member
  exact ends

def TokenKind.opens : TokenKind → Bool
  | .identifier => true
  | .text => true
  | .number => true
  | .reserved .optWord => true
  | .reserved .vecWord => true
  | .reserved .recordWord => true
  | .reserved .variantWord => true
  | .reserved .funcWord => true
  | .reserved .serviceWord => true
  | _ => false

def Opening (tokens : List Token) : Prop :=
  ∃ token rest, tokens = token :: rest ∧ token.kind.opens = true

def Derivation.Opens : {symbol : Symbol} → Derivation symbol → Prop
  | .nonterminal .datatype, tree => Opening tree.yield
  | .nonterminal .label, tree => Opening tree.yield
  | .nonterminal (.member _), tree => Opening tree.yield
  | .nonterminal (.memberList _), tree => Opening tree.yield
  | _, _ => True

theorem Opening.append {tokens : List Token} (opening : Opening tokens) (rest : List Token) :
    Opening (tokens ++ rest) := by
  obtain ⟨token, others, rfl, opens⟩ := opening
  exact ⟨token, others ++ rest, rfl, opens⟩

theorem opening_of_kind {token : Token} {kind : TokenKind} (fits : token.kind = kind)
    (opens : kind.opens = true) (rest : List Token) : Opening (token :: rest) :=
  ⟨token, rest, rfl, fits ▸ opens⟩

theorem Derivation.opens {symbol : Symbol} (tree : Derivation symbol) : tree.Opens := by
  induction tree using Derivation.induction with
  | leaf => trivial
  | node production children opens =>
      cases production with
      | label form =>
          match children with
          | .cons (.leaf _ fits) .nil => exact opening_of_kind fits (by cases form <;> rfl) _
      | typeName =>
          match children with
          | .cons (.leaf _ fits) .nil => exact opening_of_kind fits rfl _
      | wrapped wrapper =>
          match children with
          | .cons (.leaf _ fits) _ => exact opening_of_kind fits (by cases wrapper <;> rfl) _
      | angled wrapper =>
          match children with
          | .cons (.leaf _ fits) _ => exact opening_of_kind fits (by cases wrapper <;> rfl) _
      | compound compound =>
          match children with
          | .cons (.leaf _ fits) _ => exact opening_of_kind fits (by cases compound <;> rfl) _
      | funcType =>
          match children with
          | .cons (.leaf _ fits) _ => exact opening_of_kind fits rfl _
      | serviceType =>
          match children with
          | .cons (.leaf _ fits) _ => exact opening_of_kind fits rfl _
      | labelledMember =>
          cases opens with
          | cons label _ => exact Opening.append label _
      | bareMember =>
          cases opens with
          | cons type _ => exact Opening.append type _
      | oneMember =>
          cases opens with
          | cons member _ => exact Opening.append member _
      | moreMembers =>
          cases opens with
          | cons list _ => exact Opening.append list _
      | _ => trivial

theorem expect_of_kind {kind : TokenKind} {token : Token} (fits : token.kind = kind)
    (rest : List Token) : expect kind (token :: rest) = .ok rest := by
  simp [expect, fits]

@[simp] theorem expect_self (kind : TokenKind) (text : Text) (line offset : Nat)
    (rest : List Token) : expect kind (⟨kind, text, line, offset⟩ :: rest) = .ok rest :=
  expect_of_kind rfl rest

theorem expect_closing_of_opening (separator : Separator) {tokens : List Token}
    (opening : Opening tokens) : ∃ unread, expect separator.closing tokens = .error unread := by
  obtain ⟨token, rest, rfl, opens⟩ := opening
  have other : token.kind ≠ separator.closing := by
    intro same
    rw [same] at opens
    cases separator <;> simp [Separator.closing, TokenKind.opens] at opens
  exact ⟨token :: rest, by simp [expect, other]⟩

theorem expect_separator_of_closing {separator : Separator} {token : Token}
    (closes : token.kind = separator.closing) (rest : List Token) :
    expect separator.kind (token :: rest) = .error (token :: rest) := by
  have other : token.kind ≠ separator.kind := by
    rw [closes]
    cases separator <;> simp [Separator.closing, Separator.kind]
  simp [expect, other]

/-- What a reader of members does behind a member: it goes on behind a separator and ends behind the
closing token. -/
def readFurther (separator : Separator) (fuel : Nat) (tokens : List Token) :
    Except Unread (List Field × List Token) :=
  match expect separator.kind tokens with
  | .ok rest => readFields separator.kind separator.closing fuel rest
  | .error _ => (expect separator.closing tokens).map fun behind => ([], behind)

theorem readFields_of_closing {separator : Separator} {token : Token}
    (closes : token.kind = separator.closing) (fuel : Nat) (rest : List Token) :
    readFields separator.kind separator.closing (fuel + 1) (token :: rest) = .ok ([], rest) := by
  simp only [readFields, expect_of_kind closes]

theorem readFields_of_opening {separator : Separator} {tokens : List Token}
    (opening : Opening tokens) (fuel : Nat) :
    readFields separator.kind separator.closing (fuel + 1) tokens =
      (readField fuel tokens).bind fun (field, behind) =>
        (readFurther separator fuel behind).map fun (others, behind) =>
          (field :: others, behind) := by
  obtain ⟨unread, refused⟩ := expect_closing_of_opening separator opening
  simp only [readFields, refused, readFurther]
  cases readField fuel tokens with
  | error => rfl
  | ok result =>
      obtain ⟨field, behind⟩ := result
      simp only [bind, Except.bind]
      cases expect separator.kind behind with
      | ok rest =>
          simp only [Except.map, pure, Except.pure]
      | error =>
          cases expect separator.closing behind <;> rfl

theorem readFurther_of_separator {separator : Separator} {token : Token}
    (separates : token.kind = separator.kind) (fuel : Nat) (rest : List Token) :
    readFurther separator fuel (token :: rest) =
      readFields separator.kind separator.closing fuel rest := by
  simp only [readFurther, expect_of_kind separates]

theorem readFurther_of_closing {separator : Separator} {token : Token}
    (closes : token.kind = separator.closing) (fuel : Nat) (rest : List Token) :
    readFurther separator fuel (token :: rest) = .ok ([], rest) := by
  simp only [readFurther, expect_separator_of_closing closes, expect_of_kind closes]
  rfl

theorem readModes_of_delimited {rest : List Token} (delimited : Delimited rest) :
    readModes rest = ([], rest) := by
  unfold readModes
  split <;> first | exact absurd (delimited _ rfl) (by simp [TokenKind.continues]) | rfl

theorem fieldTexts_append (fields others : List Field) :
    fieldTexts (fields ++ others) = fieldTexts fields ++ fieldTexts others := by
  induction fields with
  | nil => rfl
  | cons field rest ih =>
      obtain ⟨label, type⟩ := field
      simp [fieldTexts, ih]

/-- A type is a name, or a reserved word stands in front of it. -/
theorem Derivation.yield_datatype (type : Derivation (.nonterminal .datatype)) :
    (∃ token, type.yield = [token] ∧ token.kind = .identifier) ∨
      ∃ token rest word, type.yield = token :: rest ∧ token.kind = .reserved word := by
  match type with
  | .node production children =>
      cases production with
      | typeName =>
          match children with
          | .cons (.leaf token fits) .nil => exact .inl ⟨token, rfl, fits⟩
      | wrapped | angled | compound | funcType | serviceType =>
          match children with
          | .cons (.leaf token fits) others => exact .inr ⟨token, others.yield, _, rfl, fits⟩

theorem readField_of_datatype (type : Derivation (.nonterminal .datatype)) {rest : List Token}
    (delimited : Delimited rest) (fuel : Nat) :
    readField (fuel + 1) (type.yield ++ rest) =
      (readDatatype fuel (type.yield ++ rest)).map fun (datatype, behind) =>
        (.mk none datatype, behind) := by
  rcases type.yield_datatype with ⟨token, shape, name⟩ | ⟨token, others, word, shape, reserved⟩
  · obtain ⟨kind, text, line, offset⟩ := token
    cases name
    rw [shape, List.singleton_append]
    have noColon : ∀ next behind, rest = next :: behind → next.kind ≠ .colon := by
      rintro next behind rfl colon
      have ends := delimited next rfl
      rw [colon] at ends
      cases ends
    cases rest with
    | nil => rfl
    | cons next behind =>
        obtain ⟨nextKind, nextText, nextLine, nextOffset⟩ := next
        have other := noColon _ _ rfl
        cases nextKind <;> first | exact absurd rfl other | rfl
  · obtain ⟨kind, text, line, offset⟩ := token
    cases reserved
    rw [shape, List.cons_append]
    rfl

/-- What the readers make of the sentences of each nonterminal. The fuel is measured against the
tokens that are left, and each reader adds what it spends before it takes a token. -/
def Derivation.Reads : {symbol : Symbol} → Derivation symbol → Prop
  | .nonterminal .label, tree =>
      ∀ rest, readLabel (tree.yield ++ rest) = .ok (tree.record, rest)
  | .nonterminal .modes, tree =>
      ∀ rest, readModes (tree.yield ++ rest) =
        (tree.record ++ (readModes rest).1, (readModes rest).2)
  | .nonterminal .datatype, tree =>
      ∀ fuel rest, Delimited rest → 4 * (tree.yield ++ rest).length + 1 ≤ fuel →
        ∃ type, readDatatype fuel (tree.yield ++ rest) = .ok (type, rest) ∧
          type.node = tree.record
  | .nonterminal (.member _), tree =>
      ∀ fuel rest, Delimited rest → 4 * (tree.yield ++ rest).length + 2 ≤ fuel →
        ∃ field, readField fuel (tree.yield ++ rest) = .ok (field, rest) ∧
          fieldTexts [field] = [tree.record]
  | .nonterminal (.memberList separator), tree =>
      ∀ fuel rest, Delimited rest → 4 * (tree.yield ++ rest).length + 3 ≤ fuel →
        ∃ fields left, 4 * rest.length ≤ left ∧ fieldTexts fields = tree.record ∧
          readFields separator.kind separator.closing fuel (tree.yield ++ rest) =
            (readFurther separator left rest).map fun (others, behind) =>
              (fields ++ others, behind)
  | .nonterminal (.members separator), tree =>
      ∀ fuel token rest, token.kind = separator.closing →
        4 * (tree.yield ++ token :: rest).length + 3 ≤ fuel →
        ∃ fields, fieldTexts fields = tree.record ∧
          readFields separator.kind separator.closing fuel (tree.yield ++ token :: rest) =
            .ok (fields, rest)
  | .nonterminal .signature, tree =>
      ∀ fuel rest, Delimited rest → 4 * (tree.yield ++ rest).length ≤ fuel →
        ∃ signature, readSignature fuel (tree.yield ++ rest) = .ok (signature, rest) ∧
          signature.toText = tree.record
  | .nonterminal .method, tree =>
      ∀ fuel rest, 4 * (tree.yield ++ rest).length + 1 ≤ fuel →
        ∃ member left, 4 * rest.length + 1 ≤ left ∧ Member.node member = tree.record ∧
          readMembers fuel (tree.yield ++ rest) =
            (readMembers left rest).map fun (others, behind) => (member :: others, behind)
  | .nonterminal .methods, tree =>
      ∀ fuel rest, 4 * (tree.yield ++ rest).length + 1 ≤ fuel →
        ∃ members left, 4 * rest.length + 1 ≤ left ∧
          members.map Member.node = tree.record ∧
          readMembers fuel (tree.yield ++ rest) =
            (readMembers left rest).map fun (others, behind) => (members ++ others, behind)
  | .nonterminal .serviceBody, tree =>
      ∀ fuel rest, 4 * (tree.yield ++ rest).length ≤ fuel →
        ∃ members start, expect .leftBrace (tree.yield ++ rest) = .ok start ∧
          readMembers fuel start = .ok (members, rest) ∧
          members.map Member.node = tree.record
  | .nonterminal .empty, tree => tree.yield = []
  | _, _ => True

namespace Derivation

theorem reads_label (form : LabelForm) (children : Derivations [.terminal form.kind]) :
    Reads (.node (.label form) children) := by
  match children with
  | .cons (.leaf ⟨kind, text, line, offset⟩ fits) .nil =>
      intro rest
      cases form <;> cases fits <;> rfl

theorem reads_noModes (children : Derivations [.nonterminal .empty])
    (reads : children.All Reads) : Reads (.node .noModes children) := by
  cases reads with
  | @cons _ _ first _ empty none =>
      cases none
      intro rest
      have nothing : first.yield = [] := empty
      simp only [yield_node, Derivations.yield_cons, nothing]
      rfl

theorem reads_moreModes (mode : Mode)
    (children : Derivations [.nonterminal .modes, .word mode.word])
    (reads : children.All Reads) : Reads (.node (.moreModes mode) children) := by
  match children, reads with
  | .cons modes (.cons (.leaf ⟨kind, text, line, offset⟩ fits) .nil), .cons front _ =>
      intro rest
      have before := front (⟨kind, text, line, offset⟩ :: rest)
      have here : readModes (⟨kind, text, line, offset⟩ :: rest) =
          (mode :: (readModes rest).1, (readModes rest).2) := by
        cases mode <;> cases fits <;> rfl
      simp only [yield_node, Derivations.yield_cons, yield_leaf, Derivations.yield_nil,
        List.append_assoc, List.append_nil, List.cons_append, List.nil_append, before, here,
        record_moreModes]

theorem reads_labelledMember (separator : Separator)
    (children : Derivations [.nonterminal .label, .terminal .colon, .nonterminal .datatype])
    (reads : children.All Reads) : Reads (.node (.labelledMember separator) children) := by
  match children, reads with
  | .cons label (.cons (.leaf ⟨mark, _, _, _⟩ separates) (.cons type .nil)),
    .cons _ (.cons _ (.cons inner _)) =>
      obtain ⟨form, ⟨kind, text, line, offset⟩, fits, rfl⟩ := label.exists_labelLeaf
      intro fuel rest delimited enough
      cases separates
      simp only [yield_node, Derivations.yield_cons, yield_leaf, Derivations.yield_nil,
        List.append_nil, List.cons_append, List.nil_append, List.length_cons] at enough ⊢
      obtain ⟨fuel, rfl⟩ := Nat.exists_eq_add_one_of_ne_zero (by omega : fuel ≠ 0)
      obtain ⟨datatype, read, record⟩ := inner fuel rest delimited (by omega)
      refine ⟨.mk (some text) datatype, ?_, ?_⟩
      · cases form <;> cases fits <;>
          simp only [readField, expect, ↓reduceIte, bind, Except.bind, read] <;> rfl
      · simp only [fieldTexts, ← datatype.node_text, record]
        rfl

theorem reads_bareMember (separator : Separator)
    (children : Derivations [.nonterminal .datatype])
    (reads : children.All Reads) : Reads (.node (.bareMember separator) children) := by
  match children, reads with
  | .cons type .nil, .cons inner _ =>
      intro fuel rest delimited enough
      simp only [yield_node, Derivations.yield_cons, Derivations.yield_nil,
        List.append_nil] at enough ⊢
      obtain ⟨fuel, rfl⟩ := Nat.exists_eq_add_one_of_ne_zero (by omega : fuel ≠ 0)
      obtain ⟨datatype, read, record⟩ := inner fuel rest delimited (by omega)
      refine ⟨.mk none datatype, ?_, ?_⟩
      · rw [readField_of_datatype type delimited, read]
        rfl
      · simp only [fieldTexts, ← datatype.node_text, record]
        rfl

theorem reads_oneMember (separator : Separator)
    (children : Derivations [.nonterminal (.member separator)])
    (reads : children.All Reads) : Reads (.node (.oneMember separator) children) := by
  match children, reads with
  | .cons member .nil, .cons read _ =>
      intro fuel rest delimited enough
      have opening : Opening (member.yield ++ rest) := Opening.append member.opens rest
      simp only [yield_node, Derivations.yield_cons, Derivations.yield_nil,
        List.append_nil] at enough ⊢
      obtain ⟨fuel, rfl⟩ := Nat.exists_eq_add_one_of_ne_zero (by omega : fuel ≠ 0)
      obtain ⟨field, result, record⟩ := read fuel rest delimited (by omega)
      refine ⟨[field], fuel, ?_, record, ?_⟩
      · rw [List.length_append] at enough
        omega
      · rw [readFields_of_opening opening, result]
        rfl

theorem reads_moreMembers (separator : Separator)
    (children : Derivations
      [.nonterminal (.memberList separator), .terminal separator.kind,
        .nonterminal (.member separator)])
    (reads : children.All Reads) : Reads (.node (.moreMembers separator) children) := by
  match children, reads with
  | .cons list (.cons (.leaf token separates) (.cons member .nil)),
    .cons readList (.cons _ (.cons readMember _)) =>
      intro fuel rest delimited enough
      have opening : Opening (member.yield ++ rest) := Opening.append member.opens rest
      have ends : token.kind.continues = false := by
        rw [separates]
        cases separator <;> rfl
      simp only [yield_node, Derivations.yield_cons, yield_leaf, Derivations.yield_nil,
        List.append_nil, List.append_assoc, List.cons_append, List.nil_append] at enough ⊢
      obtain ⟨fields, left, spare, record, further⟩ :=
        readList fuel (token :: (member.yield ++ rest)) (delimited_cons ends) enough
      simp only [List.length_cons, List.length_append] at spare
      obtain ⟨left, rfl⟩ := Nat.exists_eq_add_one_of_ne_zero (by omega : left ≠ 0)
      obtain ⟨field, result, fieldRecord⟩ :=
        readMember left rest delimited (by rw [List.length_append]; omega)
      refine ⟨fields ++ [field], left, by omega, ?_, ?_⟩
      · rw [fieldTexts_append, record, fieldRecord, record_moreMembers]
      · rw [further, readFurther_of_separator separates, readFields_of_opening opening, result]
        simp only [Except.bind]
        cases readFurther separator left rest <;> simp [Except.map]

theorem reads_membersBare (separator : Separator)
    (children : Derivations [.nonterminal (.memberList separator)])
    (reads : children.All Reads) : Reads (.node (.membersBare separator) children) := by
  match children, reads with
  | .cons list .nil, .cons read _ =>
      intro fuel token rest closes enough
      have ends : token.kind.continues = false := by
        rw [closes]
        cases separator <;> rfl
      simp only [yield_node, Derivations.yield_cons, Derivations.yield_nil,
        List.append_nil] at enough ⊢
      obtain ⟨fields, left, spare, record, further⟩ :=
        read fuel (token :: rest) (delimited_cons ends) enough
      refine ⟨fields, record, ?_⟩
      rw [further, readFurther_of_closing closes]
      simp [Except.map]

theorem reads_membersEnded (separator : Separator)
    (children : Derivations
      [.nonterminal (.memberList separator), .terminal separator.kind])
    (reads : children.All Reads) : Reads (.node (.membersEnded separator) children) := by
  match children, reads with
  | .cons list (.cons (.leaf last separates) .nil), .cons read _ =>
      intro fuel token rest closes enough
      have ends : last.kind.continues = false := by
        rw [separates]
        cases separator <;> rfl
      simp only [yield_node, Derivations.yield_cons, yield_leaf, Derivations.yield_nil,
        List.append_nil, List.append_assoc, List.cons_append, List.nil_append] at enough ⊢
      obtain ⟨fields, left, spare, record, further⟩ :=
        read fuel (last :: token :: rest) (delimited_cons ends) enough
      simp only [List.length_cons] at spare
      obtain ⟨left, rfl⟩ := Nat.exists_eq_add_one_of_ne_zero (by omega : left ≠ 0)
      refine ⟨fields, record, ?_⟩
      rw [further, readFurther_of_separator separates, readFields_of_closing closes]
      simp [Except.map]

theorem reads_noMembers (separator : Separator)
    (children : Derivations [.nonterminal .empty])
    (reads : children.All Reads) : Reads (.node (.noMembers separator) children) := by
  match children, reads with
  | .cons nothing .nil, .cons empty _ =>
      intro fuel token rest closes enough
      have nothing : nothing.yield = [] := empty
      simp only [yield_node, Derivations.yield_cons, Derivations.yield_nil, nothing,
        List.append_nil, List.nil_append] at enough ⊢
      obtain ⟨fuel, rfl⟩ := Nat.exists_eq_add_one_of_ne_zero (by omega : fuel ≠ 0)
      exact ⟨[], rfl, readFields_of_closing closes fuel rest⟩

theorem reads_typeName (children : Derivations [.terminal .identifier]) :
    Reads (.node .typeName children) := by
  match children with
  | .cons (.leaf ⟨kind, text, line, offset⟩ fits) .nil =>
      intro fuel rest _ enough
      cases fits
      obtain ⟨fuel, rfl⟩ := Nat.exists_eq_add_one_of_ne_zero (by omega : fuel ≠ 0)
      exact ⟨.name text, rfl, rfl⟩

theorem readDatatype_of_wrapper (wrapper : Wrapper) (fuel : Nat) (text : Text)
    (line offset : Nat) (rest : List Token) :
    readDatatype (fuel + 1) (⟨.reserved wrapper.word, text, line, offset⟩ :: rest) =
      (readWrapped fuel rest).map fun (inner, behind) => (wrapper.type inner, behind) := by
  cases wrapper <;> rfl

theorem reads_wrapped (wrapper : Wrapper)
    (children : Derivations [.word wrapper.word, .nonterminal .datatype])
    (reads : children.All Reads) : Reads (.node (.wrapped wrapper) children) := by
  match children, reads with
  | .cons (.leaf ⟨kind, text, line, offset⟩ fits) (.cons type .nil),
    .cons _ (.cons read _) =>
      intro fuel rest delimited enough
      cases fits
      simp only [yield_node, Derivations.yield_cons, yield_leaf, Derivations.yield_nil,
        List.append_nil, List.cons_append, List.nil_append, List.length_cons] at enough ⊢
      obtain ⟨fuel, rfl⟩ := Nat.exists_eq_add_one_of_ne_zero (by omega : fuel ≠ 0)
      obtain ⟨fuel, rfl⟩ := Nat.exists_eq_add_one_of_ne_zero (by omega : fuel ≠ 0)
      obtain ⟨inner, result, record⟩ := read fuel rest delimited (by omega)
      have bare : readWrapped (fuel + 1) (type.yield ++ rest) =
          readDatatype fuel (type.yield ++ rest) := by
        rcases type.yield_datatype with ⟨⟨kind, _, _, _⟩, shape, fits⟩ |
          ⟨⟨kind, _, _, _⟩, others, word, shape, fits⟩ <;>
          cases fits <;> rw [shape] <;> rfl
      refine ⟨wrapper.type inner, ?_, ?_⟩
      · rw [readDatatype_of_wrapper, bare, result]
        rfl
      · rw [wrapper.node_type, record]
        rfl

theorem reads_angled (wrapper : Wrapper)
    (children : Derivations
      [.word wrapper.word, .terminal .leftAngle, .nonterminal .datatype, .terminal .rightAngle])
    (reads : children.All Reads) : Reads (.node (.angled wrapper) children) := by
  match children, reads with
  | .cons (.leaf ⟨kind, text, line, offset⟩ fits) (.cons (.leaf ⟨opening, _, _, _⟩ opens)
      (.cons type (.cons (.leaf closing closes) .nil))),
    .cons _ (.cons _ (.cons read _)) =>
      intro fuel rest delimited enough
      cases fits
      cases opens
      simp only [yield_node, Derivations.yield_cons, yield_leaf, Derivations.yield_nil,
        List.append_nil, List.append_assoc, List.cons_append, List.nil_append,
        List.length_cons] at enough ⊢
      obtain ⟨fuel, rfl⟩ := Nat.exists_eq_add_one_of_ne_zero (by omega : fuel ≠ 0)
      obtain ⟨fuel, rfl⟩ := Nat.exists_eq_add_one_of_ne_zero (by omega : fuel ≠ 0)
      have ends : closing.kind.continues = false := closes ▸ rfl
      obtain ⟨inner, result, record⟩ :=
        read fuel (closing :: rest) (delimited_cons ends) (by omega)
      refine ⟨wrapper.type inner, ?_, ?_⟩
      · simp only [readDatatype_of_wrapper, readWrapped, result, bind, Except.bind,
          expect_of_kind closes]
        rfl
      · rw [wrapper.node_type, record]
        rfl

theorem reads_compound (compound : Compound)
    (children : Derivations
      [.word compound.word, .terminal .leftBrace, .nonterminal (.members .semicolon),
        .terminal .rightBrace])
    (reads : children.All Reads) : Reads (.node (.compound compound) children) := by
  match children, reads with
  | .cons (.leaf ⟨kind, text, line, offset⟩ fits) (.cons (.leaf opening opens)
      (.cons members (.cons (.leaf closing closes) .nil))),
    .cons _ (.cons _ (.cons read _)) =>
      intro fuel rest _ enough
      cases fits
      simp only [yield_node, Derivations.yield_cons, yield_leaf, Derivations.yield_nil,
        List.append_nil, List.append_assoc, List.cons_append, List.nil_append,
        List.length_cons] at enough ⊢
      obtain ⟨fuel, rfl⟩ := Nat.exists_eq_add_one_of_ne_zero (by omega : fuel ≠ 0)
      obtain ⟨fields, record, result⟩ := read fuel closing rest closes (by omega)
      refine ⟨compound.type fields, ?_, ?_⟩
      · simp only [Separator.kind, Separator.closing] at result
        cases compound <;>
          simp only [readDatatype, Compound.word, expect_of_kind opens, bind, Except.bind,
            result] <;>
          rfl
      · rw [compound.node_type, record]
        rfl

theorem reads_signature
    (children : Derivations
      [.terminal .leftParen, .nonterminal (.members .comma), .terminal .rightParen,
        .terminal .arrow, .terminal .leftParen, .nonterminal (.members .comma),
        .terminal .rightParen, .nonterminal .modes])
    (reads : children.All Reads) : Reads (.node .signature children) := by
  match children, reads with
  | .cons (.leaf first opensArgs) (.cons args (.cons (.leaf second closesArgs)
      (.cons (.leaf third arrow) (.cons (.leaf fourth opensResults) (.cons results
        (.cons (.leaf fifth closesResults) (.cons modes .nil))))))),
    .cons _ (.cons readArgs (.cons _ (.cons _ (.cons _ (.cons readResults (.cons _
      (.cons readsModes _))))))) =>
      intro fuel rest delimited enough
      simp only [yield_node, Derivations.yield_cons, yield_leaf, Derivations.yield_nil,
        List.append_nil, List.append_assoc, List.cons_append, List.nil_append,
        List.length_cons, List.length_append] at enough ⊢
      obtain ⟨fuel, rfl⟩ := Nat.exists_eq_add_one_of_ne_zero (by omega : fuel ≠ 0)
      obtain ⟨argFields, argRecord, argResult⟩ :=
        readArgs fuel second
          (third :: fourth :: (results.yield ++ fifth :: (modes.yield ++ rest))) closesArgs
          (by simp only [List.length_cons, List.length_append]; omega)
      obtain ⟨resultFields, resultRecord, resultResult⟩ :=
        readResults fuel fifth (modes.yield ++ rest) closesResults
          (by simp only [List.length_cons, List.length_append]; omega)
      have noMode : readModes rest = ([], rest) := readModes_of_delimited delimited
      have modesResult := readsModes rest
      rw [noMode] at modesResult
      refine ⟨.mk argFields resultFields modes.record, ?_, ?_⟩
      · simp only [Separator.kind, Separator.closing] at argResult resultResult
        simp only [readSignature, expect_of_kind opensArgs, expect_of_kind arrow,
          expect_of_kind opensResults, bind, Except.bind, argResult, resultResult, modesResult,
          List.append_nil]
        rfl
      · simp only [Signature.toText, argRecord, resultRecord]
        rfl

theorem reads_funcType (children : Derivations [.word .funcWord, .nonterminal .signature])
    (reads : children.All Reads) : Reads (.node .funcType children) := by
  match children, reads with
  | .cons (.leaf ⟨kind, text, line, offset⟩ fits) (.cons signature .nil),
    .cons _ (.cons read _) =>
      intro fuel rest delimited enough
      cases fits
      simp only [yield_node, Derivations.yield_cons, yield_leaf, Derivations.yield_nil,
        List.append_nil, List.cons_append, List.nil_append, List.length_cons] at enough ⊢
      obtain ⟨fuel, rfl⟩ := Nat.exists_eq_add_one_of_ne_zero (by omega : fuel ≠ 0)
      obtain ⟨function, result, record⟩ := read fuel rest delimited (by omega)
      refine ⟨.func function, ?_, ?_⟩
      · rw [readDatatype]
        simp only [result, bind, Except.bind]
        rfl
      · rw [Datatype.node_func, record]
        rfl

theorem reads_serviceType
    (children : Derivations [.word .serviceWord, .nonterminal .serviceBody])
    (reads : children.All Reads) : Reads (.node .serviceType children) := by
  match children, reads with
  | .cons (.leaf ⟨kind, text, line, offset⟩ fits) (.cons body .nil),
    .cons _ (.cons read _) =>
      intro fuel rest _ enough
      cases fits
      simp only [yield_node, Derivations.yield_cons, yield_leaf, Derivations.yield_nil,
        List.append_nil, List.cons_append, List.nil_append, List.length_cons] at enough ⊢
      obtain ⟨fuel, rfl⟩ := Nat.exists_eq_add_one_of_ne_zero (by omega : fuel ≠ 0)
      obtain ⟨members, start, brace, result, record⟩ := read fuel rest (by omega)
      refine ⟨.service members, ?_, ?_⟩
      · rw [readDatatype]
        simp only [brace, result, bind, Except.bind]
        rfl
      · rw [Datatype.node_service, record]
        rfl

theorem reads_serviceBody
    (children : Derivations
      [.terminal .leftBrace, .nonterminal .methods, .terminal .rightBrace])
    (reads : children.All Reads) : Reads (.node .serviceBody children) := by
  match children, reads with
  | .cons (.leaf opening opens) (.cons methods (.cons (.leaf closing closes) .nil)),
    .cons _ (.cons read _) =>
      intro fuel rest enough
      simp only [yield_node, Derivations.yield_cons, yield_leaf, Derivations.yield_nil,
        List.append_nil, List.append_assoc, List.cons_append, List.nil_append,
        List.length_cons] at enough ⊢
      obtain ⟨members, left, spare, record, result⟩ := read fuel (closing :: rest) (by omega)
      obtain ⟨left, rfl⟩ := Nat.exists_eq_add_one_of_ne_zero (by omega : left ≠ 0)
      refine ⟨members, _, expect_of_kind opens _, ?_, record⟩
      rw [result]
      simp [readMembers, expect_of_kind closes, Except.map]

theorem reads_noMethods (children : Derivations [.nonterminal .empty])
    (reads : children.All Reads) : Reads (.node .noMethods children) := by
  match children, reads with
  | .cons nothing .nil, .cons empty _ =>
      intro fuel rest enough
      have nothing : nothing.yield = [] := empty
      simp only [yield_node, Derivations.yield_cons, Derivations.yield_nil, nothing,
        List.append_nil, List.nil_append] at enough ⊢
      refine ⟨[], fuel, enough, rfl, ?_⟩
      cases readMembers fuel rest <;> rfl

theorem reads_moreMethods
    (children : Derivations [.nonterminal .methods, .nonterminal .method])
    (reads : children.All Reads) : Reads (.node .moreMethods children) := by
  match children, reads with
  | .cons methods (.cons method .nil), .cons readMethods (.cons readMethod _) =>
      intro fuel rest enough
      simp only [yield_node, Derivations.yield_cons, Derivations.yield_nil, List.append_nil,
        List.append_assoc] at enough ⊢
      obtain ⟨members, middle, spare, record, result⟩ :=
        readMethods fuel (method.yield ++ rest) enough
      obtain ⟨member, left, remaining, memberRecord, memberResult⟩ :=
        readMethod middle rest spare
      refine ⟨members ++ [member], left, remaining, ?_, ?_⟩
      · rw [List.map_append, record, record_moreMethods, ← memberRecord]
        rfl
      · rw [result, memberResult]
        cases readMembers left rest <;> simp [Except.map]

def readDeclared (label : Text) (fuel : Nat) (start : List Token) :
    Except Unread (Member × List Token) :=
  match start with
  | ⟨.identifier, typeName, _, offset⟩ :: rest => .ok (.referenced label typeName offset, rest)
  | _ => do
    let (signature, behind) ← readSignature fuel start
    pure (.declared label signature, behind)

theorem readMembers_of_label (label : Derivation (.nonterminal .label)) {separator : Token}
    (separates : separator.kind = .colon) (read : label.Reads) (fuel : Nat)
    (start : List Token) :
    readMembers (fuel + 1) (label.yield ++ separator :: start) = (do
      let (member, behind) ← readDeclared label.record fuel start
      let rest ← expect .semicolon behind
      let (others, behind) ← readMembers fuel rest
      pure (member :: others, behind)) := by
  obtain ⟨unread, refused⟩ := expect_closing_of_opening .semicolon
    (Opening.append label.opens (separator :: start))
  simp only [Separator.closing] at refused
  rw [readMembers, refused, read (separator :: start)]
  simp only [bind, Except.bind, expect_of_kind separates]
  rfl

theorem yield_signature (signature : Derivation (.nonterminal .signature)) :
    ∃ token rest, signature.yield = token :: rest ∧ token.kind = .leftParen := by
  cases signature with
  | node production children =>
      cases production with
      | signature =>
          match children with
          | .cons (.leaf token opens) others => exact ⟨token, others.yield, rfl, opens⟩

theorem readDeclared_of_signature (label : Text)
    (signature : Derivation (.nonterminal .signature)) (fuel : Nat) (rest : List Token) :
    readDeclared label fuel (signature.yield ++ rest) =
      (readSignature fuel (signature.yield ++ rest)).map fun (signature, behind) =>
        (.declared label signature, behind) := by
  obtain ⟨⟨kind, _, _, _⟩, others, front, opens⟩ := signature.yield_signature
  cases opens
  rw [front]
  rfl

theorem reads_signatureMethod
    (children : Derivations
      [.nonterminal .label, .terminal .colon, .nonterminal .signature, .terminal .semicolon])
    (reads : children.All Reads) : Reads (.node .signatureMethod children) := by
  match children, reads with
  | .cons label (.cons (.leaf separator separates)
      (.cons signature (.cons (.leaf last ends) .nil))),
    .cons readLabel (.cons _ (.cons readSignature _)) =>
      intro fuel rest enough
      simp only [yield_node, Derivations.yield_cons, yield_leaf, Derivations.yield_nil,
        List.append_nil, List.append_assoc, List.cons_append, List.nil_append,
        List.length_append, List.length_cons] at enough ⊢
      obtain ⟨fuel, rfl⟩ := Nat.exists_eq_add_one_of_ne_zero (by omega : fuel ≠ 0)
      have delimited : Delimited (last :: rest) := delimited_cons (ends ▸ rfl)
      obtain ⟨function, result, record⟩ := readSignature fuel (last :: rest) delimited
        (by simp only [List.length_append, List.length_cons]; omega)
      refine ⟨.declared label.record function, fuel, by omega, ?_, ?_⟩
      · rw [Member.node, record]
        rfl
      · rw [readMembers_of_label label separates readLabel]
        have declared : readDeclared label.record fuel (signature.yield ++ last :: rest) =
            .ok (.declared label.record function, last :: rest) := by
          rw [readDeclared_of_signature, result]
          rfl
        rw [declared]
        simp only [bind, Except.bind, expect_of_kind ends]
        cases readMembers fuel rest <;> rfl

theorem reads_aliasMethod
    (children : Derivations
      [.nonterminal .label, .terminal .colon, .terminal .identifier, .terminal .semicolon])
    (reads : children.All Reads) : Reads (.node .aliasMethod children) := by
  match children, reads with
  | .cons label (.cons (.leaf separator separates)
      (.cons (.leaf ⟨kind, name, line, offset⟩ fits) (.cons (.leaf last ends) .nil))),
    .cons readLabel _ =>
      intro fuel rest enough
      cases fits
      simp only [yield_node, Derivations.yield_cons, yield_leaf, Derivations.yield_nil,
        List.append_nil, List.append_assoc, List.cons_append, List.nil_append,
        List.length_append, List.length_cons] at enough ⊢
      obtain ⟨fuel, rfl⟩ := Nat.exists_eq_add_one_of_ne_zero (by omega : fuel ≠ 0)
      refine ⟨.referenced label.record name offset, fuel, by omega, rfl, ?_⟩
      rw [readMembers_of_label label separates readLabel]
      simp only [readDeclared, bind, Except.bind, expect_of_kind ends]
      cases readMembers fuel rest <;> rfl

/-- The readers of types and services accept every sentence of their nonterminals. -/
theorem reads {symbol : Symbol} (tree : Derivation symbol) : tree.Reads := by
  induction tree using Derivation.induction with
  | leaf => trivial
  | node production children reads =>
      cases production with
      | label form => exact reads_label form children
      | noModes => exact reads_noModes children reads
      | moreModes mode => exact reads_moreModes mode children reads
      | labelledMember separator => exact reads_labelledMember separator children reads
      | bareMember separator => exact reads_bareMember separator children reads
      | oneMember separator => exact reads_oneMember separator children reads
      | moreMembers separator => exact reads_moreMembers separator children reads
      | membersBare separator => exact reads_membersBare separator children reads
      | membersEnded separator => exact reads_membersEnded separator children reads
      | noMembers separator => exact reads_noMembers separator children reads
      | typeName => exact reads_typeName children
      | wrapped wrapper => exact reads_wrapped wrapper children reads
      | angled wrapper => exact reads_angled wrapper children reads
      | compound compound => exact reads_compound compound children reads
      | signature => exact reads_signature children reads
      | funcType => exact reads_funcType children reads
      | serviceType => exact reads_serviceType children reads
      | serviceBody => exact reads_serviceBody children reads
      | noMethods => exact reads_noMethods children reads
      | moreMethods => exact reads_moreMethods children reads
      | signatureMethod => exact reads_signatureMethod children reads
      | aliasMethod => exact reads_aliasMethod children reads
      | empty =>
          cases children
          exact Derivations.yield_nil
      | _ => trivial

end Derivation

end Candid.Idl
