import Candid.Proofs.Fragment.Leaves
import Candid.Proofs.Fragment.Outline

/-!
# Leaves of type expressions

Every leaf of the outline of a type expression is a name, or a function or service type with the
keyword of the type in front.
-/

set_option autoImplicit false

namespace Candid

/-- The text is a name, or a keyword that opens a structured type leads it. -/
def IsWorded (leaf : Text) : Prop :=
  isName leaf = true ∨ isCompound leaf = true

namespace Idl

def OutlineValue.leaves : {name : Nonterminal} → OutlineValue name → List Text
  | .members _, members => members.flatMap fun member => member.type.leaves
  | .memberList _, members => members.flatMap fun member => member.type.leaves
  | .member _, member => Outline.leaves member.type
  | .datatype, type => Outline.leaves type
  | _, _ => []

theorem mem_leaves_wrapper {wrapper : Wrapper} {inner : Outline} {leaf : Text}
    (inside : leaf ∈ (wrapper.outline inner).leaves) : leaf ∈ inner.leaves := by
  cases wrapper <;> exact inside

theorem mem_leaves_compound {compound : Compound} {members : List MemberOutline} {leaf : Text}
    (inside : leaf ∈ (compound.outline members).leaves) :
    ∃ member ∈ members, leaf ∈ member.type.leaves := by
  cases compound with
  | record =>
      obtain ⟨field, among, here⟩ := Outline.mem_fieldLeaves.mp inside
      obtain ⟨position, within, rfl⟩ := List.mem_mapIdx.mp among
      exact ⟨members[position], List.getElem_mem within, here⟩
  | variant =>
      obtain ⟨item, among, type, payload, here⟩ := Outline.mem_caseLeaves.mp inside
      obtain ⟨member, within, rfl⟩ := List.mem_map.mp among
      refine ⟨member, within, ?_⟩
      obtain ⟨label, outline⟩ := member
      cases label with
      | some label =>
          cases payload
          exact here
      | none => cases outline <;> cases payload

theorem isName_of_identifier {text : Text} (form : Form .identifier text) : isName text = true := by
  obtain ⟨c, tail, rfl, start, parts, _⟩ := form.of_word rfl
  simpa [isName, start] using parts

def Derivation.Worded (source : Text) : {symbol : Symbol} → Derivation symbol → Prop
  | .terminal _, _ => True
  | .nonterminal _, tree => ∀ row, Covers source row tree.yield →
      ∀ leaf ∈ OutlineValue.leaves (tree.outline source), IsWorded leaf

section Productions

variable {source : Text} {row : List Lexeme} (clean : Clean source)

include clean

/-- A type that a keyword leads keeps it in front. -/
theorem isWorded_written {word : Reserved} {token : Token} {others : List Token}
    (covers : Covers source row (token :: others)) (fits : token.kind = .reserved word)
    (opens : compoundKeywords.contains word.text = true) :
    IsWorded (written source (token :: others)) := by
  obtain ⟨_, _, leads, form, _⟩ := covers.leadingWord clean (by rw [fits]; rfl)
  rw [fits] at form
  rw [covers.trim_spelling clean, form.of_reserved, Reserved.lowerLatin_text] at leads
  rw [covers.written_eq clean (by simp)]
  right
  rw [isCompound, leads]
  exact opens

theorem worded_step {name : Nonterminal} {right : List Symbol} (production : Production name right)
    (children : Derivations right) (each : children.All (Derivation.Worded source)) :
    (Derivation.node production children).Worded source := by
  intro row covers leaf inside
  cases production with
  | typeName =>
      obtain _ | ⟨⟨token, fits⟩, ⟨⟩⟩ := children
      have form := covers.form clean token (by simp)
      rw [fits] at form
      cases List.mem_singleton.mp inside
      exact .inl (isName_of_identifier form)
  | funcType =>
      obtain _ | ⟨⟨token, fits⟩, _ | ⟨signature, ⟨⟩⟩⟩ := children
      cases List.mem_singleton.mp inside
      exact isWorded_written clean covers fits rfl
  | serviceType =>
      obtain _ | ⟨⟨token, fits⟩, _ | ⟨body, ⟨⟩⟩⟩ := children
      cases List.mem_singleton.mp inside
      exact isWorded_written clean covers fits rfl
  | wrapped wrapper =>
      obtain _ | ⟨⟨token, fits⟩, _ | ⟨type, ⟨⟩⟩⟩ := children
      obtain _ | ⟨_, _ | ⟨inner, _⟩⟩ := each
      have covers : Covers source row ([] ++ token :: type.yield) := by simpa using covers
      obtain ⟨_, rest, _, _, further⟩ := covers.cut
      exact inner rest further leaf (mem_leaves_wrapper inside)
  | angled wrapper =>
      obtain _ | ⟨⟨token, fits⟩, _ | ⟨⟨left, opens⟩, _ | ⟨type, _ | ⟨⟨right, closes⟩, ⟨⟩⟩⟩⟩⟩ := children
      obtain _ | ⟨_, _ | ⟨_, _ | ⟨inner, _⟩⟩⟩ := each
      have covers : Covers source row ([token] ++ left :: (type.yield ++ [right])) := by
        simpa using covers
      obtain ⟨_, rest, _, _, further⟩ := covers.cut
      obtain ⟨middle, _, _, between, _⟩ := further.cut
      exact inner middle between leaf (mem_leaves_wrapper inside)
  | compound compound =>
      obtain _ | ⟨⟨token, fits⟩, _ | ⟨⟨left, opens⟩, _ | ⟨members, _ | ⟨⟨right, closes⟩, ⟨⟩⟩⟩⟩⟩ := children
      obtain _ | ⟨_, _ | ⟨_, _ | ⟨inner, _⟩⟩⟩ := each
      have covers : Covers source row ([token] ++ left :: (members.yield ++ [right])) := by
        simpa using covers
      obtain ⟨_, rest, _, _, further⟩ := covers.cut
      obtain ⟨body, _, _, between, _⟩ := further.cut
      exact inner body between leaf (List.mem_flatMap.mpr (mem_leaves_compound inside))
  | labelledMember =>
      obtain _ | ⟨label, _ | ⟨⟨colon, fits⟩, _ | ⟨type, ⟨⟩⟩⟩⟩ := children
      obtain _ | ⟨_, _ | ⟨_, _ | ⟨inner, _⟩⟩⟩ := each
      obtain ⟨form, token, labelled, rfl⟩ := label.exists_labelLeaf
      have covers : Covers source row ([token] ++ colon :: type.yield) := by simpa using covers
      obtain ⟨_, rest, _, _, further⟩ := covers.cut
      exact inner rest further leaf inside
  | bareMember =>
      obtain _ | ⟨type, ⟨⟩⟩ := children
      obtain _ | ⟨inner, _⟩ := each
      exact inner row (by simpa using covers) leaf inside
  | oneMember =>
      obtain _ | ⟨member, ⟨⟩⟩ := children
      obtain _ | ⟨inner, _⟩ := each
      obtain ⟨_, single, here⟩ := List.mem_flatMap.mp inside
      cases List.mem_singleton.mp single
      exact inner row (by simpa using covers) leaf here
  | moreMembers separator =>
      obtain _ | ⟨list, _ | ⟨⟨token, fits⟩, _ | ⟨member, ⟨⟩⟩⟩⟩ := children
      obtain _ | ⟨earlier, _ | ⟨_, _ | ⟨last, _⟩⟩⟩ := each
      have covers : Covers source row (list.yield ++ token :: member.yield) := by
        simpa using covers
      obtain ⟨front, rest, _, before, behind⟩ := covers.cut
      obtain ⟨outline, among, here⟩ := List.mem_flatMap.mp inside
      rcases List.mem_append.mp among with among | single
      · exact earlier front before leaf (List.mem_flatMap.mpr ⟨outline, among, here⟩)
      · cases List.mem_singleton.mp single
        exact last rest behind leaf here
  | membersBare =>
      obtain _ | ⟨list, ⟨⟩⟩ := children
      obtain _ | ⟨inner, _⟩ := each
      exact inner row (by simpa using covers) leaf inside
  | membersEnded separator =>
      obtain _ | ⟨list, _ | ⟨⟨token, fits⟩, ⟨⟩⟩⟩ := children
      obtain _ | ⟨inner, _⟩ := each
      have covers : Covers source row (list.yield ++ token :: []) := by simpa using covers
      obtain ⟨front, _, _, before, _⟩ := covers.cut
      exact inner front before leaf inside
  | noMembers => cases inside
  | _ => cases inside

end Productions

/-- The leaves of the outline of a plain type expression are names and types that a keyword leads. -/
theorem worded_of_plain {text : Text} {type : Derivation (.nonterminal .datatype)}
    (plain : Plain text type) : ∀ leaf ∈ (Outline.ofText text).leaves, IsWorded leaf := by
  have worded : type.Worded text :=
    Derivation.induction (fun _ _ => trivial) (worded_step plain.clean) type
  rw [outline_of_plain plain]
  exact worded (lexemes text) plain.covers

end Idl

end Candid
