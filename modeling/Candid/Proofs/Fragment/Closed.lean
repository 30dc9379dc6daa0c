import Candid.Proofs.Fragment.Rendered
import Mathlib.Tactic.MkIffOfInductiveProp

/-!
# Closed texts

A text without outer blanks is closed if the reader of nested brackets stands outside quotes behind it,
with all counters at zero. Whatever else a closed text holds, the reader goes on behind it as it would
without it, but for a hyphen that the text may end with. So fields and cases of closed texts are read
back from their written form, in which a space or a semicolon stands behind each of them.
-/

set_option autoImplicit false

namespace Candid

open Idl (outermost)

namespace Nesting

/-- Only inside quotes does a character escape the next one. -/
theorem quoted_of_escaped_step (state : Nesting) (c : Char)
    (escaped : (state.step c).escaped = true) : (state.step c).quoted = true := by
  cases before : state.escaped with
  | true => simp [step, before] at escaped
  | false =>
      cases quoted : state.quoted with
      | true =>
          by_cases escape : c = '\\'
          · simp [step, before, quoted, escape]
          · by_cases quote : c = '"'
            · simp [step, before, quoted, quote] at escaped
            · simp [step, before, quoted, escape, quote] at escaped
      | false =>
          -- Outside quotes no branch of the step sets the flag.
          simp only [step, before, quoted, Bool.false_eq_true, ↓reduceIte] at escaped
          repeat' split at escaped
          all_goals cases escaped

theorem quoted_of_escaped (text : Text) (escaped : (start.run text).escaped = true) :
    (start.run text).quoted = true := by
  obtain none | ⟨front, c, rfl⟩ := List.eq_nil_or_concat' text
  · subst none
    cases escaped
  · rw [run_append] at escaped ⊢
    exact quoted_of_escaped_step _ c escaped

end Nesting

open Nesting

/-- The text has no outer blanks, and the reader, started in front of it, ends outside quotes with all
three counters at zero. -/
@[mk_iff]
structure IsClosed (text : Text) : Prop where
  trimmed : text.trim = text
  unquoted : (start.run text).quoted = false
  braces : (start.run text).braces = 0
  parens : (start.run text).parens = 0
  angles : (start.run text).angles = 0

instance (text : Text) : Decidable (IsClosed text) :=
  decidable_of_iff _ (isClosed_iff text).symm

/-- Of the six parts of the reader only the hyphen can tell what a closed text held. -/
theorem IsClosed.back {text : Text} (closed : IsClosed text) :
    ∃ hyphen, start.run text = atDepth outermost hyphen := by
  have unescaped : (start.run text).escaped = false := by
    cases escaped : (start.run text).escaped with
    | false => rfl
    | true => exact (closed.unquoted ▸ quoted_of_escaped text escaped).symm
  obtain ⟨_, unquoted, braces, parens, angles⟩ := closed
  exists (start.run text).afterHyphen
  rcases state : start.run text with ⟨_, _, _, _, _, hyphen⟩
  rw [state] at unquoted braces parens angles unescaped
  cases unquoted
  cases braces
  cases parens
  cases angles
  cases unescaped
  rfl

theorem eq_unmarked_of_offsets {marks : List (Char × Bool)} {first : Nat}
    (none : ((marks.zipIdx first).filterMap fun ((_, mark), offset) =>
      if mark then some offset else none) = []) : marks = unmarked (marks.map (·.1)) := by
  induction marks generalizing first with
  | nil => rfl
  | cons entry marks ih =>
      obtain ⟨c, mark⟩ := entry
      cases mark with
      | true => simp at none
      | false =>
          have others := @ih (first + 1) (by simpa using none)
          rw [others]
          simp [unmarked]

/-- Between a closed text and its surroundings no separator is found that is not found in the text. -/
theorem IsClosed.level {separator : Char} {text : Text} (closed : IsClosed text)
    (none : separatorOffsets separator text = []) : Level separator outermost text := by
  constructor
  · exact closed.back
  · have quiet := eq_unmarked_of_offsets none
    rw [marked_map_fst] at quiet
    exact quiet

@[mk_iff]
structure NamesMember (name : Text) : Prop where
  closed : IsClosed name
  some : name ≠ []
  bare : name.isQuoted = false
  colons : separatorOffsets ':' name = []
  semicolons : separatorOffsets ';' name = []

instance (name : Text) : Decidable (NamesMember name) :=
  decidable_of_iff _ (namesMember_iff name).symm

@[mk_iff]
structure TypesMember (type : Text) : Prop where
  closed : IsClosed type
  semicolons : separatorOffsets ';' type = []

instance (type : Text) : Decidable (TypesMember type) :=
  decidable_of_iff _ (typesMember_iff type).symm

theorem NamesMember.isLabel {name : Text} (names : NamesMember name) : IsLabel name where
  solid := Text.solid_of_trim names.closed.trimmed names.some
  bare := names.bare
  colon := names.closed.level names.colons
  semicolon := names.closed.level names.semicolons

theorem TypesMember.isPayload {type : Text} (types : TypesMember type) : IsPayload type where
  trimmed := types.closed.trimmed
  level := types.closed.level types.semicolons

/-- Lists of fields and of cases are read back from their written form. -/
theorem members_of_rendered :
    (∀ fields : List FieldText,
      (∀ field ∈ fields, NamesMember field.name ∧ TypesMember field.type) →
        recordFields (renderRecord fields) = fields) ∧
    (∀ cases : List CaseText,
      (∀ item ∈ cases, NamesMember item.name ∧ ∀ type ∈ item.type, TypesMember type ∧ type ≠ []) →
        variantCases (renderVariant cases) = cases) := by
  constructor
  · intro fields closed
    apply recordFields_renderRecord
    intro field member
    obtain ⟨names, types⟩ := closed field member
    exact ⟨names.isLabel, types.isPayload⟩
  · intro cases closed
    apply variantCases_renderVariant
    intro item member
    obtain ⟨names, types⟩ := closed item member
    refine ⟨names.isLabel, fun type payload => ?_⟩
    obtain ⟨types, some⟩ := types type payload
    exact ⟨types.isPayload, some⟩

/-- Labels with quoted marks, a type that closes a brace before it opens one, an empty type and a
case without a payload. -/
theorem members_of_rendered_marks :
    recordFields (renderRecord
        [⟨"k\"\x7d;\"-".toList, "record \x7b x : nat; y : vec <text> \x7d".toList⟩,
          ⟨"(a:b)".toList, []⟩, ⟨"c".toList, "\x7d;\x7b".toList⟩]) =
      [⟨"k\"\x7d;\"-".toList, "record \x7b x : nat; y : vec <text> \x7d".toList⟩,
        ⟨"(a:b)".toList, []⟩, ⟨"c".toList, "\x7d;\x7b".toList⟩] ∧
    variantCases (renderVariant
        [⟨"A".toList, none⟩, ⟨"B<;>".toList, some "func (nat; text) -> ()".toList⟩]) =
      [⟨"A".toList, none⟩, ⟨"B<;>".toList, some "func (nat; text) -> ()".toList⟩] := by
  constructor
  · apply members_of_rendered.1
    simp only [List.forall_mem_cons]
    decide
  · apply members_of_rendered.2
    simp only [List.forall_mem_cons]
    decide

end Candid
