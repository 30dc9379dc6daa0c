import Candid.Proofs.Fragment.Level
import Candid.Proofs.Fragment.Leaves
import Candid.Proofs.Fragment.Plain
import Candid.Proofs.Fragment.Row

/-!
# Reading rendered types

The written form of a record or variant type is read back as its members, if the parts of each member
are level texts. So the outline of the text of an outline is that outline, if its labels and leaves
are legible.
-/

set_option autoImplicit false

namespace Candid

open Idl (outermost Counting structuredWords)
open Alias (Depth)

namespace Text

/-- The text begins and ends with characters that are not blank. -/
structure Solid (text : Text) : Prop where
  front : ∃ c rest, text = c :: rest ∧ isBlank c = false
  back : ∃ rest c, text = rest ++ [c] ∧ isBlank c = false

variable {text other : Text}

theorem Solid.ne_nil (solid : Solid text) : text ≠ [] := by
  obtain ⟨c, rest, rfl, _⟩ := solid.front
  simp

theorem Solid.trimEnd_append (solid : Solid text) (front : Text) :
    trimEnd (front ++ text) = front ++ text := by
  obtain ⟨rest, c, rfl, noBlank⟩ := solid.back
  rw [← List.append_assoc, trimEnd_append_of_solid noBlank]

theorem Solid.trimStart_append (solid : Solid text) (behind : Text) :
    trimStart (text ++ behind) = text ++ behind := by
  obtain ⟨c, rest, rfl, noBlank⟩ := solid.front
  exact trimStart_cons_of_not_blank noBlank _

theorem Solid.between (first : Solid text) (last : Solid other) (middle : Text) :
    Solid (text ++ (middle ++ other)) := by
  obtain ⟨c, rest, rfl, noBlank⟩ := first.front
  obtain ⟨front, d, rfl, solid⟩ := last.back
  exact ⟨⟨c, _, rfl, noBlank⟩, c :: rest ++ (middle ++ front), d, by simp, solid⟩

theorem Solid.trim (solid : Solid text) : text.trim = text := by
  have start := solid.trimStart_append []
  have finish := solid.trimEnd_append []
  rw [List.append_nil] at start
  rw [List.nil_append] at finish
  rw [Text.trim, start, finish]

theorem solid_of_trim (trimmed : text.trim = text) (some : text ≠ []) : Solid text := by
  have start : trimStart text = text := by rw [← trimmed, trimStart_trim]
  rw [Text.trim, start] at trimmed
  constructor
  · rcases trimStart_eq_nil_or_cons text with none | ⟨c, rest, shape, solid⟩
    · exact absurd (start ▸ none) some
    · exact ⟨c, rest, by rw [← start, shape], solid⟩
  · obtain none | ⟨front, c, rfl⟩ := List.eq_nil_or_concat' text
    · exact absurd none some
    · refine ⟨front, c, rfl, ?_⟩
      cases blank : isBlank c with
      | false => rfl
      | true =>
          rw [trimEnd_append_of_blank blank] at trimmed
          have shorter := length_dropWhile_le isBlank front.reverse
          have same := congrArg List.length trimmed
          simp only [trimEnd, List.length_reverse, List.length_append, List.length_singleton]
            at shorter same
          omega

theorem trim_cons_of_blank {c : Char} (blank : isBlank c = true) (text : Text) :
    trim (c :: text) = trim text := by
  simp [trim, trimStart, blank]

theorem trim_append_of_blank {c : Char} (blank : isBlank c = true) (text : Text) :
    trim (text ++ [c]) = trim text := by
  rw [trim, trimStart, List.dropWhile_append]
  split
  · rename_i none
    have nothing : trimStart text = [] := List.isEmpty_iff.mp none
    simp [trim, nothing, blank]
  · exact trimEnd_append_of_blank blank _

end Text

section Members

variable {keyword : Text} {members : List Text}

def renderedBody : List Text → Text
  | [] => []
  | member :: members => ' ' :: (Text.joined "; ".toList (member :: members) ++ [' '])

theorem braced_eq (keyword : Text) (members : List Text) :
    Text.braced keyword members = (keyword ++ [' ']) ++ '{' :: (renderedBody members ++ ['}']) := by
  cases members <;> simp [Text.braced, renderedBody]

theorem solid_braced (solid : keyword.Solid) (members : List Text) :
    (Text.braced keyword members).Solid := by
  have closing : Text.Solid ['}'] := ⟨⟨'}', [], rfl, by decide⟩, [], '}', rfl, by decide⟩
  have shape : Text.braced keyword members =
      keyword ++ ((' ' :: '{' :: renderedBody members) ++ ['}']) := by
    simp [braced_eq]
  rw [shape]
  exact solid.between closing _

/-- The body of a rendered list of members is found between its braces. -/
theorem bracedBody_braced (solid : keyword.Solid) (unbraced : '{' ∉ keyword)
    (members : List Text) :
    bracedBody? (Text.braced keyword members) = some (renderedBody members) := by
  have front : '{' ∉ keyword ++ [' '] := by simpa using unbraced
  have behind : '}' ∉ ([] : Text) := by simp
  rw [bracedBody?, (solid_braced solid members).trim, braced_eq, Text.cut?_append front]
  exact Text.beforeLast?_append _ behind

theorem level_nil {separator : Char} (separates : IsSeparator separator) (depth : Depth) :
    Level separator depth [] :=
  level_of_ordinary separates depth (by simp)

theorem splitTopLevel_renderedBody (level : ∀ member ∈ members, Level ';' outermost member) :
    splitTopLevel ';' (renderedBody members) =
      (members.map Text.trim).filter (!·.isEmpty) := by
  have spaced {text : Text} (level : Level ';' outermost text) :
      Level ';' outermost (' ' :: text) :=
    .space .semicolon (level_nil .semicolon _) level
  have trimmed (text : Text) : Text.trim (' ' :: text) = text.trim :=
    Text.trim_cons_of_blank (by decide) text
  cases members with
  | nil => rfl
  | cons first rest =>
      induction rest generalizing first with
      | nil =>
          have last : Level ';' outermost (' ' :: (first ++ [' '])) :=
            spaced (.space .semicolon (level first (by simp)) (level_nil .semicolon _))
          have body : renderedBody [first] = ' ' :: (first ++ [' ']) := by
            simp [renderedBody, Text.joined]
          rw [body, splitTopLevel_of_level last, trimmed,
            Text.trim_append_of_blank (by decide)]
          rfl
      | cons second rest ih =>
          have body : renderedBody (first :: second :: rest) =
              (' ' :: first) ++ ';' :: renderedBody (second :: rest) := by
            simp [renderedBody, Text.joined_cons]
          rw [body, splitTopLevel_separator .semicolon (spaced (level first (by simp))), trimmed,
            ih second fun member inside => level member (by simp [inside]), ← List.filter_append]
          rfl

theorem memberParts_braced (solid : keyword.Solid) (unbraced : '{' ∉ keyword)
    (level : ∀ member ∈ members, Level ';' outermost member)
    (some : ∀ member ∈ members, member.trim.isEmpty = false) :
    memberParts (Text.braced keyword members) = members.map Text.trim := by
  rw [memberParts, bracedBody_braced solid unbraced]
  simp only [splitTopLevel_renderedBody level, List.filter_eq_self, List.forall_mem_map]
  intro member inside
  rw [some member inside]
  rfl

end Members

/-- A label that is found again in front of its colon. -/
structure IsLabel (name : Text) : Prop where
  solid : name.Solid
  bare : name.isQuoted = false
  colon : Level ':' outermost name
  semicolon : Level ';' outermost name

/-- A type that is found again behind a colon and between semicolons. -/
structure IsPayload (type : Text) : Prop where
  trimmed : type.trim = type
  level : Level ';' outermost type

section Labels

variable {name type : Text}

theorem IsLabel.unquoted (label : IsLabel name) : name.unquoted = name := by
  simp [Text.unquoted, label.bare]

theorem level_member {depth : Depth} (label : Level ';' depth name)
    (payload : Level ';' depth type) : Level ';' depth (name ++ " : ".toList ++ type) := by
  have behind : Level ';' depth (':' :: ' ' :: type) :=
    .space .semicolon (level_colon depth) payload
  have whole := Level.space .semicolon label behind
  simpa using whole

/-- Without its outer blanks a member still has its colon between the label and the type. -/
theorem trim_member (label : IsLabel name) (payload : IsPayload type) :
    ∃ behind : Text, (name ++ " : ".toList ++ type).trim = (name ++ [' ']) ++ ':' :: behind ∧
      behind.trim = type := by
  have colon : Text.Solid [':'] := ⟨⟨':', [], rfl, by decide⟩, [], ':', rfl, by decide⟩
  by_cases none : type = []
  · subst none
    refine ⟨[], ?_, rfl⟩
    have solid := (label.solid.between colon [' ']).trim
    have shape : name ++ " : ".toList ++ [] = (name ++ ([' '] ++ [':'])) ++ [' '] := by simp
    rw [shape, Text.trim_append_of_blank (by decide), solid]
    simp
  · have solid := (label.solid.between (Text.solid_of_trim payload.trimmed none) " : ".toList).trim
    refine ⟨' ' :: type, ?_, ?_⟩
    · rw [List.append_assoc, solid]
      simp
    · rw [Text.trim_cons_of_blank (by decide), payload.trimmed]

theorem partitionTopLevel_member (label : IsLabel name) (payload : IsPayload type) :
    partitionTopLevel? ':' (name ++ " : ".toList ++ type).trim = some (name, type) := by
  obtain ⟨behind, shape, rest⟩ := trim_member label payload
  have level : Level ':' outermost (name ++ [' ']) :=
    .space .colon label.colon (level_nil .colon _)
  rw [shape, partitionTopLevel_separator .colon level, Text.trim_append_of_blank (by decide),
    label.solid.trim, rest]

theorem isEmpty_trim_member (label : IsLabel name) (payload : IsPayload type) :
    (name ++ " : ".toList ++ type).trim.isEmpty = false := by
  obtain ⟨behind, shape, _⟩ := trim_member label payload
  rw [shape]
  simp

end Labels

namespace FieldText

/-- The field is found again in its written form. -/
structure Readable (field : FieldText) : Prop where
  label : IsLabel field.name
  payload : IsPayload field.type

theorem ofPart_render {field : FieldText} (readable : field.Readable) (position : Nat) :
    ofPart position field.render.trim = field := by
  have some : field.name.isEmpty = false := by simpa using readable.label.solid.ne_nil
  simp only [ofPart, render, partitionTopLevel_member readable.label readable.payload, some,
    readable.label.unquoted, Bool.false_eq_true, ↓reduceIte]

end FieldText

namespace CaseText

structure Readable (item : CaseText) : Prop where
  label : IsLabel item.name
  payload : ∀ type ∈ item.type, IsPayload type ∧ type ≠ []

theorem Readable.level_render {item : CaseText} (readable : item.Readable) :
    Level ';' outermost item.render := by
  obtain ⟨name, type⟩ := item
  cases type with
  | none => exact readable.label.semicolon
  | some type => exact level_member readable.label.semicolon (readable.payload type rfl).1.level

theorem Readable.isEmpty_render {item : CaseText} (readable : item.Readable) :
    item.render.trim.isEmpty = false := by
  obtain ⟨name, type⟩ := item
  cases type with
  | none =>
      have solid := readable.label.solid
      simp only [render, solid.trim, List.isEmpty_eq_false_iff]
      exact solid.ne_nil
  | some type => exact isEmpty_trim_member readable.label (readable.payload type rfl).1

theorem ofPart_render {item : CaseText} (readable : item.Readable) :
    ofPart item.render.trim = item := by
  obtain ⟨name, type⟩ := item
  have label : IsLabel name := readable.label
  cases type with
  | none =>
      simp [ofPart, render, label.solid.trim, partitionTopLevel_of_level label.colon, label.unquoted]
  | some type =>
      obtain ⟨payload, some⟩ := readable.payload type rfl
      have some : type.isEmpty = false := by simpa using some
      simp only [ofPart, render, partitionTopLevel_member label payload, label.unquoted, some,
        Bool.false_eq_true, ↓reduceIte]

end CaseText

theorem solid_record : Text.Solid "record".toList :=
  Text.solid_of_trim (by decide) (by decide)

theorem solid_variant : Text.Solid "variant".toList :=
  Text.solid_of_trim (by decide) (by decide)

theorem recordFields_renderRecord {fields : List FieldText}
    (readable : ∀ field ∈ fields, field.Readable) :
    recordFields (renderRecord fields) = fields := by
  have parts : memberParts (renderRecord fields) = fields.map (·.render.trim) := by
    rw [renderRecord, memberParts_braced solid_record (by decide), List.map_map]
    · rfl
    · simp only [List.forall_mem_map]
      exact fun field member =>
        level_member (readable field member).label.semicolon (readable field member).payload.level
    · simp only [List.forall_mem_map]
      exact fun field member =>
        isEmpty_trim_member (readable field member).label (readable field member).payload
  rw [recordFields, parts]
  refine List.ext_getElem (by simp) fun position _ inside => ?_
  simp only [List.getElem_mapIdx, List.getElem_map]
  exact FieldText.ofPart_render (readable _ (List.getElem_mem inside)) position

theorem variantCases_renderVariant {cases : List CaseText}
    (readable : ∀ item ∈ cases, item.Readable) :
    variantCases (renderVariant cases) = cases := by
  have parts : memberParts (renderVariant cases) = cases.map (·.render.trim) := by
    rw [renderVariant, memberParts_braced solid_variant (by decide), List.map_map]
    · rfl
    · simp only [List.forall_mem_map]
      exact fun item member => (readable item member).level_render
    · simp only [List.forall_mem_map]
      exact fun item member => (readable item member).isEmpty_render
  rw [variantCases, parts, List.map_map]
  conv_rhs => rw [← List.map_id cases]
  exact List.map_congr_left fun item member => CaseText.ofPart_render (readable item member)

end Candid
