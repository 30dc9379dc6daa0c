import Candid.Proofs.Fragment.Outline
import Candid.Proofs.Fragment.Rendered

/-!
# Legible outlines

An outline is legible if its labels hold no marks and its leaves are level texts that no keyword leads.
The text of a legible outline is read back as the outline itself. The outlines of plain type
expressions are legible.
-/

set_option autoImplicit false

namespace Candid

open Idl
open Alias (Depth)

/-- A label without outer blanks that the reader of nested brackets passes over. -/
structure IsLegibleLabel (name : Text) : Prop where
  solid : name.Solid
  ordinary : ∀ c ∈ name, Nesting.isOrdinary c = true

theorem IsLegibleLabel.isLabel {name : Text} (legible : IsLegibleLabel name) : IsLabel name where
  solid := legible.solid
  bare := by
    obtain ⟨c, rest, rfl, _⟩ := legible.solid.front
    have other : c ≠ '"' := by
      rintro rfl
      exact absurd (legible.ordinary '"' (by simp)) (by decide)
    simp [Text.isQuoted, other]
  colon := level_of_ordinary .colon outermost legible.ordinary
  semicolon := level_of_ordinary .semicolon outermost legible.ordinary

/-- A text that is read as a type wherever a type may stand. -/
structure IsTypeText (text : Text) : Prop where
  solid : text.Solid
  unbracketed : text.head? ≠ some '<'
  level : ∀ depth, Counting depth → Level ';' depth text

theorem counting_outermost : Counting outermost :=
  ⟨Int.le_refl 0, Int.le_refl 0, Int.le_refl 0⟩

theorem IsTypeText.isPayload {type : Text} (legible : IsTypeText type) : IsPayload type :=
  ⟨legible.solid.trim, legible.level outermost counting_outermost⟩

namespace Outline

/-- The outline has legible labels, and leaves that are types without structure of their own. -/
inductive Legible : Outline → Prop where
  | opt {inner : Outline} : Legible inner → Legible (.opt inner)
  | vec {inner : Outline} : Legible inner → Legible (.vec inner)
  | record {fields : List (Text × Outline)} :
      (∀ field ∈ fields, IsLegibleLabel field.1) → (∀ field ∈ fields, Legible field.2) →
      Legible (.record fields)
  | variant {cases : List (Text × Option Outline)} :
      (∀ item ∈ cases, IsLegibleLabel item.1) →
      (∀ item ∈ cases, ∀ type ∈ item.2, Legible type) → Legible (.variant cases)
  | leaf {text : Text} (type : IsTypeText text) (plain : leadingWord text ∉ structuredWords) :
      Legible (.leaf text)

theorem renderFields_eq (fields : List (Text × Outline)) :
    renderFields fields =
      (fields.map fun field => (⟨field.1, field.2.render⟩ : FieldText)).map (·.render) := by
  induction fields with
  | nil => rfl
  | cons field rest ih => simp [renderFields, ih]

theorem renderCases_eq (cases : List (Text × Option Outline)) :
    renderCases cases =
      (cases.map fun item => (⟨item.1, item.2.map render⟩ : CaseText)).map (·.render) := by
  induction cases with
  | nil => rfl
  | cons item rest ih =>
      obtain ⟨name, type⟩ := item
      cases type <;> simp [renderCases, ih]

end Outline

section Braced

variable {depth : Depth} {keyword : Text} {members : List Text}

theorem level_renderedBody (inner : depth ≠ outermost)
    (level : ∀ member ∈ members, Level ';' depth member) :
    Level ';' depth (renderedBody members) := by
  have spaced {text : Text} (level : Level ';' depth text) : Level ';' depth (' ' :: text) :=
    .space .semicolon (level_nil .semicolon _) level
  cases members with
  | nil => exact level_nil .semicolon _
  | cons first rest =>
      refine spaced (.space .semicolon ?_ (level_nil .semicolon _))
      induction rest generalizing first with
      | nil => simpa [Text.joined] using level first (by simp)
      | cons second rest ih =>
          have further := ih second fun member inside => level member (by simp [inside])
          have whole := (level first (by simp)).semicolon inner further
          simpa [Text.joined_cons] using whole

theorem level_braced (counting : Counting depth)
    (ordinary : ∀ c ∈ keyword, Nesting.isOrdinary c = true)
    (level : ∀ depth, Counting depth → ∀ member ∈ members, Level ';' depth member) :
    Level ';' depth (Text.braced keyword members) := by
  have deeper : Counting { depth with braces := depth.braces + 1 } :=
    ⟨by have := counting.1; simp only; omega, counting.2.1, counting.2.2⟩
  have inner : ({ depth with braces := depth.braces + 1 } : Depth) ≠ outermost := by
    intro same
    have zero : depth.braces + 1 = 0 := congrArg Depth.braces same
    have := counting.1
    omega
  have body := (level_renderedBody inner (level _ deeper)).braces .semicolon
  have whole := Level.space .semicolon (level_of_ordinary .semicolon depth ordinary) body
  simpa [braced_eq] using whole

end Braced

theorem isTypeText_braced {keyword : Text} (solid : keyword.Solid)
    (ordinary : ∀ c ∈ keyword, Nesting.isOrdinary c = true) {members : List Text}
    (level : ∀ depth, Counting depth → ∀ member ∈ members, Level ';' depth member) :
    IsTypeText (Text.braced keyword members) where
  solid := solid_braced solid members
  unbracketed := by
    obtain ⟨c, rest, rfl, _⟩ := solid.front
    rw [braced_eq]
    simp only [List.cons_append, List.head?_cons, ne_eq, Option.some.injEq]
    rintro rfl
    exact absurd (ordinary '<' (by simp)) (by decide)
  level _ counting := level_braced counting ordinary level

/-- A keyword in front of a type is read as a type wherever a type may stand. -/
theorem IsTypeText.wrapped {keyword type : Text} (legible : IsTypeText type)
    (solid : keyword.Solid) (ordinary : ∀ c ∈ keyword, Nesting.isOrdinary c = true) :
    IsTypeText (keyword ++ ' ' :: type) where
  solid := solid.between legible.solid [' ']
  unbracketed := by
    obtain ⟨c, rest, rfl, _⟩ := solid.front
    simp only [List.cons_append, List.head?_cons, ne_eq, Option.some.injEq]
    rintro rfl
    exact absurd (ordinary '<' (by simp)) (by decide)
  level depth counting :=
    .space .semicolon (level_of_ordinary .semicolon depth ordinary) (legible.level depth counting)

theorem leadingWord_keyword (keyword : Reserved) (rest : Text) :
    leadingWord (keyword.text ++ ' ' :: rest) = keyword.text := by
  have spelt : ∃ c tail, keyword.text = c :: tail ∧ isNameStart c = true ∧
      ∀ d ∈ tail, isNamePart d = true := by
    cases keyword <;> exact ⟨_, _, rfl, by decide, List.all_eq_true.mp (by decide)⟩
  obtain ⟨c, tail, shape, start, parts⟩ := spelt
  rw [shape, leadingWord_append start parts (by simp; decide), ← shape, Reserved.lowerLatin_text]

theorem innerType_wrapped (keyword : Reserved) {type : Text} (legible : IsTypeText type)
    (solid : keyword.text.Solid) :
    innerType keyword.text (keyword.text ++ ' ' :: type) = type := by
  have whole : Text.trim (keyword.text ++ ' ' :: type) = keyword.text ++ ' ' :: type :=
    (solid.between legible.solid [' ']).trim
  have front := isPrefixOf_of_leadingWord (leadingWord_keyword keyword type)
  rw [← whole, Text.trimStart_trim] at front
  have behind : Text.trim (' ' :: type) = type := by
    rw [Text.trim_cons_of_blank (by decide), legible.solid.trim]
  simp only [innerType, front, ↓reduceIte]
  rw [whole, List.drop_left, behind]
  simp [withoutAngles, legible.unbracketed]

namespace Outline

/-- The text of a legible outline is read as a type wherever a type may stand. -/
theorem Legible.isTypeText {outline : Outline} (legible : outline.Legible) :
    IsTypeText outline.render := by
  induction legible with
  | opt _ ih =>
      have keyword : Text.Solid "opt".toList := Text.solid_of_trim (by decide) (by decide)
      exact ih.wrapped keyword (List.all_eq_true.mp (by decide))
  | vec _ ih =>
      have keyword : Text.Solid "vec".toList := Text.solid_of_trim (by decide) (by decide)
      exact ih.wrapped keyword (List.all_eq_true.mp (by decide))
  | record labels _ types =>
      rw [render, renderFields_eq]
      refine isTypeText_braced solid_record (List.all_eq_true.mp (by decide)) fun depth counting => ?_
      simp only [List.map_map, List.forall_mem_map]
      intro field member
      exact level_member (level_of_ordinary .semicolon depth (labels field member).ordinary)
        ((types field member).level depth counting)
  | variant labels _ types =>
      rw [render, renderCases_eq]
      refine isTypeText_braced solid_variant (List.all_eq_true.mp (by decide)) fun depth counting => ?_
      simp only [List.map_map, List.forall_mem_map]
      intro item member
      have label := level_of_ordinary .semicolon depth (labels item member).ordinary
      obtain ⟨name, type⟩ := item
      cases type with
      | none => exact label
      | some type => exact level_member label ((types _ member type rfl).level depth counting)
  | leaf type _ => exact type

theorem ofText_wrapped (wrapper : Wrapper) {type : Text} (legible : IsTypeText type) :
    ofText (wrapper.word.text ++ ' ' :: type) = wrapper.outline (ofText type) := by
  have solid : wrapper.word.text.Solid := by
    cases wrapper <;> exact Text.solid_of_trim (by decide) (by decide)
  have whole : Text.trim (wrapper.word.text ++ ' ' :: type) = wrapper.word.text ++ ' ' :: type :=
    (solid.between legible.solid [' ']).trim
  rw [ofText_of_wrapper (by rw [whole, leadingWord_keyword]), whole,
    innerType_wrapped wrapper.word legible solid]

theorem leadingWord_braced (compound : Compound) (members : List Text) :
    leadingWord (Text.braced compound.word.text members) = compound.word.text := by
  rw [braced_eq, List.append_assoc, List.singleton_append, leadingWord_keyword]

/-- The text of a legible outline is read as that outline. -/
theorem Legible.ofText_render {outline : Outline} (legible : outline.Legible) :
    ofText outline.render = outline := by
  induction legible with
  | opt inner ih =>
      have read := ofText_wrapped .opt inner.isTypeText
      rw [ih] at read
      exact read
  | vec inner ih =>
      have read := ofText_wrapped .vec inner.isTypeText
      rw [ih] at read
      exact read
  | @record fields labels types ih =>
      have whole := (Legible.record labels types).isTypeText.solid.trim
      have readable : ∀ field ∈ fields.map fun field => (⟨field.1, field.2.render⟩ : FieldText),
          field.Readable := by
        simp only [List.forall_mem_map]
        exact fun field member =>
          ⟨(labels field member).isLabel, (types field member).isTypeText.isPayload⟩
      have same : render (.record fields) =
          renderRecord (fields.map fun field => ⟨field.1, field.2.render⟩) := by
        rw [render, renderFields_eq, renderRecord]
      have leads : leadingWord (render (.record fields)) = "record".toList :=
        leadingWord_braced .record _
      rw [ofText_of_record (by rw [whole, leads]), whole, same, recordFields_renderRecord readable,
        List.map_map]
      congr 1
      conv_rhs => rw [← List.map_id fields]
      exact List.map_congr_left fun field member => Prod.ext rfl (ih field member)
  | @variant cases labels types ih =>
      have whole := (Legible.variant labels types).isTypeText.solid.trim
      have readable : ∀ item ∈ cases.map fun item => (⟨item.1, item.2.map render⟩ : CaseText),
          item.Readable := by
        simp only [List.forall_mem_map]
        refine fun item member => ⟨(labels item member).isLabel, fun type payload => ?_⟩
        obtain ⟨inner, inside, rfl⟩ := Option.map_eq_some_iff.mp payload
        have legible := (types item member inner inside).isTypeText
        exact ⟨legible.isPayload, legible.solid.ne_nil⟩
      have same : render (.variant cases) =
          renderVariant (cases.map fun item => ⟨item.1, item.2.map render⟩) := by
        rw [render, renderCases_eq, renderVariant]
      have leads : leadingWord (render (.variant cases)) = "variant".toList :=
        leadingWord_braced .variant _
      rw [ofText_of_variant (by rw [whole, leads]), whole, same,
        variantCases_renderVariant readable, List.map_map]
      congr 1
      conv_rhs => rw [← List.map_id cases]
      refine List.map_congr_left fun item member => Prod.ext rfl ?_
      obtain ⟨name, type⟩ := item
      cases type with
      | none => rfl
      | some type => exact congrArg some (ih _ member type rfl)
  | leaf type plain =>
      rw [render, ofText_of_leaf (by rwa [type.solid.trim]), type.solid.trim]

end Outline

end Candid
