import Candid.Alias.Expand

/-!
# Induction over outlines

What holds of an outline if it holds of the outlines one level below, and the leaves that lie below
the fields of a record and the cases of a variant.
-/

set_option autoImplicit false

namespace Candid.Outline

section Induction

variable {property : Outline → Prop}

mutual

/-- Induction over outlines: a property that each form passes on from the types in it. -/
theorem induction (opt : ∀ inner, property inner → property (.opt inner))
    (vec : ∀ inner, property inner → property (.vec inner))
    (record : ∀ fields : List (Text × Outline),
      (∀ field ∈ fields, property field.2) → property (.record fields))
    (variant : ∀ cases : List (Text × Option Outline),
      (∀ item ∈ cases, ∀ type ∈ item.2, property type) → property (.variant cases))
    (leaf : ∀ text, property (.leaf text)) : (outline : Outline) → property outline
  | .opt inner => opt inner (induction opt vec record variant leaf inner)
  | .vec inner => vec inner (induction opt vec record variant leaf inner)
  | .record fields => record fields (induction_fields opt vec record variant leaf fields)
  | .variant cases => variant cases (induction_cases opt vec record variant leaf cases)
  | .leaf text => leaf text

theorem induction_fields (opt : ∀ inner, property inner → property (.opt inner))
    (vec : ∀ inner, property inner → property (.vec inner))
    (record : ∀ fields : List (Text × Outline),
      (∀ field ∈ fields, property field.2) → property (.record fields))
    (variant : ∀ cases : List (Text × Option Outline),
      (∀ item ∈ cases, ∀ type ∈ item.2, property type) → property (.variant cases))
    (leaf : ∀ text, property (.leaf text)) :
    (fields : List (Text × Outline)) → ∀ field ∈ fields, property field.2
  | [] => by simp
  | (_, type) :: rest => List.forall_mem_cons.mpr
      ⟨induction opt vec record variant leaf type,
        induction_fields opt vec record variant leaf rest⟩

theorem induction_cases (opt : ∀ inner, property inner → property (.opt inner))
    (vec : ∀ inner, property inner → property (.vec inner))
    (record : ∀ fields : List (Text × Outline),
      (∀ field ∈ fields, property field.2) → property (.record fields))
    (variant : ∀ cases : List (Text × Option Outline),
      (∀ item ∈ cases, ∀ type ∈ item.2, property type) → property (.variant cases))
    (leaf : ∀ text, property (.leaf text)) :
    (cases : List (Text × Option Outline)) → ∀ item ∈ cases, ∀ type ∈ item.2, property type
  | [] => by simp
  | (_, none) :: rest => List.forall_mem_cons.mpr
      ⟨by simp, induction_cases opt vec record variant leaf rest⟩
  | (_, some type) :: rest => List.forall_mem_cons.mpr
      ⟨by simpa using induction opt vec record variant leaf type,
        induction_cases opt vec record variant leaf rest⟩

end

end Induction

theorem mem_fieldLeaves {leaf : Text} {fields : List (Text × Outline)} :
    leaf ∈ fieldLeaves fields ↔ ∃ field ∈ fields, leaf ∈ field.2.leaves := by
  induction fields with
  | nil => simp [fieldLeaves]
  | cons field rest ih =>
      obtain ⟨name, type⟩ := field
      simp [fieldLeaves, ih]

theorem mem_caseLeaves {leaf : Text} {cases : List (Text × Option Outline)} :
    leaf ∈ caseLeaves cases ↔ ∃ item ∈ cases, ∃ type ∈ item.2, leaf ∈ type.leaves := by
  induction cases with
  | nil => simp [caseLeaves]
  | cons item rest ih =>
      obtain ⟨name, type⟩ := item
      cases type <;> simp [caseLeaves, ih]

end Candid.Outline
