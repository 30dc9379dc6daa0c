import Candid.Proofs.Fragment.Leaves
import Candid.Proofs.Outcome

/-!
# Replaced leaves

Replacing the leaves of an outline fails with the error of the first leaf, from the left, that has none
to replace it, and depends on nothing but the replacements of its leaves.
-/

set_option autoImplicit false

namespace Candid

namespace Outline

variable {ε : Type} {replace : Text → Except ε Outline}

theorem failure?_substituteFields {fields : List (Text × Outline)}
    (each : ∀ field ∈ fields, failure? (field.2.substitute replace) =
      field.2.leaves.findSome? fun leaf => failure? (replace leaf)) :
    failure? (substituteFields replace fields) =
      (fieldLeaves fields).findSome? fun leaf => failure? (replace leaf) := by
  induction fields with
  | nil => rfl
  | cons field rest ih =>
      obtain ⟨name, type⟩ := field
      have first := each (name, type) List.mem_cons_self
      have others := ih fun field member => each field (List.mem_cons_of_mem _ member)
      rw [substituteFields, fieldLeaves, List.findSome?_append, ← first, ← others]
      refine failure?_bind fun type => ?_
      exact failure?_map _

theorem failure?_substituteCases {cases : List (Text × Option Outline)}
    (each : ∀ item ∈ cases, ∀ type ∈ item.2, failure? (type.substitute replace) =
      type.leaves.findSome? fun leaf => failure? (replace leaf)) :
    failure? (substituteCases replace cases) =
      (caseLeaves cases).findSome? fun leaf => failure? (replace leaf) := by
  induction cases with
  | nil => rfl
  | cons item rest ih =>
      have others := ih fun item member => each item (List.mem_cons_of_mem _ member)
      match item with
      | (name, none) =>
          rw [substituteCases, caseLeaves, ← others]
          exact failure?_map _
      | (name, some type) =>
          have first := each (name, some type) List.mem_cons_self type rfl
          rw [substituteCases, caseLeaves, List.findSome?_append, ← first, ← others]
          refine failure?_bind fun type => ?_
          exact failure?_map _

/-- The replacement of an outline fails with the first error of its leaves. -/
theorem failure?_substitute (replace : Text → Except ε Outline) (outline : Outline) :
    failure? (outline.substitute replace) =
      outline.leaves.findSome? fun leaf => failure? (replace leaf) := by
  induction outline using Outline.induction with
  | opt inner ih => exact (failure?_map _).trans ih
  | vec inner ih => exact (failure?_map _).trans ih
  | record fields ih => exact (failure?_map _).trans (failure?_substituteFields ih)
  | variant cases ih => exact (failure?_map _).trans (failure?_substituteCases ih)
  | leaf text => simp [substitute, leaves]

theorem exists_substitute_iff {outline : Outline} :
    (∃ replaced, outline.substitute replace = .ok replaced) ↔
      ∀ leaf ∈ outline.leaves, ∃ replaced, replace leaf = .ok replaced := by
  rw [← failure?_eq_none, failure?_substitute, List.findSome?_eq_none_iff]
  simp only [failure?_eq_none]

section Congruence

variable {other : Text → Except ε Outline}

theorem substituteFields_congr {fields : List (Text × Outline)}
    (each : ∀ field ∈ fields, field.2.substitute replace = field.2.substitute other) :
    substituteFields replace fields = substituteFields other fields := by
  induction fields with
  | nil => rfl
  | cons field rest ih =>
      obtain ⟨name, type⟩ := field
      have first := each (name, type) List.mem_cons_self
      rw [substituteFields, substituteFields, ← first,
        ih fun field member => each field (List.mem_cons_of_mem _ member)]

theorem substituteCases_congr {cases : List (Text × Option Outline)}
    (each : ∀ item ∈ cases, ∀ type ∈ item.2, type.substitute replace = type.substitute other) :
    substituteCases replace cases = substituteCases other cases := by
  induction cases with
  | nil => rfl
  | cons item rest ih =>
      have others := ih fun item member => each item (List.mem_cons_of_mem _ member)
      match item with
      | (name, none) => rw [substituteCases, substituteCases, others]
      | (name, some type) =>
          have first := each (name, some type) List.mem_cons_self type rfl
          rw [substituteCases, substituteCases, ← first, others]

/-- What an outline becomes depends on the replacements of its leaves only. -/
theorem substitute_congr {outline : Outline}
    (same : ∀ leaf ∈ outline.leaves, replace leaf = other leaf) :
    outline.substitute replace = outline.substitute other := by
  induction outline using Outline.induction with
  | opt inner ih => rw [substitute, substitute, ih same]
  | vec inner ih => rw [substitute, substitute, ih same]
  | record fields ih =>
      rw [substitute, substitute, substituteFields_congr fun field member =>
        ih field member fun leaf inside => same leaf (mem_fieldLeaves.mpr ⟨field, member, inside⟩)]
  | variant cases ih =>
      rw [substitute, substitute, substituteCases_congr fun item member type payload =>
        ih item member type payload fun leaf inside =>
          same leaf (mem_caseLeaves.mpr ⟨item, member, type, payload, inside⟩)]
  | leaf text => exact same text (by simp [leaves])

/-- What succeeds with a replacement succeeds alike with one that agrees where the first succeeds. -/
theorem substitute_of_agree {outline replaced : Outline}
    (done : outline.substitute replace = .ok replaced)
    (agree : ∀ leaf ∈ outline.leaves, ∀ type, replace leaf = .ok type → other leaf = .ok type) :
    outline.substitute other = .ok replaced := by
  refine (substitute_congr fun leaf member => ?_).trans done
  obtain ⟨type, step⟩ := exists_substitute_iff.mp ⟨_, done⟩ leaf member
  exact (agree leaf member type step).trans step.symm

end Congruence

section Collected

variable {α : Type} {collect gather : Text → List α}

theorem flatMap_substituteFields {fields replaced : List (Text × Outline)}
    (each : ∀ field ∈ fields, ∀ type, field.2.substitute replace = .ok type →
      type.leaves.flatMap gather = field.2.leaves.flatMap collect)
    (done : substituteFields replace fields = .ok replaced) :
    (fieldLeaves replaced).flatMap gather = (fieldLeaves fields).flatMap collect := by
  induction fields generalizing replaced with
  | nil =>
      cases done
      rfl
  | cons field rest ih =>
      obtain ⟨type, first, others⟩ := bind_eq_ok.mp done
      obtain ⟨others, further, same⟩ := bind_eq_ok.mp others
      cases same
      rw [fieldLeaves, fieldLeaves, List.flatMap_append, List.flatMap_append,
        each field List.mem_cons_self type first,
        ih (fun field member => each field (List.mem_cons_of_mem _ member)) further]

theorem flatMap_substituteCases {cases replaced : List (Text × Option Outline)}
    (each : ∀ item ∈ cases, ∀ before ∈ item.2, ∀ type, before.substitute replace = .ok type →
      type.leaves.flatMap gather = before.leaves.flatMap collect)
    (done : substituteCases replace cases = .ok replaced) :
    (caseLeaves replaced).flatMap gather = (caseLeaves cases).flatMap collect := by
  induction cases generalizing replaced with
  | nil =>
      cases done
      rfl
  | cons item rest ih =>
      have remaining {others : List (Text × Option Outline)} := @ih others fun item member =>
        each item (List.mem_cons_of_mem _ member)
      match item with
      | (name, none) =>
          obtain ⟨others, further, same⟩ := bind_eq_ok.mp done
          cases same
          rw [caseLeaves, caseLeaves, remaining further]
      | (name, some before) =>
          obtain ⟨type, first, others⟩ := bind_eq_ok.mp done
          obtain ⟨others, further, same⟩ := bind_eq_ok.mp others
          cases same
          rw [caseLeaves, caseLeaves, List.flatMap_append, List.flatMap_append,
            each _ List.mem_cons_self before rfl type first, remaining further]

/-- What is collected from the leaves of the result is collected leaf by leaf. -/
theorem flatMap_substitute {outline replaced : Outline}
    (each : ∀ leaf ∈ outline.leaves, ∀ type, replace leaf = .ok type →
      type.leaves.flatMap gather = collect leaf)
    (done : outline.substitute replace = .ok replaced) :
    replaced.leaves.flatMap gather = outline.leaves.flatMap collect := by
  induction outline using Outline.induction generalizing replaced with
  | opt inner ih | vec inner ih =>
      obtain ⟨type, first, same⟩ := bind_eq_ok.mp done
      cases same
      exact (ih each first : type.leaves.flatMap gather = _)
  | record fields ih =>
      obtain ⟨members, first, same⟩ := bind_eq_ok.mp done
      cases same
      refine flatMap_substituteFields (fun field member type step => ?_) first
      exact ih field member (fun leaf inside =>
        each leaf (mem_fieldLeaves.mpr ⟨field, member, inside⟩)) step
  | variant cases ih =>
      obtain ⟨members, first, same⟩ := bind_eq_ok.mp done
      cases same
      refine flatMap_substituteCases (fun item member before payload type step => ?_) first
      exact ih item member before payload (fun leaf inside =>
        each leaf (mem_caseLeaves.mpr ⟨item, member, before, payload, inside⟩)) step
  | leaf text => simpa [leaves] using each text (by simp [leaves]) replaced done

end Collected

end Outline

end Candid
