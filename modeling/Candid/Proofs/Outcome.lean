import Mathlib.Data.List.Forall2

/-!
# Outcomes in sequence

When steps that may fail, one after the other, succeed, and with which error they fail. The results of
the steps are related to their sources one by one.
-/

set_option autoImplicit false

namespace Candid

theorem bind_eq_ok {ε α β : Type} {source : Except ε α} {next : α → Except ε β} {result : β} :
    source >>= next = .ok result ↔ ∃ value, source = .ok value ∧ next value = .ok result := by
  cases source with
  | error error => simp [bind, Except.bind]
  | ok value => simp [bind, Except.bind]

theorem bind_eq_error {ε α β : Type} {source : Except ε α} {next : α → Except ε β} {error : ε} :
    source >>= next = .error error ↔
      source = .error error ∨ ∃ value, source = .ok value ∧ next value = .error error := by
  cases source with
  | error other => simp [bind, Except.bind]
  | ok value => simp [bind, Except.bind]

theorem map_eq_ok {ε α β : Type} {source : Except ε α} {image : α → β} {result : β} :
    source.map image = .ok result ↔ ∃ value, source = .ok value ∧ image value = result := by
  cases source with
  | error error => simp [Except.map]
  | ok value => simp [Except.map]

theorem mapError_eq_ok {ε δ α : Type} {change : ε → δ} {source : Except ε α} {result : α} :
    source.mapError change = .ok result ↔ source = .ok result := by
  cases source <;> simp [Except.mapError]

theorem mapError_bind {ε α β : Type} (change : ε → ε) (source : Except ε α) (next : α → Except ε β) :
    (source >>= next).mapError change =
      source.mapError change >>= fun value => (next value).mapError change := by
  cases source <;> rfl

/-- Where each step succeeds with a good value, the steps in sequence give good values. -/
theorem exists_mapM {ε α β : Type} {step : α → Except ε β} {good : α → β → Prop} {items : List α}
    (each : ∀ item ∈ items, ∃ value, step item = .ok value ∧ good item value) :
    ∃ values, items.mapM step = .ok values ∧ List.Forall₂ good items values := by
  induction items with
  | nil => exact ⟨[], rfl, .nil⟩
  | cons item items ih =>
      obtain ⟨value, here, isGood⟩ := each item List.mem_cons_self
      obtain ⟨values, rest, areGood⟩ := ih fun other member => each other (List.mem_cons_of_mem item member)
      refine ⟨value :: values, ?_, .cons isGood areGood⟩
      rw [List.mapM_cons, here, rest]
      rfl

section Related

variable {α β : Type} {related : α → β → Prop} {items : List α} {results : List β}

theorem exists_left_of_forall₂ (each : List.Forall₂ related items results) {result : β}
    (inside : result ∈ results) : ∃ item ∈ items, related item result := by
  induction each with
  | nil => cases inside
  | @cons item first _ _ here _ ih =>
      rcases List.mem_cons.mp inside with rfl | later
      · exact ⟨item, List.mem_cons_self, here⟩
      · obtain ⟨other, member, there⟩ := ih later
        exact ⟨other, List.mem_cons_of_mem item member, there⟩

theorem exists_right_of_forall₂ (each : List.Forall₂ related items results) {item : α}
    (inside : item ∈ items) : ∃ result ∈ results, related item result :=
  exists_left_of_forall₂ each.flip inside

/-- Where the items are good exactly if their results are related as asked for, all are. -/
theorem forall₂_iff_of_agree {good : α → Prop}
    (agree : List.Forall₂ (fun item result => related item result ↔ good item) items results) :
    List.Forall₂ related items results ↔ ∀ item ∈ items, good item := by
  induction agree with
  | nil => simp
  | cons here _ ih => rw [List.forall₂_cons, List.forall_mem_cons, here, ih]

theorem forall_mem_iff_of_agree {good : α → Prop} {fine : β → Prop}
    (agree : List.Forall₂ (fun item result => fine result ↔ good item) items results) :
    (∀ result ∈ results, fine result) ↔ ∀ item ∈ items, good item := by
  induction agree with
  | nil => simp
  | cons here _ ih => rw [List.forall_mem_cons, List.forall_mem_cons, here, ih]

end Related

def failure? {ε α : Type} : Except ε α → Option ε
  | .ok _ => none
  | .error error => some error

section Failure

variable {ε α β : Type} {outcome : Except ε α}

theorem failure?_eq_none : failure? outcome = none ↔ ∃ value, outcome = .ok value := by
  cases outcome <;> simp [failure?]

theorem failure?_eq_some {error : ε} : failure? outcome = some error ↔ outcome = .error error := by
  cases outcome <;> simp [failure?]

theorem failure?_bind {next : α → Except ε β} {rest : Option ε}
    (further : ∀ value, failure? (next value) = rest) :
    failure? (outcome >>= next) = (failure? outcome).or rest := by
  cases outcome with
  | error error => rfl
  | ok value => exact further value

theorem failure?_map (build : α → β) :
    failure? (do let value ← outcome; pure (build value)) = failure? outcome := by
  cases outcome <;> rfl

end Failure

end Candid
