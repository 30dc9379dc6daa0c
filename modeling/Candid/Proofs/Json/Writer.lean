import Candid.Json.Writer
import Candid.Proofs.Json.Value
import Candid.Proofs.Outcome

/-!
# Written values

Where numbers that are not finite are written as words, every value has a text whose integers have
numerals within the digit limit.
-/

set_option autoImplicit false

namespace Candid.Json

variable {style : Style} {value : Value}

theorem exists_writeItems {items : List Value} {level : Nat}
    (each : ∀ item ∈ items, ∃ text, item.writeAt style level = .ok text) :
    ∃ parts, writeItems style level items = .ok parts := by
  induction items with
  | nil => exact ⟨[], by rw [writeItems]⟩
  | cons item rest ih =>
      obtain ⟨part, written⟩ := each item (by simp)
      obtain ⟨parts, others⟩ := ih fun item member => each item (by simp [member])
      refine ⟨part :: parts, ?_⟩
      rw [writeItems, written, others]
      rfl

theorem exists_writeMembers {members : List (Text × Value)} {level : Nat}
    (each : ∀ member ∈ members, ∃ text, member.2.writeAt style level = .ok text) :
    ∃ parts, writeMembers style level members = .ok parts := by
  induction members with
  | nil => exact ⟨[], by rw [writeMembers]⟩
  | cons member rest ih =>
      obtain ⟨name, value⟩ := member
      obtain ⟨part, written⟩ := each (name, value) (by simp)
      obtain ⟨parts, others⟩ := ih fun member inside => each member (by simp [inside])
      simp only at written
      refine ⟨(quoted true name ++ ':' :: style.memberGap ++ part) :: parts, ?_⟩
      rw [writeMembers, written, others]
      rfl

/-- A value whose integers are within the digit limit has a text, if no number is refused. -/
theorem exists_writeAt (words : style.nonFinite = .written) (limited : value.Limited) (level : Nat) :
    ∃ text, value.writeAt style level = .ok text := by
  induction value using Value.induction generalizing level with
  | null => exact ⟨_, by rw [Value.writeAt]⟩
  | bool flag => cases flag <;> exact ⟨_, by rw [Value.writeAt]⟩
  | integer number =>
      refine ⟨Numeral.ofInt number, ?_⟩
      rw [Value.writeAt, writeInteger, Numeral.write, if_pos (limited number (.self _))]
      rfl
  | float number =>
      rw [Value.writeAt, words]
      cases number with
      | finite => exact ⟨_, rfl⟩
      | infinite negative => cases negative <;> exact ⟨_, rfl⟩
      | nan => exact ⟨_, rfl⟩
  | text content => exact ⟨_, by rw [Value.writeAt]⟩
  | list items ih =>
      obtain ⟨parts, written⟩ := exists_writeItems fun item member =>
        ih item member (fun number inside => limited number (.item member inside)) (level + 1)
      exact ⟨_, by rw [Value.writeAt, written]; rfl⟩
  | object members ih =>
      obtain ⟨parts, written⟩ := exists_writeMembers fun member inside =>
        ih member inside (fun number holds => limited number (.member inside holds)) (level + 1)
      exact ⟨_, by rw [Value.writeAt, written]; rfl⟩

end Candid.Json
