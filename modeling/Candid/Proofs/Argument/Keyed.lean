import Candid.Argument.Literal
import Candid.Proofs.Argument.FieldNames

/-!
# Record literals of lists and objects

A record literal is made of a list of values, or of an object that holds each value under the name of
its field or under its position. Where no name is also the position of another field, all these inputs
give the same literal or the same error.
-/

set_option autoImplicit false

namespace Candid.Argument

open Json

/-- The name of a field or its position, under which an object can hold the value of the field. -/
def IsKey (fields : List FieldText) (position : Nat) (key : Text) : Prop :=
  ∃ field, fields[position]? = some field ∧ (key = field.name ∨ key = Numeral.ofNat position)

/-- The names are distinct, and none of them is the position of another field. -/
structure NamesApart (fields : List FieldText) : Prop where
  distinct : (fields.map (·.name)).Nodup
  free : ∀ position other field, fields[position]? = some field → other < fields.length →
    field.name = Numeral.ofNat other → position = other

/-- The object holds each value under a key of its field, and under the keys of fields nothing but
their values. What it holds under other keys does not matter, nor does the order. -/
structure HoldsValues (fields : List FieldText) (values : List Value)
    (members : List (Text × Value)) : Prop where
  each : ∀ position value, values[position]? = some value →
    ∃ key, IsKey fields position key ∧ (key, value) ∈ members
  only : ∀ position key value, IsKey fields position key → (key, value) ∈ members →
    ∃ other, IsKey fields other key ∧ values[other]? = some value

section Keys

variable {fields : List FieldText} {values : List Value} {members : List (Text × Value)}
  {field : FieldText} {value : Value} {position other : Nat} {key : Text}

theorem NamesApart.position_eq (apart : NamesApart fields) (first : IsKey fields position key)
    (second : IsKey fields other key) : position = other := by
  obtain ⟨field, found, named | numbered⟩ := first
  · obtain ⟨twin, again, same | placed⟩ := second
    · obtain ⟨inside, _⟩ := List.getElem?_eq_some_iff.mp found
      refine (List.getElem?_inj (by simpa using inside) apart.distinct).mp ?_
      rw [List.getElem?_map, List.getElem?_map, found, again, Option.map_some, Option.map_some,
        ← named, ← same]
    · obtain ⟨within, _⟩ := List.getElem?_eq_some_iff.mp again
      exact apart.free position other field found within (named.symm.trans placed)
  · obtain ⟨twin, again, same | placed⟩ := second
    · obtain ⟨inside, _⟩ := List.getElem?_eq_some_iff.mp found
      exact (apart.free other position twin again inside (same.symm.trans numbered)).symm
    · exact Numeral.ofNat_injective (numbered.symm.trans placed)

theorem HoldsValues.eq_of_find? {found : Value} (apart : NamesApart fields)
    (holds : HoldsValues fields values members) (here : values[position]? = some value)
    (keyed : IsKey fields position key) (under : Dictionary.find? key members = some found) :
    found = value := by
  obtain ⟨other, again, there⟩ := holds.only position key found keyed (Dictionary.mem_of_find? under)
  cases apart.position_eq keyed again
  exact Option.some.inj (there.symm.trans here)

theorem HoldsValues.find? (apart : NamesApart fields) (holds : HoldsValues fields values members)
    (there : fields[position]? = some field) (here : values[position]? = some value) :
    (Dictionary.find? field.name members).or
      (Dictionary.find? (Numeral.ofNat position) members) = some value := by
  have named : IsKey fields position field.name := ⟨field, there, .inl rfl⟩
  have numbered : IsKey fields position (Numeral.ofNat position) := ⟨field, there, .inr rfl⟩
  cases byName : Dictionary.find? field.name members with
  | some found =>
      rw [holds.eq_of_find? apart here named byName]
      rfl
  | none =>
      cases byPosition : Dictionary.find? (Numeral.ofNat position) members with
      | some found =>
          rw [holds.eq_of_find? apart here numbered byPosition]
          rfl
      | none =>
          -- The value is held under one of the two keys.
          obtain ⟨key, ⟨twin, again, spelt⟩, member⟩ := holds.each position value here
          cases there.symm.trans again
          have inside : key ∈ members.map (·.1) := List.mem_map.mpr ⟨_, member, rfl⟩
          rcases spelt with rfl | rfl
          · exact absurd inside (Dictionary.find?_eq_none.mp byName)
          · exact absurd inside (Dictionary.find?_eq_none.mp byPosition)

end Keys

/-- Where each value is found for its field, the raw texts are those of the values. -/
theorem rawMembers_eq_mapM {members : List (Text × Value)} {fields : List FieldText}
    {values : List Value} {first : Nat} (same : values.length = fields.length)
    (found : ∀ position field value, fields[position]? = some field →
      values[position]? = some value →
        (Dictionary.find? field.name members).or
          (Dictionary.find? (Numeral.ofNat (first + position)) members) = some value) :
    rawMembers members first fields = values.mapM rawText := by
  induction fields generalizing values first with
  | nil =>
      cases List.length_eq_zero_iff.mp same
      rfl
  | cons field fields ih =>
      cases values with
      | nil => cases same
      | cons value values =>
          have here := found 0 field value rfl rfl
          have further : rawMembers members (first + 1) fields = values.mapM rawText := by
            apply ih (Nat.succ.inj same)
            intro position other item there held
            have behind := found (position + 1) other item there held
            rwa [← Nat.add_assoc, Nat.add_right_comm] at behind
          rw [rawMembers, List.mapM_cons]
          rw [Nat.add_zero] at here
          simp only [here, further]

/-- An object that holds as many values as there are fields, each under the name or the position of its
field, gives the literal or the error that the list of the values gives. -/
theorem recordOfValue_of_keyed {fields : List FieldText} {values : List Value}
    {members : List (Text × Value)} (apart : NamesApart fields)
    (same : values.length = fields.length) (holds : HoldsValues fields values members) :
    recordOfValue fields (.object members) = recordOfValue fields (.list values) := by
  have raws : rawMembers members 0 fields = values.mapM rawText := by
    apply rawMembers_eq_mapM same
    intro position field value there here
    rw [Nat.zero_add]
    exact holds.find? apart there here
  rw [recordOfValue, recordOfValue, raws]

private def rangeFields : List FieldText :=
  [⟨"start".toList, "nat64".toList⟩, ⟨"length".toList, "opt text".toList⟩]

private def rangeMembers : List (Text × Value) :=
  [("2".toList, .bool true), ("1".toList, .null), ("start".toList, .integer 7)]

private theorem apart_rangeFields : NamesApart rangeFields := by
  refine ⟨by decide, fun position other field found within named => ?_⟩
  have none : ∀ field ∈ rangeFields, ∀ other < rangeFields.length,
      field.name ≠ Numeral.ofNat other := by decide
  exact absurd named (none field (List.mem_of_getElem? found) other within)

private theorem holds_rangeMembers :
    HoldsValues rangeFields [.integer 7, .null] rangeMembers := by
  constructor
  · intro position value here
    match position with
    | 0 =>
        cases here
        exact ⟨"start".toList, ⟨_, rfl, .inl rfl⟩, by simp [rangeMembers]⟩
    | 1 =>
        cases here
        exact ⟨"1".toList, ⟨_, rfl, .inr rfl⟩, by simp [rangeMembers]⟩
    | position + 2 => cases here
  · intro position key value keyed member
    simp only [rangeMembers, List.mem_cons, Prod.mk.injEq, List.not_mem_nil, or_false] at member
    rcases member with ⟨rfl, rfl⟩ | ⟨rfl, rfl⟩ | ⟨rfl, rfl⟩
    · obtain ⟨field, found, spelt⟩ := keyed
      obtain ⟨within, _⟩ := List.getElem?_eq_some_iff.mp found
      have extra : ∀ field ∈ rangeFields, ∀ other < rangeFields.length,
          ¬ ("2".toList = field.name ∨ "2".toList = Numeral.ofNat other) := by decide
      exact absurd spelt (extra field (List.mem_of_getElem? found) position within)
    · exact ⟨1, ⟨_, rfl, .inr rfl⟩, rfl⟩
    · exact ⟨0, ⟨_, rfl, .inl rfl⟩, rfl⟩

/-- The first value stands under its name and the second under its position, and in front of both there
is a key of neither. -/
theorem recordOfValue_of_keyed_mixed :
    NamesApart rangeFields ∧ [Value.integer 7, .null].length = rangeFields.length ∧
      HoldsValues rangeFields [.integer 7, .null] rangeMembers ∧
      recordOfValue rangeFields (.object rangeMembers) =
        recordOfValue rangeFields (.list [.integer 7, .null]) :=
  ⟨apart_rangeFields, rfl, holds_rangeMembers,
    recordOfValue_of_keyed apart_rangeFields rfl holds_rangeMembers⟩

end Candid.Argument
