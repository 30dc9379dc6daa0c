import Candid.Proofs.Argument.Conversion
import Candid.Proofs.Outcome

/-!
# What was converted

A conversion that succeeds has converted the parts that the walk of the value meets: the items of a
sequence in their order, and for each field of a record the part that the walk meets for it. So every
leaf of a result, but for null, is the conversion of a leaf of the value.
-/

set_option autoImplicit false

namespace Candid.Argument

open Json

theorem Meets.trans {outline inner other : Outline} {value part last : Value}
    (first : Meets outline value inner part) (second : Meets inner part other last) :
    Meets outline value other last := by
  induction first with
  | here => exact second
  | opt _ ih => exact .opt (ih second)
  | item inside _ ih => exact .item inside (ih second)
  | named declared found _ ih => exact .named declared found (ih second)
  | placed index declared place _ ih => exact .placed index declared place (ih second)

theorem Meets.of_null {outline other : Outline} {value part : Value}
    (meets : Meets outline value other part) (null : value = .null) : part = .null := by
  induction meets with
  | here => exact null
  | opt _ ih => exact ih null
  | item | named | placed => cases null

theorem items_of_converted {convertItem : Value → Text → Except Error Value} {path : Text}
    {index : Nat} {items results : List Value}
    (converted : convertItems convertItem path index items = .ok results) :
    List.Forall₂ (fun item result => ∃ place, convertItem item place = .ok result) items results := by
  induction items generalizing index results with
  | nil =>
      cases converted
      exact .nil
  | cons item items ih =>
      obtain ⟨first, here, further⟩ := bind_eq_ok.mp converted
      obtain ⟨others, rest, same⟩ := bind_eq_ok.mp further
      cases same
      exact .cons ⟨_, here⟩ (ih rest)

theorem sequence_of_converted {convertItem : Value → Text → Except Error Value} {value result : Value}
    {path : Text} (converted : convertSequence convertItem value path = .ok result) :
    ∃ items results, value = .list items ∧ result = .list results ∧
      List.Forall₂ (fun item result => ∃ place, convertItem item place = .ok result)
        items results := by
  cases value with
  | list items =>
      obtain ⟨results, found, same⟩ := bind_eq_ok.mp converted
      cases same
      exact ⟨items, results, rfl, rfl, items_of_converted found⟩
  | _ => cases converted

section Records

variable {fields : List (Text × Outline)} {path : Text} {entries : List (Text × Value)}

/-- What the value holds for the field of a record: the member under the name of the field, or the item
at its position. -/
inductive Supplies (fields : List (Text × Outline)) : Value → Text × Outline → Value → Prop where
  | named {field : Text × Outline} {members : List (Text × Value)} {part : Value} :
      field ∈ fields → Dictionary.find? field.1 members = some part →
      Supplies fields (.object members) field part
  | placed {field : Text × Outline} {items : List Value} {part : Value} (index : Nat) :
      fields[index]? = some field → items[index]? = some part →
      Supplies fields (.list items) field part

section Supplies

variable {value part other last : Value} {outline : Outline} {field : Text × Outline}

theorem Supplies.meets (supplies : Supplies fields value field part) :
    Meets (.record fields) value field.2 part := by
  cases supplies with
  | named declared found => exact .named declared found (.here _ _)
  | placed index declared held => exact .placed index declared held (.here _ _)

theorem Supplies.holds (supplies : Supplies fields value field part) : value.Holds part := by
  cases supplies with
  | named _ found => exact .member (Dictionary.mem_of_find? found) (.self part)
  | placed _ _ held => exact .item (List.mem_of_getElem? held) (.self part)

/-- Where the names are distinct, a value holds one part for a field. -/
theorem Supplies.unique (distinct : (fields.map (·.1)).Nodup)
    (supplies : Supplies fields value field part) (again : Supplies fields value field other) :
    part = other := by
  cases supplies with
  | named _ found =>
      cases again with
      | named _ also => exact Option.some.inj (found.symm.trans also)
  | placed index declared held =>
      cases again with
      | placed position also there =>
          have inside := (List.getElem?_eq_some_iff.mp declared).1
          cases (List.getElem?_inj inside distinct.of_map).mp (declared.trans also.symm)
          exact Option.some.inj (held.symm.trans there)

theorem Meets.exists_supplied (meets : Meets (.record fields) value outline last) :
    outline = .record fields ∨ ∃ (field : Text × Outline) (part : Value),
      Supplies fields value field part ∧ field ∈ fields ∧ Meets field.2 part outline last := by
  cases meets with
  | here => exact .inl rfl
  | named declared found meets => exact .inr ⟨_, _, .named declared found, declared, meets⟩
  | placed index declared held meets =>
      exact .inr ⟨_, _, .placed index declared held, List.mem_of_getElem? declared, meets⟩

end Supplies

theorem entries_of_named {members : List (Text × Value)}
    (converted : convertNamed fields members path = .ok entries) :
    Entries (fun field result => ∃ member place,
      Dictionary.find? field.1 members = some member ∧ convert field.2 member place = .ok result)
      fields entries := by
  induction fields generalizing entries with
  | nil =>
      simp only [convertNamed] at converted
      cases converted
      exact .nil
  | cons field rest ih =>
      obtain ⟨name, type⟩ := field
      simp only [convertNamed] at converted
      cases found : Dictionary.find? name members with
      | none =>
          rw [found] at converted
          cases converted
      | some member =>
          rw [found] at converted
          obtain ⟨first, here, further⟩ := bind_eq_ok.mp converted
          obtain ⟨others, following, same⟩ := bind_eq_ok.mp further
          cases same
          exact .cons ⟨rfl, member, _, found, here⟩ (ih following)

theorem entries_of_listed {items : List Value} (size : items.length = fields.length)
    (converted : convertListed fields items path = .ok entries) :
    List.Forall₂ (fun (place : (Text × Outline) × Value) entry => entry.1 = place.1.1 ∧
      ∃ path, convert place.1.2 place.2 path = .ok entry.2) (fields.zip items) entries := by
  induction fields generalizing items entries with
  | nil =>
      simp only [convertListed] at converted
      cases converted
      exact .nil
  | cons field rest ih =>
      obtain ⟨name, type⟩ := field
      cases items with
      | nil => cases size
      | cons item items =>
          simp only [convertListed] at converted
          obtain ⟨first, here, further⟩ := bind_eq_ok.mp converted
          obtain ⟨others, following, same⟩ := bind_eq_ok.mp further
          cases same
          exact .cons ⟨rfl, _, here⟩ (ih (Nat.succ_inj.mp size) following)

/-- A converted record is an object with an entry for each field, which holds the conversion of what
the value holds for the field. -/
theorem record_of_converted {value result : Value}
    (converted : convert (.record fields) value path = .ok result) :
    ∃ entries, result = .object (Dictionary.ofList entries) ∧
      Entries (fun field result => ∃ part place, Supplies fields value field part ∧
        convert field.2 part place = .ok result) fields entries := by
  by_cases none : fields.isEmpty = true
  · cases List.isEmpty_iff.mp none
    simp only [convert] at converted
    cases converted
    exact ⟨[], rfl, .nil⟩
  · cases value with
    | object members =>
        simp only [convert, none, Bool.false_eq_true, ↓reduceIte] at converted
        obtain ⟨entries, found, same⟩ := bind_eq_ok.mp converted
        cases same
        refine ⟨entries, rfl, ?_⟩
        have each := entries_of_named found
        refine List.forall₂_iff_get.mpr ⟨each.length_eq, fun index inside within => ?_⟩
        obtain ⟨name, member, place, found, converted⟩ :=
          (List.forall₂_iff_get.mp each).2 index inside within
        exact ⟨name, member, place, .named (List.getElem_mem inside) found, converted⟩
    | list items =>
        simp only [convert, none, Bool.false_eq_true, ↓reduceIte] at converted
        split at converted
        · cases converted
        · rename_i size
          have size := not_not.mp size
          obtain ⟨entries, found, same⟩ := bind_eq_ok.mp converted
          cases same
          obtain ⟨count, each⟩ := List.forall₂_iff_get.mp (entries_of_listed size found)
          rw [List.length_zip, size, Nat.min_self] at count
          refine ⟨entries, rfl, List.forall₂_iff_get.mpr ⟨count, fun index inside within => ?_⟩⟩
          have held : index < items.length := size ▸ inside
          obtain ⟨name, place, converted⟩ := each index (by simp [inside, held]) within
          simp only [List.get_eq_getElem, List.getElem_zip] at name converted
          have supplies : Supplies fields (.list items) fields[index] items[index] :=
            .placed index (List.getElem?_eq_getElem inside) (List.getElem?_eq_getElem held)
          exact ⟨name, items[index], place, supplies, converted⟩
    | _ =>
        simp only [convert, none, Bool.false_eq_true, ↓reduceIte] at converted
        cases converted

end Records

/-- A list of values that are all converted becomes an object with an entry for each field. -/
theorem convert_list_of_each {fields : List (Text × Outline)} {items : List Value}
    (distinct : (fields.map (·.1)).Nodup)
    (each : List.Forall₂ (fun field item => ∀ place, ∃ value, convert field.2 item place = .ok value)
      fields items) (path : Text) :
    ∃ entries, convert (.record fields) (.list items) path = .ok (.object entries) ∧
      List.Forall₂ (fun (place : (Text × Outline) × Value) entry => entry.1 = place.1.1 ∧
        ∃ path, convert place.1.2 place.2 path = .ok entry.2) (fields.zip items) entries := by
  have size : items.length = fields.length := each.length_eq.symm
  have converts : List.Forall₂ (fun field item => ∀ place, ∃ value,
      convert field.2 item place = .ok value ∧ True) fields items := by
    simpa only [and_true] using each
  obtain ⟨entries, found, named⟩ := @convertListed_of_each _ (fun _ _ => True) _ converts path
  refine ⟨entries, ?_, entries_of_listed size found⟩
  have nodup : (entries.map (·.1)).Nodup := Entries.names named ▸ distinct
  have whole := Dictionary.ofList_of_nodup nodup
  cases fields with
  | nil =>
      cases named
      simp only [convert, List.isEmpty_nil, ↓reduceIte]
  | cons field rest =>
      simp only [convert, size, found, List.isEmpty_cons, ne_eq, not_true_eq_false,
        Bool.false_eq_true, ↓reduceIte]
      exact congrArg (fun members => Except.ok (Value.object members)) whole

end Candid.Argument
