import Candid.Proofs.Argument.Conversion
import Mathlib.Logic.Relation

/-!
# Spellings of records

A record is spelled as an object that holds the values of its fields under their names, or as the list
of these values. Rewriting one record of an argument from one spelling to another changes neither what
the argument is converted to nor what the checker finds, and so it is for any number of them.
-/

set_option autoImplicit false

namespace Candid.Argument

open Json
open Relation (ReflTransGen)

/-- The value spells a record of these field values. An object may hold more, in any order. -/
inductive SpellsRecord (fields : List (Text × Outline)) (values : List Value) : Value → Prop where
  | object {members : List (Text × Value)} :
      List.Forall₂ (fun field value => Dictionary.find? field.1 members = some value) fields values →
      SpellsRecord fields values (.object members)
  | list : values.length = fields.length → SpellsRecord fields values (.list values)

/-- One record in the first value, which a walk along the type through options, sequences and records
comes to, is spelled in another way in the second. -/
inductive Respells : Outline → Value → Value → Prop where
  | record {fields : List (Text × Outline)} {values : List Value} {value other : Value} :
      SpellsRecord fields values value → SpellsRecord fields values other →
      Respells (.record fields) value other
  | opt {inner : Outline} {value other : Value} :
      Respells inner value other → Respells (.opt inner) value other
  | item {inner : Outline} {items : List Value} {item other : Value} (index : Nat) :
      items[index]? = some item → Respells inner item other →
      Respells (.vec inner) (.list items) (.list (items.set index other))
  | named {fields : List (Text × Outline)} {field : Text × Outline}
      {members : List (Text × Value)} {member other : Value} :
      field ∈ fields → Dictionary.find? field.1 members = some member →
      Respells field.2 member other →
      Respells (.record fields) (.object members) (.object (Dictionary.put field.1 other members))
  | placed {fields : List (Text × Outline)} {field : Text × Outline} {items : List Value}
      {item other : Value} (index : Nat) :
      fields[index]? = some field → items[index]? = some item → Respells field.2 item other →
      Respells (.record fields) (.list items) (.list (items.set index other))

theorem Respells.isNull {outline : Outline} {value other : Value}
    (respells : Respells outline value other) : value.isNull = false ∧ other.isNull = false := by
  induction respells with
  | record spelling further =>
      constructor
      · cases spelling <;> rfl
      · cases further <;> rfl
  | opt _ ih => exact ih
  | item | named | placed => exact ⟨rfl, rfl⟩

structure SameOutcome (outline : Outline) (value other : Value) : Prop where
  converted (path : Text) : convert outline value path = convert outline other path
  checked (strict : Bool) (path : Text) :
    check strict outline value path = check strict outline other path

namespace SameOutcome

variable {outline inner : Outline} {value other third : Value}

theorem refl (outline : Outline) (value : Value) : SameOutcome outline value value :=
  ⟨fun _ => rfl, fun _ _ => rfl⟩

theorem symm (same : SameOutcome outline value other) : SameOutcome outline other value where
  converted path := (same.converted path).symm
  checked strict path := (same.checked strict path).symm

theorem trans (same : SameOutcome outline value other) (further : SameOutcome outline other third) :
    SameOutcome outline value third where
  converted path := (same.converted path).trans (further.converted path)
  checked strict path := (same.checked strict path).trans (further.checked strict path)

theorem opt (first : value.isNull = false) (second : other.isNull = false)
    (same : SameOutcome inner value other) : SameOutcome (.opt inner) value other := by
  have converted {value : Value} (solid : value.isNull = false) (path : Text) :
      convert (.opt inner) value path = convert inner value path := by
    cases value with
    | null => cases solid
    | _ => simp only [convert]
  constructor
  · intro path
    rw [converted first, converted second]
    exact same.converted path
  · intro strict path
    simp only [check, first, second, Bool.false_eq_true, ↓reduceIte]
    exact same.checked strict path

theorem items {items others : List Value} (same : List.Forall₂ (SameOutcome inner) items others)
    (index : Nat) :
    (∀ path, convertItems (convert inner) path index items =
        convertItems (convert inner) path index others) ∧
      ∀ strict path, checkItems (check strict inner) path index items =
        checkItems (check strict inner) path index others := by
  induction same generalizing index with
  | nil => exact ⟨fun _ => rfl, fun _ _ => rfl⟩
  | cons here _ ih =>
      obtain ⟨converted, checked⟩ := ih (index + 1)
      constructor
      · intro path
        simp only [convertItems, here.converted, converted]
      · intro strict path
        simp only [checkItems, here.checked, checked]

theorem vec {items others : List Value} (same : List.Forall₂ (SameOutcome inner) items others) :
    SameOutcome (.vec inner) (.list items) (.list others) := by
  obtain ⟨converted, checked⟩ := SameOutcome.items same 0
  constructor
  · intro path
    simp only [convert, convertSequence, converted]
  · intro strict path
    simp only [check, checkSequence, checked]

section Records

variable {fields : List (Text × Outline)}

theorem members {members others : List (Text × Value)}
    (same : ∀ field ∈ fields, Option.Rel (SameOutcome field.2)
      (Dictionary.find? field.1 members) (Dictionary.find? field.1 others)) :
    (∀ path, convertNamed fields members path = convertNamed fields others path) ∧
      ∀ strict path, checkNamed strict fields members path =
        checkNamed strict fields others path := by
  induction fields with
  | nil => simp only [convertNamed, checkNamed, implies_true, and_self]
  | cons field rest ih =>
      obtain ⟨name, type⟩ := field
      have here := same (name, type) List.mem_cons_self
      obtain ⟨converted, checked⟩ := ih fun field member => same field (List.mem_cons_of_mem _ member)
      simp only at here
      simp only [convertNamed, checkNamed, converted, checked]
      generalize Dictionary.find? name members = first, Dictionary.find? name others = second
        at here ⊢
      cases here with
      | none => exact ⟨fun _ => rfl, fun _ _ => rfl⟩
      | some here => simp only [here.converted, here.checked, implies_true, and_self]

theorem object {members others : List (Text × Value)}
    (same : ∀ field ∈ fields, Option.Rel (SameOutcome field.2)
      (Dictionary.find? field.1 members) (Dictionary.find? field.1 others)) :
    SameOutcome (.record fields) (.object members) (.object others) := by
  obtain ⟨converted, checked⟩ := SameOutcome.members same
  constructor
  · intro path
    simp only [convert, converted]
  · intro strict path
    simp only [check, checked]

theorem listed {items others : List Value} (size : items.length = others.length)
    (same : ∀ (index : Nat) (field : Text × Outline) (item other : Value),
      fields[index]? = some field → items[index]? = some item → others[index]? = some other →
      SameOutcome field.2 item other) :
    (∀ path, convertListed fields items path = convertListed fields others path) ∧
      ∀ strict path, checkListed strict fields items path =
        checkListed strict fields others path := by
  induction fields generalizing items others with
  | nil => simp only [convertListed, checkListed, implies_true, and_self]
  | cons field rest ih =>
      obtain ⟨name, type⟩ := field
      cases items with
      | nil =>
          cases List.length_eq_zero_iff.mp size.symm
          exact ⟨fun _ => rfl, fun _ _ => rfl⟩
      | cons item items =>
          obtain ⟨other, others, rfl⟩ := List.exists_cons_of_length_eq_add_one size.symm
          have here := same 0 (name, type) item other rfl rfl rfl
          obtain ⟨converted, checked⟩ := ih (by simpa using size) fun index => same (index + 1)
          simp only at here
          simp only [convertListed, checkListed, here.converted, here.checked, converted, checked,
            implies_true, and_self]

theorem list {items others : List Value} (size : items.length = others.length)
    (same : ∀ (index : Nat) (field : Text × Outline) (item other : Value),
      fields[index]? = some field → items[index]? = some item → others[index]? = some other →
      SameOutcome field.2 item other) :
    SameOutcome (.record fields) (.list items) (.list others) := by
  obtain ⟨converted, checked⟩ := listed size same
  constructor
  · intro path
    simp only [convert, size, converted]
  · intro strict path
    simp only [check, size, checked]

theorem held {values : List Value} {members : List (Text × Value)}
    (held : List.Forall₂ (fun field value => Dictionary.find? field.1 members = some value)
      fields values) :
    (∀ path, convertNamed fields members path = convertListed fields values path) ∧
      ∀ strict path, checkNamed strict fields members path =
        checkListed strict fields values path := by
  induction held with
  | nil => simp only [convertNamed, checkNamed, convertListed, checkListed, implies_true, and_self]
  | @cons field value _ _ found _ ih =>
      obtain ⟨name, type⟩ := field
      obtain ⟨converted, checked⟩ := ih
      simp only at found
      simp only [convertNamed, checkNamed, convertListed, checkListed, found, converted, checked,
        implies_true, and_self]

/-- A record of any spelling fares as the list of its field values. -/
theorem spelled {values : List Value} (spelling : SpellsRecord fields values value) :
    SameOutcome (.record fields) value (.list values) := by
  cases spelling with
  | object named =>
      have size : values.length = fields.length := named.length_eq.symm
      obtain ⟨converted, checked⟩ := held named
      constructor
      · intro path
        simp only [convert, size, ne_eq, not_true_eq_false, ↓reduceIte, converted]
      · intro strict path
        simp only [check, size, ne_eq, not_true_eq_false, ↓reduceIte, checked]
  | list => exact refl _ _

end Records

end SameOutcome

theorem forall₂_set {α : Type} {relation : α → α → Prop} (reflexive : ∀ item, relation item item)
    {items : List α} {item other : α} {index : Nat} (place : items[index]? = some item)
    (related : relation item other) : List.Forall₂ relation items (items.set index other) := by
  induction items generalizing index with
  | nil => cases place
  | cons first items ih =>
      have same (items : List α) : List.Forall₂ relation items items :=
        List.forall₂_same.mpr fun item _ => reflexive item
      cases index with
      | zero =>
          cases place
          exact .cons related (same items)
      | succ index => exact .cons (reflexive first) (ih place)

/-- Another spelling of one record changes nothing. -/
theorem Respells.sameOutcome {outline : Outline} {value other : Value}
    (respells : Respells outline value other) (distinct : DistinctFields outline value) :
    SameOutcome outline value other := by
  induction respells with
  | record spelling further =>
      exact (SameOutcome.spelled spelling).trans (SameOutcome.spelled further).symm
  | opt respells ih =>
      obtain ⟨first, second⟩ := respells.isNull
      exact SameOutcome.opt first second (ih (distinct.below .opt))
  | item index place _ ih =>
      have here := ih (distinct.below (.item (List.mem_of_getElem? place)))
      exact SameOutcome.vec (forall₂_set (SameOutcome.refl _) place here)
  | @named fields field members member other inside found _ ih =>
      have here := ih (distinct.below (.named inside found))
      apply SameOutcome.object
      intro another among
      -- Another field of the same name would meet the new value too; there is none.
      by_cases same : field.1 = another.1
      · cases List.inj_on_of_nodup_map (distinct fields _ (.here _ _)) inside among same
        rw [found, Dictionary.find?_put_self]
        exact .some here
      · rw [Dictionary.find?_put_of_ne same]
        cases Dictionary.find? another.1 members with
        | none => exact .none
        | some value => exact .some (.refl _ value)
  | @placed fields field items item other index declared place _ ih =>
      have here := ih (distinct.below (.placed index declared place))
      apply SameOutcome.list (List.length_set ..).symm
      intro position another first second typed held put
      by_cases same : index = position
      · subst same
        have inside := (List.getElem?_eq_some_iff.mp place).1
        rw [List.getElem?_set_self inside] at put
        cases declared.symm.trans typed
        cases place.symm.trans held
        cases put
        exact here
      · rw [List.getElem?_set_ne same, held] at put
        cases put
        exact .refl _ _

section Walk

variable {fields : List (Text × Outline)} {values : List Value} {value part last : Value}
  {outline : Outline}

theorem SpellsRecord.meets_part (spelling : SpellsRecord fields values value) {index : Nat}
    {field : Text × Outline} (declared : fields[index]? = some field)
    (held : values[index]? = some part) (meets : Meets field.2 part outline last) :
    Meets (.record fields) value outline last := by
  cases spelling with
  | object named =>
      obtain ⟨inside, rfl⟩ := List.getElem?_eq_some_iff.mp declared
      obtain ⟨within, rfl⟩ := List.getElem?_eq_some_iff.mp held
      have found := (List.forall₂_iff_get.mp named).2 index inside within
      exact .named (List.getElem_mem inside) found meets
  | list => exact .placed index declared held meets

theorem SpellsRecord.exists_part (spelling : SpellsRecord fields values value)
    (meets : Meets (.record fields) value outline last) :
    outline = .record fields ∨ ∃ (index : Nat) (field : Text × Outline) (part : Value),
      fields[index]? = some field ∧ values[index]? = some part ∧
        Meets field.2 part outline last := by
  cases meets with
  | here => exact .inl rfl
  | named declared found meets =>
      cases spelling with
      | object named =>
          obtain ⟨index, inside, rfl⟩ := List.getElem_of_mem declared
          have within : index < values.length := named.length_eq ▸ inside
          have held := (List.forall₂_iff_get.mp named).2 index inside within
          cases found.symm.trans held
          exact .inr ⟨index, _, _, List.getElem?_eq_getElem inside,
            List.getElem?_eq_getElem within, meets⟩
  | placed index declared place meets =>
      cases spelling with
      | list => exact .inr ⟨index, _, _, declared, place, meets⟩

end Walk

/-- The walk along the type comes to the same records behind another spelling of one of them. -/
theorem Respells.distinctFields {outline : Outline} {value other : Value}
    (respells : Respells outline value other) (distinct : DistinctFields outline value) :
    DistinctFields outline other := by
  induction respells with
  | record spelling further =>
      intro others last meets
      rcases further.exists_part meets with same | ⟨index, field, part, declared, held, meets⟩
      · cases same
        exact distinct _ _ (.here _ _)
      · exact distinct others last (spelling.meets_part declared held meets)
  | opt _ ih =>
      intro others last meets
      cases meets with
      | opt meets => exact ih (distinct.below .opt) others last meets
  | item index place _ ih =>
      intro others last meets
      cases meets with
      | item inside meets =>
          rcases List.mem_or_eq_of_mem_set inside with old | rfl
          · exact distinct others last (.item old meets)
          · exact ih (distinct.below (.item (List.mem_of_getElem? place))) others last meets
  | @named fields field members member other inside found _ ih =>
      intro others last meets
      cases meets with
      | here => exact distinct _ _ (.here _ _)
      | @named _ another _ _ _ _ among held meets =>
          by_cases same : field.1 = another.1
          · cases List.inj_on_of_nodup_map (distinct fields _ (.here _ _)) inside among same
            rw [Dictionary.find?_put_self] at held
            cases held
            exact ih (distinct.below (.named inside found)) others last meets
          · rw [Dictionary.find?_put_of_ne same] at held
            exact distinct others last (.named among held meets)
  | @placed fields field items item other index declared place _ ih =>
      intro others last meets
      cases meets with
      | here => exact distinct _ _ (.here _ _)
      | placed position typed held meets =>
          by_cases same : index = position
          · subst same
            rw [List.getElem?_set_self (List.getElem?_eq_some_iff.mp place).1] at held
            cases declared.symm.trans typed
            cases held
            exact ih (distinct.below (.placed index declared place)) others last meets
          · rw [List.getElem?_set_ne same] at held
            exact distinct others last (.placed position typed held meets)

-- The next step needs distinct names behind this one, so the induction carries them along.
theorem sameOutcome_of_respellings {outline : Outline} {value other : Value}
    (respelled : ReflTransGen (Respells outline) value other)
    (distinct : DistinctFields outline value) :
    SameOutcome outline value other ∧ DistinctFields outline other := by
  induction respelled with
  | refl => exact ⟨.refl _ _, distinct⟩
  | tail _ respells ih =>
      obtain ⟨same, distinct⟩ := ih
      exact ⟨same.trans (respells.sameOutcome distinct), respells.distinctFields distinct⟩

/-- Where the records that are met have distinct field names, an argument is converted to the same value,
or fails with the same error, however its records are spelled, and it has the same violations. -/
theorem outcome_of_respelled (type : Text) {value other : Value}
    (distinct : DistinctFields (.ofText type) value)
    (respelled : ReflTransGen (Respells (.ofText type)) value other) :
    convert (.ofText type) value [] = convert (.ofText type) other [] ∧
      ∀ strict, check strict (.ofText type) value [] = check strict (.ofText type) other [] := by
  obtain ⟨same, _⟩ := sameOutcome_of_respellings respelled distinct
  constructor
  · exact same.converted []
  · intro strict
    exact same.checked strict []

section Example

theorem distinctFields_leaf (leaf : Text) (value : Value) : DistinctFields (.leaf leaf) value := by
  intro fields last meets
  cases meets

theorem distinctFields_opt {inner : Outline} {value : Value} (distinct : DistinctFields inner value) :
    DistinctFields (.opt inner) value := by
  intro fields last meets
  cases meets with
  | opt meets => exact distinct fields last meets

theorem distinctFields_vec {inner : Outline} (distinct : ∀ item, DistinctFields inner item)
    (value : Value) : DistinctFields (.vec inner) value := by
  intro fields last meets
  cases meets with
  | item _ meets => exact distinct _ fields last meets

theorem distinctFields_record {fields : List (Text × Outline)} (names : (fields.map (·.1)).Nodup)
    (distinct : ∀ field ∈ fields, ∀ part, DistinctFields field.2 part) (value : Value) :
    DistinctFields (.record fields) value := by
  intro others last meets
  cases meets with
  | here => exact names
  | named member _ meets => exact distinct _ member _ others last meets
  | placed _ declared _ meets => exact distinct _ (List.mem_of_getElem? declared) _ others last meets

private abbrev nestedFields : List (Text × Outline) :=
  [("a".toList, .leaf "nat".toList), ("b".toList, .opt (.record [("c".toList, .leaf "text".toList)]))]

/-- A record in a record in a list, with its members in another order and one too many, fares as the
list of lists. -/
theorem outcome_of_respelled_nested :
    let type : Text := "vec record \x7b a : nat; b : opt record \x7b c : text \x7d \x7d".toList
    let inner : Value := .object [("z".toList, .integer 2), ("c".toList, .text "x".toList)]
    let value : Value := .list [.object [("b".toList, inner), ("a".toList, .integer 1)]]
    let other : Value := .list [.list [.integer 1, .list [.text "x".toList]]]
    DistinctFields (.ofText type) value ∧ ReflTransGen (Respells (.ofText type)) value other ∧
      convert (.ofText type) value [] = .ok (.list [.object [("a".toList, .integer 1),
        ("b".toList, .object [("c".toList, .text "x".toList)])]]) ∧
      ∀ strict, check strict (.ofText type) value [] = [] := by
  intro type inner value other
  have innerFields : recordFields (Text.trim "record \x7b c : text \x7d".toList) =
      [⟨"c".toList, "text".toList⟩] := by decide
  have wrapped : innerType "opt".toList (Text.trim "opt record \x7b c : text \x7d".toList) =
      "record \x7b c : text \x7d".toList := by decide
  have option : Outline.ofText "opt record \x7b c : text \x7d".toList =
      .opt (.record [("c".toList, .leaf "text".toList)]) := by
    rw [Outline.ofText_of_opt (by decide), wrapped, Outline.ofText_of_record (by decide), innerFields,
      List.map_singleton, Outline.ofText_text]
  have items : innerType "vec".toList type.trim =
      "record \x7b a : nat; b : opt record \x7b c : text \x7d \x7d".toList := by decide
  have outerFields : recordFields
      (Text.trim "record \x7b a : nat; b : opt record \x7b c : text \x7d \x7d".toList) =
      [⟨"a".toList, "nat".toList⟩, ⟨"b".toList, "opt record \x7b c : text \x7d".toList⟩] := by
    decide
  have outline : Outline.ofText type = .vec (.record nestedFields) := by
    rw [Outline.ofText_of_vec (by decide), items, Outline.ofText_of_record (by decide), outerFields,
      List.map_cons, List.map_singleton, Outline.ofText_nat, option]
  have distinct : DistinctFields (.ofText type) value := by
    rw [outline]
    apply distinctFields_vec
    intro item
    refine distinctFields_record (by decide) ?_ item
    intro field member part
    rcases List.mem_cons.mp member with rfl | member
    · exact distinctFields_leaf _ part
    · cases List.mem_singleton.mp member
      apply distinctFields_opt
      refine distinctFields_record (by decide) ?_ part
      intro field member part
      cases List.mem_singleton.mp member
      exact distinctFields_leaf _ part
  have respelled : ReflTransGen (Respells (.ofText type)) value other := by
    rw [outline]
    have deep : Respells (.opt (.record [("c".toList, .leaf "text".toList)])) inner
        (.list [.text "x".toList]) :=
      .opt (.record (.object (.cons (by rfl) .nil)) (.list rfl))
    have declared : ("b".toList, .opt (.record [("c".toList, .leaf "text".toList)])) ∈ nestedFields :=
      List.mem_cons_of_mem _ List.mem_cons_self
    have first : Respells (.vec (.record nestedFields)) value
        (.list [.object [("b".toList, .list [.text "x".toList]), ("a".toList, .integer 1)]]) :=
      .item 0 rfl (.named declared rfl deep)
    have second : Respells (.vec (.record nestedFields))
        (.list [.object [("b".toList, .list [.text "x".toList]), ("a".toList, .integer 1)]]) other :=
      .item 0 rfl (.record (.object (.cons (by rfl) (.cons (by rfl) .nil))) (.list rfl))
    exact .tail (.single first) second
  obtain ⟨converted, checked⟩ := outcome_of_respelled type distinct respelled
  refine ⟨distinct, respelled, ?_, fun strict => ?_⟩
  · rw [converted, outline]
    rfl
  · rw [checked, outline]
    rfl

end Example

end Candid.Argument
