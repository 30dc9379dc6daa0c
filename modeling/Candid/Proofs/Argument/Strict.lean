import Candid.Proofs.Argument.Conversion

/-!
# Strict checks

A strict check differs from a lenient one at variants only, and there it looks at a case that the
lenient check takes as it is. So it reports what the lenient check reports, in the same order, and more
only if it comes to a variant.
-/

set_option autoImplicit false

namespace Candid.Argument

open Json

/-- The check of a value against a type comes to the second type with the second value, not counting
what stands in the cases of variants. -/
inductive Checks : Outline → Value → Outline → Value → Prop where
  | here (outline : Outline) (value : Value) : Checks outline value outline value
  | opt {inner other : Outline} {value part : Value} :
      value.isNull = false → Checks inner value other part → Checks (.opt inner) value other part
  | item {inner other : Outline} {items : List Value} {item part : Value} :
      item ∈ items → Checks inner item other part → Checks (.vec inner) (.list items) other part
  | named {fields : List (Text × Outline)} {field : Text × Outline}
      {members : List (Text × Value)} {member part : Value} {other : Outline} :
      field ∈ fields → Dictionary.find? field.1 members = some member →
      Checks field.2 member other part → Checks (.record fields) (.object members) other part
  | placed {fields : List (Text × Outline)} {field : Text × Outline} {items : List Value}
      {item part : Value} {other : Outline} :
      items.length = fields.length → (field, item) ∈ fields.zip items →
      Checks field.2 item other part → Checks (.record fields) (.list items) other part

def VariantFree (outline : Outline) (value : Value) : Prop :=
  ∀ cases part, ¬ Checks outline value (.variant cases) part

theorem VariantFree.below {outline inner : Outline} {value part : Value}
    (free : VariantFree outline value)
    (walk : ∀ {other last}, Checks inner part other last → Checks outline value other last) :
    VariantFree inner part :=
  fun cases last checks => free cases last (walk checks)

/-- All of the first list is in the second, in order, and nothing else is under the condition. -/
structure Adds {α : Type} (condition : Prop) (fewer more : List α) : Prop where
  sublist : fewer.Sublist more
  same : condition → fewer = more

namespace Adds

variable {α : Type} {condition stronger : Prop} {fewer more others further : List α}

theorem refl (items : List α) : Adds condition items items :=
  ⟨.refl items, fun _ => rfl⟩

theorem append (adds : Adds condition fewer more) (rest : Adds condition others further) :
    Adds condition (fewer ++ others) (more ++ further) where
  sublist := adds.sublist.append rest.sublist
  same holds := by rw [adds.same holds, rest.same holds]

theorem imp (adds : Adds condition fewer more) (implies : stronger → condition) :
    Adds stronger fewer more :=
  ⟨adds.sublist, fun holds => adds.same (implies holds)⟩

theorem map {β : Type} (adds : Adds condition fewer more) (image : α → β) :
    Adds condition (fewer.map image) (more.map image) where
  sublist := adds.sublist.map image
  same holds := by rw [adds.same holds]

end Adds

section Check

variable {condition : Prop}

theorem adds_checkItems {inner : Outline} {items : List Value}
    (each : ∀ item ∈ items, ∀ path,
      Adds condition (check false inner item path) (check true inner item path))
    (path : Text) (index : Nat) :
    Adds condition (checkItems (check false inner) path index items)
      (checkItems (check true inner) path index items) := by
  induction items generalizing index with
  | nil => exact .refl []
  | cons item items ih =>
      have here := each item List.mem_cons_self (itemPath path index)
      exact here.append (ih (fun item member => each item (List.mem_cons_of_mem _ member)) (index + 1))

theorem adds_checkNamed {fields : List (Text × Outline)} {members : List (Text × Value)}
    (each : ∀ field ∈ fields, ∀ member, Dictionary.find? field.1 members = some member → ∀ path,
      Adds condition (check false field.2 member path) (check true field.2 member path))
    (path : Text) :
    Adds condition (checkNamed false fields members path) (checkNamed true fields members path) := by
  induction fields with
  | nil =>
      rw [checkNamed, checkNamed]
      exact .refl []
  | cons field rest ih =>
      obtain ⟨name, type⟩ := field
      have here := each (name, type) List.mem_cons_self
      have others := ih fun field member => each field (List.mem_cons_of_mem _ member)
      rw [checkNamed, checkNamed]
      apply Adds.append _ others
      cases found : Dictionary.find? name members with
      | none => exact .refl _
      | some member => exact here member found _

theorem adds_checkListed {fields : List (Text × Outline)} {items : List Value}
    (each : ∀ entry ∈ fields.zip items, ∀ path,
      Adds condition (check false entry.1.2 entry.2 path) (check true entry.1.2 entry.2 path))
    (path : Text) :
    Adds condition (checkListed false fields items path) (checkListed true fields items path) := by
  induction fields generalizing items with
  | nil =>
      simp only [checkListed]
      exact .refl []
  | cons field rest ih =>
      obtain ⟨name, type⟩ := field
      cases items with
      | nil =>
          simp only [checkListed]
          exact .refl []
      | cons item items =>
          have here := each ((name, type), item) List.mem_cons_self
          have others := ih fun entry member => each entry (List.mem_cons_of_mem _ member)
          rw [checkListed, checkListed]
          exact (here _).append others

end Check

/-- A strict check adds violations, and adds none where no variant is met. -/
theorem adds_check (outline : Outline) (value : Value) (path : Text) :
    Adds (VariantFree outline value) (check false outline value path)
      (check true outline value path) := by
  induction outline using Outline.induction generalizing value path with
  | opt inner ih =>
      simp only [check]
      split
      · exact .refl []
      · rename_i solid
        apply (ih value path).imp
        intro free
        exact free.below (.opt (by simpa using solid))
  | vec inner ih =>
      simp only [check]
      cases value with
      | list items =>
          apply adds_checkItems
          intro item member path
          apply (ih item path).imp
          intro free
          exact free.below (.item member)
      | _ => exact .refl _
  | record fields ih =>
      cases value with
      | list items =>
          simp only [check]
          split
          · exact .refl _
          · rename_i same
            apply adds_checkListed
            intro entry member path
            apply (ih entry.1 (List.of_mem_zip member).1 entry.2 path).imp
            intro free
            exact free.below (.placed (by simpa using same) member)
      | object members =>
          simp only [check]
          apply adds_checkNamed
          intro field member value found path
          apply (ih field member value path).imp
          intro free
          exact free.below (.named member found)
      | _ =>
          simp only [check]
          exact .refl _
  | variant cases _ =>
      -- The lenient check stops here, so the hypothesis on the payloads is not needed.
      have met (free : VariantFree (.variant cases) value) : False := free cases value (.here _ _)
      simp only [check]
      split
      · exact ⟨List.nil_sublist _, fun free => (met free).elim⟩
      · exact .refl _
  | leaf text =>
      simp only [check]
      exact .refl _

/-- The check of a value against argument types comes to the type with the value. A single type is that
of the whole value, and several are those of the items of a list. -/
inductive ChecksArgument : List Text → Value → Outline → Value → Prop where
  | whole {type : Text} {value part : Value} {outline : Outline} :
      Checks (.ofText type) value outline part → ChecksArgument [type] value outline part
  | listed {types : List Text} {type : Text} {values : List Value} {value part : Value}
      {outline : Outline} :
      types.length ≠ 1 → values.length = types.length → (type, value) ∈ types.zip values →
      Checks (.ofText type) value outline part → ChecksArgument types (.list values) outline part

def argumentValue (text : Text) : Except ReadError Value :=
  if text.trim.isEmpty then .ok .null else Json.read text

def VariantFreeArguments (types : List Text) (text : Text) : Prop :=
  ∀ value, argumentValue text = .ok value →
    ∀ cases part, ¬ ChecksArgument types value (.variant cases) part

theorem adds_checkArguments {condition : Prop} {types : List Text} {values : List Value}
    (each : ∀ entry ∈ types.zip values, condition → VariantFree (.ofText entry.1) entry.2)
    (index : Nat) :
    Adds condition (checkArguments false index types values)
      (checkArguments true index types values) := by
  induction types generalizing values index with
  | nil =>
      simp only [checkArguments]
      exact .refl []
  | cons type types ih =>
      cases values with
      | nil =>
          simp only [checkArguments]
          exact .refl []
      | cons value values =>
          have here := adds_check (.ofText type) value (itemPath [] index)
          have others := ih (fun entry member => each entry (List.mem_cons_of_mem _ member)) (index + 1)
          rw [checkArguments, checkArguments]
          exact (here.imp (each (type, value) List.mem_cons_self)).append others

theorem adds_checkValue (types : List Text) (value : Value) :
    Adds (∀ cases part, ¬ ChecksArgument types value (.variant cases) part)
      (checkValue false types value) (checkValue true types value) := by
  have several (other : types.length ≠ 1) (values : List Value)
      (size : values.length = types.length) :
      Adds (∀ cases part, ¬ ChecksArgument types (.list values) (.variant cases) part)
        (checkArguments false 0 types values) (checkArguments true 0 types values) := by
    apply adds_checkArguments
    intro entry member free cases part checks
    exact free cases part (.listed other size member checks)
  unfold checkValue
  split
  · rename_i type
    apply Adds.map
    apply (adds_check (.ofText type) value []).imp
    intro free cases part checks
    exact free cases part (.whole checks)
  · rename_i other
    have other : types.length ≠ 1 := by
      intro one
      obtain ⟨type, single⟩ := List.length_eq_one_iff.mp one
      exact other type single
    split
    · rename_i values
      split
      · exact .refl _
      · rename_i size
        apply Adds.map
        exact several other values (by simpa using size)
    · exact .refl _

/-- A strict validation has all messages of a lenient one, in order. It has the same messages if no
variant is met. -/
theorem strict_messages (types : List Text) (text : Text) :
    ((validate false types text).map Finding.message).Sublist
        ((validate true types text).map Finding.message) ∧
      (VariantFreeArguments types text → (validate false types text).map Finding.message =
        (validate true types text).map Finding.message) := by
  have adds : Adds (VariantFreeArguments types text) (validate false types text)
      (validate true types text) := by
    have checked (value : Value) (decoded : argumentValue text = .ok value) :=
      (adds_checkValue types value).imp fun (free : VariantFreeArguments types text) =>
        free value decoded
    unfold validate
    split
    · rename_i blank
      split
      · exact .refl []
      · exact checked .null (if_pos blank)
    · rename_i solid
      split
      · rename_i value decoded
        exact checked value ((if_neg solid).trans decoded)
      · exact .refl _
  obtain ⟨sublist, same⟩ := adds.map Finding.message
  exact ⟨sublist, same⟩

/-- Under a null the check does not come to the variant of an option. -/
theorem strict_messages_of_null :
    let types : List Text :=
      ["opt variant \x7b A \x7d".toList, "record \x7b a : nat \x7d".toList]
    let text : Text := "[null, [true]]".toList
    VariantFreeArguments types text ∧
      (validate false types text).map Finding.message =
        ["[1].a expected number or numeric string".toList] ∧
      (validate true types text).map Finding.message =
        ["[1].a expected number or numeric string".toList] := by
  intro types text
  have decoded : Json.read text = .ok (.list [.null, .list [.bool true]]) := by
    have read : Json.read "[null, [true]]".toList = .ok (.list [.null, .list [.bool true]]) := by cbv
    exact read
  have solid : text.trim.isEmpty = false := by decide
  have payload : innerType "opt".toList (Text.trim "opt variant \x7b A \x7d".toList) =
      "variant \x7b A \x7d".toList := by decide
  have items : variantCases (Text.trim "variant \x7b A \x7d".toList) = [⟨"A".toList, none⟩] := by
    decide
  have option : Outline.ofText "opt variant \x7b A \x7d".toList =
      .opt (.variant [("A".toList, none)]) := by
    rw [Outline.ofText_of_opt (by decide), payload, Outline.ofText_of_variant (by decide), items,
      List.map_singleton, Option.map_none]
  have free : VariantFreeArguments types text := by
    intro value read cases part checks
    rw [argumentValue, solid, decoded] at read
    cases read
    change ChecksArgument ["opt variant \x7b A \x7d".toList, "record \x7b a : nat \x7d".toList] _ _ _
      at checks
    cases checks with
    | listed _ _ member checks =>
        rcases List.mem_cons.mp member with first | member
        · cases first
          rw [option] at checks
          cases checks with
          | opt solid => cases solid
        · cases List.mem_singleton.mp member
          rw [ofText_record_nat] at checks
          cases checks with
          | placed _ member checks =>
              cases List.mem_singleton.mp member
              cases checks
  have lenient : (validate false types text).map Finding.message =
      ["[1].a expected number or numeric string".toList] := by
    have second := ofText_record_nat
    simp only [validate, solid, decoded, checkValue, checkArguments, types, option, second,
      Bool.false_eq_true, ↓reduceIte]
    rfl
  exact ⟨free, lenient, ((strict_messages types text).2 free).symm.trans lenient⟩

end Candid.Argument
