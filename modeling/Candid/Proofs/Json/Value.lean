import Candid.Json.Value
import Candid.Number.Numeral

/-!
# Values and their parts

Induction over JSON values, the values that stand in a value, and what is asked of the numbers among
them.
-/

set_option autoImplicit false

namespace Candid.Json

section Induction

variable {property : Value → Prop}

mutual

/-- Induction over values: a property of the values that are no containers, which each container has
if its items or members have it. -/
theorem Value.induction (null : property .null) (bool : ∀ flag, property (.bool flag))
    (integer : ∀ number, property (.integer number)) (float : ∀ number, property (.float number))
    (text : ∀ content, property (.text content))
    (list : ∀ items : List Value, (∀ item ∈ items, property item) → property (.list items))
    (object : ∀ members : List (Text × Value),
      (∀ member ∈ members, property member.2) → property (.object members)) :
    (value : Value) → property value
  | .null => null
  | .bool flag => bool flag
  | .integer number => integer number
  | .float number => float number
  | .text content => text content
  | .list items => list items (induction_items null bool integer float text list object items)
  | .object members =>
      object members (induction_members null bool integer float text list object members)

theorem Value.induction_items (null : property .null) (bool : ∀ flag, property (.bool flag))
    (integer : ∀ number, property (.integer number)) (float : ∀ number, property (.float number))
    (text : ∀ content, property (.text content))
    (list : ∀ items : List Value, (∀ item ∈ items, property item) → property (.list items))
    (object : ∀ members : List (Text × Value),
      (∀ member ∈ members, property member.2) → property (.object members)) :
    (items : List Value) → ∀ item ∈ items, property item
  | [] => by simp
  | item :: rest => List.forall_mem_cons.mpr
      ⟨Value.induction null bool integer float text list object item,
        induction_items null bool integer float text list object rest⟩

theorem Value.induction_members (null : property .null) (bool : ∀ flag, property (.bool flag))
    (integer : ∀ number, property (.integer number)) (float : ∀ number, property (.float number))
    (text : ∀ content, property (.text content))
    (list : ∀ items : List Value, (∀ item ∈ items, property item) → property (.list items))
    (object : ∀ members : List (Text × Value),
      (∀ member ∈ members, property member.2) → property (.object members)) :
    (members : List (Text × Value)) → ∀ member ∈ members, property member.2
  | [] => by simp
  | (_, value) :: rest => List.forall_mem_cons.mpr
      ⟨Value.induction null bool integer float text list object value,
        induction_members null bool integer float text list object rest⟩

end

end Induction

/-- The second value stands in the first at some depth, or is the first. -/
inductive Value.Holds : Value → Value → Prop where
  | self (value : Value) : Holds value value
  | item {items : List Value} {item part : Value} :
      item ∈ items → Holds item part → Holds (.list items) part
  | member {members : List (Text × Value)} {member : Text × Value} {part : Value} :
      member ∈ members → Holds member.2 part → Holds (.object members) part

theorem Value.Holds.trans {value part inner : Value} (first : value.Holds part)
    (second : part.Holds inner) : value.Holds inner := by
  induction first with
  | self => exact second
  | item inside _ ih => exact .item inside (ih second)
  | member inside _ ih => exact .member inside (ih second)

/-- Every integer in the value has a numeral within the digit limit. -/
def Value.Limited (value : Value) : Prop :=
  ∀ number, value.Holds (.integer number) → (Numeral.ofNat number.natAbs).length ≤ digitLimit

theorem limited_list {items : List Value} (limited : ∀ item ∈ items, item.Limited) :
    (Value.list items).Limited := by
  intro number holds
  cases holds with
  | item inside holds => exact limited _ inside number holds

theorem limited_object {members : List (Text × Value)}
    (limited : ∀ member ∈ members, member.2.Limited) : (Value.object members).Limited := by
  intro number holds
  cases holds with
  | member inside holds => exact limited _ inside number holds

/-- A value that is no container has no integer in it but itself. -/
theorem limited_text (content : Text) : (Value.text content).Limited := by
  rintro number ⟨⟩

mutual

def Value.nesting : Value → Nat
  | .list items => nestingItems items + 1
  | .object members => nestingMembers members + 1
  | _ => 0

def nestingItems : List Value → Nat
  | [] => 0
  | item :: rest => max item.nesting (nestingItems rest)

def nestingMembers : List (Text × Value) → Nat
  | [] => 0
  | (_, value) :: rest => max value.nesting (nestingMembers rest)

end

theorem nesting_item {items : List Value} {item : Value} (inside : item ∈ items) :
    item.nesting < (Value.list items).nesting := by
  rw [Value.nesting, Nat.lt_add_one_iff]
  induction items with
  | nil => cases inside
  | cons first rest ih =>
      rw [nestingItems]
      rcases List.mem_cons.mp inside with rfl | later
      · exact Nat.le_max_left _ _
      · exact Nat.le_trans (ih later) (Nat.le_max_right _ _)

theorem nesting_member {members : List (Text × Value)} {member : Text × Value}
    (inside : member ∈ members) : member.2.nesting < (Value.object members).nesting := by
  rw [Value.nesting, Nat.lt_add_one_iff]
  induction members with
  | nil => cases inside
  | cons first rest ih =>
      rw [nestingMembers]
      rcases List.mem_cons.mp inside with rfl | later
      · exact Nat.le_max_left _ _
      · exact Nat.le_trans (ih later) (Nat.le_max_right _ _)

theorem nesting_list {items : List Value} {depth : Nat} (each : ∀ item ∈ items, item.nesting ≤ depth) :
    (Value.list items).nesting ≤ depth + 1 := by
  rw [Value.nesting, Nat.add_le_add_iff_right]
  induction items with
  | nil => exact Nat.zero_le depth
  | cons item rest ih =>
      rw [nestingItems]
      obtain ⟨first, others⟩ := List.forall_mem_cons.mp each
      exact Nat.max_le.mpr ⟨first, ih others⟩

theorem nesting_object {members : List (Text × Value)} {depth : Nat}
    (each : ∀ member ∈ members, member.2.nesting ≤ depth) :
    (Value.object members).nesting ≤ depth + 1 := by
  rw [Value.nesting, Nat.add_le_add_iff_right]
  induction members with
  | nil => exact Nat.zero_le depth
  | cons member rest ih =>
      rw [nestingMembers]
      obtain ⟨first, others⟩ := List.forall_mem_cons.mp each
      exact Nat.max_le.mpr ⟨first, ih others⟩

def Value.DistinctNames (value : Value) : Prop :=
  ∀ members, value.Holds (.object members) → (members.map (·.1)).Nodup

theorem distinctNames_list {items : List Value} (each : ∀ item ∈ items, item.DistinctNames) :
    (Value.list items).DistinctNames := by
  intro members holds
  cases holds with
  | item inside holds => exact each _ inside members holds

theorem distinctNames_object {members : List (Text × Value)} (distinct : (members.map (·.1)).Nodup)
    (each : ∀ member ∈ members, member.2.DistinctNames) : (Value.object members).DistinctNames := by
  intro others holds
  cases holds with
  | self => exact distinct
  | member inside holds => exact each _ inside others holds

def Value.IsLeaf : Value → Prop
  | .list _ => False
  | .object _ => False
  | _ => True

namespace Value.IsLeaf

variable {value : Value}

theorem nesting (leaf : value.IsLeaf) : value.nesting = 0 := by
  cases value with
  | list => exact leaf.elim
  | object => exact leaf.elim
  | _ => rfl

theorem distinctNames (leaf : value.IsLeaf) : value.DistinctNames := by
  intro members holds
  cases holds with
  | self => exact leaf.elim
  | item => exact leaf.elim
  | member => exact leaf.elim

end Value.IsLeaf

/-- The value stays the same when it is written and read: every integer has a numeral within the digit
limit, and no name stands twice in an object. -/
structure Value.Exchangeable (value : Value) : Prop where
  limited : value.Limited
  distinct : value.DistinctNames

theorem exchangeable_list {items : List Value} (each : ∀ item ∈ items, item.Exchangeable) :
    (Value.list items).Exchangeable where
  limited := limited_list fun item inside => (each item inside).limited
  distinct := distinctNames_list fun item inside => (each item inside).distinct

theorem exchangeable_object {members : List (Text × Value)} (distinct : (members.map (·.1)).Nodup)
    (each : ∀ member ∈ members, member.2.Exchangeable) : (Value.object members).Exchangeable where
  limited := limited_object fun member inside => (each member inside).limited
  distinct := distinctNames_object distinct fun member inside => (each member inside).distinct

theorem exchangeable_null : Value.null.Exchangeable where
  limited := by rintro number ⟨⟩
  distinct := @Value.IsLeaf.distinctNames .null trivial

theorem exchangeable_text (content : Text) : (Value.text content).Exchangeable where
  limited := limited_text content
  distinct := @Value.IsLeaf.distinctNames (.text content) trivial

end Candid.Json
