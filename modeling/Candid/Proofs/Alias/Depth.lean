import Candid.Proofs.Alias.Substitution
import Candid.Proofs.Dictionary
import Candid.Proofs.Fragment.Row
import Mathlib.Algebra.GroupWithZero.Nat
import Mathlib.Algebra.Order.BigOperators.Group.List
import Mathlib.Algebra.Order.Group.Nat

/-!
# The depth of an expansion

The expansion of a type expression as a recursion on its text: into what a keyword wraps, the types of
fields and cases, and the definition of a name that is not under expansion. A call inside a text goes
to a shorter one, and a call into a definition leaves one name less to be expanded, so the calls go no
deeper than a number that the table and the text determine.
-/

set_option autoImplicit false

namespace Candid.Alias

/-- The expansion of a text in calls of itself that go at most `depth` deep; `none` where they would
go deeper. -/
def expandWithin (table : AliasTable) (strict : Bool) :
    (depth : Nat) → List Text → Text → ExceptT ResolutionError Option Outline
  | 0, _, _ => ExceptT.mk none
  | depth + 1, expanding, expression =>
    let whole := expression.trim
    let keyword := leadingWord whole
    let within := expandWithin table strict depth expanding
    if keyword = "opt".toList then do
      let inner ← within (innerType keyword whole)
      pure (.opt inner)
    else if keyword = "vec".toList then do
      let inner ← within (innerType keyword whole)
      pure (.vec inner)
    else if keyword = "record".toList then do
      let fields ← (recordFields whole).mapM fun field => do
        let type ← within field.type
        pure (field.name, type)
      pure (.record fields)
    else if keyword = "variant".toList then do
      let cases ← (variantCases whole).mapM fun item => do
        match item.type with
        | none => pure (item.name, none)
        | some type =>
          let type ← within type
          pure (item.name, some type)
      pure (.variant cases)
    else
      match Dictionary.find? whole table with
      | some definition =>
        if whole ∈ expanding then throw (.cyclic (cycle expanding whole))
        else expandWithin table strict depth (expanding ++ [whole]) definition
      | none =>
        if isBlob whole then pure (.vec (.leaf Scalar.nat8.name))
        else if strict && !isCompound whole && !isBuiltin whole then throw (.unresolved whole)
        else pure (.leaf whole)

def depthBound (table : AliasTable) (expanding : List Text) (expression : Text) : Nat :=
  unexpanded table expanding * ((table.map (·.2.length)).sum + 1) + expression.length

section Bound

variable {table : AliasTable} {expanding : List Text} {expression : Text}

theorem depthBound_of_shorter {inner : Text} (shorter : inner.length < expression.length) :
    depthBound table expanding inner < depthBound table expanding expression :=
  Nat.add_lt_add_left shorter _

theorem depthBound_of_definition {name definition : Text}
    (found : Dictionary.find? name table = some definition) (new : name ∉ expanding)
    (expression : Text) :
    depthBound table (expanding ++ [name]) definition < depthBound table expanding expression := by
  have fewer := unexpanded_lt found new
  have bounded : definition.length ≤ (table.map (·.2.length)).sum :=
    List.le_sum_of_mem (List.mem_map.mpr ⟨_, Dictionary.mem_of_find? found, rfl⟩)
  unfold depthBound
  calc unexpanded table (expanding ++ [name]) * ((table.map (·.2.length)).sum + 1) +
        definition.length
      < (unexpanded table (expanding ++ [name]) + 1) * ((table.map (·.2.length)).sum + 1) := by
        rw [Nat.add_one_mul]
        omega
    _ ≤ unexpanded table expanding * ((table.map (·.2.length)).sum + 1) :=
        Nat.mul_le_mul_right _ fewer
    _ ≤ _ := Nat.le_add_right _ _

end Bound

section Calls

variable {ε : Type} {replace : Text → Except ε Outline} {within : Text → ExceptT ε Option Outline}

theorem mk_bind {α β : Type} (outcome : Except ε α) (next : α → Except ε β) :
    (ExceptT.mk (some outcome) >>= fun value => ExceptT.mk (some (next value)) :
      ExceptT ε Option β) = ExceptT.mk (some (outcome >>= next)) := by
  cases outcome <;> rfl

theorem mapM_recordFields {fields : List FieldText}
    (each : ∀ field ∈ fields,
      within field.type = ExceptT.mk (some ((Outline.ofText field.type).substitute replace))) :
    (fields.mapM fun field => do
      let type ← within field.type
      pure (field.name, type)) =
      ExceptT.mk (some (Outline.substituteFields replace
        (fields.map fun field => (field.name, Outline.ofText field.type)))) := by
  induction fields with
  | nil => rfl
  | cons field rest ih =>
      have first := each field List.mem_cons_self
      have others := ih fun field member => each field (List.mem_cons_of_mem _ member)
      rw [List.mapM_cons, others, first, List.map_cons, Outline.substituteFields]
      cases (Outline.ofText field.type).substitute replace with
      | error error => rfl
      | ok type => exact mk_bind _ fun rest => .ok ((field.name, type) :: rest)

theorem mapM_variantCases {cases : List CaseText}
    (each : ∀ item ∈ cases, ∀ type ∈ item.type,
      within type = ExceptT.mk (some ((Outline.ofText type).substitute replace))) :
    (cases.mapM fun item =>
      match item.type with
      | none => pure (item.name, none)
      | some type => do
        let type ← within type
        pure (item.name, some type)) =
      ExceptT.mk (some (Outline.substituteCases replace
        (cases.map fun item => (item.name, item.type.map Outline.ofText)))) := by
  induction cases with
  | nil => rfl
  | cons item rest ih =>
      have others := ih fun item member => each item (List.mem_cons_of_mem _ member)
      rw [List.mapM_cons, others, List.map_cons]
      match item with
      | ⟨name, none⟩ => exact mk_bind _ fun rest => .ok ((name, none) :: rest)
      | ⟨name, some type⟩ =>
          have first := each ⟨name, some type⟩ List.mem_cons_self type rfl
          simp only [first, Option.map_some, Outline.substituteCases]
          cases (Outline.ofText type).substitute replace with
          | error error => rfl
          | ok type => exact mk_bind _ fun rest => .ok ((name, some type) :: rest)

end Calls

theorem expandLeaf_eq (table : AliasTable) (strict : Bool) (expanding : List Text) (leaf : Text) :
    expandLeaf table strict expanding leaf =
      match Dictionary.find? leaf table with
      | some definition =>
        if leaf ∈ expanding then .error (.cyclic (cycle expanding leaf))
        else (Outline.ofText definition).substitute (expandLeaf table strict (expanding ++ [leaf]))
      | none =>
        if isBlob leaf then .ok (.vec (.leaf Scalar.nat8.name))
        else if strict && !isCompound leaf && !isBuiltin leaf then .error (.unresolved leaf)
        else .ok (.leaf leaf) := by
  rw [expandLeaf]
  split
  · rename_i definition found
    rw [found]
    rfl
  · rename_i free
    rw [free]

/-- An expansion that succeeds succeeds alike without strictness and with fewer names under
expansion. -/
theorem expandLeaf_of_subset {table : AliasTable} {strict : Bool} {expanding fewer : List Text}
    {leaf : Text} {expanded : Outline} (subset : fewer ⊆ expanding)
    (done : expandLeaf table strict expanding leaf = .ok expanded) :
    expandLeaf table false fewer leaf = .ok expanded := by
  fun_induction expandLeaf table strict expanding leaf generalizing fewer expanded with
  | case1 | case4 => cases done
  | case2 expanding leaf definition found new ih =>
      have absent : leaf ∉ fewer := fun member => new (subset member)
      have kept : fewer ++ [leaf] ⊆ expanding ++ [leaf] := by
        intro name member
        rcases List.mem_append.mp member with before | last
        · exact List.mem_append_left _ (subset before)
        · exact List.mem_append_right _ last
      rw [expandLeaf_eq, found]
      simp only [absent, ↓reduceIte]
      exact Outline.substitute_of_agree done fun inner _ type step => ih inner kept step
  | case3 expanding leaf free shorthand =>
      rw [expandLeaf_eq, free]
      simpa [shorthand] using done
  | case5 expanding leaf free other =>
      rw [expandLeaf_eq, free]
      simpa [other] using done

/-- Calls that may go deeper than the bound give the expansion of the outline. -/
theorem expandWithin_eq (table : AliasTable) (strict : Bool) {depth : Nat} {expanding : List Text}
    {expression : Text} (enough : depthBound table expanding expression < depth) :
    expandWithin table strict depth expanding expression =
      ExceptT.mk (some
        ((Outline.ofText expression).substitute (expandLeaf table strict expanding))) := by
  induction depth generalizing expanding expression with
  | zero => exact absurd enough (Nat.not_lt_zero _)
  | succ depth ih =>
      have shrunk := Text.length_trim_le expression
      have within {inner : Text} (shorter : inner.length < expression.length) :
          expandWithin table strict depth expanding inner =
            ExceptT.mk (some
              ((Outline.ofText inner).substitute (expandLeaf table strict expanding))) := by
        have less := @depthBound_of_shorter table expanding _ _ shorter
        exact ih (by omega)
      rw [expandWithin, Outline.ofText_eq]
      split
      · rename_i leads
        rw [leads, within (length_innerType leads (by decide))]
        rw [Outline.substitute]
        exact mk_bind _ fun inner => .ok (Outline.opt inner)
      split
      · rename_i leads
        rw [leads, within (length_innerType leads (by decide))]
        rw [Outline.substitute]
        exact mk_bind _ fun inner => .ok (Outline.vec inner)
      split
      · rw [mapM_recordFields fun field member =>
          within ((length_of_mem_recordFields member).trans_le shrunk)]
        rw [Outline.substitute]
        exact mk_bind _ fun fields => .ok (Outline.record fields)
      split
      · rw [mapM_variantCases fun item member type payload =>
          within ((length_of_mem_variantCases member payload).trans_le shrunk)]
        rw [Outline.substitute]
        exact mk_bind _ fun cases => .ok (Outline.variant cases)
      rw [Outline.substitute, expandLeaf_eq]
      split
      · rename_i definition found
        split
        · rfl
        · rename_i new
          have less := depthBound_of_definition found new expression
          exact ih (by omega)
      split
      · rfl
      split
      · rfl
      · rfl

end Candid.Alias
