import Candid.Argument.Check
import Candid.Proofs.Fragment.Leaves
import Candid.Proofs.Json.Decoded
import Mathlib.Data.List.Forall2

/-!
# Values that fit a type

The violations of a value below a path are those at the root with the path in front. So whether there
are any does not depend on the path, and a value fits a type as its parts fit the types in it.
-/

set_option autoImplicit false

namespace Candid.Argument

open Json

def Violation.below (front : Text) (violation : Violation) : Violation :=
  ⟨front ++ violation.path, violation.problem⟩

theorem fieldPath_append (front path name : Text) :
    fieldPath (front ++ path) name = front ++ fieldPath path name := by
  simp [fieldPath]

theorem itemPath_append (front path : Text) (index : Nat) :
    itemPath (front ++ path) index = front ++ itemPath path index := by
  simp [itemPath]

section Below

variable (front : Text)

theorem violationUnless_append (fits : Bool) (path : Text) (problem : Problem) :
    violationUnless fits (front ++ path) problem =
      (violationUnless fits path problem).map (Violation.below front) := by
  cases fits <;> rfl

theorem checkScalar_append (scalar : Scalar) (value : Value) (path : Text) :
    checkScalar scalar value (front ++ path) =
      (checkScalar scalar value path).map (Violation.below front) := by
  cases scalar <;> exact violationUnless_append front _ path _

theorem checkItems_append {checkItem : Value → Text → List Violation} (path : Text)
    (items : List Value) (below : ∀ item ∈ items, ∀ path,
      checkItem item (front ++ path) = (checkItem item path).map (Violation.below front))
    (index : Nat) :
    checkItems checkItem (front ++ path) index items =
      (checkItems checkItem path index items).map (Violation.below front) := by
  induction items generalizing index with
  | nil => rfl
  | cons item items ih =>
      have others := ih (fun item member => below item (by simp [member])) (index + 1)
      simp only [checkItems, itemPath_append, below item (by simp), others, List.map_append]

theorem checkSequence_append {checkItem : Value → Text → List Violation}
    (below : ∀ item path,
      checkItem item (front ++ path) = (checkItem item path).map (Violation.below front))
    (value : Value) (path : Text) :
    checkSequence checkItem value (front ++ path) =
      (checkSequence checkItem value path).map (Violation.below front) := by
  cases value with
  | list items => exact checkItems_append front path items (fun item _ => below item) 0
  | _ => rfl

theorem checkLeaf_append (leaf : Text) (value : Value) (path : Text) :
    checkLeaf leaf value (front ++ path) =
      (checkLeaf leaf value path).map (Violation.below front) := by
  unfold checkLeaf
  split
  · exact checkScalar_append front _ value path
  · split
    · exact checkSequence_append front (checkScalar_append front .nat8) value path
    · rfl

theorem checkNamed_append {strict : Bool} {fields : List (Text × Outline)}
    (below : ∀ field ∈ fields, ∀ value path, check strict field.2 value (front ++ path) =
      (check strict field.2 value path).map (Violation.below front))
    (members : List (Text × Value)) (path : Text) :
    checkNamed strict fields members (front ++ path) =
      (checkNamed strict fields members path).map (Violation.below front) := by
  induction fields with
  | nil => simp only [checkNamed, List.map_nil]
  | cons field rest ih =>
      obtain ⟨name, type⟩ := field
      have others := ih fun field member => below field (by simp [member])
      have here (value : Value) (path : Text) : check strict type value (front ++ path) =
          (check strict type value path).map (Violation.below front) :=
        below (name, type) (by simp) value path
      simp only [checkNamed, others, List.map_append]
      cases Dictionary.find? name members with
      | none => simp only [violationUnless_append]
      | some member => simp only [fieldPath_append, here]

theorem checkListed_append {strict : Bool} {fields : List (Text × Outline)}
    (below : ∀ field ∈ fields, ∀ value path, check strict field.2 value (front ++ path) =
      (check strict field.2 value path).map (Violation.below front))
    (items : List Value) (path : Text) :
    checkListed strict fields items (front ++ path) =
      (checkListed strict fields items path).map (Violation.below front) := by
  induction fields generalizing items with
  | nil => simp only [checkListed, List.map_nil]
  | cons field rest ih =>
      obtain ⟨name, type⟩ := field
      cases items with
      | nil => simp only [checkListed, List.map_nil]
      | cons item items =>
          have others := ih (fun field member => below field (by simp [member])) items
          have here (value : Value) (path : Text) : check strict type value (front ++ path) =
              (check strict type value path).map (Violation.below front) :=
            below (name, type) (by simp) value path
          simp only [checkListed, others, fieldPath_append, here, List.map_append]

theorem checkCase_append {cases : List (Text × Option Outline)}
    (below : ∀ item ∈ cases, ∀ type ∈ item.2, ∀ value path,
      check true type value (front ++ path) =
        (check true type value path).map (Violation.below front))
    (names : List Text) (name : Text) (payload : Value) (path : Text) :
    checkCase cases names name payload (front ++ path) =
      (checkCase cases names name payload path).map (Violation.below front) := by
  induction cases with
  | nil => simp only [checkCase, List.map_cons, List.map_nil, Violation.below]
  | cons item rest ih =>
      have others := ih fun item member => below item (by simp [member])
      match item with
      | (caseName, none) =>
          simp only [checkCase, others, fieldPath_append, violationUnless_append]
          split <;> rfl
      | (caseName, some type) =>
          have here := below (caseName, some type) (by simp) type rfl
          simp only [checkCase, others, fieldPath_append, here]
          split <;> rfl

/-- Below a path the violations are those at the root, with the path in front of theirs. -/
theorem check_append (strict : Bool) (outline : Outline) (value : Value) (path : Text) :
    check strict outline value (front ++ path) =
      (check strict outline value path).map (Violation.below front) := by
  induction outline using Outline.induction generalizing strict value path with
  | opt inner ih =>
      simp only [check]
      split
      · rfl
      · exact ih strict value path
  | vec inner ih =>
      simp only [check]
      exact checkSequence_append front (ih strict) value path
  | record fields ih =>
      have below (field : Text × Outline) (member : field ∈ fields) := ih field member strict
      cases value with
      | list items =>
          simp only [check]
          split
          · rfl
          · exact checkListed_append front below items path
      | object members =>
          simp only [check]
          exact checkNamed_append front below members path
      | _ => simp only [check, List.map_cons, List.map_nil, Violation.below]
  | variant cases ih =>
      have below (item : Text × Option Outline) (member : item ∈ cases) (type : Outline)
          (payload : type ∈ item.2) := ih item member type payload true
      simp only [check]
      split
      · split
        · exact checkCase_append front below _ _ _ path
        · rfl
      · rfl
  | leaf text =>
      simp only [check]
      exact checkLeaf_append front text value path

end Below

theorem check_below (strict : Bool) (outline : Outline) (value : Value) (path : Text) :
    check strict outline value path =
      (check strict outline value []).map (Violation.below path) := by
  have below := check_append path strict outline value []
  rwa [List.append_nil] at below

def Fits (strict : Bool) (outline : Outline) (value : Value) : Prop :=
  check strict outline value [] = []

/-- Whether there are violations does not depend on the path. -/
theorem check_eq_nil {strict : Bool} {outline : Outline} {value : Value} {path : Text} :
    check strict outline value path = [] ↔ Fits strict outline value := by
  rw [check_below, List.map_eq_nil_iff]
  rfl

section Forms

variable {strict : Bool} {value : Value}

theorem fits_opt {inner : Outline} :
    Fits strict (.opt inner) value ↔ value.isNull = true ∨ Fits strict inner value := by
  unfold Fits
  simp only [check]
  split <;> simp_all

theorem checkItems_eq_nil {checkItem : Value → Text → List Violation} {fits : Value → Prop}
    (each : ∀ item path, checkItem item path = [] ↔ fits item) (path : Text) (items : List Value)
    (index : Nat) : checkItems checkItem path index items = [] ↔ ∀ item ∈ items, fits item := by
  induction items generalizing index with
  | nil => simp [checkItems]
  | cons item items ih => simp [checkItems, each, ih]

theorem checkSequence_eq_nil {checkItem : Value → Text → List Violation} {fits : Value → Prop}
    (each : ∀ item path, checkItem item path = [] ↔ fits item) {path : Text} :
    checkSequence checkItem value path = [] ↔
      ∃ items, value = .list items ∧ ∀ item ∈ items, fits item := by
  cases value with
  | list items => simp [checkSequence, checkItems_eq_nil each]
  | _ => simp [checkSequence]

theorem fits_vec {inner : Outline} :
    Fits strict (.vec inner) value ↔
      ∃ items, value = .list items ∧ ∀ item ∈ items, Fits strict inner item := by
  have each (item : Value) (path : Text) :
      check strict inner item path = [] ↔ Fits strict inner item := check_eq_nil
  rw [Fits, check]
  exact checkSequence_eq_nil each

/-- The members of an object fit the fields of a record: only an optional field may be missing. -/
def FitsNamed (strict : Bool) (fields : List (Text × Outline)) (members : List (Text × Value)) :
    Prop :=
  ∀ field ∈ fields,
    match Dictionary.find? field.1 members with
    | none => field.2.isOptional = true
    | some member => Fits strict field.2 member

theorem checkNamed_eq_nil {fields : List (Text × Outline)} {members : List (Text × Value)}
    {path : Text} :
    checkNamed strict fields members path = [] ↔ FitsNamed strict fields members := by
  unfold FitsNamed
  induction fields with
  | nil => simp [checkNamed]
  | cons field rest ih =>
      obtain ⟨name, type⟩ := field
      simp only [checkNamed, List.append_eq_nil_iff, ih, List.forall_mem_cons]
      cases Dictionary.find? name members with
      | none => cases optional : type.isOptional <;> simp [violationUnless]
      | some member => simp only [check_eq_nil]

theorem checkListed_eq_nil {fields : List (Text × Outline)} {items : List Value} {path : Text}
    (same : items.length = fields.length) :
    checkListed strict fields items path = [] ↔
      List.Forall₂ (fun field item => Fits strict field.2 item) fields items := by
  induction fields generalizing items with
  | nil =>
      cases List.length_eq_zero_iff.mp same
      simp [checkListed]
  | cons field rest ih =>
      obtain ⟨name, type⟩ := field
      cases items with
      | nil => simp at same
      | cons item items =>
          have further := @ih items (by simpa using same)
          simp [checkListed, further, check_eq_nil]

theorem fits_record {fields : List (Text × Outline)} :
    Fits strict (.record fields) value ↔
      (∃ members, value = .object members ∧ FitsNamed strict fields members) ∨
        ∃ items, value = .list items ∧
          List.Forall₂ (fun field item => Fits strict field.2 item) fields items := by
  rw [Fits]
  cases value with
  | list items =>
      simp only [check]
      split
      · rename_i other
        have unmatched : ¬ List.Forall₂ (fun field item => Fits strict field.2 item) fields items :=
          fun matched => other matched.length_eq.symm
        simpa using unmatched
      · rename_i same
        have same : items.length = fields.length := by simpa using same
        simpa using checkListed_eq_nil same
  | object members => simp [check, checkNamed_eq_nil]
  | _ => simp [check]

def FitsCase (cases : List (Text × Option Outline)) (name : Text) (payload : Value) : Prop :=
  ∃ type, cases.find? (·.1 = name) = some (name, type) ∧
    match type with
    | none => payload.isNull = true
    | some type => Fits true type payload

theorem checkCase_eq_nil {cases : List (Text × Option Outline)} {names : List Text} {name : Text}
    {payload : Value} {path : Text} :
    checkCase cases names name payload path = [] ↔ FitsCase cases name payload := by
  unfold FitsCase
  induction cases with
  | nil => simp [checkCase]
  | cons item rest ih =>
      obtain ⟨caseName, type⟩ := item
      cases type with
      | none =>
          by_cases same : caseName = name
          · cases null : payload.isNull <;> simp [checkCase, violationUnless, null, same]
          · simp [checkCase, same, ih]
      | some type =>
          by_cases same : caseName = name
          · simp [checkCase, check_eq_nil, same]
          · simp [checkCase, same, ih]

theorem fits_variant {cases : List (Text × Option Outline)} :
    Fits strict (.variant cases) value ↔
      ∃ name payload, value = .object [(name, payload)] ∧
        (strict = true → FitsCase cases name payload) := by
  unfold Fits
  simp only [check]
  split
  · cases strict <;> simp [checkCase_eq_nil]
  · rename_i other
    constructor
    · simp
    · rintro ⟨name, payload, rfl, _⟩
      exact absurd rfl (other name payload)

theorem fits_leaf {leaf : Text} :
    Fits strict (.leaf leaf) value ↔
      match Scalar.ofText? leaf with
      | some scalar => checkScalar scalar value [] = []
      | none => isBlob leaf = true →
          ∃ items, value = .list items ∧ ∀ item ∈ items, item.isNumber = true := by
  have byte (item : Value) (path : Text) :
      checkScalar .nat8 item path = [] ↔ item.isNumber = true := by
    cases number : item.isNumber <;> simp [checkScalar, violationUnless, number]
  rw [Fits, check, checkLeaf]
  cases Scalar.ofText? leaf with
  | some scalar => rfl
  | none =>
      cases isBlob leaf with
      | false => simp
      | true => simp [checkSequence_eq_nil byte]

end Forms

section Arguments

variable {strict : Bool} {types : List Text} {values : List Value}

/-- The value of several arguments: a single one alone, a list otherwise. -/
def ofArguments : List Value → Value
  | [value] => value
  | values => .list values

theorem checkArguments_eq_nil (size : values.length = types.length) {index : Nat} :
    checkArguments strict index types values = [] ↔
      List.Forall₂ (fun type value => Fits strict (.ofText type) value) types values := by
  induction types generalizing values index with
  | nil =>
      cases List.length_eq_zero_iff.mp size
      simp [checkArguments]
  | cons type types ih =>
      cases values with
      | nil => cases size
      | cons value values =>
          have further := @ih values (Nat.succ_inj.mp size) (index + 1)
          simp [checkArguments, further, check_eq_nil]

theorem checkValue_ofArguments (size : values.length = types.length) :
    checkValue strict types (ofArguments values) = [] ↔
      List.Forall₂ (fun type value => Fits strict (.ofText type) value) types values := by
  match types, values with
  | [], [] => simp [checkValue, ofArguments, checkArguments]
  | [type], [value] => simp [checkValue, ofArguments, check_eq_nil]
  | first :: second :: types, one :: other :: values =>
      have several := @checkArguments_eq_nil strict _ _ size 0
      simpa [checkValue, ofArguments, size] using several

theorem validate_of_read {text : Text} {value : Value} (decoded : Json.read text = .ok value) :
    validate strict types text = checkValue strict types value := by
  have solid : text.trim.isEmpty = false := by simpa using trim_ne_nil_of_read decoded
  simp only [validate, solid, decoded, Bool.false_eq_true, ↓reduceIte]

end Arguments

end Candid.Argument
