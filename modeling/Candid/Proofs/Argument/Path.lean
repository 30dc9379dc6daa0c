import Candid.Proofs.Argument.Failure
import Candid.Proofs.Argument.Fits

/-!
# Paths of errors

The converter and the checker put the steps to a field or an item behind the path they are given, and
use it in no other way. So what they find below a path is what they find at the root, each place with
the path in front. In the wording of a violation the path takes the place of the word for the root.
-/

set_option autoImplicit false

namespace Candid.Argument

open Json

/-- The error with a path in front of its own. The refusal to write an integer has no path. -/
def Error.below (front : Text) : Error → Error
  | .located fault path => .located fault (front ++ path)
  | .digitLimit limit => .digitLimit limit

section Conversion

variable (front : Text)

theorem shown_below (value : Value) :
    (shown value).mapError (Error.below front) = shown value := by
  unfold shown
  cases value.display <;> rfl

theorem refuse_append {α : Type} (fault : Text → Fault) (path : Text) (value : Value) :
    refuse (α := α) fault (front ++ path) value =
      (refuse fault path value).mapError (Error.below front) := by
  unfold refuse
  rw [mapError_bind, shown_below]
  rfl

theorem asText_below (value : Value) :
    (asText value).mapError (Error.below front) = asText value := by
  have container (value : Value) (image : WriteError → Error)
      (kept : ∀ limit, image (.digitLimit limit) = .digitLimit limit) :
      ((value.write (.compact .written)).mapError image).mapError (Error.below front) =
        (value.write (.compact .written)).mapError image := by
    cases written : value.write (.compact .written) with
    | ok text => rfl
    | error error =>
        obtain ⟨limit, rfl⟩ := exists_limit_of_writeAt rfl written
        simp only [Except.mapError, kept, Error.below]
  cases value with
  | null | bool => rfl
  | list | object =>
      apply container
      intro limit
      rfl
  | integer | float | text => exact shown_below front _

theorem asBool_append (value : Value) (path : Text) :
    asBool value (front ++ path) = (asBool value path).mapError (Error.below front) := by
  unfold asBool
  split
  · rfl
  · rw [mapError_bind, shown_below]
    congr
    funext text
    repeat' split
    all_goals rfl

theorem asFloat_append (value : Value) (path : Text) :
    asFloat value (front ++ path) = (asFloat value path).mapError (Error.below front) := by
  unfold asFloat
  repeat' split
  all_goals first | rfl | exact refuse_append front _ path _

theorem asInteger_append (value : Value) (path : Text) :
    asInteger value (front ++ path) = (asInteger value path).mapError (Error.below front) := by
  unfold asInteger
  repeat' split
  all_goals first | rfl | exact refuse_append front _ path _

theorem asUnbounded_append (value : Value) (path : Text) :
    asUnbounded value (front ++ path) = (asUnbounded value path).mapError (Error.below front) := by
  cases value with
  | null => rfl
  | bool => exact refuse_append front _ path _
  | integer | float | text =>
      simp only [asUnbounded]
      repeat' split
      all_goals rfl
  | list | object =>
      simp only [asUnbounded, mapError_bind, shown_below]
      rfl

theorem convertScalar_append (scalar : Scalar) (value : Value) (path : Text) :
    convertScalar scalar value (front ++ path) =
      (convertScalar scalar value path).mapError (Error.below front) := by
  cases scalar with
  | text | principal =>
      simp only [convertScalar, mapError_bind, asText_below]
      rfl
  | bool => exact asBool_append front value path
  | float32 | float64 => exact asFloat_append front value path
  | nat | int => exact asUnbounded_append front value path
  | _ => exact asInteger_append front value path

theorem convertItems_append {convertItem : Value → Text → Except Error Value}
    (below : ∀ item path, convertItem item (front ++ path) =
      (convertItem item path).mapError (Error.below front))
    (path : Text) (index : Nat) (items : List Value) :
    convertItems convertItem (front ++ path) index items =
      (convertItems convertItem path index items).mapError (Error.below front) := by
  induction items generalizing index with
  | nil => rfl
  | cons item items ih =>
      simp only [convertItems, itemPath_append, below, ih, mapError_bind]
      rfl

theorem convertSequence_append {convertItem : Value → Text → Except Error Value}
    (below : ∀ item path, convertItem item (front ++ path) =
      (convertItem item path).mapError (Error.below front))
    (value : Value) (path : Text) :
    convertSequence convertItem value (front ++ path) =
      (convertSequence convertItem value path).mapError (Error.below front) := by
  cases value with
  | list items =>
      simp only [convertSequence, convertItems_append front below, mapError_bind]
      rfl
  | _ => rfl

theorem convertLeaf_append (leaf : Text) (value : Value) (path : Text) :
    convertLeaf leaf value (front ++ path) =
      (convertLeaf leaf value path).mapError (Error.below front) := by
  unfold convertLeaf
  split
  · exact convertScalar_append front _ value path
  · split
    · exact convertSequence_append front (convertScalar_append front .nat8) value path
    · rfl

section Fields

variable {fields : List (Text × Outline)}
  (below : ∀ field ∈ fields, ∀ value path, convert field.2 value (front ++ path) =
    (convert field.2 value path).mapError (Error.below front))

include below

theorem convertNamed_append (members : List (Text × Value)) (path : Text) :
    convertNamed fields members (front ++ path) =
      (convertNamed fields members path).mapError (Error.below front) := by
  induction fields with
  | nil =>
      simp only [convertNamed]
      rfl
  | cons field rest ih =>
      obtain ⟨name, type⟩ := field
      have here := below (name, type) List.mem_cons_self
      have others := ih fun field member => below field (List.mem_cons_of_mem _ member)
      simp only at here
      simp only [convertNamed]
      cases Dictionary.find? name members with
      | none => rfl
      | some member =>
          simp only [fieldPath_append, here, others, mapError_bind]
          rfl

theorem convertListed_append (items : List Value) (path : Text) :
    convertListed fields items (front ++ path) =
      (convertListed fields items path).mapError (Error.below front) := by
  induction fields generalizing items with
  | nil =>
      simp only [convertListed]
      rfl
  | cons field rest ih =>
      obtain ⟨name, type⟩ := field
      have here := below (name, type) List.mem_cons_self
      simp only at here
      cases items with
      | nil =>
          simp only [convertListed]
          rfl
      | cons item items =>
          have others := ih (fun field member => below field (List.mem_cons_of_mem _ member)) items
          simp only [convertListed, fieldPath_append, here, others, mapError_bind]
          rfl

end Fields

/-- Below a path a value is converted as at the root, and an error has the path in front of its own. -/
theorem convert_append (outline : Outline) (value : Value) (path : Text) :
    convert outline value (front ++ path) =
      (convert outline value path).mapError (Error.below front) := by
  induction outline using Outline.induction generalizing value path with
  | opt inner ih =>
      cases value with
      | null =>
          simp only [convert]
          rfl
      | _ =>
          simp only [convert]
          exact ih _ path
  | vec inner ih =>
      simp only [convert]
      exact convertSequence_append front ih value path
  | record fields ih =>
      simp only [convert]
      split
      · rfl
      · cases value with
        | object members =>
            simp only [convertNamed_append front ih, mapError_bind]
            rfl
        | list items =>
            simp only
            split
            · rfl
            · simp only [convertListed_append front ih, mapError_bind]
              rfl
        | _ => rfl
  | variant cases _ =>
      simp only [convert]
      rfl
  | leaf text =>
      simp only [convert]
      exact convertLeaf_append front text value path

end Conversion

/-- A path as the walks make it: the steps from the root to a field or an item, in order. -/
inductive IsPath : Text → Prop where
  | root : IsPath []
  | field (name : Text) {rest : Text} : IsPath rest → IsPath (fieldPath [] name ++ rest)
  | item (index : Nat) {rest : Text} : IsPath rest → IsPath (itemPath [] index ++ rest)

def Placed (violations : List Violation) : Prop :=
  ∀ violation ∈ violations, IsPath violation.path

section Placed

variable {violations others : List Violation}

theorem placed_nil : Placed [] := by
  intro violation member
  cases member

theorem placed_root (problem : Problem) : Placed [⟨[], problem⟩] := by
  intro violation member
  cases List.mem_singleton.mp member
  exact .root

theorem Placed.append (placed : Placed violations) (further : Placed others) :
    Placed (violations ++ others) :=
  List.forall_mem_append.mpr ⟨placed, further⟩

theorem Placed.field (placed : Placed violations) (name : Text) :
    Placed (violations.map (Violation.below (fieldPath [] name))) :=
  List.forall_mem_map.mpr fun violation member => .field name (placed violation member)

theorem Placed.item (placed : Placed violations) (index : Nat) :
    Placed (violations.map (Violation.below (itemPath [] index))) :=
  List.forall_mem_map.mpr fun violation member => .item index (placed violation member)

theorem placed_violationUnless (fits : Bool) (problem : Problem) :
    Placed (violationUnless fits [] problem) := by
  cases fits with
  | true => exact placed_nil
  | false => exact placed_root problem

theorem placed_checkScalar (scalar : Scalar) (value : Value) :
    Placed (checkScalar scalar value []) := by
  cases scalar <;> exact placed_violationUnless _ _

theorem placed_checkSequence {checkItem : Value → Text → List Violation}
    (below : ∀ item path, checkItem item path = (checkItem item []).map (Violation.below path))
    (placed : ∀ item, Placed (checkItem item [])) (value : Value) :
    Placed (checkSequence checkItem value []) := by
  cases value with
  | list items =>
      have each (index : Nat) : Placed (checkItems checkItem [] index items) := by
        induction items generalizing index with
        | nil => exact placed_nil
        | cons item items ih =>
            rw [checkItems, below]
            exact ((placed item).item index).append (ih (index + 1))
      exact each 0
  | _ => exact placed_root _

theorem placed_checkLeaf (leaf : Text) (value : Value) : Placed (checkLeaf leaf value []) := by
  have below (item : Value) (path : Text) := checkScalar_append path .nat8 item []
  simp only [List.append_nil] at below
  unfold checkLeaf
  split
  · exact placed_checkScalar _ value
  · split
    · exact placed_checkSequence below (placed_checkScalar .nat8) value
    · exact placed_nil

section Fields

variable {strict : Bool} {fields : List (Text × Outline)}
  (placed : ∀ field ∈ fields, ∀ value, Placed (check strict field.2 value []))

include placed

theorem placed_checkNamed (members : List (Text × Value)) :
    Placed (checkNamed strict fields members []) := by
  induction fields with
  | nil =>
      rw [checkNamed]
      exact placed_nil
  | cons field rest ih =>
      obtain ⟨name, type⟩ := field
      have here := placed (name, type) List.mem_cons_self
      have others := ih fun field member => placed field (List.mem_cons_of_mem _ member)
      rw [checkNamed]
      apply Placed.append _ others
      cases Dictionary.find? name members with
      | none => exact placed_violationUnless _ _
      | some member =>
          have below := (here member).field name
          rwa [← check_below] at below

theorem placed_checkListed (items : List Value) :
    Placed (checkListed strict fields items []) := by
  induction fields generalizing items with
  | nil =>
      simp only [checkListed]
      exact placed_nil
  | cons field rest ih =>
      obtain ⟨name, type⟩ := field
      have here := placed (name, type) List.mem_cons_self
      cases items with
      | nil =>
          simp only [checkListed]
          exact placed_nil
      | cons item items =>
          have others := ih (fun field member => placed field (List.mem_cons_of_mem _ member)) items
          have below := (here item).field name
          rw [← check_below] at below
          rw [checkListed]
          exact below.append others

end Fields

theorem placed_checkCase {cases : List (Text × Option Outline)}
    (placed : ∀ item ∈ cases, ∀ type ∈ item.2, ∀ value, Placed (check true type value []))
    (names : List Text) (name : Text) (payload : Value) :
    Placed (checkCase cases names name payload []) := by
  induction cases with
  | nil =>
      rw [checkCase]
      exact placed_root _
  | cons item rest ih =>
      have others := ih fun item member => placed item (List.mem_cons_of_mem _ member)
      obtain ⟨caseName, type⟩ := item
      cases type with
      | none =>
          rw [checkCase]
          split
          · have below := (placed_violationUnless payload.isNull .expectedNull).field name
            rwa [← violationUnless_append, List.append_nil] at below
          · exact others
      | some type =>
          have here := placed (caseName, some type) List.mem_cons_self type rfl
          rw [checkCase]
          split
          · have below := (here payload).field name
            rwa [← check_below] at below
          · exact others

/-- The check of a value at the root reports paths. -/
theorem placed_check (strict : Bool) (outline : Outline) (value : Value) :
    Placed (check strict outline value []) := by
  induction outline using Outline.induction generalizing strict value with
  | opt inner ih =>
      rw [check]
      split
      · exact placed_nil
      · exact ih strict value
  | vec inner ih =>
      rw [check]
      exact placed_checkSequence (check_below strict inner) (ih strict) value
  | record fields ih =>
      have placed (field : Text × Outline) (member : field ∈ fields) := ih field member strict
      cases value with
      | list items =>
          rw [check]
          split
          · exact placed_root _
          · exact placed_checkListed placed items
      | object members =>
          rw [check]
          exact placed_checkNamed placed members
      | _ =>
          simp only [check]
          exact placed_root _
  | variant cases ih =>
      have placed (item : Text × Option Outline) (member : item ∈ cases) (type : Outline)
          (payload : type ∈ item.2) := ih item member type payload true
      simp only [check]
      split
      · split
        · exact placed_checkCase placed _ _ _
        · exact placed_nil
      · exact placed_root _
  | leaf text =>
      rw [check]
      exact placed_checkLeaf text value

end Placed

/-- The wording of a violation with `front` for the word for the root at its beginning, or else in front
of the whole. -/
def relocated (front message : Text) : Text :=
  if "(root) ".toList.isPrefixOf message then front ++ message.drop "(root)".toList.length
  else front ++ message

theorem IsPath.head_ne_paren {path : Text} (isPath : IsPath path) : path.head? ≠ some '(' := by
  cases isPath with
  | root => simp
  | field => simp [fieldPath]
  | item => simp [itemPath]

theorem message_below {front : Text} (some : front ≠ []) {violation : Violation}
    (placed : IsPath violation.path) :
    (violation.below front).message = relocated front violation.message := by
  have inside : (front ++ violation.path).isEmpty = false := by simp [some]
  cases place : violation.path with
  | nil =>
      simp [Violation.message, Violation.below, relocated, place, some]
  | cons c rest =>
      -- A step begins with a dot or a bracket, so the wording does not begin with the word for the root.
      have other : c ≠ '(' := by
        have head := placed.head_ne_paren
        simpa [place] using head
      simp [Violation.message, Violation.below, relocated, place, some, Ne.symm other]

/-- Below a path a value is converted to what it is at the root, or fails with the same fault, at the
path followed by the one from the root. A value is found to have the same violations in the same order,
the path in front of each and in place of the word for the root. -/
theorem errors_below_path (type : Text) (value : Value) {front : Text} (some : front ≠ []) :
    convert (.ofText type) value front =
        (convert (.ofText type) value []).mapError (Error.below front) ∧
      ∀ strict, (check strict (.ofText type) value front).map Violation.message =
        ((check strict (.ofText type) value []).map Violation.message).map (relocated front) := by
  constructor
  · have below := convert_append front (.ofText type) value []
    rwa [List.append_nil] at below
  · intro strict
    have placed := placed_check strict (.ofText type) value
    rw [check_below, List.map_map, List.map_map]
    apply List.map_congr_left
    intro violation member
    exact message_below some (placed violation member)

/-- Of a record at the head of a list, an item of a field and a missing field are reported. -/
theorem errors_below_path_of_item :
    let type : Text := "record \x7b a : vec nat8; b : nat \x7d".toList
    let value : Value := .object [("a".toList, .list [.integer 1, .text "x".toList])]
    "[0]".toList ≠ [] ∧
      convert (.ofText type) value "[0]".toList =
        .error (.located (.invalidInteger "x".toList) "[0].a[1]".toList) ∧
      ∀ strict, (check strict (.ofText type) value "[0]".toList).map Violation.message =
        ["[0].a[1] expected number".toList, "[0] missing field b".toList] := by
  intro type value
  have fields : recordFields type.trim =
      [⟨"a".toList, "vec nat8".toList⟩, ⟨"b".toList, "nat".toList⟩] := by decide
  have inner : innerType "vec".toList (Text.trim "vec nat8".toList) = "nat8".toList := by decide
  have items : Outline.ofText "vec nat8".toList = .vec (.leaf "nat8".toList) := by
    rw [Outline.ofText_of_vec (by decide), inner]
    exact congrArg Outline.vec (Outline.ofText_scalar .nat8)
  have outline : Outline.ofText type =
      .record [("a".toList, .vec (.leaf "nat8".toList)), ("b".toList, .leaf "nat".toList)] := by
    rw [Outline.ofText_of_record (by decide), fields, List.map_cons, List.map_singleton, items,
      Outline.ofText_nat]
  have some : "[0]".toList ≠ [] := by decide
  obtain ⟨converted, checked⟩ := errors_below_path type value some
  rw [outline] at converted checked ⊢
  refine ⟨some, ?_, fun strict => ?_⟩
  · rw [converted]
    rfl
  · rw [checked]
    rfl

end Candid.Argument
