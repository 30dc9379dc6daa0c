import Candid.Argument.Example
import Candid.Proofs.Argument.Conversion
import Candid.Proofs.Fragment.Rendered
import Candid.Proofs.Json.Inverse
import Mathlib.Data.List.Permutation

/-!
# Valid examples

The example of a type fits the type in either mode and is its own conversion, if the records met on
the way have distinct field names and the variants met there have a case. The written example of
arguments that are not nested too deeply is read back as the example.
-/

set_option autoImplicit false

namespace Candid.Argument

open Json

/-- Making the example of the first type reaches the second one. -/
inductive Shows : Outline → Outline → Prop where
  | here (outline : Outline) : Shows outline outline
  | item {inner other : Outline} : Shows inner other → Shows (.vec inner) other
  | field {fields : List (Text × Outline)} {field : Text × Outline} {other : Outline} :
      field ∈ fields → Shows field.2 other → Shows (.record fields) other
  | firstCase {name : Text} {type other : Outline} {rest : List (Text × Option Outline)} :
      Shows type other → Shows (.variant ((name, some type) :: rest)) other

/-- The records that are reached have distinct field names, and the variants have a case. -/
structure Showable (outline : Outline) : Prop where
  distinct : ∀ fields, Shows outline (.record fields) → (fields.map (·.1)).Nodup
  populated : ∀ cases, Shows outline (.variant cases) → cases ≠ []

theorem Showable.below {outline inner : Outline} (showable : Showable outline)
    (reaches : ∀ {other}, Shows inner other → Shows outline other) : Showable inner where
  distinct fields shows := showable.distinct fields (reaches shows)
  populated cases shows := showable.populated cases (reaches shows)

theorem exampleFields_eq (fields : List (Text × Outline)) :
    exampleFields fields = fields.map fun field => (field.1, exampleOf field.2) := by
  induction fields with
  | nil => simp only [exampleFields, List.map_nil]
  | cons field rest ih => simp only [exampleFields, ih, List.map_cons]

theorem entries_exampleFields {good : Text × Outline → Value → Prop}
    {fields : List (Text × Outline)} (each : ∀ field ∈ fields, good field (exampleOf field.2)) :
    Entries good fields (exampleFields fields) := by
  rw [exampleFields_eq]
  exact List.forall₂_map_right_iff.mpr
    (List.forall₂_same.mpr fun field member => ⟨rfl, each field member⟩)

theorem eq_exampleFields {fields : List (Text × Outline)} {entries : List (Text × Value)}
    (same : Entries (fun field value => value = exampleOf field.2) fields entries) :
    entries = exampleFields fields := by
  induction same with
  | nil => simp only [exampleFields]
  | @cons field entry _ _ both _ ih =>
      obtain ⟨name, value⟩ := both
      simp only [exampleFields, ← ih, ← name, ← value]

theorem checkScalar_scalarExample (scalar : Scalar) :
    checkScalar scalar (scalarExample scalar) [] = [] := by
  cases scalar <;> rfl

theorem fits_example {outline : Outline} (showable : Showable outline) (strict : Bool) :
    Fits strict outline (exampleOf outline) := by
  induction outline using Outline.induction generalizing strict with
  | opt inner _ => exact fits_opt.mpr (.inl rfl)
  | vec inner ih =>
      refine fits_vec.mpr ⟨[exampleOf inner], by rw [exampleOf], ?_⟩
      simpa using ih (showable.below .item) strict
  | record fields ih =>
      have each := entries_exampleFields
        fun field member => ih field member (showable.below (.field member)) strict
      rw [exampleOf]
      exact FitsEach.record each (showable.distinct fields (.here _))
  | variant cases ih =>
      rw [exampleOf]
      match cases with
      | [] => exact absurd rfl (showable.populated [] (.here _))
      | (name, none) :: rest =>
          refine fits_variant.mpr ⟨name, .null, by rw [exampleCase], fun _ => ⟨none, ?_, rfl⟩⟩
          simp
      | (name, some type) :: rest =>
          refine fits_variant.mpr ⟨name, exampleOf type, by rw [exampleCase], fun _ => ?_⟩
          refine ⟨some type, by simp, ?_⟩
          exact ih (name, some type) (by simp) type rfl (showable.below .firstCase) true
  | leaf leaf =>
      rw [fits_leaf, exampleOf, leafExample]
      cases Scalar.ofText? leaf with
      | some scalar => exact checkScalar_scalarExample scalar
      | none =>
          intro shorthand
          rw [if_pos shorthand]
          exact ⟨[.integer 0], rfl, by simp [Value.isNumber]⟩

theorem convertScalar_scalarExample (scalar : Scalar) (path : Text) :
    convertScalar scalar (scalarExample scalar) path = .ok (scalarExample scalar) := by
  have finite : (Binary64.ofDecimal false 314 (-2)).isFinite = true := by decide +kernel
  cases scalar with
  | float32 | float64 => simp only [convertScalar, scalarExample, asFloat, finite, ↓reduceIte]
  | _ => rfl

theorem convert_example {outline : Outline} (showable : Showable outline) (path : Text) :
    convert outline (exampleOf outline) path = .ok (exampleOf outline) := by
  induction outline using Outline.induction generalizing path with
  | opt inner _ => simp only [exampleOf, convert]
  | vec inner ih =>
      have item := ih (showable.below .item) (itemPath path 0)
      simp only [exampleOf, convert, convertSequence, convertItems, item]
      rfl
  | record fields ih =>
      have distinct : ((exampleFields fields).map (·.1)).Nodup := by
        rw [exampleFields_eq, List.map_map]
        exact showable.distinct fields (.here _)
      have each : ∀ field ∈ fields, ∃ member,
          Dictionary.find? field.1 (exampleFields fields) = some member ∧
            ∀ path, ∃ converted, convert field.2 member path = .ok converted ∧
              converted = exampleOf field.2 := by
        intro field member
        have entry : (field.1, exampleOf field.2) ∈ exampleFields fields := by
          rw [exampleFields_eq]
          exact List.mem_map.mpr ⟨field, member, rfl⟩
        refine ⟨_, Dictionary.find?_of_mem distinct entry, fun path => ⟨_, ?_, rfl⟩⟩
        exact ih field member (showable.below (.field member)) path
      obtain ⟨entries, found, all⟩ := convertNamed_of_each each path
      rw [eq_exampleFields all] at found
      rw [exampleOf, Dictionary.ofList_of_nodup distinct]
      cases fields with
      | nil => simp only [convert, exampleFields, List.isEmpty_nil, ↓reduceIte]
      | cons field rest =>
          simp only [convert, List.isEmpty_cons, Bool.false_eq_true, ↓reduceIte, found]
          exact congrArg (fun entries => Except.ok (Value.object entries))
            (Dictionary.ofList_of_nodup distinct)
  | variant cases ih => simp only [convert]
  | leaf leaf =>
      simp only [convert, convertLeaf, exampleOf, leafExample]
      cases Scalar.ofText? leaf with
      | some scalar => exact convertScalar_scalarExample scalar path
      | none =>
          simp only
          split
          · rfl
          · rfl

theorem looksLikeJson_placeholder (leaf : Text) :
    looksLikeJson (Text.trim ("<value for ".toList ++ leaf ++ ['>'])) = false := by
  have solid : Text.Solid ("<value for ".toList ++ (leaf ++ ['>'])) :=
    ⟨⟨'<', _, rfl, by decide⟩, "<value for ".toList ++ leaf, '>', by simp, by decide⟩
  rw [List.append_assoc, solid.trim]
  simp [looksLikeJson]

theorem preParse_example (outline : Outline) : preParse (exampleOf outline) = exampleOf outline := by
  cases outline with
  | leaf leaf =>
      rw [exampleOf, leafExample]
      cases Scalar.ofText? leaf with
      | some scalar => cases scalar <;> rfl
      | none =>
          simp only
          split
          · rfl
          · rw [preParse, looksLikeJson_placeholder]
            rfl
  | _ =>
      rw [exampleOf, preParse]
      simp

theorem buildValue_example {type : Text} (showable : Showable (.ofText type)) :
    buildValue type (exampleValue type) = .ok (exampleValue type) := by
  rw [buildValue, exampleValue, preParse_example]
  exact convert_example showable []

theorem exchangeable_scalarExample (scalar : Scalar) : (scalarExample scalar).Exchangeable where
  limited := by cases scalar <;> intro number holds <;> cases holds <;> decide
  distinct := Value.IsLeaf.distinctNames (by cases scalar <;> trivial)

theorem exchangeable_leafExample (leaf : Text) : (leafExample leaf).Exchangeable := by
  rw [leafExample]
  cases Scalar.ofText? leaf with
  | some scalar => exact exchangeable_scalarExample scalar
  | none =>
      simp only
      split
      · refine exchangeable_list (List.forall_mem_singleton.mpr ?_)
        exact exchangeable_scalarExample .nat8
      · exact exchangeable_text _

theorem exchangeable_example {outline : Outline} : (exampleOf outline).Exchangeable := by
  induction outline using Outline.induction with
  | opt inner _ =>
      rw [exampleOf]
      exact exchangeable_null
  | vec inner ih =>
      rw [exampleOf]
      exact exchangeable_list (List.forall_mem_singleton.mpr ih)
  | record fields ih =>
      rw [exampleOf, exampleFields_eq]
      refine exchangeable_object (Dictionary.nodup_ofList _) fun member inside => ?_
      obtain ⟨field, among, rfl⟩ := List.mem_map.mp (Dictionary.mem_of_mem_ofList inside)
      exact ih field among
  | variant cases ih =>
      rw [exampleOf]
      match cases with
      | [] => exact exchangeable_object List.nodup_nil (by simp [exampleCase])
      | (name, none) :: rest =>
          exact exchangeable_object (List.nodup_singleton name)
            (List.forall_mem_singleton.mpr exchangeable_null)
      | (name, some type) :: rest =>
          exact exchangeable_object (List.nodup_singleton name)
            (List.forall_mem_singleton.mpr (ih (name, some type) (by simp) type rfl))
  | leaf leaf =>
      rw [exampleOf]
      exact exchangeable_leafExample leaf

def exampleArguments : List Text → Value
  | [type] => exampleValue type
  | types => .list (types.map exampleValue)

theorem exchangeable_exampleArguments (types : List Text) : (exampleArguments types).Exchangeable := by
  match types with
  | [] => exact exchangeable_list (by simp)
  | [type] => exact exchangeable_example
  | _ :: _ :: _ => exact exchangeable_list (List.forall_mem_map.mpr fun type _ => exchangeable_example)

/-- The example of arguments that are not nested too deeply is read back from its text. -/
theorem read_exampleArguments {types : List Text}
    (shallow : (exampleArguments types).nesting ≤ Reader.depthLimit) {text : Text}
    (written : (exampleArguments types).write (.indented .written) = .ok text) :
    Json.read text = .ok (exampleArguments types) :=
  read_write (Style.isBlank_indented .written) (exchangeable_exampleArguments types).distinct shallow
    written

theorem exampleArguments_eq (types : List Text) :
    exampleArguments types = ofArguments (types.map exampleValue) := by
  match types with
  | [] => rfl
  | [_] => rfl
  | _ :: _ :: _ => rfl

theorem checkValue_exampleArguments {types : List Text}
    (showable : ∀ type ∈ types, Showable (.ofText type)) (strict : Bool) :
    checkValue strict types (exampleArguments types) = [] := by
  rw [exampleArguments_eq, checkValue_ofArguments (List.length_map _)]
  exact List.forall₂_map_right_iff.mpr
    (List.forall₂_same.mpr fun type member => fits_example (showable type member) strict)

theorem examples_eq_write {types : List Text} (some : types ≠ []) :
    examples types = (exampleArguments types).write (.indented .written) := by
  match types with
  | [type] => rfl
  | _ :: _ :: _ => rfl

/-- If the reader inverts the writer on the example of the arguments, the written example is valid in
either mode; and the example of each type is its own conversion. -/
theorem examples_valid {types : List Text} (showable : ∀ type ∈ types, Showable (.ofText type))
    (inverts : ∀ text, (exampleArguments types).write (.indented .written) = .ok text →
      Json.read text = .ok (exampleArguments types)) :
    (∃ text, examples types = .ok text ∧ ∀ strict, validate strict types text = []) ∧
      ∀ type ∈ types, buildValue type (exampleValue type) = .ok (exampleValue type) := by
  refine ⟨?_, fun type member => buildValue_example (showable type member)⟩
  by_cases none : types = []
  · subst none
    exact ⟨[], rfl, fun strict => rfl⟩
  · obtain ⟨text, written⟩ : ∃ text, (exampleArguments types).write (.indented .written) = .ok text :=
      exists_writeAt rfl (exchangeable_exampleArguments types).limited 0
    have decoded := inverts text written
    refine ⟨text, by rw [examples_eq_write none]; exact written, fun strict => ?_⟩
    rw [validate_of_read decoded]
    exact checkValue_exampleArguments showable strict

/-- The example of a record of one natural number is valid. -/
theorem examples_record_valid :
    (∀ type ∈ ["record \x7b a : nat \x7d".toList], Showable (.ofText type)) ∧
      (∀ text, (exampleArguments ["record \x7b a : nat \x7d".toList]).write
          (.indented .written) = .ok text →
        Json.read text = .ok (exampleArguments ["record \x7b a : nat \x7d".toList])) ∧
      (∃ text, examples ["record \x7b a : nat \x7d".toList] = .ok text ∧
        ∀ strict, validate strict ["record \x7b a : nat \x7d".toList] text = []) ∧
      ∀ type ∈ ["record \x7b a : nat \x7d".toList],
        buildValue type (exampleValue type) = .ok (exampleValue type) := by
  have showable : ∀ type ∈ ["record \x7b a : nat \x7d".toList], Showable (.ofText type) := by
    rw [List.forall_mem_singleton, ofText_record_nat]
    constructor
    · intro fields shows
      cases shows with
      | here => decide
      | field inside shows =>
          cases List.mem_singleton.mp inside
          cases shows
    · intro cases shows
      cases shows with
      | field inside shows =>
          cases List.mem_singleton.mp inside
          cases shows
  have inverts : ∀ text, (exampleArguments ["record \x7b a : nat \x7d".toList]).write
      (.indented .written) = .ok text →
      Json.read text = .ok (exampleArguments ["record \x7b a : nat \x7d".toList]) := by
    have shown : exampleArguments ["record \x7b a : nat \x7d".toList] =
        .object [("a".toList, .text "100000000000000000000".toList)] := by
      rw [exampleArguments, exampleValue, ofText_record_nat]
      rfl
    rw [shown]
    intro text written
    have text_eq : text = "\x7b\n  \"a\": \"100000000000000000000\"\n\x7d".toList :=
      (Except.ok.inj written).symm
    rw [text_eq]
    cbv
  exact ⟨showable, inverts, examples_valid showable inverts⟩

end Candid.Argument
