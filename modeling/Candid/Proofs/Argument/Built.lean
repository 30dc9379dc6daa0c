import Candid.Proofs.Argument.Converted
import Candid.Proofs.Argument.Integer

/-!
# Built values

Whatever a conversion gives has the shape of its type, with two exceptions: a variant is passed on as
it is, and so is a list or an object in the place of an integer without a width.
-/

set_option autoImplicit false

namespace Candid.Argument

open Json

section Scalars

variable {value result : Value} {path : Text}

theorem refuse_ne_ok {fault : Text → Fault} : refuse fault path value ≠ .ok result := by
  intro converted
  obtain ⟨text, _, refused⟩ := bind_eq_ok.mp converted
  cases refused

theorem isBool_of_asBool (converted : asBool value path = .ok result) : result.isBool = true := by
  cases value with
  | bool flag =>
      cases converted
      rfl
  | _ =>
      obtain ⟨text, _, further⟩ := bind_eq_ok.mp converted
      split at further
      · cases further
        rfl
      · split at further
        · cases further
          rfl
        · cases further

theorem isNumber_of_asFloat (converted : asFloat value path = .ok result) :
    result.isNumber = true := by
  cases value with
  | integer number =>
      cases converted
      rfl
  | float number =>
      simp only [asFloat] at converted
      split at converted
      · cases converted
        rfl
      · exact absurd converted refuse_ne_ok
  | text content =>
      simp only [asFloat] at converted
      split at converted
      · split at converted
        · cases converted
          rfl
        · exact absurd converted refuse_ne_ok
      · exact absurd converted refuse_ne_ok
  | _ => exact absurd converted refuse_ne_ok

theorem isNumber_of_asInteger (converted : asInteger value path = .ok result) :
    result.isNumber = true := by
  cases value with
  | integer number =>
      cases converted
      rfl
  | float number =>
      simp only [asInteger] at converted
      split at converted
      · cases converted
        rfl
      · exact absurd converted refuse_ne_ok
  | text content =>
      simp only [asInteger] at converted
      split at converted
      · cases converted
        rfl
      · exact absurd converted refuse_ne_ok
  | _ => exact absurd converted refuse_ne_ok

/-- For an integer without a width a list or an object is kept, and everything else becomes a number or
a text. -/
theorem kept_of_asUnbounded (converted : asUnbounded value path = .ok result) :
    ¬ value.IsLeaf ∧ result = value ∨
      value.IsLeaf ∧ (result.isNumber || result.isText) = true := by
  cases value with
  | null =>
      cases converted
      exact .inr ⟨trivial, rfl⟩
  | bool flag => exact absurd converted refuse_ne_ok
  | integer number =>
      refine .inr ⟨trivial, ?_⟩
      simp only [asUnbounded] at converted
      split at converted
      · cases converted
        rfl
      · split at converted <;> cases converted
        rfl
  | float number =>
      refine .inr ⟨trivial, ?_⟩
      simp only [asUnbounded] at converted
      split at converted
      · split at converted <;> cases converted <;> rfl
      · exact absurd converted refuse_ne_ok
  | text content =>
      refine .inr ⟨trivial, ?_⟩
      simp only [asUnbounded] at converted
      split at converted
      · cases converted
        rfl
      · split at converted
        · cases converted
          rfl
        · split at converted <;> cases converted
          rfl
  | list | object =>
      obtain ⟨text, _, kept⟩ := bind_eq_ok.mp converted
      cases kept
      exact .inl ⟨id, rfl⟩

/-- What a scalar type makes of a value fits the type, but for a list or an object in the place of an
integer without a width. -/
theorem checkScalar_of_converted {scalar : Scalar}
    (converted : convertScalar scalar value path = .ok result) :
    checkScalar scalar result [] = [] ↔ (scalar.isUnbounded = true → value.IsLeaf) := by
  have bounded (other : scalar.isUnbounded = false) : scalar.isUnbounded = true → value.IsLeaf :=
    fun unbounded => absurd (unbounded.symm.trans other) (by decide)
  cases scalar with
  | text | principal =>
      obtain ⟨text, _, same⟩ := bind_eq_ok.mp converted
      cases same
      exact iff_of_true rfl (bounded rfl)
  | bool => exact iff_of_true (violationUnless_eq_nil.mpr (isBool_of_asBool converted)) (bounded rfl)
  | float32 | float64 =>
      exact iff_of_true (violationUnless_eq_nil.mpr (isNumber_of_asFloat converted)) (bounded rfl)
  | nat | int =>
      simp only [checkScalar, violationUnless_eq_nil]
      rcases kept_of_asUnbounded converted with ⟨container, rfl⟩ | ⟨leaf, shape⟩
      · cases result with
        | list | object => exact iff_of_false Bool.false_ne_true fun leaf => leaf rfl
        | _ => exact absurd trivial container
      · exact iff_of_true shape fun _ => leaf
  | _ => exact iff_of_true (violationUnless_eq_nil.mpr (isNumber_of_asInteger converted)) (bounded rfl)

/-- A scalar type makes null of no value. -/
theorem convertScalar_ne_null {scalar : Scalar} : convertScalar scalar value path ≠ .ok .null := by
  intro converted
  cases scalar with
  | text | principal =>
      obtain ⟨text, _, same⟩ := bind_eq_ok.mp converted
      cases same
  | bool => cases isBool_of_asBool converted
  | float32 | float64 => cases isNumber_of_asFloat converted
  | nat | int =>
      rcases kept_of_asUnbounded converted with ⟨container, rfl⟩ | ⟨_, shape⟩
      · exact container trivial
      · cases shape
  | _ => cases isNumber_of_asInteger converted

end Scalars

/-- No list or object stands where the walk meets an integer without a width. -/
def PlainNumerals (outline : Outline) (value : Value) : Prop :=
  ∀ leaf part, Meets outline value (.leaf leaf) part → IsUnbounded leaf → part.IsLeaf

/-- What the walk of a value meets, as a form relies on it: records of distinct field names, and no
variants. -/
structure Fillable (outline : Outline) (value : Value) : Prop where
  distinct : DistinctFields outline value
  unvaried : ∀ cases part, ¬ Meets outline value (.variant cases) part

section Walk

variable {outline inner : Outline} {value part result : Value} {path : Text}

theorem PlainNumerals.below (plain : PlainNumerals outline value)
    (walk : ∀ {other last}, Meets inner part other last → Meets outline value other last) :
    PlainNumerals inner part :=
  fun leaf last met => plain leaf last (walk met)

theorem plainNumerals_null : PlainNumerals outline .null := by
  intro leaf part meets _
  rw [meets.of_null rfl]
  trivial

theorem plainNumerals_opt : PlainNumerals (.opt inner) value ↔ PlainNumerals inner value := by
  constructor
  · exact fun plain => plain.below .opt
  · intro plain leaf part meets
    cases meets with
    | opt meets => exact plain leaf part meets

theorem plainNumerals_vec {items : List Value} :
    PlainNumerals (.vec inner) (.list items) ↔ ∀ item ∈ items, PlainNumerals inner item := by
  constructor
  · exact fun plain item inside => plain.below (.item inside)
  · intro plain leaf part meets
    cases meets with
    | item inside meets => exact plain _ inside leaf part meets

theorem plainNumerals_record {fields : List (Text × Outline)} :
    PlainNumerals (.record fields) value ↔
      ∀ field ∈ fields, ∀ part, Supplies fields value field part → PlainNumerals field.2 part := by
  constructor
  · exact fun plain field _ part supplies => plain.below supplies.meets.trans
  · intro plain leaf part meets
    rcases meets.exists_supplied with same | ⟨field, source, supplies, declared, meets⟩
    · cases same
    · exact plain field declared source supplies leaf part meets

theorem plainNumerals_leaf {leaf : Text} :
    PlainNumerals (.leaf leaf) value ↔ (IsUnbounded leaf → value.IsLeaf) := by
  constructor
  · exact fun plain => plain leaf value (.here _ _)
  · intro plain other part meets
    cases meets with
    | here => exact plain

theorem Fillable.below (fillable : Fillable outline value)
    (walk : ∀ {other last}, Meets inner part other last → Meets outline value other last) :
    Fillable inner part :=
  ⟨fillable.distinct.below walk, fun cases last met => fillable.unvaried cases last (walk met)⟩

theorem eq_null_of_converted (converted : convert outline value path = .ok .null) :
    value = .null := by
  induction outline using Outline.induction generalizing value path with
  | opt inner ih =>
      cases value with
      | null => rfl
      | _ =>
          simp only [convert] at converted
          exact ih converted
  | vec inner _ =>
      simp only [convert] at converted
      obtain ⟨_, _, _, same, _⟩ := sequence_of_converted converted
      cases same
  | record fields _ =>
      obtain ⟨_, same, _⟩ := record_of_converted converted
      cases same
  | variant cases _ =>
      simp only [convert] at converted
      cases converted
      rfl
  | leaf leaf =>
      simp only [convert, convertLeaf] at converted
      split at converted
      · exact absurd converted convertScalar_ne_null
      · split at converted
        · obtain ⟨_, _, _, same, _⟩ := sequence_of_converted converted
          cases same
        · cases converted
          rfl

theorem fits_leaf_of_converted {strict : Bool} {leaf : Text}
    (converted : convert (.leaf leaf) value path = .ok result) :
    Fits strict (.leaf leaf) result ↔ (IsUnbounded leaf → value.IsLeaf) := by
  rw [fits_leaf]
  simp only [convert, convertLeaf] at converted
  cases named : Scalar.ofText? leaf with
  | some scalar =>
      simp only [named] at converted ⊢
      have unbounded : IsUnbounded leaf ↔ scalar.isUnbounded = true := by
        simp [IsUnbounded, named]
      rw [unbounded]
      exact checkScalar_of_converted converted
  | none =>
      simp only [named] at converted ⊢
      refine iff_of_true (fun shorthand => ?_) fun unbounded => ?_
      · rw [if_pos shorthand] at converted
        obtain ⟨items, results, rfl, rfl, each⟩ := sequence_of_converted converted
        refine ⟨results, rfl, fun result inside => ?_⟩
        obtain ⟨item, _, place, here⟩ := exists_left_of_forall₂ each inside
        exact isNumber_of_asInteger here
      · obtain ⟨scalar, other, _⟩ := unbounded
        cases named.symm.trans other

/-- Entries that are named as the fields of a record fit it exactly if each fits its field. -/
theorem fits_record_of_entries {strict : Bool} {good : Text × Outline → Value → Prop}
    {fields : List (Text × Outline)} {entries : List (Text × Value)}
    (each : Entries good fields entries) (distinct : (fields.map (·.1)).Nodup) :
    Fits strict (.record fields) (.object (Dictionary.ofList entries)) ↔
      FitsEach strict fields entries := by
  refine ⟨fun fits => ?_, fun fits => fits.record distinct⟩
  have names : (entries.map (·.1)).Nodup := Entries.names each ▸ distinct
  rw [Dictionary.ofList_of_nodup names] at fits
  have named : FitsNamed strict fields entries := by
    rcases fits_record.mp fits with ⟨members, same, named⟩ | ⟨_, same, _⟩
    · cases same
      exact named
    · cases same
  refine List.forall₂_iff_zip.mpr ⟨each.length_eq, fun {field entry} inside => ?_⟩
  have name := (List.forall₂_zip each inside).1
  obtain ⟨declared, member⟩ := List.of_mem_zip inside
  have here := named field declared
  rw [← name, Dictionary.find?_of_mem names member] at here
  exact ⟨name, here⟩

theorem fits_vec_of_converted {strict : Bool}
    (step : ∀ {value result : Value} {path : Text}, Fillable inner value →
      convert inner value path = .ok result → (Fits strict inner result ↔ PlainNumerals inner value))
    (fillable : Fillable (.vec inner) value) (converted : convert (.vec inner) value path = .ok result) :
    Fits strict (.vec inner) result ↔ PlainNumerals (.vec inner) value := by
  simp only [convert] at converted
  obtain ⟨items, results, rfl, rfl, each⟩ := sequence_of_converted converted
  have shape : Fits strict (.vec inner) (.list results) ↔
      ∀ result ∈ results, Fits strict inner result := by
    simp [fits_vec]
  rw [shape, plainNumerals_vec]
  apply forall_mem_iff_of_agree
  refine ((List.forall₂_and_left _ _).mpr ⟨fun item inside => fillable.below (.item inside),
    each⟩).imp ?_
  rintro item result ⟨fillable, place, here⟩
  exact step fillable here

theorem fits_record_of_converted {strict : Bool} {fields : List (Text × Outline)}
    (step : ∀ field ∈ fields, ∀ {value result : Value} {path : Text}, Fillable field.2 value →
      convert field.2 value path = .ok result →
      (Fits strict field.2 result ↔ PlainNumerals field.2 value))
    (fillable : Fillable (.record fields) value)
    (converted : convert (.record fields) value path = .ok result) :
    Fits strict (.record fields) result ↔ PlainNumerals (.record fields) value := by
  obtain ⟨entries, rfl, each⟩ := record_of_converted converted
  have distinct := fillable.distinct fields value (.here _ _)
  rw [fits_record_of_entries each distinct, plainNumerals_record]
  apply forall₂_iff_of_agree
  refine ((List.forall₂_and_left _ _).mpr ⟨fun field declared => declared, each⟩).imp ?_
  rintro field entry ⟨declared, name, source, place, supplies, here⟩
  have agree := step field declared (fillable.below supplies.meets.trans) here
  constructor
  · rintro ⟨_, fits⟩ part again
    exact supplies.unique distinct again ▸ agree.mp fits
  · exact fun plain => ⟨name, agree.mpr (plain source supplies)⟩

/-- What a value is converted to fits the type exactly if no list or object was given for an integer
without a width. -/
theorem fits_of_converted {strict : Bool} (fillable : Fillable outline value)
    (converted : convert outline value path = .ok result) :
    Fits strict outline result ↔ PlainNumerals outline value := by
  induction outline using Outline.induction generalizing value result path with
  | opt inner ih =>
      rw [fits_opt, plainNumerals_opt]
      cases value with
      | null =>
          simp only [convert] at converted
          cases converted
          exact iff_of_true (.inl rfl) plainNumerals_null
      | _ =>
          simp only [convert] at converted
          have solid : ¬ result.isNull = true := by
            intro null
            cases result with
            | null => cases eq_null_of_converted converted
            | _ => cases null
          rw [or_iff_right solid]
          exact ih (fillable.below .opt) converted
  | vec inner ih => exact fits_vec_of_converted ih fillable converted
  | record fields ih =>
      exact fits_record_of_converted (fun field declared => ih field declared) fillable converted
  | variant cases _ => exact absurd (.here _ _) (fillable.unvaried cases value)
  | leaf leaf => exact (fits_leaf_of_converted converted).trans plainNumerals_leaf.symm

end Walk

section Names

variable {value result : Value} {path : Text}

/-- A scalar type gives a value that is no container, or the value itself. -/
theorem isLeaf_or_eq_of_converted {scalar : Scalar}
    (converted : convertScalar scalar value path = .ok result) : result.IsLeaf ∨ result = value := by
  have number (shape : result.isNumber = true) : result.IsLeaf := by
    cases result with
    | list | object => cases shape
    | _ => trivial
  cases scalar with
  | text | principal =>
      obtain ⟨text, _, same⟩ := bind_eq_ok.mp converted
      cases same
      exact .inl trivial
  | bool =>
      left
      have shape := isBool_of_asBool converted
      cases result with
      | bool => trivial
      | _ => cases shape
  | float32 | float64 => exact .inl (number (isNumber_of_asFloat converted))
  | nat | int =>
      rcases kept_of_asUnbounded converted with ⟨_, same⟩ | ⟨_, shape⟩
      · exact .inr same
      · left
        cases result with
        | list | object => cases shape
        | _ => trivial
  | _ => exact .inl (number (isNumber_of_asInteger converted))

theorem distinctNames_of_sequence {convertItem : Value → Text → Except Error Value}
    (each : ∀ {item result : Value} {path : Text}, item.DistinctNames →
      convertItem item path = .ok result → result.DistinctNames)
    (distinct : value.DistinctNames) (converted : convertSequence convertItem value path = .ok result) :
    result.DistinctNames := by
  obtain ⟨items, results, rfl, rfl, all⟩ := sequence_of_converted converted
  refine distinctNames_list fun result inside => ?_
  obtain ⟨item, member, place, here⟩ := exists_left_of_forall₂ all inside
  exact each (fun members holds => distinct members (.item member holds)) here

theorem distinctNames_of_converted {outline : Outline} (distinct : value.DistinctNames)
    (converted : convert outline value path = .ok result) : result.DistinctNames := by
  induction outline using Outline.induction generalizing value result path with
  | opt inner ih =>
      cases value with
      | null =>
          simp only [convert] at converted
          cases converted
          exact distinct
      | _ =>
          simp only [convert] at converted
          exact ih distinct converted
  | vec inner ih =>
      simp only [convert] at converted
      exact distinctNames_of_sequence ih distinct converted
  | record fields ih =>
      obtain ⟨entries, rfl, each⟩ := record_of_converted converted
      refine distinctNames_object (Dictionary.nodup_ofList entries) fun member inside => ?_
      obtain ⟨field, declared, _, part, place, supplies, here⟩ :=
        exists_left_of_forall₂ each (Dictionary.mem_of_mem_ofList inside)
      exact ih field declared (fun members holds => distinct members (supplies.holds.trans holds)) here
  | variant cases _ =>
      simp only [convert] at converted
      cases converted
      exact distinct
  | leaf leaf =>
      have kept {scalar : Scalar} {value result : Value} {path : Text} (distinct : value.DistinctNames)
          (converted : convertScalar scalar value path = .ok result) : result.DistinctNames := by
        rcases isLeaf_or_eq_of_converted converted with leaf | rfl
        · exact leaf.distinctNames
        · exact distinct
      simp only [convert, convertLeaf] at converted
      split at converted
      · exact kept distinct converted
      · split at converted
        · exact distinctNames_of_sequence kept distinct converted
        · cases converted
          exact distinct

theorem distinctNames_preParse (distinct : value.DistinctNames) : (preParse value).DistinctNames := by
  unfold preParse
  split
  · split
    · split
      · rename_i decoded
        exact (Reader.builds_exchangeable.of_read decoded).distinct
      · exact distinct
    · exact distinct
  · exact distinct

end Names

section Arguments

variable {types : List Text} {raws values : List Value} {value : Value}

theorem each_of_buildValues (size : raws.length = types.length)
    (built : buildValues types raws = .ok values) :
    List.Forall₂ (fun entry value => buildValue entry.1 entry.2 = .ok value)
      (types.zip raws) values := by
  induction types generalizing raws values with
  | nil =>
      simp only [buildValues] at built
      cases built
      exact .nil
  | cons type types ih =>
      cases raws with
      | nil => cases size
      | cons raw raws =>
          simp only [buildValues] at built
          obtain ⟨first, here, further⟩ := bind_eq_ok.mp built
          obtain ⟨others, rest, same⟩ := bind_eq_ok.mp further
          cases same
          exact .cons here (ih (Nat.succ_inj.mp size) rest)

theorem exists_values_of_build (built : build types raws = .ok value) :
    ∃ values, value = ofArguments values ∧ raws.length = types.length ∧
      List.Forall₂ (fun entry value => buildValue entry.1 entry.2 = .ok value)
        (types.zip raws) values := by
  unfold build at built
  split at built
  · cases built
  · rename_i size
    have size : raws.length = types.length := not_not.mp size
    obtain ⟨values, found, same⟩ := bind_eq_ok.mp built
    refine ⟨values, ?_, size, each_of_buildValues size found⟩
    split at same <;> cases same
    · rfl
    · rename_i other
      rw [ofArguments]
      exact other

/-- The values of arguments fit their types exactly if no list or object was given for an integer
without a width. -/
theorem checkValue_of_build {strict : Bool}
    (fillable : ∀ entry ∈ types.zip raws, Fillable (.ofText entry.1) (preParse entry.2))
    (built : build types raws = .ok value) :
    checkValue strict types value = [] ↔
      ∀ entry ∈ types.zip raws, PlainNumerals (.ofText entry.1) (preParse entry.2) := by
  obtain ⟨values, rfl, size, each⟩ := exists_values_of_build built
  have count : values.length = types.length := by
    rw [← each.length_eq, List.length_zip, size, Nat.min_self]
  have zipped := @List.forall₂_map_left_iff _ _ _
    (fun type value => Fits strict (.ofText type) value) Prod.fst (types.zip raws) values
  rw [List.map_fst_zip size.ge] at zipped
  rw [checkValue_ofArguments count, zipped]
  apply forall₂_iff_of_agree
  refine ((List.forall₂_and_left _ _).mpr ⟨fillable, each⟩).imp ?_
  rintro entry value ⟨fillable, here⟩
  exact fits_of_converted fillable here

theorem distinctNames_of_build (distinct : ∀ raw ∈ raws, raw.DistinctNames)
    (built : build types raws = .ok value) : value.DistinctNames := by
  obtain ⟨values, rfl, size, each⟩ := exists_values_of_build built
  have all : ∀ value ∈ values, value.DistinctNames := by
    intro value inside
    obtain ⟨entry, member, here⟩ := exists_left_of_forall₂ each inside
    have named := distinct entry.2 (List.of_mem_zip member).2
    exact distinctNames_of_converted (distinctNames_preParse named) here
  unfold ofArguments
  split
  · exact all _ List.mem_cons_self
  · exact distinctNames_list all

end Arguments

end Candid.Argument
