import Candid.Proofs.Argument.Conversion
import Candid.Proofs.Json.Writer
import Candid.Proofs.Number.Numeral

/-!
# Failures of conversion

A conversion fails with a fault at a path. The one other failure is the refusal to write an integer
over the digit limit, which is met where the text of the value is needed, so only a value that holds
such an integer can end in it. No text does, whether it is decoded first or not.
-/

set_option autoImplicit false

namespace Candid

namespace Json

def Refuses (value : Value) (limit : DigitLimitError) : Prop :=
  limit = .writing ∧ ¬ value.Limited

theorem Refuses.item {items : List Value} {item : Value} {limit : DigitLimitError}
    (refuses : Refuses item limit) (inside : item ∈ items) : Refuses (.list items) limit :=
  ⟨refuses.1, fun limited => refuses.2 fun number holds => limited number (.item inside holds)⟩

theorem Refuses.member {members : List (Text × Value)} {member : Text × Value}
    {limit : DigitLimitError} (refuses : Refuses member.2 limit) (inside : member ∈ members) :
    Refuses (.object members) limit :=
  ⟨refuses.1, fun limited => refuses.2 fun number holds => limited number (.member inside holds)⟩

theorem refuses_of_write {number : Int} {limit : DigitLimitError}
    (refused : Numeral.write number = .error limit) : Refuses (.integer number) limit := by
  unfold Numeral.write at refused
  split at refused
  · cases refused
  · rename_i long
    cases refused
    exact ⟨rfl, fun limited => long (limited number (.self _))⟩

theorem exists_item_of_innerItems {items : List Value} {limit : DigitLimitError}
    (refused : Display.innerItems items = .error limit) :
    ∃ item ∈ items, Display.inner item = .error limit := by
  induction items with
  | nil => cases refused
  | cons item items ih =>
      rw [Display.innerItems] at refused
      rcases bind_eq_error.mp refused with here | ⟨_, _, further⟩
      · exact ⟨item, by simp, here⟩
      rcases bind_eq_error.mp further with there | ⟨_, _, none⟩
      · obtain ⟨other, inside, found⟩ := ih there
        exact ⟨other, by simp [inside], found⟩
      · cases none

theorem exists_member_of_innerMembers {members : List (Text × Value)} {limit : DigitLimitError}
    (refused : Display.innerMembers members = .error limit) :
    ∃ member ∈ members, Display.inner member.2 = .error limit := by
  induction members with
  | nil => cases refused
  | cons member members ih =>
      obtain ⟨name, value⟩ := member
      rw [Display.innerMembers] at refused
      rcases bind_eq_error.mp refused with here | ⟨_, _, further⟩
      · exact ⟨(name, value), by simp, here⟩
      rcases bind_eq_error.mp further with there | ⟨_, _, none⟩
      · obtain ⟨other, inside, found⟩ := ih there
        exact ⟨other, by simp [inside], found⟩
      · cases none

theorem refuses_of_inner {value : Value} {limit : DigitLimitError}
    (refused : Display.inner value = .error limit) : Refuses value limit := by
  induction value using Value.induction with
  | null => cases refused
  | bool flag => cases flag <;> cases refused
  | integer number => exact refuses_of_write (by rwa [Display.inner] at refused)
  | float number => cases refused
  | text content => cases refused
  | list items ih =>
      rw [Display.inner] at refused
      rcases bind_eq_error.mp refused with parts | ⟨_, _, none⟩
      · obtain ⟨item, inside, found⟩ := exists_item_of_innerItems parts
        exact (ih item inside found).item inside
      · cases none
  | object members ih =>
      rw [Display.inner] at refused
      rcases bind_eq_error.mp refused with parts | ⟨_, _, none⟩
      · obtain ⟨member, inside, found⟩ := exists_member_of_innerMembers parts
        exact (ih member inside found).member inside
      · cases none

theorem exists_item_of_writeItems {style : Style} {level : Nat} {items : List Value}
    {error : WriteError} (refused : writeItems style level items = .error error) :
    ∃ item ∈ items, item.writeAt style level = .error error := by
  induction items with
  | nil => cases refused
  | cons item items ih =>
      rw [writeItems] at refused
      rcases bind_eq_error.mp refused with here | ⟨_, _, further⟩
      · exact ⟨item, by simp, here⟩
      rcases bind_eq_error.mp further with there | ⟨_, _, none⟩
      · obtain ⟨other, inside, found⟩ := ih there
        exact ⟨other, by simp [inside], found⟩
      · cases none

theorem exists_member_of_writeMembers {style : Style} {level : Nat} {members : List (Text × Value)}
    {error : WriteError} (refused : writeMembers style level members = .error error) :
    ∃ member ∈ members, member.2.writeAt style level = .error error := by
  induction members with
  | nil => cases refused
  | cons member members ih =>
      obtain ⟨name, value⟩ := member
      rw [writeMembers] at refused
      rcases bind_eq_error.mp refused with here | ⟨_, _, further⟩
      · exact ⟨(name, value), by simp, here⟩
      rcases bind_eq_error.mp further with there | ⟨_, _, none⟩
      · obtain ⟨other, inside, found⟩ := ih there
        exact ⟨other, by simp [inside], found⟩
      · cases none

theorem writeFloat_ne_digitLimit (policy : NonFinite) (number : Binary64) (limit : DigitLimitError) :
    writeFloat policy number ≠ .error (.digitLimit limit) := by
  unfold writeFloat
  repeat' split
  all_goals rintro ⟨⟩

/-- A value that is refused holds a number that is refused. -/
theorem exists_number_of_writeAt {style : Style} {level : Nat} {value : Value} {error : WriteError}
    (refused : value.writeAt style level = .error error) :
    (∃ number, value.Holds (.integer number) ∧ writeInteger number = .error error) ∨
      ∃ number, value.Holds (.float number) ∧
        writeFloat style.nonFinite number = .error error := by
  induction value using Value.induction generalizing level with
  | null => cases refused
  | bool flag => cases flag <;> cases refused
  | integer number => exact .inl ⟨number, .self _, by rwa [Value.writeAt] at refused⟩
  | float number => exact .inr ⟨number, .self _, by rwa [Value.writeAt] at refused⟩
  | text content => cases refused
  | list items ih =>
      rw [Value.writeAt] at refused
      rcases bind_eq_error.mp refused with parts | ⟨_, _, none⟩
      · obtain ⟨item, inside, found⟩ := exists_item_of_writeItems parts
        rcases ih item inside found with ⟨number, holds, failed⟩ | ⟨number, holds, failed⟩
        · exact .inl ⟨number, .item inside holds, failed⟩
        · exact .inr ⟨number, .item inside holds, failed⟩
      · cases none
  | object members ih =>
      rw [Value.writeAt] at refused
      rcases bind_eq_error.mp refused with parts | ⟨_, _, none⟩
      · obtain ⟨member, inside, found⟩ := exists_member_of_writeMembers parts
        rcases ih member inside found with ⟨number, holds, failed⟩ | ⟨number, holds, failed⟩
        · exact .inl ⟨number, .member inside holds, failed⟩
        · exact .inr ⟨number, .member inside holds, failed⟩
      · cases none

theorem write_of_writeInteger {number : Int} {error : WriteError}
    (refused : writeInteger number = .error error) :
    ∃ limit, Numeral.write number = .error limit ∧ error = .digitLimit limit := by
  unfold writeInteger at refused
  cases written : Numeral.write number with
  | ok text =>
      rw [written] at refused
      cases refused
  | error limit =>
      rw [written] at refused
      cases refused
      exact ⟨limit, rfl, rfl⟩

theorem refuses_of_writeAt {style : Style} {level : Nat} {value : Value} {limit : DigitLimitError}
    (refused : value.writeAt style level = .error (.digitLimit limit)) : Refuses value limit := by
  rcases exists_number_of_writeAt refused with ⟨number, holds, failed⟩ | ⟨number, _, failed⟩
  · obtain ⟨_, written, same⟩ := write_of_writeInteger failed
    cases same
    obtain ⟨writing, beyond⟩ := refuses_of_write written
    refine ⟨writing, fun limited => beyond ?_⟩
    rintro _ ⟨⟩
    exact limited number holds
  · exact absurd failed (writeFloat_ne_digitLimit _ _ _)

/-- Where numbers that are not finite are written as words, only an integer is refused. -/
theorem exists_limit_of_writeAt {style : Style} (words : style.nonFinite = .written) {level : Nat}
    {value : Value} {error : WriteError} (refused : value.writeAt style level = .error error) :
    ∃ limit, error = .digitLimit limit := by
  rcases exists_number_of_writeAt refused with ⟨_, _, failed⟩ | ⟨number, _, failed⟩
  · obtain ⟨limit, _, same⟩ := write_of_writeInteger failed
    exact ⟨limit, same⟩
  · rw [words] at failed
    cases number with
    | finite => cases failed
    | infinite negative => cases negative <;> cases failed
    | nan => cases failed

end Json

namespace Argument

open Json

section Answers

variable {α β : Type} {value part : Value} {path : Text}

/-- The outcome is a result, or a fault at a path, or else the refusal to write an integer over the
digit limit that the value holds. -/
def Answers (value : Value) (outcome : Except Error α) : Prop :=
  ∀ limit, outcome = .error (.digitLimit limit) → Refuses value limit

theorem answers_ok (value : Value) (result : α) : Answers value (.ok result) := by
  rintro _ ⟨⟩

theorem answers_located (value : Value) (fault : Fault) (path : Text) :
    Answers (α := α) value (.error (.located fault path)) := by
  rintro _ ⟨⟩

theorem Answers.bind {outcome : Except Error α} {next : α → Except Error β}
    (answers : Answers value outcome) (further : ∀ result, Answers value (next result)) :
    Answers value (outcome >>= next) := by
  intro limit refused
  rcases bind_eq_error.mp refused with here | ⟨result, _, there⟩
  · exact answers limit here
  · exact further result limit there

theorem Answers.item {items : List Value} {item : Value} {outcome : Except Error α}
    (answers : Answers item outcome) (inside : item ∈ items) : Answers (.list items) outcome :=
  fun limit refused => (answers limit refused).item inside

theorem Answers.member {members : List (Text × Value)} {member : Text × Value}
    {outcome : Except Error α} (answers : Answers member.2 outcome) (inside : member ∈ members) :
    Answers (.object members) outcome :=
  fun limit refused => (answers limit refused).member inside

end Answers

section Scalars

variable {α : Type}

theorem answers_shown (value : Value) : Answers value (shown value) := by
  intro limit refused
  unfold shown Value.display at refused
  split at refused
  · cases refused
  · cases displayed : Display.inner value with
    | ok text =>
        rw [displayed] at refused
        cases refused
    | error other =>
        rw [displayed] at refused
        cases refused
        exact refuses_of_inner displayed

theorem answers_refuse (fault : Text → Fault) (path : Text) (value : Value) :
    Answers value (refuse (α := α) fault path value) :=
  (answers_shown value).bind fun text => answers_located value (fault text) path

theorem answers_write (value : Value) :
    Answers value ((value.write (.compact .written)).mapError fun
      | .digitLimit limit => .digitLimit limit
      | error => .located (.unwritable error) []) := by
  intro limit refused
  unfold Value.write at refused
  cases written : value.writeAt (.compact .written) 0 with
  | ok text =>
      rw [written] at refused
      cases refused
  | error error =>
      rw [written] at refused
      cases error with
      | nonFinite => cases refused
      | digitLimit other =>
          cases refused
          exact refuses_of_writeAt written

theorem answers_asText (value : Value) : Answers value (asText value) := by
  cases value with
  | null | bool => exact answers_ok _ _
  | list | object => exact answers_write _
  | integer | float | text => exact answers_shown _

theorem answers_asBool (value : Value) (path : Text) : Answers value (asBool value path) := by
  unfold asBool
  split
  · exact answers_ok _ _
  · refine (answers_shown value).bind fun text => ?_
    split
    · exact answers_ok _ _
    split
    · exact answers_ok _ _
    · exact answers_located _ _ _

theorem answers_asFloat (value : Value) (path : Text) : Answers value (asFloat value path) := by
  unfold asFloat
  repeat' split
  all_goals first | exact answers_ok _ _ | exact answers_refuse _ _ _

theorem answers_asInteger (value : Value) (path : Text) : Answers value (asInteger value path) := by
  unfold asInteger
  repeat' split
  all_goals first | exact answers_ok _ _ | exact answers_refuse _ _ _

/-- A numeral that is short enough to be read as an integer is within the digit limit. -/
theorem answers_asUnbounded (value : Value) (path : Text) :
    Answers value (asUnbounded value path) := by
  cases value with
  | null => exact answers_ok _ _
  | bool flag => exact answers_refuse _ _ _
  | integer number =>
      simp only [asUnbounded]
      split
      · exact answers_ok _ _
      split
      · exact answers_ok _ _
      · exact answers_located _ _ _
  | float number =>
      simp only [asUnbounded]
      repeat' split
      all_goals first | exact answers_ok _ _ | exact answers_refuse _ _ _
  | text content =>
      simp only [asUnbounded]
      split
      · exact answers_ok _ _
      · rename_i decoded read
        split
        · exact answers_ok _ _
        · rename_i short
          cases decoded with
          | ok number => exact answers_ok _ _
          | error limit => exact absurd (nativeDigits_lt_of_error read) short
  | list | object => exact (answers_shown _).bind fun _ => answers_ok _ _

theorem answers_convertScalar (scalar : Scalar) (value : Value) (path : Text) :
    Answers value (convertScalar scalar value path) := by
  cases scalar with
  | text | principal => exact (answers_asText value).bind fun _ => answers_ok _ _
  | bool => exact answers_asBool value path
  | float32 | float64 => exact answers_asFloat value path
  | nat | int => exact answers_asUnbounded value path
  | _ => exact answers_asInteger value path

end Scalars

section Containers

variable {fields : List (Text × Outline)}

theorem answers_convertItems {convertItem : Value → Text → Except Error Value}
    (each : ∀ item path, Answers item (convertItem item path)) {items others : List Value}
    (within : ∀ item ∈ others, item ∈ items) (path : Text) (index : Nat) :
    Answers (.list items) (convertItems convertItem path index others) := by
  induction others generalizing index with
  | nil => exact answers_ok _ _
  | cons item others ih =>
      rw [convertItems]
      refine ((each item _).item (within item (by simp))).bind fun _ => ?_
      refine (ih (fun other member => within other (by simp [member])) _).bind fun _ => ?_
      exact answers_ok _ _

theorem answers_convertSequence {convertItem : Value → Text → Except Error Value}
    (each : ∀ item path, Answers item (convertItem item path)) (value : Value) (path : Text) :
    Answers value (convertSequence convertItem value path) := by
  unfold convertSequence
  split
  · exact (answers_convertItems each (fun _ member => member) path 0).bind fun _ =>
      answers_ok _ _
  · exact answers_located _ _ _

theorem answers_convertLeaf (leaf : Text) (value : Value) (path : Text) :
    Answers value (convertLeaf leaf value path) := by
  unfold convertLeaf
  split
  · exact answers_convertScalar _ value path
  split
  · exact answers_convertSequence (answers_convertScalar .nat8) value path
  · exact answers_ok _ _

theorem answers_convertNamed {members : List (Text × Value)}
    (each : ∀ field ∈ fields, ∀ value path, Answers value (convert field.2 value path))
    (path : Text) : Answers (.object members) (convertNamed fields members path) := by
  induction fields with
  | nil =>
      rw [convertNamed]
      exact answers_ok _ _
  | cons field rest ih =>
      obtain ⟨name, type⟩ := field
      rw [convertNamed]
      split
      · exact answers_located _ _ _
      · rename_i member found
        have here := each (name, type) (by simp) member (fieldPath path name)
        refine (here.member (Dictionary.mem_of_find? found)).bind fun _ => ?_
        refine (ih fun field member => each field (by simp [member])).bind fun _ => ?_
        exact answers_ok _ _

theorem answers_convertListed {items others : List Value}
    (each : ∀ field ∈ fields, ∀ value path, Answers value (convert field.2 value path))
    (within : ∀ item ∈ others, item ∈ items) (path : Text) :
    Answers (.list items) (convertListed fields others path) := by
  induction fields generalizing others with
  | nil =>
      rw [convertListed]
      · exact answers_ok _ _
      · rintro _ _ _ _ _ ⟨⟩
  | cons field rest ih =>
      obtain ⟨name, type⟩ := field
      cases others with
      | nil =>
          rw [convertListed]
          · exact answers_ok _ _
          · rintro _ _ _ _ _ _ ⟨⟩
      | cons item others =>
          rw [convertListed]
          have here := each (name, type) (by simp) item (fieldPath path name)
          refine (here.item (within item (by simp))).bind fun _ => ?_
          refine (ih (fun field member => each field (by simp [member]))
            (fun other member => within other (by simp [member]))).bind fun _ => ?_
          exact answers_ok _ _

end Containers

theorem answers_convert (outline : Outline) (value : Value) (path : Text) :
    Answers value (convert outline value path) := by
  induction outline using Outline.induction generalizing value path with
  | opt inner ih =>
      cases value with
      | null =>
          rw [convert]
          exact answers_ok _ _
      | _ =>
          rw [convert]
          · exact ih _ path
          · rintro ⟨⟩
  | vec inner ih =>
      rw [convert]
      exact answers_convertSequence ih value path
  | record fields ih =>
      by_cases none : fields.isEmpty = true
      · simp only [convert, none, ↓reduceIte]
        exact answers_ok _ _
      · cases value with
        | object members =>
            simp only [convert, none, Bool.false_eq_true, ↓reduceIte]
            exact (answers_convertNamed ih path).bind fun _ => answers_ok _ _
        | list items =>
            simp only [convert, none, Bool.false_eq_true, ↓reduceIte]
            split
            · exact answers_located _ _ _
            · exact (answers_convertListed ih (fun _ member => member) path).bind fun _ =>
                answers_ok _ _
        | _ =>
            simp only [convert, none, Bool.false_eq_true, ↓reduceIte]
            exact answers_located _ _ _
  | variant cases ih =>
      rw [convert]
      exact answers_ok _ _
  | leaf leaf =>
      rw [convert]
      exact answers_convertLeaf leaf value path

theorem limited_preParse {raw : Value} (limited : raw.Limited) : (preParse raw).Limited := by
  unfold preParse
  split
  · split
    · split
      · rename_i decoded
        exact limited_of_read decoded
      · exact limited
    · exact limited
  · exact limited

/-- Building an argument gives a value or a fault at a path, or else the raw value holds an integer
over the digit limit and its text cannot be written. -/
theorem buildValue_outcome (type : Text) (raw : Value) :
    (∃ value, buildValue type raw = .ok value) ∨
      (∃ fault path, buildValue type raw = .error (.located fault path)) ∨
        buildValue type raw = .error (.digitLimit .writing) ∧
          ∃ number, raw.Holds (.integer number) ∧
            digitLimit < (Numeral.ofNat number.natAbs).length := by
  cases outcome : buildValue type raw with
  | ok value => exact .inl ⟨value, rfl⟩
  | error error =>
      cases error with
      | located fault path => exact .inr (.inl ⟨fault, path, rfl⟩)
      | digitLimit limit =>
          obtain ⟨rfl, beyond⟩ := answers_convert _ _ _ limit outcome
          have unlimited : ¬ raw.Limited := fun limited => beyond (limited_preParse limited)
          simp only [Value.Limited, not_forall, Nat.not_le] at unlimited
          obtain ⟨number, holds, long⟩ := unlimited
          exact .inr (.inr ⟨rfl, number, holds, long⟩)

/-- An integer of one digit more than the limit is no text, and the failure has no path. -/
theorem buildValue_refuses_text :
    buildValue "text".toList (.integer (10 ^ digitLimit)) = .error (.digitLimit .writing) := by
  have scalar : Scalar.ofText? "text".toList = some .text := by decide
  have size (digits : Nat) : ((10 : Int) ^ digits).natAbs = 10 ^ digits := Int.natAbs_pow 10 digits
  have long : ¬ (Numeral.ofNat ((10 : Int) ^ digitLimit).natAbs).length ≤ digitLimit := by
    rw [Numeral.length_ofNat_le (by decide), size]
    exact Nat.lt_irrefl _
  have refused : Numeral.write (10 ^ digitLimit) = .error .writing := if_neg long
  have kept : preParse (.integer (10 ^ digitLimit)) = .integer (10 ^ digitLimit) := by
    rw [preParse]
    rintro _ ⟨⟩
  rw [buildValue, Outline.ofText_text, kept, convert, convertLeaf, scalar]
  simp only [convertScalar, asText, shown, Value.display, Display.inner, refused]
  rfl

end Argument

end Candid
