import Candid.Json.Reader
import Candid.Proofs.Dictionary
import Candid.Proofs.Json.Value
import Candid.Proofs.Number.Numeral
import Candid.Proofs.Outcome
import Candid.Proofs.Text.Character

/-!
# Decoded values

What the steps of the reader build, every value that it returns has: its integers have numerals within
the digit limit, since they were read from such, no name stands twice in an object, and its containers
are not nested beyond the limit. Of a blank text the reader makes no value.
-/

set_option autoImplicit false

namespace Candid

namespace Json

namespace Reader

theorem digitRun_lt (text : Text) : ∀ digit ∈ (digitRun text).1, digit < 10 := by
  intro digit member
  obtain ⟨c, inside, rfl⟩ := List.mem_map.mp member
  have digit : c.isDigit = true := List.all_eq_true.mp List.all_takeWhile c inside
  have bounds := Char.isDigit_iff_toNat.mp digit
  have last : '9'.toNat = '0'.toNat + 9 := rfl
  omega

theorem wholeDigits_lt {text rest : Text} {whole : List Nat}
    (found : wholeDigits? text = some (whole, rest)) : ∀ digit ∈ whole, digit < 10 := by
  unfold wholeDigits? at found
  split at found
  · cases found
    simp
  · have bound := digitRun_lt text
    split at found
    · cases found
    · cases found
      exact bound

theorem number_cases {negative : Bool} {text rest : Text} {value : Value}
    (read : number? negative text = some (.ok (value, rest))) :
    (∃ number : Int, value = .integer number ∧
      (Numeral.ofNat number.natAbs).length ≤ digitLimit) ∨ ∃ number, value = .float number := by
  obtain ⟨⟨whole, behind⟩, digits, shape⟩ := Option.map_eq_some_iff.mp read
  have decimal := wholeDigits_lt digits
  simp only at shape
  split at shape
  · split at shape
    · rename_i number found
      cases shape
      exact .inl ⟨number, rfl, Numeral.length_ofNat_of_value decimal found⟩
    · cases shape
  · cases shape
    exact .inr ⟨_, rfl⟩

/-- A number that was not missed is the number that was found. -/
theorem eq_some_of_getD {found : Option (Except Failure (Value × Text))} {failure : Failure}
    {result : Value × Text} (read : found.getD (.error failure) = .ok result) :
    found = some (.ok result) := by
  cases found with
  | none => cases read
  | some outcome => exact congrArg some read

theorem plain_cases {text rest : Text} {value : Value} (read : plain text = .ok (value, rest)) :
    (∃ word, (word, value) ∈ words) ∨
      (∃ number : Int, value = .integer number ∧
        (Numeral.ofNat number.natAbs).length ≤ digitLimit) ∨ ∃ number, value = .float number := by
  unfold plain at read
  split at read
  · rename_i found search
    cases read
    obtain ⟨⟨word, meaning⟩, member, shape⟩ := List.exists_of_findSome?_eq_some search
    obtain ⟨_, _, same⟩ := Option.map_eq_some_iff.mp shape
    cases same
    exact .inl ⟨word, member⟩
  · obtain ⟨negative, digits, found⟩ : ∃ negative digits,
        number? negative digits = some (.ok (value, rest)) := by
      simp only at read
      split at read
      · exact ⟨true, _, eq_some_of_getD read⟩
      · exact ⟨false, _, eq_some_of_getD read⟩
    exact .inr (number_cases found)

theorem plain_isLeaf {text rest : Text} {value : Value} (read : plain text = .ok (value, rest)) :
    value.IsLeaf := by
  rcases plain_cases read with ⟨word, member⟩ | ⟨number, rfl, _⟩ | ⟨number, rfl⟩
  · simp only [words, List.mem_cons, List.not_mem_nil, or_false, Prod.mk.injEq] at member
    rcases member with ⟨_, rfl⟩ | ⟨_, rfl⟩ | ⟨_, rfl⟩ | ⟨_, rfl⟩ | ⟨_, rfl⟩ | ⟨_, rfl⟩ <;> trivial
  · trivial
  · trivial

theorem plain_limited {text rest : Text} {value : Value} (read : plain text = .ok (value, rest)) :
    value.Limited := by
  intro number holds
  cases holds with
  | self =>
      rcases plain_cases read with ⟨word, member⟩ | ⟨_, ⟨⟩, short⟩ | ⟨_, ⟨⟩⟩
      · simp [words] at member
      · exact short
  | item => exact (plain_isLeaf read).elim
  | member => exact (plain_isLeaf read).elim

/-- The steps of the reader build values of the property only, where the number is that of the containers
that may still be opened. -/
structure Builds (property : Nat → Value → Prop) : Prop where
  plain : ∀ {depth text rest value}, plain text = .ok (value, rest) → property depth value
  text : ∀ depth content, property depth (.text content)
  list : ∀ {depth items}, (∀ item ∈ items, property depth item) →
    property (depth + 1) (.list items)
  object : ∀ {depth members}, (∀ member ∈ members, property depth member.2) →
    property (depth + 1) (.object (Dictionary.ofList members))

/-- What the reader returns has the property. Each step of fuel reads one value, or one item or member
and those behind it. -/
theorem Builds.holds {property : Nat → Value → Prop} (builds : Builds property) (fuel : Nat) :
    (∀ depth text value rest, Reader.value depth fuel text = .ok (value, rest) →
      property depth value) ∧
      (∀ depth text read rest, items depth fuel text = .ok (read, rest) →
        ∀ item ∈ read, property depth item) ∧
      ∀ depth text read rest, members depth fuel text = .ok (read, rest) →
        ∀ member ∈ read, property depth member.2 := by
  induction fuel with
  | zero =>
      refine ⟨?_, ?_, ?_⟩ <;> intro depth text value rest read
      · simp [Reader.value] at read
      · simp [items] at read
      · simp [members] at read
  | succ fuel ih =>
      obtain ⟨ofValue, ofItems, ofMembers⟩ := ih
      refine ⟨?_, ?_, ?_⟩
      · intro depth text value rest read
        unfold Reader.value at read
        split at read
        · cases ‹_ = 0›
        · obtain ⟨⟨content, behind⟩, _, read⟩ := bind_eq_ok.mp read
          cases read
          exact builds.text _ content
        · split at read
          · cases read
          · split at read
            · cases read
              exact builds.list (by simp)
            · obtain ⟨⟨items, behind⟩, found, read⟩ := bind_eq_ok.mp read
              cases read
              cases ‹_ + 1 = _ + 1›
              exact builds.list (ofItems _ _ _ _ found)
        · split at read
          · cases read
          · split at read
            · cases read
              exact @Builds.object _ builds _ [] (by simp)
            · obtain ⟨⟨members, behind⟩, found, read⟩ := bind_eq_ok.mp read
              cases read
              cases ‹_ + 1 = _ + 1›
              exact builds.object (ofMembers _ _ _ _ found)
        · exact builds.plain read
      · intro depth text read rest found
        rw [items] at found
        obtain ⟨⟨item, behind⟩, first, found⟩ := bind_eq_ok.mp found
        have front := ofValue _ _ _ _ first
        simp only at found
        split at found
        · cases found
          simpa using front
        · obtain ⟨⟨others, last⟩, further, found⟩ := bind_eq_ok.mp found
          cases found
          exact List.forall_mem_cons.mpr ⟨front, ofItems _ _ _ _ further⟩
        · cases found
      · intro depth text read rest found
        unfold members at found
        split at found
        · cases ‹_ = 0›
        · obtain ⟨⟨name, behind⟩, _, found⟩ := bind_eq_ok.mp found
          obtain ⟨start, _, found⟩ := bind_eq_ok.mp found
          obtain ⟨⟨member, after⟩, first, found⟩ := bind_eq_ok.mp found
          cases ‹_ + 1 = _ + 1›
          have front := ofValue _ _ _ _ first
          simp only at found
          split at found
          · cases found
            simpa using front
          · obtain ⟨⟨others, last⟩, further, found⟩ := bind_eq_ok.mp found
            cases found
            exact List.forall_mem_cons.mpr ⟨front, ofMembers _ _ _ _ further⟩
          · cases found
        · cases found

theorem Builds.of_read {property : Nat → Value → Prop} (builds : Builds property) {source : Text}
    {value : Value} (decoded : Json.read source = .ok value) : property depthLimit value := by
  unfold Json.read at decoded
  split at decoded
  · cases decoded
  · split at decoded
    · cases decoded
    · rename_i found
      split at decoded
      · cases decoded
        exact (builds.holds _).1 _ _ _ _ found
      · cases decoded

theorem builds_exchangeable : Builds fun _ value => value.Exchangeable where
  plain read := ⟨plain_limited read, (plain_isLeaf read).distinctNames⟩
  text _ := exchangeable_text
  list := exchangeable_list
  object each := exchangeable_object (Dictionary.nodup_ofList _) fun member inside =>
    each member (Dictionary.mem_of_mem_ofList inside)

theorem builds_nesting : Builds fun depth value => value.nesting ≤ depth where
  plain read := by simp [(plain_isLeaf read).nesting]
  text _ _ := Nat.zero_le _
  list := nesting_list
  object each := nesting_object fun member inside =>
    each member (Dictionary.mem_of_mem_ofList inside)

end Reader

theorem limited_of_read {source : Text} {value : Value} (decoded : read source = .ok value) :
    value.Limited :=
  (Reader.builds_exchangeable.of_read decoded).limited

namespace Reader

/-- A text that begins with no word is read as a number. -/
theorem plain_of_no_word {text : Text} (none : ∀ word ∈ words, word.1.after? text = none) :
    plain text = (if text.head? = some '-' then number? true text.tail else number? false text).getD
      (.error (.flawed .expectedValue text)) := by
  unfold plain
  split
  · rename_i found search
    obtain ⟨word, member, shape⟩ := List.exists_of_findSome?_eq_some search
    obtain ⟨rest, after, _⟩ := Option.map_eq_some_iff.mp shape
    cases (none word member).symm.trans after
  · simp only
    split
    · rfl
    · rename_i other
      rw [if_neg]
      cases text with
      | nil => simp
      | cons c rest =>
          intro sign
          cases sign
          exact other rest rfl

theorem plain_of_blank {text : Text} (blank : ∀ c ∈ text, isBlank c = true) :
    plain text = .error (.flawed .expectedValue text) := by
  cases text with
  | nil => rfl
  | cons c rest =>
      have blank := blank c (by simp)
      have other (d : Char) (solid : isBlank d = false) : d ≠ c := by
        rintro rfl
        cases solid.symm.trans blank
      have noDigit : c.isDigit = false := by
        cases digit : c.isDigit with
        | false => rfl
        | true =>
            have part : isNamePart c = true := by simp [isNamePart, Char.isAlphanum, digit]
            cases (isBlank_of_isNamePart part).symm.trans blank
      have run : digitRun (c :: rest) = ([], c :: rest) := by simp [digitRun, noDigit]
      have whole : wholeDigits? (c :: rest) = none := by
        unfold wholeDigits?
        split
        · rename_i same
          cases same
          exact absurd rfl (other '0' (by decide))
        · rw [run]
      have noWord : ∀ word ∈ words, word.1.after? (c :: rest) = none := by
        simp [words, Text.after?, other 'n' (by decide), other 't' (by decide),
          other 'f' (by decide), other 'N' (by decide), other 'I' (by decide),
          other '-' (by decide)]
      have noSign : (c :: rest).head? ≠ some '-' := by simpa using (other '-' (by decide)).symm
      rw [plain_of_no_word noWord, if_neg noSign, number?, whole]
      rfl

theorem value_of_blank {text : Text} (blank : ∀ c ∈ text, isBlank c = true) (depth fuel : Nat) :
    Reader.value depth fuel text = .error (.flawed .expectedValue text) := by
  cases fuel with
  | zero => rw [Reader.value]
  | succ fuel =>
      have other (d : Char) (solid : isBlank d = false) (rest : Text) : text ≠ d :: rest := by
        rintro rfl
        cases solid.symm.trans (blank d (by simp))
      rw [Reader.value]
      · exact plain_of_blank blank
      · exact fun rest same => other '"' (by decide) rest same
      · exact fun rest same => other '[' (by decide) rest same
      · exact fun rest same => other '{' (by decide) rest same
end Reader

/-- A text that is JSON is not blank. -/
theorem trim_ne_nil_of_read {source : Text} {value : Value} (decoded : read source = .ok value) :
    source.trim ≠ [] := by
  intro nothing
  have blank := Text.blank_of_trim_nil nothing
  have rest : ∀ c ∈ Reader.skipSpace source, isBlank c = true := fun c member =>
    blank c ((List.dropWhile_suffix _).subset member)
  have failed := Reader.value_of_blank rest Reader.depthLimit (2 * source.length + 2)
  unfold read at decoded
  split at decoded
  · cases decoded
  · rw [failed] at decoded
    cases decoded

end Json

end Candid
