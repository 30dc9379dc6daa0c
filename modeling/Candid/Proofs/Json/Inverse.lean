import Candid.Proofs.Dictionary
import Candid.Proofs.Json.Number
import Candid.Proofs.Json.Quoted
import Candid.Proofs.Json.Writer

/-!
# Reading undoes writing

A value is read back from its text, in every layout that has nothing but white space between the tokens,
if no name stands twice in an object of the value and its containers are not nested beyond the limit of
the reader. Every value that the reader returns is of this kind.
-/

set_option autoImplicit false

namespace Candid.Json

structure Style.IsBlank (style : Style) : Prop where
  item : ∀ c ∈ style.itemGap, Reader.isSpace c = true
  member : ∀ c ∈ style.memberGap, Reader.isSpace c = true

theorem Style.isBlank_indented (policy : NonFinite) : (Style.indented policy).IsBlank where
  item := by simp [Style.indented]
  member := by simp [Style.indented, Reader.isSpace]

theorem Style.isBlank_compact (policy : NonFinite) : (Style.compact policy).IsBlank where
  item := by simp [Style.compact]
  member := by simp [Style.compact]

namespace Reader

/-- The text is read as the value, whatever stands behind it, and begins like a value. The fuel has to
exceed the length of the text. -/
structure Rereads (depth : Nat) (text : Text) (value : Value) : Prop where
  read : ∀ fuel rest, text.length < fuel → EndsNumber rest →
    Reader.value depth fuel (text ++ rest) = .ok (value, rest)
  front : ∃ c others, text = c :: others ∧ isSpace c = false ∧ c ≠ ']' ∧ c ≠ '}'

section Space

variable {gap rest : Text}

theorem skipSpace_append (blank : ∀ c ∈ gap, isSpace c = true) (rest : Text) :
    skipSpace (gap ++ rest) = skipSpace rest :=
  List.dropWhile_append_of_pos blank

theorem skipSpace_cons {c : Char} (solid : isSpace c = false) (rest : Text) :
    skipSpace (c :: rest) = c :: rest := by
  rw [skipSpace, List.dropWhile_cons_of_neg (by simp [solid])]

theorem Rereads.skipSpace {depth : Nat} {text : Text} {value : Value}
    (rereads : Rereads depth text value) (rest : Text) :
    Reader.skipSpace (text ++ rest) = text ++ rest := by
  obtain ⟨c, others, rfl, solid, _⟩ := rereads.front
  exact skipSpace_cons solid _

theorem lineBreak_blank (style : Style) (level : Nat) :
    ∀ c ∈ style.lineBreak level, isSpace c = true := by
  intro c member
  unfold Style.lineBreak at member
  split at member
  · cases member
  · rcases List.mem_cons.mp member with rfl | blank
    · rfl
    · rw [List.eq_of_mem_replicate blank]
      rfl

theorem endsNumber_cons {mark : Char}
    (ends : mark.isDigit = false ∧ mark ≠ '.' ∧ mark ≠ 'e' ∧ mark ≠ 'E') (rest : Text) :
    EndsNumber (mark :: rest) := by
  rintro c ⟨⟩
  exact ends

theorem endsNumber_of_blank (blank : ∀ c ∈ gap, isSpace c = true) (ends : EndsNumber rest) :
    EndsNumber (gap ++ rest) := by
  cases gap with
  | nil => exact ends
  | cons space gap =>
      have blank := blank space (by simp)
      simp only [isSpace, Bool.or_eq_true, beq_iff_eq] at blank
      refine endsNumber_cons ?_ _
      rcases blank with ((rfl | rfl) | rfl) | rfl <;> decide

end Space

theorem exists_tail_joined (separator first : Text) (parts : List Text) :
    ∃ tail, Text.joined separator (first :: parts) = first ++ tail := by
  cases parts with
  | nil => exact ⟨[], by simp⟩
  | cons second parts => exact ⟨_, Text.joined_cons separator first second parts⟩

section Containers

variable {depth fuel : Nat} {gap closing rest : Text}

/-- The items of a list are read up to the closing bracket. -/
theorem items_joined (blank : ∀ c ∈ gap, isSpace c = true) (last : ∀ c ∈ closing, isSpace c = true)
    {parts : List Text} {values : List Value} (nonempty : parts ≠ [])
    (each : List.Forall₂ (Rereads depth) parts values)
    (enough : (Text.joined (',' :: gap) parts).length + 1 < fuel) :
    items depth fuel (Text.joined (',' :: gap) parts ++ (closing ++ ']' :: rest)) =
      .ok (values, rest) := by
  induction each generalizing fuel with
  | nil => exact absurd rfl nonempty
  | @cons part value parts values rereads others ih =>
      obtain ⟨fuel, rfl⟩ := Nat.exists_eq_add_one_of_ne_zero (Nat.ne_of_gt (Nat.zero_lt_of_lt enough))
      rw [items]
      cases others with
      | nil =>
          rw [Text.joined_singleton] at enough ⊢
          rw [rereads.read fuel _ (by omega) (endsNumber_of_blank last (endsNumber_cons (by decide) _))]
          simp only [bind, Except.bind, skipSpace_append last, skipSpace_cons (c := ']') rfl]
          rfl
      | @cons next second parts values again others =>
          rw [Text.joined_cons, List.length_append, List.length_append] at enough
          rw [Text.joined_cons]
          simp only [List.append_assoc, List.cons_append]
          have further := @ih fuel (by simp) (by rw [List.length_cons] at enough; omega)
          obtain ⟨tail, shape⟩ := exists_tail_joined (',' :: gap) next parts
          rw [rereads.read fuel _ (by omega) (endsNumber_cons (by decide) _)]
          simp only [bind, Except.bind, skipSpace_cons (c := ',') rfl, skipSpace_append blank]
          rw [shape, List.append_assoc] at further ⊢
          rw [again.skipSpace, further]
          rfl

def IsMember (depth : Nat) (gap part : Text) (member : Text × Value) : Prop :=
  ∃ text, part = Json.quoted true member.1 ++ ':' :: gap ++ text ∧ Rereads depth text member.2

theorem IsMember.exists_tail_joined {depth : Nat} {gap part : Text} {member : Text × Value}
    (isMember : IsMember depth gap part member) (separator : Text) (parts : List Text) :
    ∃ tail, Text.joined separator (part :: parts) = '"' :: tail := by
  obtain ⟨text, rfl, _⟩ := isMember
  obtain ⟨tail, shape⟩ := Reader.exists_tail_joined separator
    (Json.quoted true member.1 ++ ':' :: gap ++ text) parts
  exact ⟨_, shape⟩

theorem members_of_isMember {inner part : Text} (blank : ∀ c ∈ inner, isSpace c = true)
    {member : Text × Value} (isMember : IsMember depth inner part member)
    (enough : part.length ≤ fuel) (ends : EndsNumber rest) :
    members depth (fuel + 1) (part ++ rest) =
      (match skipSpace rest with
      | '}' :: behind => .ok ([member], behind)
      | ',' :: next => do
        let (others, behind) ← members depth fuel (skipSpace next)
        pure (member :: others, behind)
      | other => .error (.flawed .expectedComma other)) := by
  obtain ⟨name, value⟩ := member
  obtain ⟨text, rfl, rereads⟩ := isMember
  have size := length_lt_quoted true name
  simp only [List.length_append, List.length_cons] at enough
  have shape : Json.quoted true name ++ ':' :: inner ++ text ++ rest =
      '"' :: (name.flatMap (Quoted.character true) ++ '"' :: ':' :: (inner ++ (text ++ rest))) := by
    simp [Json.quoted]
  have named (opening : Text) : Reader.quoted opening fuel
      (name.flatMap (Quoted.character true) ++ '"' :: ':' :: (inner ++ (text ++ rest))) =
        .ok (name, ':' :: (inner ++ (text ++ rest))) :=
    quoted_content true opening name _ (by omega)
  rw [shape, members, Reader.text, named]
  simp only [bind, Except.bind, colon, skipSpace_cons (c := ':') rfl, skipSpace_append blank,
    rereads.skipSpace, rereads.read fuel rest (by omega) ends]
  rfl

/-- The members of an object are read up to the closing brace. -/
theorem members_joined {inner : Text} (blank : ∀ c ∈ gap, isSpace c = true)
    (last : ∀ c ∈ closing, isSpace c = true) (space : ∀ c ∈ inner, isSpace c = true)
    {parts : List Text} {entries : List (Text × Value)} (nonempty : parts ≠ [])
    (each : List.Forall₂ (IsMember depth inner) parts entries)
    (enough : (Text.joined (',' :: gap) parts).length < fuel) :
    members depth fuel (Text.joined (',' :: gap) parts ++ (closing ++ '}' :: rest)) =
      .ok (entries, rest) := by
  induction each generalizing fuel with
  | nil => exact absurd rfl nonempty
  | @cons part member parts entries isMember others ih =>
      obtain ⟨fuel, rfl⟩ := Nat.exists_eq_add_one_of_ne_zero (Nat.ne_of_gt (Nat.zero_lt_of_lt enough))
      cases others with
      | nil =>
          rw [Text.joined_singleton] at enough ⊢
          rw [members_of_isMember space isMember (by omega)
            (endsNumber_of_blank last (endsNumber_cons (by decide) _))]
          simp only [skipSpace_append last, skipSpace_cons (c := '}') rfl]
      | @cons next second parts entries again others =>
          rw [Text.joined_cons, List.length_append, List.length_append] at enough
          rw [Text.joined_cons]
          simp only [List.append_assoc, List.cons_append]
          have further := @ih fuel (by simp) (by rw [List.length_cons] at enough; omega)
          obtain ⟨tail, shape⟩ := again.exists_tail_joined (',' :: gap) parts
          rw [members_of_isMember space isMember (by omega) (endsNumber_cons (by decide) _)]
          simp only [skipSpace_cons (c := ',') rfl, skipSpace_append blank]
          rw [shape, List.cons_append] at further ⊢
          rw [skipSpace_cons rfl, further]
          rfl

end Containers

section Leaves

variable {depth : Nat} {text : Text} {value : Value}

theorem front_of_plain {found : Value × Text} (read : plain text = .ok found) :
    ∃ c others, text = c :: others ∧ isSpace c = false ∧ c ∉ ['"', '[', ']', '{', '}'] := by
  cases text with
  | nil => cases read
  | cons c others =>
      refine ⟨c, others, rfl, ?_, ?_⟩
      · cases space : isSpace c with
        | false => rfl
        | true =>
            simp only [isSpace, Bool.or_eq_true, beq_iff_eq] at space
            rcases space with ((rfl | rfl) | rfl) | rfl <;> cases read
      · intro bracket
        simp only [List.mem_cons, List.not_mem_nil, or_false] at bracket
        rcases bracket with rfl | rfl | rfl | rfl | rfl <;> cases read

theorem rereads_of_plain
    (read : ∀ rest, EndsNumber rest → plain (text ++ rest) = .ok (value, rest)) :
    Rereads depth text value := by
  obtain ⟨c, others, rfl, solid, other⟩ : ∃ c others, text = c :: others ∧ isSpace c = false ∧
      c ∉ ['"', '[', ']', '{', '}'] := by
    have alone := read [] (by simp [EndsNumber])
    rw [List.append_nil] at alone
    exact front_of_plain alone
  simp only [List.mem_cons, List.not_mem_nil, or_false, not_or] at other
  obtain ⟨quote, opensList, closesList, opensObject, closesObject⟩ := other
  refine ⟨fun fuel rest enough ends => ?_, c, others, rfl, solid, closesList, closesObject⟩
  obtain ⟨fuel, rfl⟩ := Nat.exists_eq_add_one_of_ne_zero (Nat.ne_of_gt (Nat.zero_lt_of_lt enough))
  rw [List.cons_append, Reader.value]
  · exact read rest ends
  · rintro _ ⟨⟩
    exact quote rfl
  · rintro _ ⟨⟩
    exact opensList rfl
  · rintro _ ⟨⟩
    exact opensObject rfl

theorem rereads_text (content : Text) : Rereads depth (Json.quoted true content) (.text content) := by
  refine ⟨fun fuel rest enough _ => ?_, '"', _, rfl, by decide, by decide, by decide⟩
  have size := length_lt_quoted true content
  obtain ⟨fuel, rfl⟩ := Nat.exists_eq_add_one_of_ne_zero (Nat.ne_of_gt (Nat.zero_lt_of_lt enough))
  have shape : Json.quoted true content ++ rest =
      '"' :: (content.flatMap (Quoted.character true) ++ '"' :: rest) := by
    simp [Json.quoted]
  have inside := @quoted_content true
    ('"' :: (content.flatMap (Quoted.character true) ++ '"' :: rest)) content rest fuel (by omega)
  rw [shape, Reader.value, Reader.text, inside]
  rfl

end Leaves

section Enclosed

variable {style : Style} {depth : Nat} {parts : List Text}

theorem exists_separator (blank : style.IsBlank) (level : Nat) :
    ∃ gap, style.separator level = ',' :: gap ∧ ∀ c ∈ gap, isSpace c = true := by
  unfold Style.separator
  split
  · exact ⟨_, rfl, blank.item⟩
  · exact ⟨_, rfl, lineBreak_blank style level⟩

/-- Nothing but white space stands between the brackets and the parts. -/
theorem exists_enclosed_cons (blank : style.IsBlank) (level : Nat) (opening closing : Char)
    (part : Text) (parts : List Text) :
    ∃ gap, (∀ c ∈ gap, isSpace c = true) ∧
      (Text.joined (',' :: gap) (part :: parts)).length + 1 <
        (enclosed style level opening closing (part :: parts)).length ∧
      ∀ rest, enclosed style level opening closing (part :: parts) ++ rest =
        opening :: (style.lineBreak (level + 1) ++ (Text.joined (',' :: gap) (part :: parts) ++
          (style.lineBreak level ++ closing :: rest))) := by
  obtain ⟨gap, separated, between⟩ := exists_separator blank (level + 1)
  refine ⟨gap, between, ?_, fun rest => ?_⟩
  · simp [enclosed, separated]
    omega
  · simp [enclosed, separated]

theorem exists_enclosed (style : Style) (level : Nat) (opening closing : Char) (parts : List Text) :
    ∃ others, enclosed style level opening closing parts = opening :: others := by
  cases parts <;> exact ⟨_, rfl⟩

theorem rereads_list (blank : style.IsBlank) (level : Nat) {values : List Value}
    (each : List.Forall₂ (Rereads depth) parts values) :
    Rereads (depth + 1) (enclosed style level '[' ']' parts) (.list values) := by
  obtain ⟨inside, opens⟩ := exists_enclosed style level '[' ']' parts
  refine ⟨fun fuel rest enough _ => ?_, '[', inside, opens, by decide, by decide, by decide⟩
  obtain ⟨fuel, rfl⟩ := Nat.exists_eq_add_one_of_ne_zero (Nat.ne_of_gt (Nat.zero_lt_of_lt enough))
  cases each with
  | nil =>
      change Reader.value (depth + 1) (fuel + 1) ('[' :: ']' :: rest) = _
      rw [Reader.value]
      rfl
  | @cons part value parts values first others =>
      obtain ⟨gap, between, size, shape⟩ := exists_enclosed_cons blank level '[' ']' part parts
      have read : items depth fuel (Text.joined (',' :: gap) (part :: parts) ++
          (style.lineBreak level ++ ']' :: rest)) = .ok (value :: values, rest) :=
        items_joined between (lineBreak_blank style level) (by simp) (.cons first others) (by omega)
      obtain ⟨tail, front⟩ := exists_tail_joined (',' :: gap) part parts
      rw [shape, Reader.value, skipSpace_append (lineBreak_blank style (level + 1))]
      rw [front, List.append_assoc] at read ⊢
      rw [first.skipSpace]
      split
      · rename_i same
        obtain ⟨c, others, rfl, _, other, _⟩ := first.front
        cases same
        exact absurd rfl other
      · rw [read]
        rfl

theorem rereads_object (blank : style.IsBlank) (level : Nat) {entries : List (Text × Value)}
    (distinct : (entries.map (·.1)).Nodup)
    (each : List.Forall₂ (IsMember depth style.memberGap) parts entries) :
    Rereads (depth + 1) (enclosed style level '{' '}' parts) (.object entries) := by
  obtain ⟨inside, opens⟩ := exists_enclosed style level '{' '}' parts
  refine ⟨fun fuel rest enough _ => ?_, '{', inside, opens, by decide, by decide, by decide⟩
  obtain ⟨fuel, rfl⟩ := Nat.exists_eq_add_one_of_ne_zero (Nat.ne_of_gt (Nat.zero_lt_of_lt enough))
  cases each with
  | nil =>
      change Reader.value (depth + 1) (fuel + 1) ('{' :: '}' :: rest) = _
      rw [Reader.value]
      rfl
  | @cons part entry parts entries first others =>
      obtain ⟨gap, between, size, shape⟩ := exists_enclosed_cons blank level '{' '}' part parts
      have read : members depth fuel (Text.joined (',' :: gap) (part :: parts) ++
          (style.lineBreak level ++ '}' :: rest)) = .ok (entry :: entries, rest) :=
        members_joined between (lineBreak_blank style level) blank.member (by simp)
          (.cons first others) (by omega)
      obtain ⟨tail, front⟩ := first.exists_tail_joined (',' :: gap) parts
      rw [shape, Reader.value, skipSpace_append (lineBreak_blank style (level + 1))]
      rw [front, List.cons_append] at read ⊢
      rw [skipSpace_cons (by decide)]
      split
      · rename_i same
        cases same
      · rw [read]
        simp only [bind, Except.bind, Dictionary.ofList_of_nodup distinct]
        rfl

end Enclosed

section Written

variable {style : Style} {depth level : Nat} {parts : List Text}

theorem rereads_writeItems {items : List Value}
    (each : ∀ item ∈ items, ∀ text, item.writeAt style level = .ok text → Rereads depth text item)
    (written : writeItems style level items = .ok parts) :
    List.Forall₂ (Rereads depth) parts items := by
  induction items generalizing parts with
  | nil =>
      rw [writeItems] at written
      cases written
      exact .nil
  | cons item rest ih =>
      rw [writeItems, bind_eq_ok] at written
      obtain ⟨part, first, written⟩ := written
      obtain ⟨others, further, shape⟩ := bind_eq_ok.mp written
      cases shape
      exact .cons (each item (by simp) part first)
        (ih (fun item inside => each item (by simp [inside])) further)

theorem isMember_writeMembers {members : List (Text × Value)}
    (each : ∀ member ∈ members, ∀ text, member.2.writeAt style level = .ok text →
      Rereads depth text member.2)
    (written : writeMembers style level members = .ok parts) :
    List.Forall₂ (IsMember depth style.memberGap) parts members := by
  induction members generalizing parts with
  | nil =>
      rw [writeMembers] at written
      cases written
      exact .nil
  | cons member rest ih =>
      rw [writeMembers, bind_eq_ok] at written
      obtain ⟨part, first, written⟩ := written
      obtain ⟨others, further, shape⟩ := bind_eq_ok.mp written
      cases shape
      exact .cons ⟨part, rfl, each member (by simp) part first⟩
        (ih (fun member inside => each member (by simp [inside])) further)

/-- The written text of a value is read as the value wherever it stands. -/
theorem rereads_writeAt (blank : style.IsBlank) {value : Value} (distinct : value.DistinctNames)
    (within : value.nesting ≤ depth) {text : Text}
    (written : value.writeAt style level = .ok text) : Rereads depth text value := by
  induction value using Value.induction generalizing depth level text with
  | null =>
      rw [Value.writeAt] at written
      cases written
      exact rereads_of_plain fun rest _ => plain_word (by simp [words])
  | bool flag =>
      cases flag <;>
      · rw [Value.writeAt] at written
        cases written
        exact rereads_of_plain fun rest _ => plain_word (by simp [words])
  | integer number =>
      rw [Value.writeAt] at written
      exact rereads_of_plain fun rest ends => plain_writeInteger written ends
  | float number =>
      rw [Value.writeAt] at written
      exact rereads_of_plain fun rest ends => plain_writeFloat written ends
  | text content =>
      rw [Value.writeAt] at written
      cases written
      exact rereads_text content
  | list items ih =>
      rw [Value.writeAt, bind_eq_ok] at written
      obtain ⟨parts, each, shape⟩ := written
      cases shape
      obtain ⟨depth, rfl⟩ : ∃ inner, depth = inner + 1 :=
        Nat.exists_eq_add_one_of_ne_zero (by rw [Value.nesting] at within; omega)
      refine rereads_list blank level (rereads_writeItems (fun item inside text written => ?_) each)
      have less := nesting_item inside
      exact ih item inside (fun members holds => distinct members (.item inside holds)) (by omega) written
  | object members ih =>
      rw [Value.writeAt, bind_eq_ok] at written
      obtain ⟨parts, each, shape⟩ := written
      cases shape
      obtain ⟨depth, rfl⟩ : ∃ inner, depth = inner + 1 :=
        Nat.exists_eq_add_one_of_ne_zero (by rw [Value.nesting] at within; omega)
      refine rereads_object blank level (distinct members (.self _))
        (isMember_writeMembers (fun member inside text written => ?_) each)
      have less := nesting_member inside
      exact ih member inside (fun members holds => distinct members (.member inside holds)) (by omega)
        written

end Written

end Reader

theorem read_write {style : Style} (blank : style.IsBlank) {value : Value}
    (distinct : value.DistinctNames) (within : value.nesting ≤ Reader.depthLimit) {text : Text}
    (written : value.write style = .ok text) : read text = .ok value := by
  have rereads := Reader.rereads_writeAt blank distinct within written
  obtain ⟨c, others, rfl, solid, _⟩ := rereads.front
  have whole := rereads.read (2 * (c :: others).length + 2) [] (by omega) (by simp [Reader.EndsNumber])
  rw [List.append_nil] at whole
  unfold read
  rw [Reader.skipSpace_cons solid, whole]
  split
  · rename_i mark
    cases mark
    cases whole
  · rfl

/-- A value that is not nested too deeply has a text of which it is read, if numbers that are not finite
are written as words. -/
theorem exists_write {style : Style} (blank : style.IsBlank) (words : style.nonFinite = .written)
    {value : Value} (exchangeable : value.Exchangeable) (within : value.nesting ≤ Reader.depthLimit) :
    ∃ text, value.write style = .ok text ∧ read text = .ok value := by
  obtain ⟨text, written⟩ := exists_writeAt words exchangeable.limited 0
  exact ⟨text, written, read_write blank exchangeable.distinct within written⟩

/-- Writing a decoded value and reading it again gives the same value. -/
theorem exists_write_of_read {style : Style} (blank : style.IsBlank)
    (words : style.nonFinite = .written) {source : Text} {value : Value}
    (decoded : read source = .ok value) :
    ∃ text, value.write style = .ok text ∧ read text = .ok value :=
  exists_write blank words (Reader.builds_exchangeable.of_read decoded)
    (Reader.builds_nesting.of_read decoded)

end Candid.Json
