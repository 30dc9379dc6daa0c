import Candid.Fragment.Member

/-!
# Outlines

The structure of a type expression that is kept as text, taken apart through `opt`, `vec`, record
fields and variant payloads. Everything else is a leaf: scalar types, names, function and service
types, and text that is no type. Each step goes to a strictly shorter text, so every text has an
outline.
-/

set_option autoImplicit false

namespace Candid

inductive Outline where
  | opt (inner : Outline)
  | vec (inner : Outline)
  | record (fields : List (Text × Outline))
  | variant (cases : List (Text × Option Outline))
  | leaf (text : Text)

theorem length_of_cut {mark : Char} {text before behind : Text}
    (cut : Text.cut? mark text = some (before, behind)) : behind.length < text.length := by
  induction text generalizing before behind with
  | nil => simp [Text.cut?] at cut
  | cons c rest ih =>
    simp only [Text.cut?] at cut
    split at cut
    · simp only [Option.some.injEq, Prod.mk.injEq] at cut
      obtain ⟨_, rfl⟩ := cut
      simp
    · obtain ⟨⟨first, second⟩, step, same⟩ := Option.map_eq_some_iff.mp cut
      simp only [Prod.mk.injEq] at same
      obtain ⟨_, rfl⟩ := same
      exact Nat.lt_succ_of_lt (ih step)

theorem length_of_beforeLast {mark : Char} {text before : Text}
    (cut : Text.beforeLast? mark text = some before) : before.length < text.length := by
  simp only [Text.beforeLast?] at cut
  split at cut
  · simp at cut
  · rename_i first rest found
    simp only [Option.some.injEq] at cut
    subst cut
    have bound := Text.length_dropWhile_le (fun c => decide (c ≠ mark)) text.reverse
    simp only [List.length_reverse] at bound ⊢
    rw [found] at bound
    simp only [List.length_cons] at bound
    omega

theorem length_of_bracedBody {expression body : Text}
    (found : bracedBody? expression = some body) : body.length < expression.length := by
  obtain ⟨⟨_, behind⟩, cut, inside⟩ := Option.bind_eq_some_iff.mp found
  have := length_of_cut cut
  have := length_of_beforeLast inside
  have := Text.length_trim_le expression
  omega

theorem length_of_mem_memberParts {expression part : Text}
    (member : part ∈ memberParts expression) : part.length < expression.length := by
  simp only [memberParts] at member
  split at member
  · simp at member
  · rename_i body found
    have := length_of_bracedBody found
    have := length_of_mem_splitTopLevel member
    omega

theorem FieldText.length_type_ofPart_le (position : Nat) (part : Text) :
    (FieldText.ofPart position part).type.length ≤ part.length := by
  simp only [FieldText.ofPart]
  split
  · simp
  · rename_i label type cut
    have := length_of_partitionTopLevel cut
    split
    · simp
    · simp only
      omega

theorem length_of_mem_recordFields {expression : Text} {field : FieldText}
    (member : field ∈ recordFields expression) : field.type.length < expression.length := by
  obtain ⟨position, inside, rfl⟩ := List.mem_mapIdx.mp member
  have := length_of_mem_memberParts (List.getElem_mem inside)
  have := FieldText.length_type_ofPart_le position (memberParts expression)[position]
  omega

theorem length_of_mem_variantCases {expression type : Text} {item : CaseText}
    (member : item ∈ variantCases expression) (payload : item.type = some type) :
    type.length < expression.length := by
  obtain ⟨part, inside, rfl⟩ := List.mem_map.mp member
  have bound := length_of_mem_memberParts inside
  simp only [CaseText.ofPart] at payload
  split at payload
  · simp at payload
  · rename_i label other cut
    have := length_of_partitionTopLevel cut
    simp only at payload
    split at payload
    · simp at payload
    · simp only [Option.some.injEq] at payload
      subst payload
      omega

theorem length_withoutAngles_le (expression : Text) :
    (withoutAngles expression).length ≤ expression.length := by
  simp only [withoutAngles]
  split
  · have := Text.length_trim_le (expression.drop 1).dropLast
    simp only [List.length_dropLast, List.length_drop] at this
    omega
  · simp

theorem length_leadingWord_le (expression : Text) :
    (leadingWord expression).length ≤ expression.length := by
  have start := Text.length_dropWhile_le isBlank expression
  simp only [leadingWord, Text.trimStart]
  split
  · simp
  · rename_i c rest cut
    rw [cut] at start
    split
    · have := (List.takeWhile_prefix isNamePart : rest.takeWhile isNamePart <+: rest).length_le
      simp only [Text.lowerLatin, List.length_map, List.length_cons] at *
      omega
    · simp

/-- A keyword that leads a type expression is its own front. -/
theorem isPrefixOf_of_leadingWord {expression keyword : Text}
    (leads : leadingWord expression = keyword) :
    keyword.isPrefixOf expression.trimStart.lower = true := by
  subst leads
  simp only [leadingWord]
  split
  · simp
  · rename_i c rest cut
    rw [cut]
    split
    · rename_i start
      have whole : c :: rest = (c :: rest.takeWhile isNamePart) ++ rest.dropWhile isNamePart := by
        simp
      have ascii : ∀ d ∈ c :: rest.takeWhile isNamePart, d.toNat < 128 := by
        intro d member
        rcases List.mem_cons.mp member with rfl | later
        · exact toNat_lt_of_isNamePart (isNamePart_of_isNameStart start)
        · exact toNat_lt_of_isNamePart (List.all_eq_true.mp List.all_takeWhile d later)
      rw [List.isPrefixOf_iff_prefix, whole, Text.lower_append_of_ascii _ _ ascii]
      exact List.prefix_append _ _
    · simp

theorem length_innerType {expression keyword : Text}
    (leads : leadingWord expression.trim = keyword) (nonempty : keyword ≠ []) :
    (innerType keyword expression.trim).length < expression.length := by
  have front := isPrefixOf_of_leadingWord leads
  rw [Text.trimStart_trim] at front
  have shorter := length_leadingWord_le expression.trim
  rw [leads] at shorter
  simp only [innerType, Text.trim_trim, front, ↓reduceIte]
  have := length_withoutAngles_le (Text.trim (expression.trim.drop keyword.length))
  have := Text.length_trim_le (expression.trim.drop keyword.length)
  have := Text.length_trim_le expression
  have := List.length_pos_iff.mpr nonempty
  simp only [List.length_drop] at *
  omega

namespace Outline

def isOptional : Outline → Bool
  | .opt _ => true
  | _ => false

def ofText (expression : Text) : Outline :=
  let whole := expression.trim
  let keyword := leadingWord whole
  if _ : keyword = "opt".toList then .opt (ofText (innerType keyword whole))
  else if _ : keyword = "vec".toList then .vec (ofText (innerType keyword whole))
  else if keyword = "record".toList then
    .record ((recordFields whole).attach.map fun ⟨field, _⟩ => (field.name, ofText field.type))
  else if keyword = "variant".toList then
    .variant ((variantCases whole).attach.map fun ⟨item, _⟩ =>
      (item.name, item.type.attach.map fun ⟨type, _⟩ => ofText type))
  else .leaf whole
termination_by expression.length
decreasing_by
  all_goals have shrunk := Text.length_trim_le expression
  · rename_i leads
    exact length_innerType rfl (by simp [keyword, whole] at leads ⊢; simp [leads])
  · rename_i leads
    exact length_innerType rfl (by simp [keyword, whole] at leads ⊢; simp [leads])
  · exact Nat.lt_of_lt_of_le (length_of_mem_recordFields (by assumption)) shrunk
  · exact Nat.lt_of_lt_of_le
      (length_of_mem_variantCases (by assumption) (by assumption)) shrunk

theorem ofText_of_opt {expression : Text} (leads : leadingWord expression.trim = "opt".toList) :
    ofText expression = .opt (ofText (innerType "opt".toList expression.trim)) := by
  rw [ofText]
  simp only [leads, ↓reduceDIte]

theorem ofText_of_vec {expression : Text} (leads : leadingWord expression.trim = "vec".toList) :
    ofText expression = .vec (ofText (innerType "vec".toList expression.trim)) := by
  rw [ofText]
  simp [leads]

theorem ofText_of_record {expression : Text}
    (leads : leadingWord expression.trim = "record".toList) :
    ofText expression =
      .record ((recordFields expression.trim).map fun field =>
        (field.name, ofText field.type)) := by
  rw [ofText]
  simp [leads]

theorem ofText_of_variant {expression : Text}
    (leads : leadingWord expression.trim = "variant".toList) :
    ofText expression =
      .variant ((variantCases expression.trim).map fun item =>
        (item.name, item.type.map ofText)) := by
  rw [ofText]
  simp [leads]

theorem ofText_of_leaf {expression : Text}
    (other : leadingWord expression.trim ∉
      ["opt".toList, "vec".toList, "record".toList, "variant".toList]) :
    ofText expression = .leaf expression.trim := by
  rw [ofText]
  simp only [List.mem_cons, List.not_mem_nil, or_false, not_or] at other
  simp only [other, ↓reduceDIte, ↓reduceIte]

theorem ofText_scalar (scalar : Scalar) : ofText scalar.name = .leaf scalar.name := by
  cases scalar <;> exact ofText_of_leaf (by decide)

theorem ofText_nat : ofText "nat".toList = .leaf "nat".toList :=
  ofText_scalar .nat

theorem ofText_text : ofText "text".toList = .leaf "text".toList :=
  ofText_scalar .text

end Outline

end Candid
