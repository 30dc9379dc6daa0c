import Candid.Proofs.Alias.Strict

/-!
# What a resolution reads of the table

Resolving an expression looks up the leaves of the expression and of the definitions that it leads to,
and nothing else. So it does not notice entries under other names, nor the order of the entries, with
or without strictness, and in a cycle as well.
-/

set_option autoImplicit false

namespace Candid.Alias

/-- The text is a leaf of the expression, or of a definition that the expression leads to. -/
inductive Meets (table : AliasTable) (expression : Text) : Text → Prop where
  | leaf {name : Text} :
      name ∈ (Outline.ofText expression).leaves → Meets table expression name
  | definition {name inner definition : Text} :
      Meets table expression name → Dictionary.find? name table = some definition →
      inner ∈ (Outline.ofText definition).leaves → Meets table expression inner

/-- Over both tables the expression is resolved alike, with the same error if there is one, and the
same names of it are unresolved. -/
def SameResolution (table other : AliasTable) (expression : Text) : Prop :=
  (∀ strict, resolve table strict expression = resolve other strict expression) ∧
    unresolvedNames table expression = unresolvedNames other expression

section Agreement

variable {table other : AliasTable} {expression : Text}
  (agree : ∀ name, Meets table expression name →
    Dictionary.find? name table = Dictionary.find? name other)

include agree

theorem expandLeaf_of_agree {strict : Bool} {expanding : List Text} {leaf : Text}
    (met : Meets table expression leaf) :
    expandLeaf table strict expanding leaf = expandLeaf other strict expanding leaf := by
  -- Whatever the names being expanded are, the leaves of a definition are met if its name is.
  fun_induction expandLeaf table strict expanding leaf with
  | case1 expanding leaf definition found closes =>
      rw [expandLeaf_eq other, ← agree leaf met, found]
      simp only [closes, ↓reduceIte]
  | case2 expanding leaf definition found new ih =>
      rw [expandLeaf_eq other, ← agree leaf met, found]
      simp only [new, ↓reduceIte]
      apply Outline.substitute_congr
      intro inner member
      exact ih inner (.definition met found member)
  | case3 expanding leaf free shorthand =>
      rw [expandLeaf_eq other, ← agree leaf met, free]
      simp only [shorthand, ↓reduceIte]
  | case4 expanding leaf free shorthand unknown =>
      rw [expandLeaf_eq other, ← agree leaf met, free]
      simp only [shorthand, unknown, Bool.false_eq_true, ↓reduceIte]
  | case5 expanding leaf free shorthand known =>
      rw [expandLeaf_eq other, ← agree leaf met, free]
      simp only [shorthand, known, Bool.false_eq_true, ↓reduceIte]

theorem visitLeaf_of_agree {expanding : List Text} {leaf : Text}
    (met : Meets table expression leaf) :
    visitLeaf table expanding leaf = visitLeaf other expanding leaf := by
  fun_induction visitLeaf table expanding leaf with
  | case1 expanding leaf definition found closes =>
      rw [visitLeaf_eq other, ← agree leaf met, found]
      simp only [closes, ↓reduceIte]
  | case2 expanding leaf definition found new ih =>
      rw [visitLeaf_eq other, ← agree leaf met, found]
      simp only [new, ↓reduceIte]
      apply List.flatMap_congr
      intro inner member
      exact ih inner (.definition met found member)
  | case3 expanding leaf free known =>
      rw [visitLeaf_eq other, ← agree leaf met, free]
      simp only [known, ↓reduceIte]
  | case4 expanding leaf free unknown =>
      rw [visitLeaf_eq other, ← agree leaf met, free]
      simp only [unknown, Bool.false_eq_true, ↓reduceIte]

theorem sameResolution_of_agree : SameResolution table other expression := by
  constructor
  · intro strict
    have same : expand table strict expression = expand other strict expression := by
      apply Outline.substitute_congr
      intro leaf member
      exact expandLeaf_of_agree agree (.leaf member)
    rw [resolve, resolve, same]
  · have same : visits table expression = visits other expression := by
      apply List.flatMap_congr
      intro leaf member
      exact visitLeaf_of_agree agree (.leaf member)
    rw [unresolvedNames, unresolvedNames, same]

end Agreement

/-- What an expression is resolved to, the error if there is one, and its unresolved names depend on
the entries that it leads to: not on entries under other names, nor on the order of the entries. -/
theorem resolve_reads_reachable (table : AliasTable) (expression : Text) :
    (∀ other : AliasTable, (∀ name, Meets table expression name →
        Dictionary.find? name table = Dictionary.find? name other) →
      SameResolution table other expression) ∧
    ∀ other unrelated : AliasTable, other.Perm (table ++ unrelated) →
      (other.map (·.1)).Nodup → (∀ entry ∈ unrelated, ¬ Meets table expression entry.1) →
      SameResolution table other expression := by
  refine ⟨fun other agree => sameResolution_of_agree agree, ?_⟩
  intro other unrelated same distinct apart
  apply sameResolution_of_agree
  intro name met
  have absent : name ∉ unrelated.map (·.1) := by
    intro member
    obtain ⟨entry, inside, rfl⟩ := List.mem_map.mp member
    exact apart entry inside met
  rw [← Dictionary.find?_of_perm same distinct, Dictionary.find?_append_of_not_mem absent]

section Example

private def loopTable : AliasTable :=
  [("a".toList, "opt b".toList), ("b".toList, "a".toList)]

private theorem meets_loopTable {name : Text} (met : Meets loopTable "a".toList name) :
    name = "a".toList ∨ name = "b".toList := by
  have first : Outline.ofText "a".toList = .leaf "a".toList := Outline.ofText_of_leaf (by decide)
  have second : Outline.ofText "b".toList = .leaf "b".toList := Outline.ofText_of_leaf (by decide)
  have wrapped : innerType "opt".toList (Text.trim "opt b".toList) = "b".toList := by decide
  have option : Outline.ofText "opt b".toList = .opt (.leaf "b".toList) := by
    rw [Outline.ofText_of_opt (by decide), wrapped, second]
  induction met with
  | leaf member =>
      rw [first] at member
      exact .inl (List.mem_singleton.mp member)
  | @definition _ _ definition _ found member ih =>
      rcases ih with rfl | rfl
      · have same : definition = "opt b".toList := (Option.some.inj found).symm
        rw [same, option] at member
        exact .inr (List.mem_singleton.mp member)
      · have same : definition = "a".toList := (Option.some.inj found).symm
        rw [same, first] at member
        exact .inl (List.mem_singleton.mp member)

/-- Two names that lead to each other are resolved to the same cycle in either order, and with a third
name behind them. -/
theorem resolve_reads_reachable_loop :
    let table : AliasTable := [("a".toList, "opt b".toList), ("b".toList, "a".toList)]
    let turned : AliasTable := [("b".toList, "a".toList), ("a".toList, "opt b".toList)]
    let unrelated : AliasTable := [("c".toList, "nat".toList)]
    ((∀ name, Meets table "a".toList name →
        Dictionary.find? name table = Dictionary.find? name turned) ∧
      SameResolution table turned "a".toList) ∧
    ((table ++ unrelated).Perm (table ++ unrelated) ∧ ((table ++ unrelated).map (·.1)).Nodup ∧
      (∀ entry ∈ unrelated, ¬ Meets table "a".toList entry.1) ∧
      SameResolution table (table ++ unrelated) "a".toList) := by
  intro table turned unrelated
  have agree : ∀ name, Meets table "a".toList name →
      Dictionary.find? name table = Dictionary.find? name turned := by
    intro name met
    rcases meets_loopTable met with rfl | rfl <;> decide
  have distinct : ((table ++ unrelated).map (·.1)).Nodup := by decide
  have apart : ∀ entry ∈ unrelated, ¬ Meets table "a".toList entry.1 := by
    intro entry member met
    cases List.mem_singleton.mp member
    rcases meets_loopTable met with same | same <;> exact absurd same (by decide)
  obtain ⟨agreeing, inserted⟩ := resolve_reads_reachable table "a".toList
  exact ⟨⟨agree, agreeing turned agree⟩, .refl _, distinct, apart,
    inserted (table ++ unrelated) unrelated (.refl _) distinct apart⟩

end Example

end Candid.Alias
