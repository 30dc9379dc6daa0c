import Candid.Proofs.Alias.Depth
import Candid.Proofs.Alias.Normal
import Candid.Proofs.Fragment.Worded

/-!
# Strict resolution

Where resolving without strictness succeeds, the walk that collects the names that nothing explains
meets the same leaves over the table as over the empty table on the result, and strict resolution fails
with the first of these names, or else gives the same result.
-/

set_option autoImplicit false

namespace Candid.Alias

open Idl

def Visit.refusal? : Visit → Option ResolutionError
  | .kept name => some (.unresolved name)
  | .cycle => none

section Leaf

variable {table : AliasTable} {expanding : List Text} {leaf : Text}

/-- Over an outline whose replacement succeeds without strictness, the strict replacement fails with
the first name that the walk of a leaf keeps, if it does so at each leaf. -/
theorem failure?_substitute_of_leaves {lenient strict : Text → Except ResolutionError Outline}
    {walk : Text → List Visit} {outline expanded : Outline}
    (done : outline.substitute lenient = .ok expanded)
    (each : ∀ leaf ∈ outline.leaves, ∀ type, lenient leaf = .ok type →
      failure? (strict leaf) = ((walk leaf).filterMap Visit.refusal?).head?) :
    failure? (outline.substitute strict) =
      ((outline.leaves.flatMap walk).filterMap Visit.refusal?).head? := by
  have replaced := Outline.exists_substitute_iff.mp ⟨_, done⟩
  rw [Outline.failure?_substitute, List.filterMap_flatMap, List.head?_flatMap,
    ← List.head?_filterMap, ← List.head?_filterMap]
  refine congrArg List.head? (List.filterMap_congr fun leaf member => ?_)
  obtain ⟨type, step⟩ := replaced leaf member
  exact each leaf member type step

theorem visitLeaf_eq (table : AliasTable) (expanding : List Text) (leaf : Text) :
    visitLeaf table expanding leaf =
      match Dictionary.find? leaf table with
      | some definition =>
        if leaf ∈ expanding then [.cycle]
        else (Outline.ofText definition).leaves.flatMap (visitLeaf table (expanding ++ [leaf]))
      | none => if isCompound leaf || isBuiltin leaf then [] else [.kept leaf] := by
  rw [visitLeaf]
  split
  · rename_i definition found
    rw [found]
    rfl
  · rename_i free
    rw [free]

theorem visitLeaf_of_free (free : Dictionary.find? leaf table = none) :
    visitLeaf table expanding leaf = visitLeaf [] [] leaf := by
  rw [visitLeaf_eq, visitLeaf_eq [], free]
  rfl

theorem visitLeaf_of_isBlob (shorthand : isBlob leaf = true) : visitLeaf [] [] leaf = [] := by
  rw [visitLeaf_eq]
  simp [Dictionary.find?, isBuiltin, shorthand]

/-- The walk of a leaf is the walk of its expansion, over the empty table. -/
theorem visitLeaf_of_expandLeaf {strict : Bool} {expanded : Outline}
    (done : expandLeaf table strict expanding leaf = .ok expanded) :
    expanded.leaves.flatMap (visitLeaf [] []) = visitLeaf table expanding leaf := by
  fun_induction expandLeaf table strict expanding leaf generalizing expanded with
  | case1 | case4 => cases done
  | case2 expanding leaf definition found new ih =>
      rw [visitLeaf_eq, found]
      simp only [new, ↓reduceIte]
      exact Outline.flatMap_substitute (fun inner _ type step => ih inner step) done
  | case3 expanding leaf free shorthand =>
      cases done
      rw [visitLeaf_of_free free, visitLeaf_of_isBlob shorthand]
      show (visitLeaf [] [] Scalar.nat8.name) ++ [] = []
      rw [visitLeaf_eq]
      decide
  | case5 expanding leaf free other =>
      cases done
      rw [visitLeaf_of_free free]
      simp [Outline.leaves]

theorem isName_of_kept (plain : PlainTable table) {name : Text} (worded : IsWorded leaf)
    (kept : .kept name ∈ visitLeaf table expanding leaf) : isName name = true := by
  fun_induction visitLeaf table expanding leaf with
  | case1 => simp at kept
  | case2 expanding leaf definition found new ih =>
      obtain ⟨inner, member, kept⟩ := List.mem_flatMap.mp kept
      obtain ⟨type, derived⟩ := plain (leaf, definition) (Dictionary.mem_of_find? found)
      exact ih inner (worded_of_plain derived inner member) kept
  | case3 => cases kept
  | case4 expanding leaf _ other =>
      cases List.mem_singleton.mp kept
      rcases worded with named | compound
      · exact named
      · exact absurd compound (by simp_all)

theorem expands_of_expandLeaf (plain : PlainTable table) {expanded : Outline}
    (done : expandLeaf table false expanding leaf = .ok expanded) :
    Expands table (.leaf leaf) expanded := by
  fun_induction expandLeaf table false expanding leaf generalizing expanded with
  | case1 => cases done
  | case2 expanding leaf definition found _ ih =>
      obtain ⟨type, derived⟩ := plain (leaf, definition) (Dictionary.mem_of_find? found)
      obtain ⟨other, replaced, expands⟩ := substituted fun inner member => by
        obtain ⟨expanded, step⟩ := Outline.exists_substitute_iff.mp ⟨_, done⟩ inner member
        exact ⟨expanded, step, ih inner step⟩
      cases done.symm.trans replaced
      rw [outline_of_plain derived] at expands
      exact .declared found derived expands
  | case3 expanding leaf free shorthand =>
      cases done
      exact .bytes free shorthand
  | case4 _ _ _ _ strict => cases strict
  | case5 expanding leaf free other =>
      cases done
      exact .kept free (by simpa using other)

/-- Where a leaf is expanded without strictness, the strict expansion fails with the first name that
the walk keeps. -/
theorem failure?_expandLeaf {expanded : Outline}
    (done : expandLeaf table false expanding leaf = .ok expanded) :
    failure? (expandLeaf table true expanding leaf) =
      ((visitLeaf table expanding leaf).filterMap Visit.refusal?).head? := by
  fun_induction expandLeaf table false expanding leaf generalizing expanded with
  | case1 => cases done
  | case2 expanding leaf definition found new ih =>
      rw [expandLeaf_eq, visitLeaf_eq, found]
      simp only [new, ↓reduceIte]
      exact failure?_substitute_of_leaves done fun inner _ type step => ih inner step
  | case3 expanding leaf free shorthand =>
      rw [expandLeaf_eq, visitLeaf_of_free free, visitLeaf_of_isBlob shorthand, free]
      simp [shorthand, failure?]
  | case4 _ _ _ _ strict => cases strict
  | case5 expanding leaf free other =>
      rw [expandLeaf_eq, visitLeaf_eq, free]
      cases isCompound leaf <;> cases isBuiltin leaf <;> simp [other, failure?, Visit.refusal?]

end Leaf

section Resolution

variable {table : AliasTable} {expression : Text}

/-- The lenient expansion of an expression keeps the walk and decides the strict one. -/
theorem expand_strict {expanded : Outline}
    (done : expand table false expression = .ok expanded) :
    visits table expression = expanded.leaves.flatMap (visitLeaf [] []) ∧
      failure? (expand table true expression) =
        ((visits table expression).filterMap Visit.refusal?).head? := by
  constructor
  · exact (Outline.flatMap_substitute (fun leaf _ type step => visitLeaf_of_expandLeaf step) done).symm
  · exact failure?_substitute_of_leaves done fun leaf _ type step => failure?_expandLeaf step

theorem expand_of_strict {expanded : Outline}
    (done : expand table true expression = .ok expanded) :
    expand table false expression = .ok expanded :=
  Outline.substitute_of_agree done fun _ _ _ step => expandLeaf_of_subset (List.Subset.refl _) step

/-- The expansion of a plain type expression over a plain table is read from its text again. -/
theorem ofText_render_of_expand (plain : PlainTable table)
    {type : Derivation (.nonterminal .datatype)} (derived : Plain expression type)
    {expanded : Outline} (done : expand table false expression = .ok expanded) :
    Outline.ofText expanded.render = expanded := by
  obtain ⟨other, replaced, expands⟩ := substituted fun leaf member => by
    obtain ⟨type, step⟩ := Outline.exists_substitute_iff.mp ⟨_, done⟩ leaf member
    exact ⟨type, step, expands_of_expandLeaf plain step⟩
  cases done.symm.trans replaced
  have legible := legible_of_plain derived
  rw [← outline_of_plain derived] at legible
  exact (expands.legible legible).ofText_render

theorem head?_eraseDups {α : Type} [BEq α] (items : List α) :
    items.eraseDups.head? = items.head? := by
  cases items with
  | nil => rfl
  | cons first rest => rw [List.eraseDups_cons]; rfl

/-- The first name that nothing explains is the one that strict resolution refuses. -/
theorem head?_unresolvedNames (plain : PlainTable table)
    {type : Derivation (.nonterminal .datatype)} (derived : Plain expression type) :
    (unresolvedNames table expression).head?.map ResolutionError.unresolved =
      ((visits table expression).filterMap Visit.refusal?).head? := by
  have named : ∀ visit ∈ visits table expression, ∀ name, visit = .kept name →
      isName name = true := by
    rintro _ member name rfl
    obtain ⟨leaf, inside, kept⟩ := List.mem_flatMap.mp member
    exact isName_of_kept plain (worded_of_plain derived leaf inside) kept
  rw [unresolvedNames, head?_eraseDups, ← List.head?_map, List.map_filterMap]
  refine congrArg List.head? (List.filterMap_congr fun visit member => ?_)
  cases visit with
  | cycle => rfl
  | kept name => simp [named _ member name rfl, Visit.refusal?]

/-- Where a plain type expression over a plain table is resolved without strictness, the names that
nothing explains are those of the result on its own. Strict resolution refuses the first of them, and
gives the same result if there are none. -/
theorem resolve_strict (plain : PlainTable table) {type : Derivation (.nonterminal .datatype)}
    (derived : Plain expression type) {normal : Text}
    (resolved : resolve table false expression = .ok normal) :
    unresolvedNames table expression = unresolvedNames [] normal ∧
      (unresolvedNames table expression = [] → resolve table true expression = .ok normal) ∧
      ∀ name rest, unresolvedNames table expression = name :: rest →
        resolve table true expression = .error (.unresolved name) := by
  obtain ⟨expanded, done, rfl⟩ := map_eq_ok.mp resolved
  obtain ⟨walked, refused⟩ := expand_strict done
  rw [← head?_unresolvedNames plain derived] at refused
  refine ⟨?_, fun none => ?_, fun name rest some => ?_⟩
  · rw [unresolvedNames, unresolvedNames, walked, visits, ofText_render_of_expand plain derived done]
  · rw [none] at refused
    obtain ⟨other, strict⟩ := failure?_eq_none.mp refused
    cases done.symm.trans (expand_of_strict strict)
    rw [resolve, strict]
    rfl
  · rw [some] at refused
    rw [resolve, failure?_eq_some.mp refused]
    rfl

/-- An option of a declared name has one result in both modes; an option of a name that is not declared
is refused by the strict one. -/
theorem resolve_strict_option :
    PlainTable natTable ∧ Plain "opt <t>".toList (optionTree "t".toList) ∧
      (resolve natTable false "opt <t>".toList = .ok "opt nat".toList ∧
        unresolvedNames natTable "opt <t>".toList = [] ∧
        resolve natTable true "opt <t>".toList = .ok "opt nat".toList) ∧
      PlainTable [] ∧ resolve [] false "opt <t>".toList = .ok "opt t".toList ∧
        unresolvedNames [] "opt <t>".toList = ["t".toList] ∧
        resolve [] true "opt <t>".toList = .error (.unresolved "t".toList) := by
  have outline : Outline.ofText "opt <t>".toList = .opt (.leaf "t".toList) :=
    outline_of_plain plain_option
  have inner : expandLeaf natTable false ["t".toList] "nat".toList = .ok (.leaf "nat".toList) := by
    rw [expandLeaf_eq]
    rfl
  have leaf : expandLeaf natTable false [] "t".toList = .ok (.leaf "nat".toList) := by
    rw [expandLeaf_eq]
    show (Outline.ofText "nat".toList).substitute _ = _
    rw [Outline.ofText_nat]
    exact inner
  have kept : expandLeaf [] false [] "t".toList = .ok (.leaf "t".toList) := by
    rw [expandLeaf_eq]
    rfl
  have declared : resolve natTable false "opt <t>".toList = .ok "opt nat".toList := by
    rw [resolve, expand, outline]
    simp only [Outline.substitute, leaf]
    rfl
  have free : resolve [] false "opt <t>".toList = .ok "opt t".toList := by
    rw [resolve, expand, outline]
    simp only [Outline.substitute, kept]
    rfl
  have known : unresolvedNames natTable "opt <t>".toList = [] := by
    rw [unresolvedNames, visits, outline]
    show (List.filterMap _ (visitLeaf natTable [] "t".toList ++ [])).eraseDups = _
    rw [← visitLeaf_of_expandLeaf leaf]
    show (List.filterMap _ ((visitLeaf [] [] "nat".toList ++ []) ++ [])).eraseDups = _
    rw [visitLeaf_eq]
    decide
  have unknown : unresolvedNames [] "opt <t>".toList = ["t".toList] := by
    rw [unresolvedNames, visits, outline]
    show (List.filterMap _ (visitLeaf [] [] "t".toList ++ [])).eraseDups = _
    rw [visitLeaf_eq]
    decide
  have none : PlainTable [] := by rintro _ ⟨⟩
  obtain ⟨_, same, _⟩ := resolve_strict plainTable_natTable plain_option declared
  obtain ⟨_, _, refused⟩ := resolve_strict none plain_option free
  exact ⟨plainTable_natTable, plain_option, ⟨declared, known, same known⟩, none, free, unknown,
    refused _ _ unknown⟩

end Resolution

end Candid.Alias
