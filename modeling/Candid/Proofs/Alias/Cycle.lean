import Candid.Proofs.Alias.Depth
import Mathlib.Data.List.Chain
import Mathlib.Logic.Relation

/-!
# Cycles of declarations

Resolving without strictness fails exactly where declarations that lead back to themselves can be
reached, and the error shows such declarations: the names under expansion are distinct and each is a
reference of the definition before it, so the chain that closes on one of them is a cycle. An expansion
that succeeds has walked through every definition that can be reached.
-/

set_option autoImplicit false

namespace Candid.Alias

open Relation

def references (table : AliasTable) (expression : Text) : List Text :=
  (Outline.ofText expression).leaves.filter fun leaf => (Dictionary.find? leaf table).isSome

/-- The definition of a name has another name as a reference. -/
def Links (table : AliasTable) (name other : Text) : Prop :=
  ∃ definition, Dictionary.find? name table = some definition ∧ other ∈ references table definition

/-- From the name one can be reached that leads back to itself. -/
def Looping (table : AliasTable) (start : Text) : Prop :=
  ∃ name, ReflTransGen (Links table) start name ∧ TransGen (Links table) name name

def ReachesCycle (table : AliasTable) (expression : Text) : Prop :=
  ∃ start ∈ references table expression, Looping table start

/-- The chain leads from a name back to it, through distinct names. -/
structure IsCycle (table : AliasTable) (chain : List Text) : Prop where
  long : 2 ≤ chain.length
  closed : chain.head? = chain.getLast?
  distinct : chain.dropLast.Nodup
  linked : chain.IsChain (Links table)

section Reached

variable {table : AliasTable} {name other definition : Text}

theorem mem_references {expression : Text} :
    name ∈ references table expression ↔
      name ∈ (Outline.ofText expression).leaves ∧ (Dictionary.find? name table).isSome := by
  simp [references]

theorem links_iff (found : Dictionary.find? name table = some definition) :
    Links table name other ↔ other ∈ references table definition := by
  constructor
  · rintro ⟨again, same, member⟩
    cases found.symm.trans same
    exact member
  · intro member
    exact ⟨definition, found, member⟩

theorem Links.declared (link : Links table name other) :
    (Dictionary.find? name table).isSome := by
  obtain ⟨_, found, _⟩ := link
  rw [found]
  rfl

theorem looping_iff : Looping table name ↔ ∃ inner, Links table name inner ∧ Looping table inner := by
  constructor
  · rintro ⟨last, reached, around⟩
    rcases ReflTransGen.cases_head reached with rfl | ⟨inner, link, further⟩
    · -- A cycle through the name itself is one through the name behind it.
      obtain ⟨inner, link, back⟩ := TransGen.head'_iff.mp around
      exact ⟨inner, link, inner, .refl, TransGen.tail' back link⟩
    · exact ⟨inner, link, last, further, around⟩
  · rintro ⟨inner, link, last, reached, around⟩
    exact ⟨last, .head link reached, around⟩

theorem not_looping (free : Dictionary.find? name table = none) : ¬ Looping table name := by
  intro looping
  obtain ⟨_, link, _⟩ := looping_iff.mp looping
  simpa [free] using link.declared

theorem reachesCycle_iff {expression : Text} :
    ReachesCycle table expression ↔
      ∃ leaf ∈ (Outline.ofText expression).leaves, Looping table leaf := by
  constructor
  · rintro ⟨start, member, looping⟩
    exact ⟨start, (mem_references.mp member).1, looping⟩
  · rintro ⟨leaf, member, looping⟩
    obtain ⟨_, link, _⟩ := looping_iff.mp looping
    exact ⟨leaf, mem_references.mpr ⟨member, link.declared⟩, looping⟩

end Reached

section Cycle

variable {table : AliasTable} {expanding : List Text} {leaf : Text}

/-- What is under expansion, from a name on that comes up again, is a cycle. -/
theorem isCycle_cycle (distinct : expanding.Nodup) (closes : leaf ∈ expanding)
    (linked : (expanding ++ [leaf]).IsChain (Links table)) :
    IsCycle table (cycle expanding leaf) ∧ Looping table leaf := by
  obtain ⟨before, behind, rfl, outside⟩ := List.eq_append_cons_of_mem closes
  have shape : cycle (before ++ leaf :: behind) leaf = leaf :: (behind ++ [leaf]) := by
    have others : ∀ name ∈ before, decide (name ≠ leaf) = true := by
      intro name member
      have other : name ≠ leaf := by
        rintro rfl
        exact outside member
      exact decide_eq_true other
    rw [cycle, List.dropWhile_append_of_pos others]
    simp
  rw [shape]
  have around : (leaf :: (behind ++ [leaf])).IsChain (Links table) := by
    rw [List.append_assoc] at linked
    exact linked.right_of_append
  refine ⟨⟨by simp, by simp [List.getLast?_cons], ?_, around⟩, leaf, .refl, ?_⟩
  · rw [← List.cons_append, List.dropLast_concat]
    exact distinct.of_append_right
  · rw [← List.cons_append, List.isChain_append] at around
    obtain ⟨within, _, back⟩ := around
    have last := List.getLast?_eq_some_getLast (List.cons_ne_nil leaf behind)
    exact .tail' (List.relationReflTransGen_of_exists_isChain_cons _ within rfl)
      (back _ last leaf rfl)

/-- Without strictness the expansion of a leaf fails with a cycle that the leaf leads to. -/
theorem cyclic_of_expandLeaf {error : ResolutionError} (distinct : expanding.Nodup)
    (linked : (Dictionary.find? leaf table).isSome → (expanding ++ [leaf]).IsChain (Links table))
    (failed : expandLeaf table false expanding leaf = .error error) :
    ∃ chain, error = .cyclic chain ∧ IsCycle table chain ∧ Looping table leaf := by
  fun_induction expandLeaf table false expanding leaf generalizing error with
  | case1 expanding leaf _ found closes =>
      cases failed
      obtain ⟨cycle, looping⟩ := isCycle_cycle distinct closes (linked (by simp [found]))
      exact ⟨_, rfl, cycle, looping⟩
  | case2 expanding leaf definition found new ih =>
      -- The names under expansion stay distinct, and each stays a reference of the one before it.
      have first := Outline.failure?_substitute (expandLeaf table false (expanding ++ [leaf]))
        (Outline.ofText definition)
      rw [failure?_eq_some.mpr failed] at first
      obtain ⟨inner, member, failure⟩ := List.exists_of_findSome?_eq_some first.symm
      have distinct : (expanding ++ [leaf]).Nodup :=
        List.nodup_append.mpr ⟨distinct, by simp, by
          intro name before _ same
          rintro rfl
          cases List.mem_singleton.mp same
          exact new before⟩
      have next : (Dictionary.find? inner table).isSome →
          (expanding ++ [leaf] ++ [inner]).IsChain (Links table) := by
        intro declared
        have link : Links table leaf inner :=
          (links_iff found).mpr (mem_references.mpr ⟨member, declared⟩)
        refine List.isChain_append.mpr ⟨linked (by simp [found]), .singleton inner, ?_⟩
        simpa using link
      obtain ⟨chain, same, cycle, looping⟩ := ih inner distinct next (failure?_eq_some.mp failure)
      have declared : (Dictionary.find? inner table).isSome := by
        obtain ⟨_, link, _⟩ := looping_iff.mp looping
        exact link.declared
      have link := (links_iff found).mpr (mem_references.mpr ⟨member, declared⟩)
      exact ⟨chain, same, cycle, looping_iff.mpr ⟨inner, link, looping⟩⟩
  | case3 | case5 => cases failed
  | case4 _ _ _ _ strict => cases strict

theorem not_looping_of_expandLeaf {strict : Bool} {expanded : Outline}
    (done : expandLeaf table strict expanding leaf = .ok expanded) : ¬ Looping table leaf := by
  fun_induction expandLeaf table strict expanding leaf generalizing expanded with
  | case1 => cases done
  | case2 expanding leaf definition found _ ih =>
      intro looping
      obtain ⟨inner, link, further⟩ := looping_iff.mp looping
      have member := (mem_references.mp ((links_iff found).mp link)).1
      obtain ⟨_, step⟩ := Outline.exists_substitute_iff.mp ⟨_, done⟩ inner member
      exact ih inner step further
  | case3 expanding leaf free | case4 expanding leaf free | case5 expanding leaf free =>
      exact not_looping free

end Cycle

section Resolution

variable {table : AliasTable} {expression : Text}

theorem expand_cyclic {error : ResolutionError}
    (failed : expand table false expression = .error error) :
    ∃ chain, error = .cyclic chain ∧ IsCycle table chain ∧ ReachesCycle table expression := by
  have first := Outline.failure?_substitute (expandLeaf table false [])
    (Outline.ofText expression)
  rw [expand] at failed
  rw [failure?_eq_some.mpr failed] at first
  obtain ⟨leaf, member, failure⟩ := List.exists_of_findSome?_eq_some first.symm
  obtain ⟨chain, same, cycle, looping⟩ := cyclic_of_expandLeaf List.nodup_nil
    (fun _ => .singleton leaf) (failure?_eq_some.mp failure)
  exact ⟨chain, same, cycle, reachesCycle_iff.mpr ⟨leaf, member, looping⟩⟩

theorem not_reachesCycle_of_expand {strict : Bool} {expanded : Outline}
    (done : expand table strict expression = .ok expanded) : ¬ ReachesCycle table expression := by
  intro reaches
  obtain ⟨leaf, member, looping⟩ := reachesCycle_iff.mp reaches
  obtain ⟨_, step⟩ := Outline.exists_substitute_iff.mp ⟨_, done⟩ leaf member
  exact not_looping_of_expandLeaf step looping

/-- The expansion without strictness ends within a depth that the table and the expression determine.
It fails exactly where a cycle can be reached, with a cycle, and gives a text otherwise. -/
theorem resolve_ends (table : AliasTable) (expression : Text) :
    (∀ depth, depthBound table [] expression < depth →
      (expandWithin table false depth [] expression).run = some (expand table false expression)) ∧
    ((∃ chain, resolve table false expression = .error (.cyclic chain)) ↔
      ReachesCycle table expression) ∧
    (¬ ReachesCycle table expression → ∃ text, resolve table false expression = .ok text) ∧
    ∀ error, resolve table false expression = .error error →
      ∃ chain, error = .cyclic chain ∧ IsCycle table chain := by
  refine ⟨fun depth enough => expandWithin_eq table false enough, ?_⟩
  unfold resolve
  cases outcome : expand table false expression with
  | ok expanded =>
      have none := not_reachesCycle_of_expand outcome
      refine ⟨⟨?_, fun reaches => absurd reaches none⟩, fun _ => ⟨_, rfl⟩, ?_⟩
      · rintro ⟨_, failed⟩
        cases failed
      · intro _ failed
        cases failed
  | error error =>
      obtain ⟨chain, rfl, cycle, reaches⟩ := expand_cyclic outcome
      refine ⟨⟨fun _ => reaches, fun _ => ⟨chain, rfl⟩⟩, fun none => absurd reaches none, ?_⟩
      intro _ failed
      cases failed
      exact ⟨chain, rfl, cycle⟩

/-- A name that is defined as itself is a cycle, which a name that is not declared does not reach. -/
theorem resolve_ends_of_loop :
    (∃ chain, resolve [("a".toList, "a".toList)] false "a".toList = .error (.cyclic chain) ∧
      IsCycle [("a".toList, "a".toList)] chain) ∧
    (depthBound [("a".toList, "a".toList)] [] "b".toList < 4 ∧
      (expandWithin [("a".toList, "a".toList)] false 4 [] "b".toList).run =
        some (expand [("a".toList, "a".toList)] false "b".toList)) ∧
    ∃ text, resolve [("a".toList, "a".toList)] false "b".toList = .ok text := by
  have first : Outline.ofText "a".toList = .leaf "a".toList := Outline.ofText_of_leaf (by decide)
  have second : Outline.ofText "b".toList = .leaf "b".toList := Outline.ofText_of_leaf (by decide)
  have member : "a".toList ∈ references [("a".toList, "a".toList)] "a".toList := by
    rw [mem_references, first]
    simp [Outline.leaves, Dictionary.find?]
  have loop : ReachesCycle [("a".toList, "a".toList)] "a".toList :=
    ⟨"a".toList, member, "a".toList, .refl, .single ⟨"a".toList, rfl, member⟩⟩
  have none : ¬ ReachesCycle [("a".toList, "a".toList)] "b".toList := by
    rintro ⟨_, member, _⟩
    rw [mem_references, second] at member
    obtain ⟨leaf, declared⟩ := member
    cases List.mem_singleton.mp leaf
    exact absurd declared (by decide)
  obtain ⟨_, ⟨_, cyclic⟩, _, cycle⟩ := resolve_ends [("a".toList, "a".toList)] "a".toList
  obtain ⟨ends, _, resolved, _⟩ := resolve_ends [("a".toList, "a".toList)] "b".toList
  obtain ⟨chain, failed⟩ := cyclic loop
  obtain ⟨_, same, around⟩ := cycle _ failed
  cases same
  exact ⟨⟨chain, failed, around⟩, ⟨by decide, ends 4 (by decide)⟩, resolved none⟩

end Resolution

end Candid.Alias
