import Candid.Proofs.Alias.Cycle
import Candid.Proofs.Alias.Expansion
import Candid.Proofs.Alias.Table

/-!
# Declared names

A name that an interface declares is resolved as its definition, unless it is a keyword in other
letters: the reader of type expressions takes such a name for the keyword before it looks for a
declaration.
-/

set_option autoImplicit false

namespace Candid.Alias

open Idl

section Names

variable {table : AliasTable} {name definition : Text}

theorem ofText_of_identifier (form : Form .identifier name) (plain : isPlainName name = true) :
    Outline.ofText name = .leaf name :=
  outline_of_plain (plain_name form plain)

theorem identifier_of_declared {source : Text} {interface : Interface}
    (accepted : parse source = .ok interface)
    (declared : Dictionary.find? name interface.aliases = some definition) :
    Form .identifier name := by
  obtain ⟨_, items, option, yields, aliases, _⟩ := exists_items_of_parse accepted
  have member := Dictionary.mem_of_find? declared
  rw [aliases] at member
  obtain ⟨definition, inside, same⟩ := List.mem_map.mp member
  cases same
  obtain ⟨fits, _, _, _, among⟩ := exists_cut_of_definition inside option.yield
  rw [← yields] at among
  have form := form_of_stand (stand_lexemes source) among
  rwa [fits] at form

theorem expandLeaf_eq_expand (found : Dictionary.find? name table = some definition)
    (ends : ¬ Looping table name) :
    ∃ expanded, expandLeaf table false [] name = .ok expanded ∧
      expand table false definition = .ok expanded := by
  cases outcome : expandLeaf table false [] name with
  | error error =>
      obtain ⟨_, _, _, looping⟩ :=
        cyclic_of_expandLeaf List.nodup_nil (fun _ => .singleton name) outcome
      exact absurd looping ends
  | ok expanded =>
      refine ⟨expanded, rfl, ?_⟩
      have done := outcome
      rw [expandLeaf_eq, found] at done
      simp only [List.not_mem_nil, ↓reduceIte] at done
      -- Inside the definition its own name is under expansion, which no longer matters.
      exact Outline.substitute_of_agree done fun inner _ type step =>
        expandLeaf_of_subset (List.nil_subset _) step

/-- A name that an interface declares, from which no cycle can be reached, is resolved as its
definition if it is no keyword in other letters. -/
theorem resolve_declared {source : Text} {interface : Interface}
    (accepted : parse source = .ok interface)
    (declared : Dictionary.find? name interface.aliases = some definition)
    (plain : isPlainName name = true) (ends : ¬ Looping interface.aliases name) :
    ∃ text, resolve interface.aliases false name = .ok text ∧
      resolve interface.aliases false definition = .ok text := by
  have identifier := identifier_of_declared accepted declared
  obtain ⟨expanded, leaf, whole⟩ := expandLeaf_eq_expand declared ends
  refine ⟨expanded.render, ?_, ?_⟩
  · rw [resolve, expand, ofText_of_identifier identifier plain, Outline.substitute, leaf]
    rfl
  · rw [resolve, whole]
    rfl

end Names

section Keyword

def tableOf (name : Text) : AliasTable := [(name, "nat".toList)]

theorem parse_natural {name : Text} (identifier : Form .identifier name) :
    parse ("type ".toList ++ name ++ " = ".toList ++ "nat".toList ++ ";".toList) =
      .ok ⟨[], tableOf name, []⟩ := by
  have expresses : Expresses "nat".toList (nameTree "nat".toList 0).yield := by
    refine ⟨[⟨.token .identifier, "nat".toList⟩], by decide, ⟨?_, trivial⟩, ?_, rfl⟩
    · exact natName.stands ((apart_cons (by decide) (by decide) []).bounded _)
    · simp [Lexeme.Plain]
  exact parse_definition identifier expresses

theorem not_looping_natural {name : Text} (other : name ≠ "nat".toList) :
    ¬ Looping (tableOf name) name := by
  intro looping
  obtain ⟨inner, ⟨definition, found, member⟩, further⟩ := looping_iff.mp looping
  cases Dictionary.mem_of_find? found with
  | head =>
      have leaves : inner = "nat".toList := by
        have read := (mem_references.mp member).1
        rw [ofText_of_identifier natName (by decide)] at read
        exact List.mem_singleton.mp read
      subst leaves
      refine not_looping ?_ further
      exact Dictionary.find?_eq_none.mpr fun same => other (List.mem_singleton.mp same).symm
  | tail _ none => cases none

/-- A name declared as a natural number is resolved as one. -/
theorem resolve_declared_natural :
    parse "type a = nat;".toList = .ok ⟨[], tableOf "a".toList, []⟩ ∧
      Dictionary.find? "a".toList (tableOf "a".toList) = some "nat".toList ∧
      isPlainName "a".toList = true ∧ ¬ Looping (tableOf "a".toList) "a".toList ∧
      ∃ text, resolve (tableOf "a".toList) false "a".toList = .ok text ∧
        resolve (tableOf "a".toList) false "nat".toList = .ok text := by
  have name : Form .identifier "a".toList := @Form.word 'a' [] (by decide) (by simp)
  have shape : "type a = nat;".toList =
      "type ".toList ++ "a".toList ++ " = ".toList ++ "nat".toList ++ ";".toList := by decide
  have accepted : parse "type a = nat;".toList = .ok ⟨[], tableOf "a".toList, []⟩ := by
    rw [shape, parse_natural name]
  have ends : ¬ Looping (tableOf "a".toList) "a".toList := not_looping_natural (by decide)
  exact ⟨accepted, rfl, by decide, ends, resolve_declared accepted rfl (by decide) ends⟩

/-- A declared name that is the keyword of records in other letters is taken for the keyword. It is
resolved as a record without fields, although it is declared as a natural number. -/
theorem resolve_record_name :
    parse "type Record = nat;".toList = .ok ⟨[], tableOf "Record".toList, []⟩ ∧
      ¬ Looping (tableOf "Record".toList) "Record".toList ∧
      resolve (tableOf "Record".toList) false "nat".toList = .ok "nat".toList ∧
      resolve (tableOf "Record".toList) false "Record".toList ≠ .ok "nat".toList := by
  have name : Form .identifier "Record".toList :=
    @Form.word 'R' "ecord".toList (by decide) (List.all_eq_true.mp (by decide))
  have shape : "type Record = nat;".toList =
      "type ".toList ++ "Record".toList ++ " = ".toList ++ "nat".toList ++ ";".toList := by decide
  refine ⟨by rw [shape, parse_natural name], not_looping_natural (by decide), ?_, ?_⟩
  · rw [resolve, expand, ofText_of_identifier natName (by decide), Outline.substitute, expandLeaf_eq]
    rfl
  · have fields : recordFields (Text.trim "Record".toList) = [] := by decide
    rw [resolve, expand, Outline.ofText_of_record (by decide), fields]
    decide

end Keyword

end Candid.Alias
