import Candid.Proofs.Dictionary
import Candid.Proofs.Grammar

/-!
# The type table of a document

Where a document is an interface, its type names are distinct, and its type table lists them in the
order of their definitions with the canonical texts that the derivation computes.
-/

set_option autoImplicit false

namespace Candid.Idl

theorem typeTable_eq_ok {defined types : Dictionary Datatype} {definitions : List Definition} :
    typeTable defined definitions = .ok types ↔
      types = defined ++ definitions.map (fun definition => (definition.name, definition.type)) ∧
        (definitions.map (·.name)).Nodup ∧
        ∀ definition ∈ definitions, definition.name ∉ defined.map (·.1) := by
  induction definitions generalizing defined with
  | nil => simp [typeTable, eq_comm]
  | cons definition definitions ih =>
      simp only [typeTable]
      cases found : Dictionary.find? definition.name defined with
      | some type =>
          have member : definition.name ∈ defined.map (·.1) := by
            by_cases inside : definition.name ∈ defined.map (·.1)
            · exact inside
            · rw [Dictionary.find?_eq_none.mpr inside] at found
              cases found
          simp only [reduceCtorEq, false_iff, not_and]
          intro _ _ new
          exact new definition List.mem_cons_self member
      | none =>
          have new := Dictionary.find?_eq_none.mp found
          have split (name : Text) :
              name ∉ (defined ++ [(definition.name, definition.type)]).map (·.1) ↔
                name ∉ defined.map (·.1) ∧ name ≠ definition.name := by
            rw [List.map_append, List.mem_append, not_or]
            simp
          simp only [ih, Dictionary.put_of_not_mem new, split, List.append_assoc, List.map_cons,
            List.cons_append, List.nil_append, List.nodup_cons]
          constructor
          · rintro ⟨shape, distinct, apart⟩
            refine ⟨shape, ⟨?_, distinct⟩, ?_⟩
            · intro member
              obtain ⟨other, inside, same⟩ := List.mem_map.mp member
              exact (apart other inside).2 same
            · intro other member
              rcases List.mem_cons.mp member with rfl | later
              · exact new
              · exact (apart other later).1
          · rintro ⟨shape, ⟨first, distinct⟩, apart⟩
            refine ⟨shape, distinct, fun other member => ⟨apart other (by simp [member]), ?_⟩⟩
            intro same
            exact first (List.mem_map.mpr ⟨other, member, same⟩)

theorem Document.node_definitions (document : Document) :
    document.node.definitions = document.definitions.map (·.node) := by
  simp only [Document.node, Document.definitions, List.map_filterMap]
  congr 1
  funext entry
  cases entry <;> rfl

def DefinitionNode.entry (node : DefinitionNode) : Text × Text :=
  (node.name, node.type.text)

theorem map_entry_node (definitions : List Definition) :
    definitions.map (fun definition => (definition.name, definition.type.render)) =
      (definitions.map (·.node)).map DefinitionNode.entry := by
  simp [Definition.node, DefinitionNode.entry, Datatype.node_text]

theorem map_name_node (definitions : List Definition) :
    (definitions.map (·.node)).map (·.name) = definitions.map (·.name) := by
  rw [List.map_map]
  rfl

theorem aliases_of_interface {document : Document} {interface : Interface}
    (declared : document.interface = .ok interface) :
    interface.aliases = document.node.definitions.map DefinitionNode.entry ∧
      (document.node.definitions.map (·.name)).Nodup := by
  unfold Document.interface at declared
  obtain ⟨types, table, declared⟩ := bind_eq_ok.mp declared
  obtain ⟨rfl, distinct, _⟩ := typeTable_eq_ok.mp table
  have aliases : interface.aliases =
      document.definitions.map (fun definition => (definition.name, definition.type.render)) := by
    simp only at declared
    split at declared
    · cases declared
      simp
    · obtain ⟨methods, _, same⟩ := bind_eq_ok.mp declared
      cases same
      simp
  rw [document.node_definitions]
  refine ⟨aliases.trans (map_entry_node _), ?_⟩
  rw [map_name_node]
  exact distinct

/-- A document without a service is an interface if its type names are distinct. -/
theorem interface_of_distinct {document : Document} (noActor : document.actor = none)
    (distinct : (document.node.definitions.map (·.name)).Nodup) :
    document.interface =
      .ok ⟨[], document.node.definitions.map DefinitionNode.entry, []⟩ := by
  rw [document.node_definitions] at distinct ⊢
  rw [map_name_node] at distinct
  have table : typeTable [] document.definitions =
      .ok (document.definitions.map fun definition => (definition.name, definition.type)) :=
    typeTable_eq_ok.mpr ⟨rfl, distinct, by simp⟩
  simp only [Document.interface, table, noActor, ← map_entry_node]
  simp [bind, Except.bind, pure, Except.pure]

end Candid.Idl
