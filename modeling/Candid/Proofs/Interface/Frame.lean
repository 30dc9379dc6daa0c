import Candid.Proofs.Alias.Declaration
import Candid.Proofs.Interface.Recorded
import Candid.Proofs.Lexing.Replaced

/-!
# Names and types in a frame

Where methods and services are declared by names, and what stands around such a declaration in the
derivation of a source. From a frame the tokens and the record of the source are known for whatever is
put into it.
-/

set_option autoImplicit false

namespace Candid.Idl

open Alias (typeDefinition?)

namespace Derivation

inductive Refers (name : Token) : Derivation (.nonterminal .method) → Prop where
  | intro (label : Derivation (.nonterminal .label)) (colon : Derivation (.terminal .colon))
      (fits : name.kind = .identifier) (ends : Derivation (.terminal .semicolon)) :
      Refers name (.node .aliasMethod (.cons label (.cons colon (.cons (.leaf name fits)
        (.cons ends .nil)))))

inductive HasReference (name : Token) : Derivation (.nonterminal .serviceBody) → Prop where
  | intro (opening : Derivation (.terminal .leftBrace))
      (front : List (Derivation (.nonterminal .method))) (method : Derivation (.nonterminal .method))
      (behind : List (Derivation (.nonterminal .method)))
      (closing : Derivation (.terminal .rightBrace)) (refers : method.Refers name) :
      HasReference name (.node .serviceBody (.cons opening
        (.cons (methodList (front ++ method :: behind)) (.cons closing .nil))))

inductive IsBodyOf (body : Derivation (.nonterminal .serviceBody)) :
    Derivation (.nonterminal .actorType) → Prop where
  | plain : IsBodyOf body (.node .actorBody (.cons body .nil))
  | init (opening : Derivation (.terminal .leftParen))
      (init : Derivation (.nonterminal (.members .comma)))
      (closing : Derivation (.terminal .rightParen)) (arrow : Derivation (.terminal .arrow)) :
      IsBodyOf body (.node .actorInitBody (.cons opening (.cons init (.cons closing (.cons arrow
        (.cons body .nil))))))

inductive HasName (name : Token) : Derivation (.nonterminal .actorType) → Prop where
  | plain (fits : name.kind = .identifier) :
      HasName name (.node .actorName (.cons (.leaf name fits) .nil))
  | init (opening : Derivation (.terminal .leftParen))
      (init : Derivation (.nonterminal (.members .comma)))
      (closing : Derivation (.terminal .rightParen)) (arrow : Derivation (.terminal .arrow))
      (fits : name.kind = .identifier) :
      HasName name (.node .actorInitName (.cons opening (.cons init (.cons closing (.cons arrow
        (.cons (.leaf name fits) .nil))))))

inductive IsTypeOf (type : Derivation (.nonterminal .actorType)) :
    Derivation (.nonterminal .actor) → Prop where
  | anonymous (word : Derivation (.word .serviceWord)) (colon : Derivation (.terminal .colon)) :
      IsTypeOf type (.node .anonymousActor (.cons word (.cons colon (.cons type .nil))))
  | named (word : Derivation (.word .serviceWord)) (name : Derivation (.terminal .identifier))
      (colon : Derivation (.terminal .colon)) :
      IsTypeOf type (.node .namedActor (.cons word (.cons name (.cons colon (.cons type .nil)))))

inductive IsServiceOf (type : Derivation (.nonterminal .actorType)) :
    Derivation (.nonterminal .actorOption) → Prop where
  | bare (actor : Derivation (.nonterminal .actor)) (same : type.IsTypeOf actor) :
      IsServiceOf type (.node .actorBare (.cons actor .nil))
  | ended (actor : Derivation (.nonterminal .actor)) (same : type.IsTypeOf actor)
      (ends : Derivation (.terminal .semicolon)) :
      IsServiceOf type (.node .actorEnded (.cons actor (.cons ends .nil)))

end Derivation

/-- What stands around a tree inside another one: the trees that are built from what is put there, with
the tokens before and behind it, and the record that is made of its record. -/
structure Frame (inner outer : Nonterminal) where
  build : Derivation (.nonterminal inner) → Derivation (.nonterminal outer)
  front : List Token
  back : List Token
  record : CanonicalValue inner → CanonicalValue outer
  yields : ∀ tree, (build tree).yield = front ++ (tree.yield ++ back)
  records : ∀ tree, (build tree).record = record tree.record

theorem record_methodList (methods : List (Derivation (.nonterminal .method))) :
    (Derivation.methodList methods).record = methods.map (·.record) := by
  induction methods using List.reverseRecOn with
  | nil => rfl
  | append_singleton methods method ih =>
      have shape : Derivation.methodList (methods ++ [method]) =
          .node .moreMethods (.cons (Derivation.methodList methods) (.cons method .nil)) := by
        simp [Derivation.methodList]
      rw [shape, Derivation.record_moreMethods, ih, List.map_append]
      rfl

theorem record_definitionItems (items : List (Derivation (.nonterminal .definition))) :
    (Derivation.definitionList items).record = items.filterMap (·.record) := by
  rw [Alias.record_definitionList, List.map_filterMap]
  exact List.filterMap_congr fun item _ => (Alias.record_definition item).symm

namespace Frame

variable {inner middle outer : Nonterminal}

def comp (around : Frame middle outer) (frame : Frame inner middle) : Frame inner outer where
  build tree := around.build (frame.build tree)
  front := around.front ++ frame.front
  back := frame.back ++ around.back
  record value := around.record (frame.record value)
  yields tree := by simp [around.yields, frame.yields]
  records tree := by rw [around.records, frame.records]

theorem exchanged (frame : Frame inner outer) {name : Token} {inserted : List Token}
    {tree changed : Derivation (.nonterminal inner)}
    (exchanged : Exchanged name inserted tree.yield changed.yield) :
    Exchanged name inserted (frame.build tree).yield (frame.build changed).yield := by
  rw [frame.yields, frame.yields]
  exact exchanged.around frame.front frame.back

theorem inside (frame : Frame inner outer) (tree : Derivation (.nonterminal inner)) :
    tree.yield <:+: (frame.build tree).yield := by
  rw [frame.yields, ← List.append_assoc]
  exact List.infix_append _ _ _

def method (opening : Derivation (.terminal .leftBrace))
    (front behind : List (Derivation (.nonterminal .method)))
    (closing : Derivation (.terminal .rightBrace)) : Frame .method .serviceBody where
  build method := .node .serviceBody (.cons opening
    (.cons (Derivation.methodList (front ++ method :: behind)) (.cons closing .nil)))
  front := opening.yield ++ front.flatMap (·.yield)
  back := behind.flatMap (·.yield) ++ closing.yield
  record method := front.map (·.record) ++ method :: behind.map (·.record)
  yields method := by simp [Derivation.yield_methodList]
  records method := by
    show (Derivation.methodList (front ++ method :: behind)).record = _
    rw [record_methodList, List.map_append, List.map_cons]

def serviceType (word : Derivation (.word .serviceWord)) : Frame .serviceBody .datatype where
  build body := .node .serviceType (.cons word (.cons body .nil))
  front := word.yield
  back := []
  record members := TypeNode.ofMembers members
  yields body := by simp
  records _ := rfl

def definition (front behind : List (Derivation (.nonterminal .definition))) :
    Frame .definition .definitions where
  build definition := Derivation.definitionList (front ++ definition :: behind)
  front := front.flatMap (·.yield)
  back := behind.flatMap (·.yield)
  record definition := front.filterMap (·.record) ++ (definition.toList ++ behind.filterMap (·.record))
  yields definition := by simp [Derivation.yield_definitionList]
  records definition := by
    rw [record_definitionItems, List.filterMap_append, List.filterMap_cons]
    cases definition.record <;> rfl

def definitions (service : Derivation (.nonterminal .actorOption)) :
    Frame .definitions .interface where
  build definitions := .node .interface (.cons definitions (.cons service .nil))
  front := []
  back := service.yield
  record definitions := DocumentNode.mk definitions service.record
  yields definitions := by simp
  records _ := rfl

def service (definitions : Derivation (.nonterminal .definitions)) :
    Frame .actorOption .interface where
  build service := .node .interface (.cons definitions (.cons service .nil))
  front := definitions.yield
  back := []
  record service := DocumentNode.mk definitions.record service
  yields service := by simp
  records _ := rfl

end Frame

namespace Derivation

/-- A type that is defined stands in a frame. -/
theorem exists_frame_of_typeDefinition {item : Derivation (.nonterminal .definition)}
    {definition : Alias.TypeDefinition} (found : typeDefinition? item = some definition) :
    ∃ frame : Frame .datatype .definition, frame.build definition.type = item ∧
      frame.record = fun type => some ⟨definition.name.text, type, definition.name.offset⟩ := by
  cases item with
  | node production children =>
      cases production with
      | importDefinition => cases found
      | typeDefinition =>
          match children with
          | .cons word (.cons (.leaf name fits) (.cons equals (.cons type
              (.cons (.leaf last ends) .nil)))) =>
              cases found
              exact ⟨{
                build := fun type => .node .typeDefinition (.cons word (.cons (.leaf name fits)
                  (.cons equals (.cons type (.cons (.leaf last ends) .nil)))))
                front := word.yield ++ name :: equals.yield
                back := [last]
                record := fun type => some (DefinitionNode.mk name.text type name.offset)
                yields := fun type => by simp
                records := fun _ => rfl }, rfl, rfl⟩

theorem HasReference.exists_frame {name : Token} {body : Derivation (.nonterminal .serviceBody)}
    (has : body.HasReference name) :
    ∃ (frame : Frame .method .serviceBody) (method : Derivation (.nonterminal .method))
      (front behind : List MethodNode), frame.build method = body ∧ method.Refers name ∧
        frame.record = fun method => front ++ method :: behind := by
  cases has with
  | intro opening front method behind closing refers =>
      exact ⟨.method opening front behind closing, method, _, _, rfl, refers, rfl⟩

theorem IsBodyOf.exists_frame {body : Derivation (.nonterminal .serviceBody)}
    {type : Derivation (.nonterminal .actorType)} (inside : body.IsBodyOf type) :
    ∃ (frame : Frame .serviceBody .actorType) (init : List LabelledText), frame.build body = type ∧
      frame.record = fun members => ⟨init, .body members⟩ := by
  cases inside with
  | plain =>
      exact ⟨{
        build := fun body => .node .actorBody (.cons body .nil)
        front := []
        back := []
        record := fun members => ActorNode.mk [] (.body members)
        yields := fun body => by simp
        records := fun _ => rfl }, [], rfl, rfl⟩
  | init opening init closing arrow =>
      exact ⟨{
        build := fun body => .node .actorInitBody (.cons opening (.cons init (.cons closing
          (.cons arrow (.cons body .nil)))))
        front := opening.yield ++ init.yield ++ closing.yield ++ arrow.yield
        back := []
        record := fun members => ActorNode.mk init.record (.body members)
        yields := fun body => by simp
        records := fun _ => rfl }, init.record, rfl, rfl⟩

theorem IsTypeOf.exists_frame {type : Derivation (.nonterminal .actorType)}
    {actor : Derivation (.nonterminal .actor)} (same : type.IsTypeOf actor) :
    ∃ frame : Frame .actorType .actor, frame.build type = actor ∧ frame.record = id := by
  cases same with
  | anonymous word colon =>
      exact ⟨{
        build := fun type => .node .anonymousActor (.cons word (.cons colon (.cons type .nil)))
        front := word.yield ++ colon.yield
        back := []
        record := id
        yields := fun type => by simp
        records := fun _ => rfl }, rfl, rfl⟩
  | named word name colon =>
      exact ⟨{
        build := fun type => .node .namedActor (.cons word (.cons name (.cons colon
          (.cons type .nil))))
        front := word.yield ++ name.yield ++ colon.yield
        back := []
        record := id
        yields := fun type => by simp
        records := fun _ => rfl }, rfl, rfl⟩

theorem IsServiceOf.exists_frame {type : Derivation (.nonterminal .actorType)}
    {service : Derivation (.nonterminal .actorOption)} (serves : type.IsServiceOf service) :
    ∃ frame : Frame .actorType .actorOption, frame.build type = service ∧ frame.record = some := by
  cases serves with
  | bare actor same =>
      obtain ⟨frame, rfl, record⟩ := same.exists_frame
      let around : Frame .actor .actorOption := {
        build := fun actor => .node .actorBare (.cons actor .nil)
        front := []
        back := []
        record := some
        yields := fun actor => by simp
        records := fun _ => rfl }
      exact ⟨around.comp frame, rfl, by simp [Frame.comp, around, record]⟩
  | ended actor same ends =>
      obtain ⟨frame, rfl, record⟩ := same.exists_frame
      let around : Frame .actor .actorOption := {
        build := fun actor => .node .actorEnded (.cons actor (.cons ends .nil))
        front := []
        back := ends.yield
        record := some
        yields := fun actor => by simp
        records := fun _ => rfl }
      exact ⟨around.comp frame, rfl, by simp [Frame.comp, around, record]⟩

end Derivation

namespace Derivation

variable {name : Token}

/-- A method with a function type of its own can take the place of one that is declared by a name. -/
theorem Refers.exists_exchanged {method : Derivation (.nonterminal .method)}
    (refers : method.Refers name) :
    ∃ label : Text, method.record = MethodNode.reference label name.text name.offset ∧
      ∀ signature : Derivation (.nonterminal .signature),
        ∃ other : Derivation (.nonterminal .method),
          other.record = MethodNode.declared (.ofSignature label signature.record) ∧
          Exchanged name signature.yield method.yield other.yield := by
  cases refers with
  | intro label colon fits ends =>
      refine ⟨label.record, rfl, fun signature => ⟨.node .signatureMethod (.cons label (.cons colon
        (.cons signature (.cons ends .nil)))), rfl, fits, label.yield ++ colon.yield, ends.yield,
        ?_, ?_⟩⟩
      · simp
      · simp

/-- A body can take the place of the name by which a service is declared. -/
theorem HasName.exists_exchanged {type : Derivation (.nonterminal .actorType)}
    (named : type.HasName name) :
    ∃ init : List LabelledText, type.record = ActorNode.mk init (.named name.text) ∧
      ∀ body : Derivation (.nonterminal .serviceBody),
        ∃ other : Derivation (.nonterminal .actorType),
          other.record = ActorNode.mk init (.body body.record) ∧
          Exchanged name body.yield type.yield other.yield := by
  cases named with
  | plain fits =>
      refine ⟨[], rfl, fun body => ⟨.node .actorBody (.cons body .nil), rfl, fits, [], [], ?_, ?_⟩⟩
      · simp
      · simp
  | init opening init closing arrow fits =>
      refine ⟨init.record, rfl, fun body => ⟨.node .actorInitBody (.cons opening (.cons init
        (.cons closing (.cons arrow (.cons body .nil))))), rfl, fits,
        opening.yield ++ init.yield ++ closing.yield ++ arrow.yield, [], ?_, ?_⟩⟩
      · simp
      · simp

/-- A type of which a function type is recorded is one. -/
theorem exists_funcType {type : Derivation (.nonterminal .datatype)} {signature : SignatureText}
    (function : TypeNode.signature type.record = some signature) :
    ∃ word inner, type = .node .funcType (.cons word (.cons inner .nil)) := by
  cases type with
  | node production children =>
      cases production with
      | funcType =>
          match children with
          | .cons word (.cons inner .nil) => exact ⟨word, inner, rfl⟩
      | _ => cases function

/-- A type of which members are recorded is a service type. -/
theorem exists_serviceType {type : Derivation (.nonterminal .datatype)} {members : List MethodNode}
    (service : TypeNode.methods type.record = some members) :
    ∃ word body, type = .node .serviceType (.cons word (.cons body .nil)) := by
  cases type with
  | node production children =>
      cases production with
      | serviceType =>
          match children with
          | .cons word (.cons body .nil) => exact ⟨word, body, rfl⟩
      | _ => cases service

theorem enclosed_serviceBody (body : Derivation (.nonterminal .serviceBody)) :
    Enclosed body.yield := by
  cases body with
  | node production children =>
      cases production
      match children with
      | .cons (.leaf first opens) (.cons methods (.cons (.leaf last closes) .nil)) =>
          refine ⟨first, methods.yield, last, by simp, ?_, ?_⟩
          · rw [opens]
            rfl
          · rw [closes]
            decide

/-- The modes of a function type are reserved words. -/
theorem enclosed_signature (signature : Derivation (.nonterminal .signature)) :
    Enclosed signature.yield := by
  cases signature with
  | node production children =>
      cases production
      match children with
      | .cons (.leaf first opens) (.cons args (.cons second (.cons arrow (.cons third (.cons results
          (.cons (.leaf last closes) (.cons modes .nil))))))) =>
          obtain ⟨items, rfl⟩ := modes.listed
          have opening : first.kind.isOpening = true := by
            rw [opens]
            rfl
          obtain rfl | ⟨items, ⟨mode, word⟩, rfl⟩ := List.eq_nil_or_concat' items
          · refine ⟨first, args.yield ++ second.yield ++ arrow.yield ++ third.yield ++ results.yield,
              last, by simp [yield_modeList], opening, ?_⟩
            rw [closes]
            decide
          · cases word with
            | leaf word fits =>
                refine ⟨first, args.yield ++ second.yield ++ arrow.yield ++ third.yield ++
                  results.yield ++ last :: items.flatMap (fun item => item.2.yield), word,
                  by simp [yield_modeList], opening, ?_⟩
                rw [fits]
                simp

end Derivation

end Candid.Idl
