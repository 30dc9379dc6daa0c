import Candid.Proofs.Alias.Table
import Candid.Proofs.Interface.Frame
import Candid.Proofs.Lexing.Spelled

/-!
# Inlined types

The name of a function type and the function type itself declare the same method, and the name of a
service type and its body the same service. So where the text of the type takes the place of its name,
nothing changes but the text of a service type that is edited.
-/

set_option autoImplicit false

namespace Candid.Idl

open Alias (typeDefinition?)

/-- What the grammar derives from a source: its definitions and its service. -/
structure Reading (source : Text) where
  definitions : List (Derivation (.nonterminal .definition))
  service : Derivation (.nonterminal .actorOption)
  stream : tokenStream source = ⟨definitions.flatMap (·.yield) ++ service.yield, none⟩

namespace Reading

variable {source : Text} (reading : Reading source)

def Defines (name : Text) (type : Derivation (.nonterminal .datatype)) : Prop :=
  ∃ definition ∈ reading.definitions.filterMap typeDefinition?,
    definition.name.text = name ∧ definition.type = type

def DefinesFunction (name : Text) (signature : Derivation (.nonterminal .signature)) : Prop :=
  ∃ word, reading.Defines name (.node .funcType (.cons word (.cons signature .nil)))

def DefinesService (name : Text) (body : Derivation (.nonterminal .serviceBody)) : Prop :=
  ∃ word, reading.Defines name (.node .serviceType (.cons word (.cons body .nil)))

/-- One name of the source gives place to the type that it stands for: the name of a function type by
which a method of the service or of a service type is declared, or the name of a service type by which
the service is declared. The service type that is edited is told by its name. -/
inductive Inlines : Option Text → Text → Prop where
  | method {type : Derivation (.nonterminal .actorType)}
      {body : Derivation (.nonterminal .serviceBody)} {name : Token}
      {signature : Derivation (.nonterminal .signature)} (serves : type.IsServiceOf reading.service)
      (inside : body.IsBodyOf type) (refers : body.HasReference name)
      (defined : reading.DefinesFunction name.text signature) :
      Inlines none (replaced source name (written source signature.yield))
  | memberOf (service : Text) {body : Derivation (.nonterminal .serviceBody)} {name : Token}
      {signature : Derivation (.nonterminal .signature)}
      (declared : reading.DefinesService service body) (refers : body.HasReference name)
      (defined : reading.DefinesFunction name.text signature) :
      Inlines (some service) (replaced source name (written source signature.yield))
  | service {type : Derivation (.nonterminal .actorType)} {name : Token}
      {body : Derivation (.nonterminal .serviceBody)} (serves : type.IsServiceOf reading.service)
      (named : type.HasName name) (defined : reading.DefinesService name.text body) :
      Inlines none (replaced source name (written source body.yield))

end Reading

/-- Names of a source give place, one after the other, to the types that they stand for, and these are
the service types that are edited. -/
inductive Inlined (source : Text) : List Text → Text → Prop where
  | none : Inlined source [] source
  | step {names : List Text} {middle edited : Text} {service : Option Text} (reading : Reading middle)
      (before : Inlined source names middle) (inlines : reading.Inlines service edited) :
      Inlined source (names ++ service.toList) edited

/-- The other interface has the same methods, the same initial arguments and the same type table, but
for the texts of some types. -/
structure Interface.SameBut (edited : List Text) (interface other : Interface) : Prop where
  methods : other.methods = interface.methods
  initArgs : other.initArgs = interface.initArgs
  names : other.aliases.names = interface.aliases.names
  aliases : ∀ name, name ∉ edited →
    Dictionary.find? name other.aliases = Dictionary.find? name interface.aliases

namespace Reading

variable {source : Text} (reading : Reading source)

def tree : Derivation (.nonterminal .interface) :=
  .node .interface (.cons (Derivation.definitionList reading.definitions)
    (.cons reading.service .nil))

theorem tokenStream_eq : tokenStream source = ⟨reading.tree.yield, none⟩ := by
  rw [reading.stream, tree]
  simp [Derivation.yield_definitionList]

/-- The grammar derives every accepted source. -/
theorem nonempty_of_parse {interface : Interface} (accepted : parse source = .ok interface) :
    Nonempty (Reading source) := by
  obtain ⟨legal, definitions, service, tokens, _⟩ := Alias.exists_items_of_parse accepted
  rw [Derivation.yield_definitionList] at tokens
  exact ⟨definitions, service, by rw [tokenStream_of_legal legal, tokens]⟩

def record : DocumentNode :=
  reading.tree.record

theorem declares {interface : Interface} (accepted : parse source = .ok interface) :
    reading.record.Declares interface :=
  (parse_eq_ok_of_spelt reading.tokenStream_eq rfl).mp accepted

variable {reading}

theorem record_of_frame {inner : Nonterminal} {frame : Frame inner .interface}
    {tree : Derivation (.nonterminal inner)} (whole : frame.build tree = reading.tree) :
    reading.record = frame.record tree.record := by
  rw [record, ← whole, frame.records]

/-- A defined type stands in a frame of the source. -/
theorem Defines.exists_frame {name : Text} {type : Derivation (.nonterminal .datatype)}
    (defined : reading.Defines name type) :
    ∃ (frame : Frame .datatype .interface) (before behind : List DefinitionNode) (offset : Nat),
      frame.build type = reading.tree ∧ frame.record = fun type =>
        ⟨before ++ ⟨name, type, offset⟩ :: behind, reading.service.record⟩ := by
  obtain ⟨definition, member, rfl, rfl⟩ := defined
  obtain ⟨item, inside, found⟩ := List.mem_filterMap.mp member
  obtain ⟨front, rest, shape⟩ := List.append_of_mem inside
  obtain ⟨frame, rfl, record⟩ := Derivation.exists_frame_of_typeDefinition found
  refine ⟨(Frame.definitions reading.service).comp ((Frame.definition front rest).comp frame),
    front.filterMap (·.record), rest.filterMap (·.record), definition.name.offset, ?_, ?_⟩
  · rw [tree, shape]
    rfl
  · simp [Frame.comp, Frame.definitions, Frame.definition, record]

theorem exists_frame_of_service {type : Derivation (.nonterminal .actorType)}
    (serves : type.IsServiceOf reading.service) :
    ∃ frame : Frame .actorType .interface, frame.build type = reading.tree ∧
      frame.record = fun actor => ⟨reading.record.definitions, some actor⟩ := by
  obtain ⟨frame, same, record⟩ := serves.exists_frame
  refine ⟨(Frame.service (Derivation.definitionList reading.definitions)).comp frame, ?_, ?_⟩
  · rw [tree, ← same]
    rfl
  · simp only [Frame.comp, Frame.service, record]
    rfl

theorem Defines.found {name : Text} {type : Derivation (.nonterminal .datatype)}
    (defined : reading.Defines name type) (distinct : (reading.record.definitions.map (·.name)).Nodup) :
    type.yield <:+: reading.tree.yield ∧ reading.record.type? name = some type.record := by
  obtain ⟨frame, before, behind, offset, same, record⟩ := defined.exists_frame
  refine ⟨same ▸ frame.inside type, ?_⟩
  have whole := record_of_frame same
  rw [record] at whole
  exact DocumentNode.type?_of_definitions (congrArg DocumentNode.definitions whole) distinct

theorem DefinesFunction.found {name : Text} {signature : Derivation (.nonterminal .signature)}
    (defined : reading.DefinesFunction name signature)
    (distinct : (reading.record.definitions.map (·.name)).Nodup) (label : Text) (offset : Nat) :
    signature.yield <:+: reading.tree.yield ∧
      reading.record.method? (.declared (.ofSignature label signature.record)) =
        reading.record.method? (.reference label name offset) := by
  obtain ⟨word, defined⟩ := defined
  obtain ⟨inside, found⟩ := defined.found distinct
  refine ⟨List.IsInfix.trans ?_ inside, ?_⟩
  · exact ⟨word.yield, [], by simp⟩
  · simp only [DocumentNode.method?, found]
    rfl

theorem DefinesService.found {name : Text} {body : Derivation (.nonterminal .serviceBody)}
    (defined : reading.DefinesService name body)
    (distinct : (reading.record.definitions.map (·.name)).Nodup) :
    body.yield <:+: reading.tree.yield ∧
      reading.record.members? (.named name) = some body.record := by
  obtain ⟨word, defined⟩ := defined
  obtain ⟨inside, found⟩ := defined.found distinct
  refine ⟨List.IsInfix.trans ?_ inside, ?_⟩
  · exact ⟨word.yield, [], by simp⟩
  · rw [DocumentNode.members?, found]
    rfl

/-- Where tokens of the source take the place of a name, and the record is like that of the source, the
edited source is accepted with the same methods and the same initial arguments. -/
theorem parse_of_exchanged {interface : Interface} (accepted : parse source = .ok interface)
    {name : Token} {inserted : List Token} {tree : Derivation (.nonterminal .interface)}
    (inside : inserted <:+: reading.tree.yield) (enclosed : Enclosed inserted)
    (exchanged : Exchanged name inserted reading.tree.yield tree.yield)
    (alike : reading.record.Alike tree.record) :
    parse (replaced source name (written source inserted)) =
      .ok ⟨interface.methods, (DocumentNode.definitions tree.record).map (·.entry),
        interface.initArgs⟩ := by
  obtain ⟨taken, stream, spelt⟩ :=
    tokenStream_replaced reading.tokenStream_eq inside enclosed exchanged
  exact (parse_eq_ok_of_spelt stream spelt).mpr (alike.declares (reading.declares accepted))

section Frames

variable {type : Derivation (.nonterminal .actorType)}
  {body : Derivation (.nonterminal .serviceBody)} {name : Token}

theorem exists_frame_of_method (serves : type.IsServiceOf reading.service)
    (inside : body.IsBodyOf type) (has : body.HasReference name) :
    ∃ (frame : Frame .method .interface) (method : Derivation (.nonterminal .method))
      (init : List LabelledText) (front behind : List MethodNode),
      frame.build method = reading.tree ∧ method.Refers name ∧ frame.record = fun method =>
        ⟨reading.record.definitions, some ⟨init, .body (front ++ method :: behind)⟩⟩ := by
  obtain ⟨outer, whole, outerRecord⟩ := exists_frame_of_service serves
  obtain ⟨middle, init, rfl, middleRecord⟩ := inside.exists_frame
  obtain ⟨inner, method, front, behind, rfl, refers, innerRecord⟩ := has.exists_frame
  refine ⟨outer.comp (middle.comp inner), method, init, front, behind, whole, refers, ?_⟩
  simp [Frame.comp, outerRecord, middleRecord, innerRecord]

theorem exists_frame_of_member {service : Text} (declared : reading.DefinesService service body)
    (has : body.HasReference name) :
    ∃ (frame : Frame .method .interface) (method : Derivation (.nonterminal .method))
      (before after : List DefinitionNode) (offset : Nat) (front behind : List MethodNode),
      frame.build method = reading.tree ∧ method.Refers name ∧ frame.record = fun method =>
        ⟨before ++ ⟨service, .ofMembers (front ++ method :: behind), offset⟩ :: after,
          reading.service.record⟩ := by
  obtain ⟨word, defined⟩ := declared
  obtain ⟨outer, before, after, offset, whole, outerRecord⟩ := defined.exists_frame
  obtain ⟨inner, method, front, behind, rfl, refers, innerRecord⟩ := has.exists_frame
  refine ⟨outer.comp ((Frame.serviceType word).comp inner), method, before, after, offset, front,
    behind, whole, refers, ?_⟩
  simp [Frame.comp, Frame.serviceType, outerRecord, innerRecord]

end Frames

section Resolved

variable {interface : Interface} (accepted : parse source = .ok interface)
  {type : Derivation (.nonterminal .actorType)} {name : Token}

theorem exists_of_type? {name : Text} {node : TypeNode}
    (found : reading.record.type? name = some node) :
    ∃ type : Derivation (.nonterminal .datatype), reading.Defines name type ∧ type.record = node := by
  have shape : reading.record.definitions =
      (reading.definitions.filterMap typeDefinition?).map fun definition =>
        ⟨definition.name.text, definition.type.record, definition.name.offset⟩ :=
    Alias.record_definitionList reading.definitions
  have member := Dictionary.mem_of_find? found
  rw [shape, List.map_map] at member
  obtain ⟨definition, inside, same⟩ := List.mem_map.mp member
  cases same
  exact ⟨definition.type, ⟨definition, inside, rfl, rfl⟩, rfl⟩

include accepted

/-- In an accepted source the names by which methods of the service are declared are those of function
types. -/
theorem exists_function {body : Derivation (.nonterminal .serviceBody)}
    (serves : type.IsServiceOf reading.service) (inside : body.IsBodyOf type)
    (has : body.HasReference name) : ∃ signature, reading.DefinesFunction name.text signature := by
  obtain ⟨frame, method, init, front, behind, whole, refers, record⟩ :=
    exists_frame_of_method serves inside has
  obtain ⟨label, reference, _⟩ := refers.exists_exchanged
  have shape := record_of_frame whole
  rw [record, reference] at shape
  have resolved := (reading.declares accepted).methods
  rw [DocumentNode.methods?, congrArg DocumentNode.actor shape] at resolved
  have all := Option.some.inj resolved
  have member : reading.record.method? (.reference label name.text name.offset) ∈
      interface.methods.map some := by
    rw [← all]
    exact List.mem_map_of_mem (by simp)
  obtain ⟨_, _, found⟩ := List.mem_map.mp member
  obtain ⟨signature, typed, _⟩ := Option.map_eq_some_iff.mp found.symm
  obtain ⟨node, recorded, function⟩ := Option.bind_eq_some_iff.mp typed
  obtain ⟨type, defined, rfl⟩ := exists_of_type? recorded
  obtain ⟨word, signature, rfl⟩ := Derivation.exists_funcType function
  exact ⟨signature, word, defined⟩

/-- In an accepted source the name by which the service is declared is that of a service type. -/
theorem exists_service (serves : type.IsServiceOf reading.service) (named : type.HasName name) :
    ∃ body, reading.DefinesService name.text body := by
  obtain ⟨frame, whole, record⟩ := exists_frame_of_service serves
  obtain ⟨init, reference, _⟩ := named.exists_exchanged
  have shape := record_of_frame whole
  rw [record, reference] at shape
  have resolved := (reading.declares accepted).methods
  rw [DocumentNode.methods?, congrArg DocumentNode.actor shape] at resolved
  obtain ⟨members, typed, _⟩ := Option.map_eq_some_iff.mp resolved
  obtain ⟨node, recorded, service⟩ := Option.bind_eq_some_iff.mp typed
  obtain ⟨type, defined, rfl⟩ := exists_of_type? recorded
  obtain ⟨word, body, rfl⟩ := Derivation.exists_serviceType service
  exact ⟨body, word, defined⟩

end Resolved

section Step

variable {interface : Interface} (accepted : parse source = .ok interface)
  {type : Derivation (.nonterminal .actorType)} {body : Derivation (.nonterminal .serviceBody)}
  {name : Token} {signature : Derivation (.nonterminal .signature)}

include accepted

theorem parse_of_service {tree : Derivation (.nonterminal .interface)} {inserted : List Token}
    (inside : inserted <:+: reading.tree.yield) (enclosed : Enclosed inserted)
    (exchanged : Exchanged name inserted reading.tree.yield tree.yield)
    (alike : reading.record.Alike tree.record)
    (same : DocumentNode.definitions tree.record = reading.record.definitions) :
    parse (replaced source name (written source inserted)) = .ok interface := by
  rw [parse_of_exchanged accepted inside enclosed exchanged alike, same,
    ← (reading.declares accepted).aliases]

theorem parse_of_method (serves : type.IsServiceOf reading.service) (inside : body.IsBodyOf type)
    (has : body.HasReference name) (defined : reading.DefinesFunction name.text signature) :
    parse (replaced source name (written source signature.yield)) = .ok interface := by
  obtain ⟨frame, method, init, front, behind, whole, refers, record⟩ :=
    exists_frame_of_method serves inside has
  obtain ⟨label, reference, exchange⟩ := refers.exists_exchanged
  obtain ⟨other, declared, exchanged⟩ := exchange signature
  obtain ⟨within, resolved⟩ :=
    defined.found (reading.declares accepted).distinct label name.offset
  have old := record_of_frame whole
  have new := frame.records other
  rw [record, reference] at old
  rw [record, declared] at new
  have definitions := congrArg DocumentNode.definitions new
  refine parse_of_service accepted within signature.enclosed_signature
    (whole ▸ frame.exchanged exchanged) ?_ definitions
  refine DocumentNode.alike_of_service definitions (congrArg DocumentNode.actor old)
    (congrArg DocumentNode.actor new) (congrArg some ?_)
  exact DocumentNode.map_method?_exchange resolved front behind

theorem parse_of_member {service : Text} (member : reading.DefinesService service body)
    (has : body.HasReference name) (defined : reading.DefinesFunction name.text signature) :
    ∃ other, parse (replaced source name (written source signature.yield)) = .ok other ∧
      interface.SameBut [service] other := by
  obtain ⟨frame, method, before, after, offset, front, behind, whole, refers, record⟩ :=
    exists_frame_of_member member has
  obtain ⟨label, reference, exchange⟩ := refers.exists_exchanged
  obtain ⟨other, declared, exchanged⟩ := exchange signature
  have declares := reading.declares accepted
  obtain ⟨within, resolved⟩ := defined.found declares.distinct label name.offset
  have old := record_of_frame whole
  have new := frame.records other
  rw [record, reference] at old
  rw [record, declared] at new
  -- The old and the new definitions differ in the members of the service type, and a reference to a
  -- function type is resolved alike in both.
  have oldDefinitions := congrArg DocumentNode.definitions old
  have newDefinitions := congrArg DocumentNode.definitions new
  have alike : reading.record.Alike (frame.build other).record := by
    refine DocumentNode.alike_of_members oldDefinitions newDefinitions ?_ ?_
    · rw [new, old]
    · exact DocumentNode.map_method?_exchange resolved front behind
  refine ⟨_, parse_of_exchanged accepted within signature.enclosed_signature
    (whole ▸ frame.exchanged exchanged) alike, rfl, rfl, ?_, ?_⟩
  · have names := alike.names
    rw [declares.aliases]
    simpa [Dictionary.names, DefinitionNode.entry, Function.comp_def] using names
  · intro wanted apart
    rw [declares.aliases]
    exact DocumentNode.aliases_of_members oldDefinitions newDefinitions (by simpa using apart)

theorem parse_of_named (serves : type.IsServiceOf reading.service) (named : type.HasName name)
    (defined : reading.DefinesService name.text body) :
    parse (replaced source name (written source body.yield)) = .ok interface := by
  obtain ⟨frame, whole, record⟩ := exists_frame_of_service serves
  obtain ⟨init, reference, exchange⟩ := named.exists_exchanged
  obtain ⟨other, declared, exchanged⟩ := exchange body
  obtain ⟨within, resolved⟩ := defined.found (reading.declares accepted).distinct
  have old := record_of_frame whole
  have new := frame.records other
  rw [record, reference] at old
  rw [record, declared] at new
  have definitions := congrArg DocumentNode.definitions new
  refine parse_of_service accepted within body.enclosed_serviceBody
    (whole ▸ frame.exchanged exchanged) ?_ definitions
  refine DocumentNode.alike_of_service definitions (congrArg DocumentNode.actor old)
    (congrArg DocumentNode.actor new) ?_
  rw [resolved]
  rfl

end Step

/-- One name that gives place to its type leaves the methods and the initial arguments as they are, and
of the type table all but the text of the service type that is edited. -/
theorem Inlines.parse_edited {interface : Interface} {service : Option Text} {edited : Text}
    (inlines : reading.Inlines service edited) (accepted : parse source = .ok interface) :
    ∃ other, parse edited = .ok other ∧ interface.SameBut service.toList other := by
  cases inlines with
  | method serves inside has defined =>
      exact ⟨interface, parse_of_method accepted serves inside has defined, rfl, rfl, rfl,
        fun _ _ => rfl⟩
  | memberOf service member has defined => exact parse_of_member accepted member has defined
  | service serves named defined =>
      exact ⟨interface, parse_of_named accepted serves named defined, rfl, rfl, rfl, fun _ _ => rfl⟩

end Reading

theorem Interface.SameBut.trans {names others : List Text} {first second third : Interface}
    (same : first.SameBut names second) (further : second.SameBut others third) :
    first.SameBut (names ++ others) third where
  methods := further.methods.trans same.methods
  initArgs := further.initArgs.trans same.initArgs
  names := further.names.trans same.names
  aliases name apart := by
    rw [List.mem_append, not_or] at apart
    exact (further.aliases name apart.2).trans (same.aliases name apart.1)

/-- Names and types are interchangeable. Where names of function types by which methods are declared,
and the name of a service type by which the service is declared, give place to the texts of these types,
an accepted source stays accepted, with the same methods and the same initial arguments, and with the
same type table but for the texts of the service types that are edited. -/
theorem parse_of_inlined {source edited : Text} {names : List Text} {interface : Interface}
    (accepted : parse source = .ok interface) (inlined : Inlined source names edited) :
    ∃ other, parse edited = .ok other ∧ interface.SameBut names other := by
  induction inlined with
  | none => exact ⟨interface, accepted, rfl, rfl, rfl, fun _ _ => rfl⟩
  | step reading _ inlines ih =>
      obtain ⟨middle, middleAccepted, same⟩ := ih
      obtain ⟨other, otherAccepted, further⟩ := inlines.parse_edited middleAccepted
      exact ⟨other, otherAccepted, same.trans further⟩

section Example

private def queryRow : List Lexeme :=
  [.mark .leftParen '(', .mark .rightParen ')', .blank, .arrow, .blank, .mark .leftParen '(',
    .mark .rightParen ')', .blank, .word "query".toList]

private def namedRow (method : List Lexeme) : List Lexeme :=
  ([.word "type".toList, .blank, .word ['s'], .blank, .mark .equals '=', .blank,
      .word "service".toList, .blank, .mark .leftBrace '{', .blank, .word ['a'], .blank,
      .mark .colon ':', .blank] : List Lexeme) ++ method ++
    ([.mark .semicolon ';', .blank, .mark .rightBrace '}', .mark .semicolon ';', .blank,
      .word "type".toList, .blank, .word ['f'], .blank, .mark .equals '=', .blank,
      .word "func".toList, .blank] : List Lexeme) ++ queryRow ++
    ([.mark .semicolon ';', .blank, .word "service".toList, .blank, .mark .colon ':', .blank,
      .word ['s']] : List Lexeme)

private def leafAt (kind : TokenKind) (text : Text) (offset : Nat) : Derivation (.terminal kind) :=
  .leaf ⟨kind, text, 1, offset⟩ rfl

private def queryAt (start : Nat) : Derivation (.nonterminal .signature) :=
  let none : Derivation (.nonterminal (.members .comma)) :=
    .node (.noMembers .comma) (.cons (.node .empty .nil) .nil)
  .node .signature (.cons (leafAt .leftParen ['('] start) (.cons none
    (.cons (leafAt .rightParen [')'] (start + 1)) (.cons (leafAt .arrow ['-', '>'] (start + 3))
    (.cons (leafAt .leftParen ['('] (start + 6)) (.cons none
    (.cons (leafAt .rightParen [')'] (start + 7)) (.cons (Derivation.modeList
      [⟨.query, leafAt (.reserved .queryWord) "query".toList (start + 9)⟩]) .nil))))))))

private def definitionAt (name : Char) (start : Nat) (type : Derivation (.nonterminal .datatype))
    (finish : Nat) : Derivation (.nonterminal .definition) :=
  .node .typeDefinition (.cons (leafAt (.reserved .typeWord) "type".toList start)
    (.cons (leafAt .identifier [name] (start + 5)) (.cons (leafAt .equals ['='] (start + 7))
    (.cons type (.cons (leafAt .semicolon [';'] finish) .nil)))))

private def methodLabel : Derivation (.nonterminal .label) :=
  .node (.label .identifier) (.cons (leafAt .identifier ['a'] 19) .nil)

private def referringMethod : Derivation (.nonterminal .method) :=
  .node .aliasMethod (.cons methodLabel (.cons (leafAt .colon [':'] 21)
    (.cons (leafAt .identifier ['f'] 23) (.cons (leafAt .semicolon [';'] 24) .nil))))

private def queryMethod : Derivation (.nonterminal .method) :=
  .node .signatureMethod (.cons methodLabel (.cons (leafAt .colon [':'] 21)
    (.cons (queryAt 23) (.cons (leafAt .semicolon [';'] 37) .nil))))

private def bodyOf (method : Derivation (.nonterminal .method)) (finish : Nat) :
    Derivation (.nonterminal .serviceBody) :=
  .node .serviceBody (.cons (leafAt .leftBrace ['{'] 17)
    (.cons (Derivation.methodList [method]) (.cons (leafAt .rightBrace ['}'] finish) .nil)))

private def namedDefinitions (method : Derivation (.nonterminal .method)) (finish : Nat) :
    List (Derivation (.nonterminal .definition)) :=
  [definitionAt 's' 0 (.node .serviceType (.cons (leafAt (.reserved .serviceWord) "service".toList 9)
      (.cons (bodyOf method finish) .nil))) (finish + 1),
    definitionAt 'f' (finish + 3) (.node .funcType
      (.cons (leafAt (.reserved .funcWord) "func".toList (finish + 12))
      (.cons (queryAt (finish + 17)) .nil))) (finish + 31)]

private def namedService (start : Nat) : Derivation (.nonterminal .actorOption) :=
  .node .actorBare (.cons (.node .anonymousActor
    (.cons (leafAt (.reserved .serviceWord) "service".toList start)
    (.cons (leafAt .colon [':'] (start + 8))
    (.cons (.node .actorName (.cons (leafAt .identifier ['s'] (start + 10)) .nil)) .nil)))) .nil)

private def namedReading : Reading (spelling (namedRow [.word ['f']])) where
  definitions := namedDefinitions referringMethod 26
  service := namedService 59
  stream := by
    rw [tokenStream_spelling_of_legal _ (by decide +kernel) (by decide)]
    rfl

private def queryReading : Reading (spelling (namedRow queryRow)) where
  definitions := namedDefinitions queryMethod 39
  service := namedService 72
  stream := by
    rw [tokenStream_spelling_of_legal _ (by decide +kernel) (by decide)]
    rfl

private theorem accepted_named : parse (spelling (namedRow [.word ['f']])) =
    .ok ⟨[⟨['a'], .annotated .query, [], [], []⟩],
      [(['s'], "service { a : f }".toList), (['f'], "func () -> () query".toList)], []⟩ :=
  (parse_eq_ok_of_spelt namedReading.tokenStream_eq rfl).mpr
    ⟨by decide, by decide +kernel, by decide +kernel, rfl⟩

/-- The query takes the place of its name in the service type. -/
private theorem inlines_query :
    namedReading.Inlines (some ['s']) (spelling (namedRow queryRow)) := by
  have member : namedReading.DefinesService ['s'] (bodyOf referringMethod 26) :=
    ⟨_, _, List.mem_cons_self, rfl, rfl⟩
  have refers : (bodyOf referringMethod 26).HasReference ⟨.identifier, ['f'], 1, 23⟩ :=
    .intro _ [] referringMethod [] _ (.intro _ _ rfl _)
  have defined : namedReading.DefinesFunction ['f'] (queryAt 43) :=
    ⟨_, _, List.mem_cons_of_mem _ List.mem_cons_self, rfl, rfl⟩
  have text : replaced (spelling (namedRow [.word ['f']])) ⟨.identifier, ['f'], 1, 23⟩
      (written (spelling (namedRow [.word ['f']])) (queryAt 43).yield) =
        spelling (namedRow queryRow) := by
    decide +kernel
  rw [← text]
  exact .memberOf ['s'] member refers defined

/-- A method of a service type, which is defined in front of its function type, and then the service
itself lose their names. -/
theorem parse_of_inlined_query :
    let source := "type s = service { a : f; }; type f = func () -> () query; service : s".toList
    let edited := ("type s = service { a : () -> () query; }; type f = func () -> () query; " ++
      "service : { a : () -> () query; }").toList
    let interface : Interface := ⟨[⟨['a'], .annotated .query, [], [], []⟩],
      [(['s'], "service { a : f }".toList), (['f'], "func () -> () query".toList)], []⟩
    parse source = .ok interface ∧ Inlined source [['s']] edited ∧
      ∃ other, parse edited = .ok other ∧ interface.SameBut [['s']] other := by
  intro source edited interface
  have first : source = spelling (namedRow [.word ['f']]) := by decide +kernel
  have last : edited = replaced (spelling (namedRow queryRow)) ⟨.identifier, ['s'], 1, 82⟩
      (written (spelling (namedRow queryRow)) (bodyOf queryMethod 39).yield) := by
    decide +kernel
  have accepted : parse source = .ok interface := first ▸ accepted_named
  have serves : queryReading.Inlines none edited := by
    rw [last]
    exact .service (.bare _ (.anonymous _ _)) (.plain rfl) ⟨_, _, List.mem_cons_self, rfl, rfl⟩
  have inlined : Inlined source [['s']] edited := by
    rw [first]
    exact .step queryReading (.step namedReading .none inlines_query) serves
  exact ⟨accepted, inlined, parse_of_inlined accepted inlined⟩

end Example

end Candid.Idl
