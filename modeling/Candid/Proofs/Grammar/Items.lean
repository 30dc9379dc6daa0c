import Candid.Proofs.Grammar.Derivation

/-!
# Lists of the grammar

The lists of the grammar grow at their end. Every tree of a list is made from a start by adding items
one after the other, and its tokens are those of the items in order.
-/

set_option autoImplicit false

namespace Candid.Idl

def Nonterminal.isList : Nonterminal → Bool
  | .definitions => true
  | .methods => true
  | .modes => true
  | .memberList _ => true
  | _ => false

namespace Derivation

def definitionList (items : List (Derivation (.nonterminal .definition))) :
    Derivation (.nonterminal .definitions) :=
  items.foldl (fun list item => .node .moreDefinitions (.cons list (.cons item .nil)))
    (.node .noDefinitions (.cons (.node .empty .nil) .nil))

def methodList (items : List (Derivation (.nonterminal .method))) :
    Derivation (.nonterminal .methods) :=
  items.foldl (fun list item => .node .moreMethods (.cons list (.cons item .nil)))
    (.node .noMethods (.cons (.node .empty .nil) .nil))

abbrev ModeItem : Type :=
  (mode : Mode) × Derivation (.word mode.word)

def modeList (items : List ModeItem) :
    Derivation (.nonterminal .modes) :=
  items.foldl (fun list item => .node (.moreModes item.1) (.cons list (.cons item.2 .nil)))
    (.node .noModes (.cons (.node .empty .nil) .nil))

abbrev FurtherMember (separator : Separator) : Type :=
  Derivation (.terminal separator.kind) × Derivation (.nonterminal (.member separator))

def furtherYield {separator : Separator} (item : FurtherMember separator) : List Token :=
  item.1.yield ++ item.2.yield

def memberList {separator : Separator} (first : Derivation (.nonterminal (.member separator)))
    (items : List (FurtherMember separator)) :
    Derivation (.nonterminal (.memberList separator)) :=
  items.foldl
    (fun list item => .node (.moreMembers separator) (.cons list (.cons item.1 (.cons item.2 .nil))))
    (.node (.oneMember separator) (.cons first .nil))

/-- A list has the tokens of its start and of its items, if each addition adds those of the item. -/
theorem yield_foldl {Item : Type} {symbol : Symbol}
    (add : Derivation symbol → Item → Derivation symbol) (tokens : Item → List Token)
    (adds : ∀ list item, (add list item).yield = list.yield ++ tokens item)
    (items : List Item) (start : Derivation symbol) :
    (items.foldl add start).yield = start.yield ++ items.flatMap tokens := by
  induction items generalizing start with
  | nil => simp
  | cons item items ih => simp [ih, adds]

theorem yield_definitionList (items : List (Derivation (.nonterminal .definition))) :
    (definitionList items).yield = items.flatMap yield :=
  yield_foldl _ yield (by simp) items _

theorem yield_methodList (items : List (Derivation (.nonterminal .method))) :
    (methodList items).yield = items.flatMap yield :=
  yield_foldl _ yield (by simp) items _

theorem yield_modeList (items : List ModeItem) :
    (modeList items).yield = items.flatMap fun item => item.2.yield :=
  yield_foldl _ (fun item : ModeItem => item.2.yield) (by simp) items _

theorem yield_memberList {separator : Separator}
    (first : Derivation (.nonterminal (.member separator)))
    (items : List (FurtherMember separator)) :
    (memberList first items).yield = first.yield ++ items.flatMap furtherYield := by
  rw [memberList, yield_foldl _ furtherYield (by simp [furtherYield])]
  simp

/-- A tree of a list is made of its items, and these have a property. Of a tree that is no list the
property itself is said. -/
def Listed (property : {symbol : Symbol} → Derivation symbol → Prop) :
    {symbol : Symbol} → Derivation symbol → Prop
  | .nonterminal .definitions, tree =>
      ∃ items, tree = definitionList items ∧ ∀ item ∈ items, property item
  | .nonterminal .methods, tree =>
      ∃ items, tree = methodList items ∧ ∀ item ∈ items, property item
  | .nonterminal .modes, tree => ∃ items, tree = modeList items
  | .nonterminal (.memberList _), tree =>
      ∃ first items, tree = memberList first items ∧ property first ∧
        ∀ item ∈ items, property item.2
  | _, tree => property tree

variable {property : {symbol : Symbol} → Derivation symbol → Prop}

theorem listed_noDefinitions (children : Derivations [.nonterminal .empty]) :
    Listed property (.node .noDefinitions children) := by
  match children with
  | .cons tree .nil => exact ⟨[], by rw [tree.eq_empty]; rfl, by simp⟩

theorem listed_moreDefinitions
    {children : Derivations [.nonterminal .definitions, .nonterminal .definition]}
    (listed : children.All (Listed property)) :
    Listed property (.node .moreDefinitions children) := by
  match children, listed with
  | .cons _ (.cons item .nil), .cons ⟨items, shape, each⟩ (.cons last .nil) =>
      refine ⟨items ++ [item], by simp [shape, definitionList], ?_⟩
      exact List.forall_mem_append.mpr ⟨each, List.forall_mem_singleton.mpr last⟩

theorem listed_noMethods (children : Derivations [.nonterminal .empty]) :
    Listed property (.node .noMethods children) := by
  match children with
  | .cons tree .nil => exact ⟨[], by rw [tree.eq_empty]; rfl, by simp⟩

theorem listed_moreMethods
    {children : Derivations [.nonterminal .methods, .nonterminal .method]}
    (listed : children.All (Listed property)) :
    Listed property (.node .moreMethods children) := by
  match children, listed with
  | .cons _ (.cons item .nil), .cons ⟨items, shape, each⟩ (.cons last .nil) =>
      refine ⟨items ++ [item], by simp [shape, methodList], ?_⟩
      exact List.forall_mem_append.mpr ⟨each, List.forall_mem_singleton.mpr last⟩

theorem listed_noModes (children : Derivations [.nonterminal .empty]) :
    Listed property (.node .noModes children) := by
  match children with
  | .cons tree .nil => exact ⟨[], by rw [tree.eq_empty]; rfl⟩

theorem listed_moreModes {mode : Mode}
    {children : Derivations [.nonterminal .modes, .word mode.word]}
    (listed : children.All (Listed property)) :
    Listed property (.node (.moreModes mode) children) := by
  match children, listed with
  | .cons _ (.cons item .nil), .cons ⟨items, shape⟩ _ =>
      exact ⟨items ++ [⟨mode, item⟩], by simp [shape, modeList]⟩

theorem listed_oneMember {separator : Separator}
    {children : Derivations [.nonterminal (.member separator)]}
    (listed : children.All (Listed property)) :
    Listed property (.node (.oneMember separator) children) := by
  match children, listed with
  | .cons first .nil, .cons front .nil => exact ⟨first, [], rfl, front, by simp⟩

theorem listed_moreMembers {separator : Separator}
    {children : Derivations [.nonterminal (.memberList separator), .terminal separator.kind,
      .nonterminal (.member separator)]}
    (listed : children.All (Listed property)) :
    Listed property (.node (.moreMembers separator) children) := by
  match children, listed with
  | .cons _ (.cons mark (.cons item .nil)),
    .cons ⟨first, items, shape, front, each⟩ (.cons _ (.cons last .nil)) =>
      refine ⟨first, items ++ [(mark, item)], by simp [shape, memberList], front, ?_⟩
      exact List.forall_mem_append.mpr ⟨each, List.forall_mem_singleton.mpr last⟩

/-- A property that every leaf has, and every production of no list passes on, is that of all items
of the lists. -/
theorem listed_of_step
    (leaf : ∀ {kind : TokenKind} (token : Token) (fits : token.kind = kind),
      property (.leaf token fits))
    (step : ∀ {name : Nonterminal} {right : List Symbol} (production : Production name right)
      (children : Derivations right), name.isList = false → children.All (Listed property) →
      property (.node production children))
    {symbol : Symbol} (tree : Derivation symbol) : tree.Listed property := by
  induction tree using Derivation.induction with
  | leaf token fits => exact leaf token fits
  | node production children listed =>
      cases production with
      | noDefinitions => exact listed_noDefinitions children
      | moreDefinitions => exact listed_moreDefinitions listed
      | noMethods => exact listed_noMethods children
      | moreMethods => exact listed_moreMethods listed
      | noModes => exact listed_noModes children
      | moreModes => exact listed_moreModes listed
      | oneMember => exact listed_oneMember listed
      | moreMembers => exact listed_moreMembers listed
      | _ => exact step _ children rfl listed

theorem listed {symbol : Symbol} (tree : Derivation symbol) : tree.Listed fun _ => True :=
  listed_of_step (fun _ _ => trivial) (fun _ _ _ _ => trivial) tree

end Derivation

end Candid.Idl
