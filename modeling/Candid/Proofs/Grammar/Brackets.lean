import Candid.Alias.Declaration
import Candid.Proofs.Grammar.Derivation

/-!
# Brackets of a type

The brackets of a type are balanced, and its semicolons and colons stand inside them: a count of open
brackets that starts at zero is back at zero behind the type and positive at each of these marks.
-/

set_option autoImplicit false

namespace Candid.Idl

open Alias (Depth)

abbrev outermost : Depth := ⟨0, 0, 0⟩

def Depth.behind (depth : Depth) (kinds : List TokenKind) : Depth :=
  kinds.foldl Depth.step depth

/-- No token of the kind `mark` stands outside all brackets. -/
def Quiet (mark : TokenKind) : Depth → List TokenKind → Prop
  | _, [] => True
  | depth, kind :: kinds =>
      (kind = mark → depth ≠ outermost) ∧ Quiet mark (depth.step kind) kinds

theorem quiet_append {mark : TokenKind} {depth : Depth} {kinds others : List TokenKind} :
    Quiet mark depth (kinds ++ others) ↔
      Quiet mark depth kinds ∧ Quiet mark (Depth.behind depth kinds) others := by
  induction kinds generalizing depth with
  | nil => simp [Quiet, Depth.behind]
  | cons kind kinds ih => simp [Quiet, Depth.behind, ih, and_assoc]

theorem behind_append (depth : Depth) (kinds others : List TokenKind) :
    Depth.behind depth (kinds ++ others) = Depth.behind (Depth.behind depth kinds) others :=
  List.foldl_append

/-- No counter is negative. -/
def Counting (depth : Depth) : Prop :=
  0 ≤ depth.braces ∧ 0 ≤ depth.parens ∧ 0 ≤ depth.angles

def Nonterminal.isInner : Nonterminal → Bool
  | .interface => false
  | .definitions => false
  | .definition => false
  | .actorOption => false
  | .actor => false
  | .actorType => false
  | _ => true

/-- Whether a sentence of the nonterminal may have marks outside its own brackets. -/
def Nonterminal.isBare : Nonterminal → Bool
  | .methods => true
  | .method => true
  | .members _ => true
  | .memberList _ => true
  | .member _ => true
  | _ => false

/-- The counters go from one depth to the other along a right side, and where a mark may stand some
bracket is open. -/
def Passes (mark : TokenKind) : List Symbol → Depth → Depth → Prop
  | [], depth, final => depth = final
  | .terminal kind :: right, depth, final =>
      (kind = mark → depth ≠ outermost) ∧ Passes mark right (depth.step kind) final
  | .nonterminal name :: right, depth, final =>
      name.isInner = true ∧ Counting depth ∧ (name.isBare = true → depth ≠ outermost) ∧
        Passes mark right depth final

def Derivation.kinds {symbol : Symbol} (tree : Derivation symbol) : List TokenKind :=
  tree.yield.map (·.kind)

/-- A sentence below a type leaves the counters as they are, and its marks stand inside brackets. -/
def Derivation.Balanced (mark : TokenKind) : {symbol : Symbol} → Derivation symbol → Prop
  | .nonterminal name, tree =>
      name.isInner = true → ∀ depth, Counting depth → (name.isBare = true → depth ≠ outermost) →
        Depth.behind depth tree.kinds = depth ∧ Quiet mark depth tree.kinds
  | .terminal _, _ => True

theorem Derivations.balanced {mark : TokenKind} {right : List Symbol} {trees : Derivations right}
    (balanced : trees.All (Derivation.Balanced mark)) {depth final : Depth}
    (passes : Passes mark right depth final) :
    Depth.behind depth (trees.yield.map (·.kind)) = final ∧
      Quiet mark depth (trees.yield.map (·.kind)) := by
  induction balanced generalizing depth with
  | nil => exact ⟨passes, trivial⟩
  | @cons symbol symbols first others balanced _ ih =>
      rw [yield_cons, List.map_append, behind_append, quiet_append]
      match symbol, first with
      | .terminal kind, .leaf token fits =>
          cases fits
          obtain ⟨inside, further⟩ := passes
          obtain ⟨finish, quiet⟩ := ih further
          exact ⟨finish, ⟨inside, trivial⟩, quiet⟩
      | .nonterminal name, first =>
          obtain ⟨inner, counting, bare, further⟩ := passes
          obtain ⟨same, front⟩ := balanced inner depth counting bare
          rw [Derivation.kinds] at same front
          rw [same]
          obtain ⟨finish, quiet⟩ := ih further
          exact ⟨finish, front, quiet⟩

theorem Production.passes {mark : TokenKind} (separates : mark = .semicolon ∨ mark = .colon)
    {name : Nonterminal} {right : List Symbol} (production : Production name right)
    (inner : name.isInner = true) {depth : Depth} (counting : Counting depth)
    (bare : name.isBare = true → depth ≠ outermost) : Passes mark right depth depth := by
  obtain ⟨braces, parens, angles⟩ := depth
  obtain ⟨someBraces, someParens, someAngles⟩ := counting
  simp only at someBraces someParens someAngles
  cases production with
  | interface | moreDefinitions | noDefinitions | typeDefinition | importDefinition | actorBare
  | actorEnded | noActor | anonymousActor | namedActor | actorBody | actorName | actorInitBody
  | actorInitName => cases inner
  | moreModes mode =>
      cases mode <;> rcases separates with rfl | rfl <;>
        simp_all [Passes, Nonterminal.isInner, Nonterminal.isBare, Counting, Mode.word, Depth.step]
  | wrapped wrapper | angled wrapper =>
      cases wrapper <;> rcases separates with rfl | rfl <;>
        simp_all [Passes, Nonterminal.isInner, Nonterminal.isBare, Counting, Wrapper.word,
          Depth.step] <;>
        omega
  | compound compound =>
      cases compound <;> rcases separates with rfl | rfl <;>
        simp_all [Passes, Nonterminal.isInner, Nonterminal.isBare, Counting, Compound.word,
          Depth.step] <;>
        omega
  | membersEnded separator | moreMembers separator =>
      cases separator <;> rcases separates with rfl | rfl <;>
        simp_all [Passes, Nonterminal.isInner, Nonterminal.isBare, Counting, Separator.kind,
          Depth.step]
  | label form =>
      cases form <;> rcases separates with rfl | rfl <;>
        simp_all [Passes, LabelForm.kind, Depth.step]
  | _ =>
      rcases separates with rfl | rfl <;>
        simp_all [Passes, Nonterminal.isInner, Nonterminal.isBare, Counting, Depth.step] <;>
        omega

theorem Derivation.balanced {mark : TokenKind} (separates : mark = .semicolon ∨ mark = .colon)
    {symbol : Symbol} (tree : Derivation symbol) : tree.Balanced mark := by
  induction tree using Derivation.induction with
  | leaf => trivial
  | node production children balanced =>
      intro inner depth counting bare
      exact Derivations.balanced balanced (production.passes separates inner counting bare)

/-- The tokens before the first semicolon outside all brackets. -/
theorem atSemicolon_of_quiet {depth : Depth} {tokens : List Token}
    (quiet : Quiet .semicolon depth (tokens.map (·.kind)))
    (closed : Depth.behind depth (tokens.map (·.kind)) = outermost) {semicolon : Token}
    (ends : semicolon.kind = .semicolon) (behind : List Token) :
    Alias.atSemicolon? depth (tokens ++ semicolon :: behind) = some (tokens, semicolon, behind) := by
  induction tokens generalizing depth with
  | nil =>
      have same : depth = outermost := closed
      simp [Alias.atSemicolon?, ends, same]
  | cons token tokens ih =>
      obtain ⟨inside, quiet⟩ := quiet
      have further : ¬ (token.kind = .semicolon ∧ depth = ⟨0, 0, 0⟩) :=
        fun both => inside both.1 both.2
      simp only [List.cons_append, Alias.atSemicolon?, if_neg further, ih quiet closed,
        Option.map_some]

/-- The declared type ends in front of its own semicolon. -/
theorem atSemicolon_of_datatype (type : Derivation (.nonterminal .datatype)) {semicolon : Token}
    (ends : semicolon.kind = .semicolon) (behind : List Token) :
    Alias.atSemicolon? outermost (type.yield ++ semicolon :: behind) =
      some (type.yield, semicolon, behind) := by
  obtain ⟨closed, quiet⟩ := type.balanced (.inl rfl) rfl outermost
    ⟨Int.le_refl 0, Int.le_refl 0, Int.le_refl 0⟩ (by simp [Nonterminal.isBare])
  exact atSemicolon_of_quiet quiet closed ends behind

def Derivation.DefinesNothing : {symbol : Symbol} → Derivation symbol → Prop
  | .nonterminal .interface, _ => True
  | .nonterminal .definitions, _ => True
  | .nonterminal .definition, _ => True
  | .nonterminal _, tree => ∀ token ∈ tree.yield, token.kind ≠ .reserved .typeWord
  | .terminal kind, tree => kind ≠ .reserved .typeWord →
      ∀ token ∈ tree.yield, token.kind ≠ .reserved .typeWord

def definesNothing (right : List Symbol) : Prop :=
  ∀ symbol ∈ right, symbol ≠ .word .typeWord ∧ symbol ≠ .nonterminal .interface ∧
    symbol ≠ .nonterminal .definitions ∧ symbol ≠ .nonterminal .definition

theorem Derivation.mem_yield {symbol : Symbol} {tree : Derivation symbol}
    (nothing : tree.DefinesNothing)
    (other : symbol ≠ .word .typeWord ∧ symbol ≠ .nonterminal .interface ∧
      symbol ≠ .nonterminal .definitions ∧ symbol ≠ .nonterminal .definition) :
    ∀ token ∈ tree.yield, token.kind ≠ .reserved .typeWord := by
  match symbol, tree with
  | .terminal kind, tree => exact nothing (by simpa using other.1)
  | .nonterminal name, tree =>
      cases name with
      | interface | definitions | definition => simp at other
      | _ => exact nothing

theorem Derivations.mem_yield {right : List Symbol} {trees : Derivations right}
    (nothing : trees.All Derivation.DefinesNothing) (other : definesNothing right) :
    ∀ token ∈ trees.yield, token.kind ≠ .reserved .typeWord := by
  induction nothing with
  | nil => simp
  | @cons symbol symbols first others nothing _ ih =>
      intro token member
      rcases List.mem_append.mp member with front | behind
      · exact Derivation.mem_yield nothing (other symbol (by simp)) token front
      · exact ih (fun symbol member => other symbol (by simp [member])) token behind

theorem Derivation.definesNothing {symbol : Symbol} (tree : Derivation symbol) :
    tree.DefinesNothing := by
  induction tree using Derivation.induction with
  | leaf token fits =>
      intro other token member
      cases List.mem_singleton.mp member
      exact fits ▸ other
  | node production children nothing =>
      cases production with
      | interface | moreDefinitions | noDefinitions | typeDefinition | importDefinition => trivial
      | moreModes mode =>
          exact Derivations.mem_yield nothing (by cases mode <;> simp [Idl.definesNothing, Mode.word])
      | wrapped wrapper | angled wrapper =>
          exact Derivations.mem_yield nothing
            (by cases wrapper <;> simp [Idl.definesNothing, Wrapper.word])
      | compound compound =>
          exact Derivations.mem_yield nothing
            (by cases compound <;> simp [Idl.definesNothing, Compound.word])
      | membersEnded separator | moreMembers separator =>
          exact Derivations.mem_yield nothing
            (by cases separator <;> simp [Idl.definesNothing, Separator.kind])
      | label form =>
          exact Derivations.mem_yield nothing
            (by cases form <;> simp [Idl.definesNothing, LabelForm.kind])
      | _ => exact Derivations.mem_yield nothing (by simp [Idl.definesNothing])

end Candid.Idl
