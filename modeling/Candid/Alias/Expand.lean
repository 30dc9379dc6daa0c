import Candid.Alias.Declaration
import Candid.Fragment.Outline

/-!
# Alias expansion

A type expression is resolved by replacing every leaf of its outline: a name of the table by the
expansion of its definition, the shorthand for bytes by a sequence, and any other leaf by itself. The
names under expansion are passed down, so a name that comes up again closes a cycle, and every
expansion ends because each step takes a name of the table that is not yet under expansion.
-/

set_option autoImplicit false

namespace Candid

inductive ResolutionError where
  | cyclic (chain : List Text)
  | unresolved (name : Text)
  deriving DecidableEq, Repr

def ResolutionError.message : ResolutionError → Text
  | .cyclic chain => "Cyclic type alias: ".toList ++ Text.joined " -> ".toList chain
  | .unresolved name => "Type '".toList ++ name ++ "' not found".toList

namespace Outline

mutual

/-- The outline with each leaf replaced; the first leaf that fails, from the left, is the error. -/
def substitute {ε : Type} (replace : Text → Except ε Outline) : Outline → Except ε Outline
  | .opt inner => do
    let inner ← inner.substitute replace
    pure (.opt inner)
  | .vec inner => do
    let inner ← inner.substitute replace
    pure (.vec inner)
  | .record fields => do
    let fields ← substituteFields replace fields
    pure (.record fields)
  | .variant cases => do
    let cases ← substituteCases replace cases
    pure (.variant cases)
  | .leaf text => replace text

def substituteFields {ε : Type} (replace : Text → Except ε Outline) :
    List (Text × Outline) → Except ε (List (Text × Outline))
  | [] => .ok []
  | (name, type) :: rest => do
    let type ← type.substitute replace
    let rest ← substituteFields replace rest
    pure ((name, type) :: rest)

def substituteCases {ε : Type} (replace : Text → Except ε Outline) :
    List (Text × Option Outline) → Except ε (List (Text × Option Outline))
  | [] => .ok []
  | (name, none) :: rest => do
    let rest ← substituteCases replace rest
    pure ((name, none) :: rest)
  | (name, some type) :: rest => do
    let type ← type.substitute replace
    let rest ← substituteCases replace rest
    pure ((name, some type) :: rest)

end

mutual

def render : Outline → Text
  | .opt inner => "opt ".toList ++ inner.render
  | .vec inner => "vec ".toList ++ inner.render
  | .record fields => Text.braced "record".toList (renderFields fields)
  | .variant cases => Text.braced "variant".toList (renderCases cases)
  | .leaf text => text

def renderFields : List (Text × Outline) → List Text
  | [] => []
  | (name, type) :: rest => FieldText.render ⟨name, type.render⟩ :: renderFields rest

def renderCases : List (Text × Option Outline) → List Text
  | [] => []
  | (name, none) :: rest => CaseText.render ⟨name, none⟩ :: renderCases rest
  | (name, some type) :: rest => CaseText.render ⟨name, some type.render⟩ :: renderCases rest

end

mutual

def leaves : Outline → List Text
  | .opt inner => inner.leaves
  | .vec inner => inner.leaves
  | .record fields => fieldLeaves fields
  | .variant cases => caseLeaves cases
  | .leaf text => [text]

def fieldLeaves : List (Text × Outline) → List Text
  | [] => []
  | (_, type) :: rest => type.leaves ++ fieldLeaves rest

def caseLeaves : List (Text × Option Outline) → List Text
  | [] => []
  | (_, none) :: rest => caseLeaves rest
  | (_, some type) :: rest => type.leaves ++ caseLeaves rest

end

end Outline

namespace Alias

/-- How many entries of the table are not under expansion. -/
def unexpanded (table : AliasTable) (expanding : List Text) : Nat :=
  table.countP fun entry => entry.1 ∉ expanding

theorem unexpanded_lt {table : AliasTable} {expanding : List Text} {name definition : Text}
    (found : Dictionary.find? name table = some definition) (new : name ∉ expanding) :
    unexpanded table (expanding ++ [name]) < unexpanded table expanding := by
  induction table with
  | nil => simp [Dictionary.find?] at found
  | cons entry rest ih =>
    have monotone (entries : AliasTable) :
        unexpanded entries (expanding ++ [name]) ≤ unexpanded entries expanding :=
      List.countP_mono_left fun entry _ kept => by
        simp only [List.mem_append, not_or, decide_eq_true_eq] at kept ⊢
        exact kept.1
    by_cases same : entry.1 = name
    · have bound := monotone rest
      unfold unexpanded at bound ⊢
      rw [List.countP_cons_of_neg (by simp [same]), List.countP_cons_of_pos (by simp [same, new])]
      omega
    · have found : Dictionary.find? name rest = some definition := by
        simpa [Dictionary.find?, List.find?_cons, same] using found
      have step : entry.1 ∉ expanding ++ [name] ↔ entry.1 ∉ expanding := by simp [same]
      have bound := ih found
      unfold unexpanded at bound ⊢
      rw [List.countP_cons, List.countP_cons]
      simp only [step]
      omega

/-- The names from `name` on, with `name` at both ends. -/
def cycle (expanding : List Text) (name : Text) : List Text :=
  expanding.dropWhile (· ≠ name) ++ [name]

/-- The expansion of a leaf. With `strict`, a name that is neither declared nor built in is an
error. -/
def expandLeaf (table : AliasTable) (strict : Bool) (expanding : List Text) (leaf : Text) :
    Except ResolutionError Outline :=
  match _found : Dictionary.find? leaf table with
  | some definition =>
    if _new : leaf ∈ expanding then .error (.cyclic (cycle expanding leaf))
    else
      (Outline.ofText definition).substitute fun inner =>
        expandLeaf table strict (expanding ++ [leaf]) inner
  | none =>
    if isBlob leaf then .ok (.vec (.leaf Scalar.nat8.name))
    else if strict && !isCompound leaf && !isBuiltin leaf then .error (.unresolved leaf)
    else .ok (.leaf leaf)
termination_by unexpanded table expanding
decreasing_by exact unexpanded_lt _found _new

def expand (table : AliasTable) (strict : Bool) (expression : Text) :
    Except ResolutionError Outline :=
  (Outline.ofText expression).substitute (expandLeaf table strict [])

def resolve (table : AliasTable) (strict : Bool) (expression : Text) :
    Except ResolutionError Text :=
  (expand table strict expression).map (·.render)

/-- What an expansion meets at a leaf that is neither built in nor structured. -/
inductive Visit where
  | kept (name : Text)
  | cycle
  deriving DecidableEq, Repr

def visitLeaf (table : AliasTable) (expanding : List Text) (leaf : Text) : List Visit :=
  match _found : Dictionary.find? leaf table with
  | some definition =>
    if _new : leaf ∈ expanding then [.cycle]
    else
      (Outline.ofText definition).leaves.flatMap fun inner =>
        visitLeaf table (expanding ++ [leaf]) inner
  | none => if isCompound leaf || isBuiltin leaf then [] else [.kept leaf]
termination_by unexpanded table expanding
decreasing_by exact unexpanded_lt _found _new

/-- What the expansion of a type expression meets, from left to right; cycles are passed over. -/
def visits (table : AliasTable) (expression : Text) : List Visit :=
  (Outline.ofText expression).leaves.flatMap (visitLeaf table [])

def unresolvedNames (table : AliasTable) (expression : Text) : List Text :=
  ((visits table expression).filterMap fun
    | .kept name => if isName name then some name else none
    | .cycle => none).eraseDups

/-- What resolving the type expressions one after the other reports: the names that are kept, up to
the first cycle. A strict resolution keeps none. -/
def resolveNotices (table : AliasTable) (strict : Bool) (expressions : List Text) : List Notice :=
  if strict then []
  else
    ((expressions.flatMap (visits table)).takeWhile (· ≠ .cycle)).filterMap fun
      | .kept name => some (.nameKept name)
      | .cycle => none

end Alias

end Candid
