import Candid.Proofs.Fragment.Quotation
import Mathlib.Data.List.Basic
import Mathlib.Data.List.Induction

/-!
# Nested brackets

The brackets of a text are its braces, parentheses and angle brackets outside quoted parts, but for the
closing angle of an arrow. They are nested if each opening one is closed by one of its kind, with nested
brackets between the two. A stack of the open brackets comes back to where it was exactly over nested
brackets, and it is empty in front of a place exactly if no pair stands around the place.
-/

set_option autoImplicit false

namespace Candid

inductive BracketKind where
  | brace
  | paren
  | angle
  deriving DecidableEq, Repr

inductive Bracket where
  | opening (kind : BracketKind)
  | closing (kind : BracketKind)
  deriving DecidableEq, Repr

def Bracket.ofChar? : Char → Option Bracket
  | '{' => some (.opening .brace)
  | '}' => some (.closing .brace)
  | '(' => some (.opening .paren)
  | ')' => some (.closing .paren)
  | '<' => some (.opening .angle)
  | '>' => some (.closing .angle)
  | _ => none

theorem Bracket.ofChar?_of_plain {c : Char} (plain : Nesting.isStructural c = false) :
    ofChar? c = none := by
  unfold ofChar?
  split
  case h_7 => rfl
  all_goals cases plain

def bracketBehind? (front : Text) (c : Char) : Option Bracket :=
  if QuotesClosed front ∧ ¬ (c = '>' ∧ front.getLast? = some '-') then Bracket.ofChar? c else none

def bracketAt? (text : Text) (offset : Nat) : Option Bracket :=
  text[offset]?.bind (bracketBehind? (text.take offset))

def brackets (text : Text) : List (Nat × Bracket) :=
  (List.range text.length).filterMap fun offset => (bracketAt? text offset).map (offset, ·)

inductive Nested : List (Nat × Bracket) → Prop where
  | nil : Nested []
  | pair {first last : Nat} {kind : BracketKind} {inside rest : List (Nat × Bracket)} :
      Nested inside → Nested rest →
      Nested ((first, .opening kind) :: (inside ++ (last, .closing kind) :: rest))

def WellNested (text : Text) : Prop :=
  Nested (brackets text)

def Paired (text : Text) (first last : Nat) : Prop :=
  ∃ kind before inside behind,
    brackets text = before ++ (first, .opening kind) :: (inside ++ (last, .closing kind) :: behind) ∧
      Nested inside

def Surrounded (text : Text) (offset : Nat) : Prop :=
  ∃ first last, Paired text first last ∧ first < offset ∧ offset < last

section Places

variable {text front rest : Text} {c : Char} {offset : Nat}

theorem bracketAt?_append (inside : offset < front.length) (rest : Text) :
    bracketAt? (front ++ rest) offset = bracketAt? front offset := by
  rw [bracketAt?, bracketAt?, List.getElem?_append_left inside,
    List.take_append_of_le_length (Nat.le_of_lt inside)]

theorem bracketAt?_length (front : Text) (c : Char) :
    bracketAt? (front ++ [c]) front.length = bracketBehind? front c := by
  rw [bracketAt?, List.getElem?_concat_length, List.take_left]
  rfl

theorem brackets_concat (text : Text) (c : Char) :
    brackets (text ++ [c]) =
      brackets text ++ ((bracketBehind? text c).map (text.length, ·)).toList := by
  rw [brackets, List.length_append, List.length_singleton, List.range_succ, List.filterMap_append]
  congr 1
  · apply List.filterMap_congr
    intro offset member
    rw [bracketAt?_append (List.mem_range.mp member)]
  · rw [List.filterMap_cons, bracketAt?_length, List.filterMap_nil]
    cases bracketBehind? text c <;> rfl

/-- The brackets of a text in front of others come first, and the others stand behind the text. -/
theorem exists_brackets_append (front rest : Text) :
    ∃ later, brackets (front ++ rest) = brackets front ++ later ∧
      ∀ entry ∈ later, front.length ≤ entry.1 := by
  induction rest using List.reverseRecOn with
  | nil => exact ⟨[], by simp, by simp⟩
  | append_singleton rest c ih =>
      obtain ⟨later, shape, behind⟩ := ih
      rw [← List.append_assoc, brackets_concat, shape, List.append_assoc]
      refine ⟨_, rfl, fun entry member => ?_⟩
      rcases List.mem_append.mp member with earlier | last
      · exact behind entry earlier
      · simp only [Option.mem_toList, Option.map_eq_some_iff] at last
        obtain ⟨bracket, _, rfl⟩ := last
        simp

theorem lt_of_mem_brackets {entry : Nat × Bracket} (member : entry ∈ brackets text) :
    entry.1 < text.length := by
  obtain ⟨offset, inside, found⟩ := List.mem_filterMap.mp member
  obtain ⟨bracket, _, rfl⟩ := Option.map_eq_some_iff.mp found
  exact List.mem_range.mp inside

/-- A character that is no bracket parts the brackets of a text. -/
theorem exists_brackets_around (plain : Bracket.ofChar? c = none) (front rest : Text) :
    ∃ later, brackets (front ++ c :: rest) = brackets front ++ later ∧
      ∀ entry ∈ later, front.length < entry.1 := by
  obtain ⟨later, shape, behind⟩ := exists_brackets_append (front ++ [c]) rest
  refine ⟨later, ?_, fun entry member => ?_⟩
  · have none : bracketBehind? front c = none := by simp [bracketBehind?, plain]
    rw [brackets_concat, none] at shape
    simpa using shape
  · have := behind entry member
    simp only [List.length_append, List.length_singleton] at this
    omega

end Places

/-- The open brackets behind one more bracket, the innermost first. -/
def Bracket.act : Bracket → List BracketKind → Option (List BracketKind)
  | .opening kind, stack => some (kind :: stack)
  | .closing kind, innermost :: stack => if innermost = kind then some stack else none
  | .closing _, [] => none

def stackBehind? (stack : List BracketKind) (entries : List (Nat × Bracket)) :
    Option (List BracketKind) :=
  entries.foldlM (fun stack entry => entry.2.act stack) stack

section Stack

variable {stack next : List BracketKind} {entries front later : List (Nat × Bracket)}

@[simp] theorem stackBehind?_nil (stack : List BracketKind) : stackBehind? stack [] = some stack :=
  rfl

@[simp] theorem stackBehind?_cons (stack : List BracketKind) (entry : Nat × Bracket)
    (entries : List (Nat × Bracket)) :
    stackBehind? stack (entry :: entries) =
      (entry.2.act stack).bind (stackBehind? · entries) := rfl

@[simp] theorem stackBehind?_append (stack : List BracketKind) (front later : List (Nat × Bracket)) :
    stackBehind? stack (front ++ later) =
      (stackBehind? stack front).bind (stackBehind? · later) :=
  List.foldlM_append

theorem Bracket.act_closing {kind : BracketKind} :
    (closing kind).act stack = some next ↔ stack = kind :: next := by
  cases stack with
  | nil => simp [act]
  | cons innermost stack =>
      by_cases same : innermost = kind <;> simp [act, same]

/-- What lies below the open brackets makes no difference. -/
theorem Bracket.act_above {bracket : Bracket} (acts : bracket.act stack = some next)
    (below : List BracketKind) : bracket.act (stack ++ below) = some (next ++ below) := by
  cases bracket with
  | opening kind =>
      cases acts
      rfl
  | closing kind =>
      cases act_closing.mp acts
      exact act_closing.mpr rfl

theorem stackBehind?_above (behind : stackBehind? stack entries = some next)
    (below : List BracketKind) : stackBehind? (stack ++ below) entries = some (next ++ below) := by
  induction entries generalizing stack with
  | nil =>
      cases behind
      rfl
  | cons entry entries ih =>
      rw [stackBehind?_cons] at behind ⊢
      obtain ⟨middle, acts, further⟩ := Option.bind_eq_some_iff.mp behind
      rw [Bracket.act_above acts]
      exact ih further

theorem Nested.stack_behind (nested : Nested entries) (stack : List BracketKind) :
    stackBehind? stack entries = some stack := by
  induction nested generalizing stack with
  | nil => rfl
  | pair _ _ inside rest => simp [Bracket.act, inside, rest]

/-- Each open bracket is closed in turn, with nested brackets in front of the closing one. -/
inductive Closes : List BracketKind → List (Nat × Bracket) → Prop where
  | nil {rest : List (Nat × Bracket)} : Nested rest → Closes [] rest
  | cons {kind : BracketKind} {stack : List BracketKind} {inside rest : List (Nat × Bracket)}
      {last : Nat} : Nested inside → Closes stack rest →
      Closes (kind :: stack) (inside ++ (last, .closing kind) :: rest)

theorem Closes.pair (closes : Closes stack entries) {inside : List (Nat × Bracket)}
    (nested : Nested inside) (first last : Nat) (kind : BracketKind) :
    Closes stack ((first, .opening kind) :: (inside ++ (last, .closing kind) :: entries)) := by
  cases closes with
  | nil rest => exact .nil (.pair nested rest)
  | @cons other stack between rest _ further others =>
      have whole : Nested ((first, .opening kind) :: (inside ++ (last, .closing kind) :: between)) :=
        .pair nested further
      simpa using Closes.cons whole others

theorem closes_of_stackBehind? (empty : stackBehind? stack entries = some []) :
    Closes stack entries := by
  induction entries generalizing stack with
  | nil =>
      cases empty
      exact .nil .nil
  | cons entry entries ih =>
      obtain ⟨offset, bracket⟩ := entry
      obtain ⟨next, acts, further⟩ := Option.bind_eq_some_iff.mp empty
      cases bracket with
      | opening kind =>
          cases acts
          cases ih further with
          | cons nested rest => exact rest.pair nested offset _ kind
      | closing kind =>
          cases Bracket.act_closing.mp acts
          exact .cons .nil (ih further)

/-- Brackets are nested exactly if a stack of the open ones is empty behind them. -/
theorem nested_iff_stackBehind? (entries : List (Nat × Bracket)) :
    Nested entries ↔ stackBehind? [] entries = some [] := by
  constructor
  · intro nested
    exact nested.stack_behind []
  · intro empty
    cases closes_of_stackBehind? empty with
    | nil nested => exact nested

instance (entries : List (Nat × Bracket)) : Decidable (Nested entries) :=
  decidable_of_iff _ (nested_iff_stackBehind? entries).symm

instance (text : Text) : Decidable (WellNested text) :=
  inferInstanceAs (Decidable (Nested (brackets text)))

theorem Nested.exists_stack (nested : Nested (front ++ later)) :
    ∃ stack, stackBehind? [] front = some stack := by
  have whole := nested.stack_behind []
  rw [stackBehind?_append] at whole
  obtain ⟨stack, behind, _⟩ := Option.bind_eq_some_iff.mp whole
  exact ⟨stack, behind⟩

/-- A pair opens in front of a place and closes behind it. -/
def Straddled (front later : List (Nat × Bracket)) : Prop :=
  ∃ kind first last before inside between behind,
    front = before ++ (first, .opening kind) :: inside ∧
      later = between ++ (last, .closing kind) :: behind ∧ Nested (inside ++ between)

theorem Straddled.stack_ne_nil (straddled : Straddled front later) (nested : Nested (front ++ later))
    (behind : stackBehind? [] front = some stack) : stack ≠ [] := by
  obtain ⟨kind, first, last, before, inside, between, _, rfl, rfl, within⟩ := straddled
  rw [List.append_assoc] at nested
  obtain ⟨below, start⟩ := nested.exists_stack
  obtain ⟨above, finish⟩ := within.exists_stack
  -- The opening bracket stays on the stack, as the brackets behind it take only their own off.
  have further := stackBehind?_above finish (kind :: below)
  rw [List.nil_append] at further
  simp only [stackBehind?_append, start, Option.bind_some, stackBehind?_cons, Bracket.act,
    further, Option.some.injEq] at behind
  simp [← behind]

theorem Nested.straddled (nested : Nested entries) (shape : entries = front ++ later)
    (behind : stackBehind? [] front = some stack) (opened : stack ≠ []) :
    Straddled front later := by
  induction nested generalizing front with
  | nil =>
      obtain ⟨rfl, rfl⟩ := List.append_eq_nil_iff.mp shape.symm
      cases behind
      exact absurd rfl opened
  | @pair first last kind inside rest within _ _ ih =>
      cases front with
      | nil =>
          cases behind
          exact absurd rfl opened
      | cons entry front =>
          obtain ⟨rfl, tail⟩ := List.cons.inj shape
          -- The place is behind the inside of the first pair, or in it.
          rcases List.append_eq_append_iff.mp tail with ⟨more, rfl, further⟩ | ⟨between, rfl, further⟩
          · cases more with
            | nil =>
                rw [List.nil_append] at further
                refine ⟨kind, first, last, [], inside, [], rest, by simp, further.symm, ?_⟩
                simpa using within
            | cons closing more =>
                obtain ⟨rfl, split⟩ := List.cons.inj further
                have same : stackBehind? [] more = some stack := by
                  simpa [Bracket.act, within.stack_behind [kind]] using behind
                obtain ⟨kind', first', last', before, inside', between, others, rfl, rest, nested⟩ :=
                  ih split same
                refine ⟨kind', first', last',
                  (first, .opening kind) :: (inside ++ (last, .closing kind) :: before),
                  inside', between, others, by simp, rest, nested⟩
          · exact ⟨kind, first, last, [], front, between, rest, rfl, further, within⟩

theorem Nested.stack_eq_nil_iff (nested : Nested (front ++ later))
    (behind : stackBehind? [] front = some stack) :
    stack = [] ↔ ¬ Straddled front later := by
  constructor
  · intro empty straddled
    exact straddled.stack_ne_nil nested behind empty
  · intro none
    by_contra opened
    exact none (nested.straddled rfl behind opened)

theorem exists_between {α : Type} {before inside behind front later : List α} {first last : α}
    (shape : before ++ first :: (inside ++ last :: behind) = front ++ later)
    (early : first ∉ later) (late : last ∉ front) :
    ∃ left right, inside = left ++ right ∧ front = before ++ first :: left ∧
      later = right ++ last :: behind := by
  rcases List.append_eq_append_iff.mp shape with ⟨more, rfl, tail⟩ | ⟨more, _, rfl⟩
  · cases more with
    | nil =>
        rw [← show _ = later from tail] at early
        simp at early
    | cons entry left =>
        obtain ⟨rfl, others⟩ := List.cons.inj tail
        rcases List.append_eq_append_iff.mp others with ⟨more, rfl, ends⟩ | ⟨right, rfl, rfl⟩
        · cases more with
          | nil => exact ⟨inside, [], by simp, by simp, ends.symm⟩
          | cons entry more =>
              obtain ⟨rfl, _⟩ := List.cons.inj ends
              simp at late
        · exact ⟨left, right, rfl, rfl, rfl⟩
  · simp at early

/-- Around a place without a bracket the pairs are those that open in front of it and close behind. -/
theorem surrounded_iff_straddled {text place : Text} (shape : brackets text = brackets place ++ later)
    (behind : ∀ entry ∈ later, place.length < entry.1) :
    Surrounded text place.length ↔ Straddled (brackets place) later := by
  constructor
  · rintro ⟨first, last, ⟨kind, before, inside, rest, whole, nested⟩, opens, closes⟩
    have early : (first, Bracket.opening kind) ∉ later :=
      fun member => absurd (behind _ member) (Nat.not_lt_of_gt opens)
    have late : (last, Bracket.closing kind) ∉ brackets place :=
      fun member => absurd (lt_of_mem_brackets member) (Nat.not_lt_of_gt closes)
    obtain ⟨left, right, rfl, front, later⟩ := exists_between (whole.symm.trans shape) early late
    exact ⟨kind, first, last, before, left, right, rest, front, later, nested⟩
  · rintro ⟨kind, first, last, before, inside, between, rest, front, later, nested⟩
    refine ⟨first, last, ⟨kind, before, inside ++ between, rest, ?_, nested⟩, ?_, ?_⟩
    · simp [shape, front, later]
    · have member : (first, Bracket.opening kind) ∈ brackets place := by simp [front]
      exact lt_of_mem_brackets member
    · exact behind (last, .closing kind) (by simp [later])

end Stack

end Candid
