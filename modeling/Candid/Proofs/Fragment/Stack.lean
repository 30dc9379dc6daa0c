import Candid.Proofs.Fragment.Bracket
import Candid.Proofs.Fragment.Closed

/-!
# A stack of open brackets

A scanner that follows a text with one stack of open brackets, and gives up where a bracket closes that
is not the innermost open one, or where one is left open behind the text. It reads exactly the texts of
nested brackets. There the reader with three counters finds the same separators, which are those outside
quoted parts and outside every pair of brackets.
-/

set_option autoImplicit false

namespace Candid

/-- The scanner between two characters, the innermost open bracket first. -/
structure Stacked where
  stack : List BracketKind
  quoted : Bool
  escaped : Bool
  afterHyphen : Bool
  deriving DecidableEq, Repr

namespace Stacked

def start : Stacked := ⟨[], false, false, false⟩

def stackAfter? (state : Stacked) (c : Char) : Option (List BracketKind) :=
  if c = '>' ∧ state.afterHyphen = true then some state.stack
  else (Bracket.ofChar? c).elim (some state.stack) (·.act state.stack)

def step (state : Stacked) (c : Char) : Option Stacked :=
  if state.escaped then some { state with escaped := false, afterHyphen := c == '-' }
  else if state.quoted then
    some { state with quoted := c != '"', escaped := c == '\\', afterHyphen := c == '-' }
  else (state.stackAfter? c).map fun stack => ⟨stack, c == '"', false, c == '-'⟩

def run? (state : Stacked) (text : Text) : Option Stacked :=
  text.foldlM step state

def isTop (state : Stacked) : Bool :=
  !state.escaped && !state.quoted && state.stack.isEmpty

/-- The offsets of the separators outside quotes and brackets; none if the brackets do not match. -/
def offsets? (separator : Char) (state : Stacked) (offset : Nat) : Text → Option (List Nat)
  | [] => if state.stack.isEmpty then some [] else none
  | c :: rest =>
    (state.step c).bind fun next =>
      (offsets? separator next (offset + 1) rest).map fun later =>
        if c = separator ∧ state.isTop then offset :: later else later

end Stacked

def stackedOffsets? (separator : Char) (text : Text) : Option (List Nat) :=
  Stacked.start.offsets? separator 0 text

namespace Nesting

theorem afterHyphen_step (state : Nesting) (c : Char) :
    (state.step c).afterHyphen = (c == '-') := by
  unfold step
  repeat' split
  all_goals rfl

theorem afterHyphen_run (text : Text) :
    (start.run text).afterHyphen = decide (text.getLast? = some '-') := by
  obtain none | ⟨front, c, rfl⟩ := List.eq_nil_or_concat' text
  · subst none
    rfl
  · rw [run_append, List.getLast?_concat]
    refine (afterHyphen_step (start.run front) c).trans ?_
    simp [Bool.beq_eq_decide_eq]

end Nesting

namespace Stacked

def counted (state : Stacked) : Nesting where
  braces := state.stack.count .brace
  parens := state.stack.count .paren
  angles := state.stack.count .angle
  quoted := state.quoted
  escaped := state.escaped
  afterHyphen := state.afterHyphen

variable {state next final : Stacked} {c separator : Char} {text : Text}

theorem isTop_counted (state : Stacked) : state.counted.isTop = state.isTop := by
  cases shape : state.stack with
  | nil => simp [counted, Nesting.isTop, isTop, shape]
  | cons kind stack =>
      have some : (kind :: stack).count kind ≠ 0 := by simp
      cases kind <;> simp [counted, Nesting.isTop, isTop, shape] <;> omega

theorem counted_step (steps : state.step c = some next) : state.counted.step c = next.counted := by
  obtain ⟨stack, quoted, escaped, afterHyphen⟩ := state
  cases escaped with
  | true =>
      cases steps
      rfl
  | false =>
      cases quoted with
      | true =>
          cases steps
          by_cases escape : c = '\\'
          · simp [counted, Nesting.step, escape]
          · by_cases quote : c = '"' <;> simp [counted, Nesting.step, escape, quote]
      | false =>
          obtain ⟨behind, acts, rfl⟩ := Option.map_eq_some_iff.mp steps
          by_cases arrow : c = '>' ∧ afterHyphen = true
          · obtain ⟨rfl, rfl⟩ := arrow
            cases acts
            simp [counted, Nesting.step]
          · rw [stackAfter?, if_neg arrow] at acts
            unfold Bracket.ofChar? at acts
            split at acts
            -- An opening bracket, a closing one, and any other character.
            case h_1 | h_3 | h_5 =>
              cases acts
              simp [counted, Nesting.step]
            case h_2 | h_4 | h_6 =>
              cases Bracket.act_closing.mp acts
              simp_all [counted, Nesting.step]
            case h_7 =>
              cases acts
              by_cases quote : c = '"' <;> simp [counted, Nesting.step, quote]

theorem run?_cons (state : Stacked) (c : Char) (text : Text) :
    state.run? (c :: text) = (state.step c).bind (·.run? text) := rfl

theorem run?_concat (state : Stacked) (text : Text) (c : Char) :
    state.run? (text ++ [c]) = (state.run? text).bind (·.step c) := by
  simp [run?]

theorem counted_run (runs : state.run? text = some final) :
    state.counted.run text = final.counted := by
  induction text generalizing state with
  | nil =>
      cases runs
      rfl
  | cons c text ih =>
      rw [run?_cons] at runs
      obtain ⟨next, steps, further⟩ := Option.bind_eq_some_iff.mp runs
      rw [Nesting.run_cons, counted_step steps]
      exact ih further

theorem quotesClosed_iff (behind : Nesting.start.run text = state.counted) :
    QuotesClosed text ↔ state.quoted = false := by
  rw [Nesting.quotesClosed_iff_run, behind]
  rfl

theorem quoted_of_escaped (behind : Nesting.start.run text = state.counted)
    (escaped : state.escaped = true) : state.quoted = true := by
  have quoted := Nesting.quoted_of_escaped text
  rw [behind] at quoted
  exact quoted escaped

theorem stack_step_outside (unescaped : state.escaped = false) (unquoted : state.quoted = false)
    (c : Char) : (state.step c).map (·.stack) = state.stackAfter? c := by
  simp only [step, unescaped, unquoted, Bool.false_eq_true, ↓reduceIte]
  cases state.stackAfter? c <;> rfl

/-- The scanner behind a text does with a character what the brackets do. -/
theorem stack_step (behind : Nesting.start.run text = state.counted) :
    (state.step c).map (·.stack) =
      (bracketBehind? text c).elim (some state.stack) (·.act state.stack) := by
  have outside := quotesClosed_iff behind
  cases quoted : state.quoted with
  | true =>
      have inside : bracketBehind? text c = none := by simp [bracketBehind?, outside, quoted]
      rw [inside]
      cases escaped : state.escaped <;> simp [step, escaped, quoted]
  | false =>
      have unescaped : state.escaped = false := by
        by_contra escaped
        simp [quoted_of_escaped behind (by simpa using escaped)] at quoted
      have hyphen : state.afterHyphen = decide (text.getLast? = some '-') := by
        rw [← Nesting.afterHyphen_run, behind]
        rfl
      rw [stack_step_outside unescaped quoted]
      by_cases arrow : c = '>' ∧ text.getLast? = some '-'
      · simp [stackAfter?, bracketBehind?, hyphen, arrow]
      · simp [stackAfter?, bracketBehind?, outside, quoted, hyphen, arrow]

/-- The stack of the scanner is that of the brackets so far. -/
theorem stack_run? (text : Text) :
    (start.run? text).map (·.stack) = stackBehind? [] (brackets text) := by
  induction text using List.reverseRecOn with
  | nil => rfl
  | append_singleton text c ih =>
      rw [run?_concat, brackets_concat, stackBehind?_append, ← ih]
      cases runs : start.run? text with
      | none => rfl
      | some state =>
          have behind : Nesting.start.run text = state.counted := counted_run runs
          refine (stack_step behind).trans ?_
          cases bracketBehind? text c <;> simp

theorem separates_counted (plain : Nesting.isStructural separator = false) (state : Stacked)
    (c : Char) :
    state.counted.separates separator c = decide (c = separator ∧ state.isTop = true) := by
  rw [Nesting.separates, isTop_counted]
  by_cases same : c = separator
  · simp [same, plain]
  · simp [same]

/-- Where the brackets match, the scanner finds the separators that the reader with counters marks. -/
theorem offsets?_eq (plain : Nesting.isStructural separator = false) (state : Stacked)
    (offset : Nat) (text : Text) :
    state.offsets? separator offset text =
      ((state.run? text).filter (·.stack.isEmpty)).map fun _ =>
        ((state.counted.marked separator text).zipIdx offset).filterMap
          fun ((_, mark), offset) => if mark then some offset else none := by
  induction text generalizing state offset with
  | nil =>
      cases stack : state.stack <;> simp [offsets?, run?, stack, Nesting.marked, Option.filter]
  | cons c text ih =>
      rw [offsets?, run?_cons]
      cases steps : state.step c with
      | none => rfl
      | some next =>
          rw [Option.bind_some, Option.bind_some, ih, Nesting.marked, counted_step steps,
            separates_counted plain, List.zipIdx_cons, List.filterMap_cons]
          cases (next.run? text).filter (·.stack.isEmpty) with
          | none => rfl
          | some final => by_cases here : c = separator ∧ state.isTop = true <;> simp [here]

theorem isTop_iff (behind : Nesting.start.run text = state.counted) :
    state.isTop = true ↔ QuotesClosed text ∧ state.stack = [] := by
  rw [quotesClosed_iff behind]
  cases escaped : state.escaped with
  | true => simp [isTop, escaped, quoted_of_escaped behind escaped]
  | false => simp [isTop, escaped]

end Stacked

section Offsets

variable {separator : Char} {text : Text} {offset : Nat}

/-- The scanner with one stack reads the texts of nested brackets and finds in them the separators that
the reader with counters finds. -/
theorem stackedOffsets?_eq (plain : Nesting.isStructural separator = false) (text : Text) :
    stackedOffsets? separator text =
      if WellNested text then some (separatorOffsets separator text) else none := by
  have behind := Stacked.stack_run? text
  rw [stackedOffsets?, Stacked.offsets?_eq plain]
  simp only [WellNested, nested_iff_stackBehind?, ← behind]
  cases Stacked.start.run? text with
  | none => rfl
  | some final =>
      cases stack : final.stack with
      | nil =>
          have begins : Stacked.start.counted = Nesting.start := rfl
          simp [Option.filter, stack, begins, separatorOffsets]
      | cons kind rest => simp [Option.filter, stack]

theorem Nesting.getElem?_marked (separator : Char) (state : Nesting) (text : Text) (offset : Nat) :
    (state.marked separator text)[offset]? =
      text[offset]?.map fun c => (c, (state.run (text.take offset)).separates separator c) := by
  induction text generalizing state offset with
  | nil => rfl
  | cons c text ih =>
      cases offset with
      | zero => rfl
      | succ offset => exact ih (state.step c) offset

theorem mem_separatorOffsets (plain : Nesting.isStructural separator = false) :
    offset ∈ separatorOffsets separator text ↔
      text[offset]? = some separator ∧ (Nesting.start.run (text.take offset)).isTop = true := by
  constructor
  · intro member
    obtain ⟨⟨⟨c, mark⟩, place⟩, entry, found⟩ := List.mem_filterMap.mp member
    rw [List.mk_mem_zipIdx_iff_getElem?, Nesting.getElem?_marked] at entry
    obtain ⟨d, here, same⟩ := Option.map_eq_some_iff.mp entry
    cases same
    simp only [Option.ite_none_right_eq_some, Option.some.injEq] at found
    obtain ⟨separates, rfl⟩ := found
    simp only [Nesting.separates, Bool.and_eq_true, beq_iff_eq] at separates
    exact ⟨separates.1.1 ▸ here, separates.2⟩
  · rintro ⟨here, top⟩
    refine List.mem_filterMap.mpr ⟨((separator, true), offset), ?_, rfl⟩
    rw [List.mk_mem_zipIdx_iff_getElem?, Nesting.getElem?_marked, here]
    simp [Nesting.separates, plain, top]

theorem pairwise_separatorOffsets (separator : Char) (text : Text) :
    (separatorOffsets separator text).Pairwise (· < ·) := by
  have places : ((Nesting.start.marked separator text).zipIdx.map (·.2)).Pairwise (· < ·) := by
    rw [List.zipIdx_map_snd]
    exact List.pairwise_lt_range'
  refine (List.pairwise_map.mp places).filterMap _ ?_
  rintro ⟨⟨c, mark⟩, first⟩ ⟨⟨d, other⟩, second⟩ before place found place' found'
  simp only [Option.ite_none_right_eq_some, Option.some.injEq] at found found'
  obtain ⟨_, rfl⟩ := found
  obtain ⟨_, rfl⟩ := found'
  exact before

/-- In front of a separator of a well-nested text the reader is at the top exactly if the separator is
outside quoted parts and outside every pair of brackets. -/
theorem isTop_iff_of_wellNested (nested : WellNested text)
    (plain : Nesting.isStructural separator = false) (here : text[offset]? = some separator) :
    (Nesting.start.run (text.take offset)).isTop = true ↔
      QuotesClosed (text.take offset) ∧ ¬ Surrounded text offset := by
  obtain ⟨inside, rfl⟩ := List.getElem?_eq_some_iff.mp here
  have length : (text.take offset).length = offset := by simp [Nat.le_of_lt inside]
  have noBracket := Bracket.ofChar?_of_plain plain
  obtain ⟨later, shape, behind⟩ :=
    exists_brackets_around noBracket (text.take offset) (text.drop (offset + 1))
  rw [List.getElem_cons_drop, List.take_append_drop] at shape
  rw [WellNested, shape] at nested
  obtain ⟨stack, start⟩ := nested.exists_stack
  obtain ⟨state, runs, rfl⟩ := Option.map_eq_some_iff.mp ((Stacked.stack_run? _).trans start)
  have counted : Nesting.start.run (text.take offset) = state.counted := Stacked.counted_run runs
  rw [counted, Stacked.isTop_counted, Stacked.isTop_iff counted, nested.stack_eq_nil_iff start,
    ← surrounded_iff_straddled shape behind, length]

/-- In a text of nested brackets the separators that three counters find are those that one stack finds,
and they are all those outside quoted parts and outside every pair of brackets, in order. -/
theorem separatorOffsets_of_wellNested (nested : WellNested text)
    (plain : Nesting.isStructural separator = false) :
    stackedOffsets? separator text = some (separatorOffsets separator text) ∧
      (separatorOffsets separator text).Pairwise (· < ·) ∧
      ∀ offset, offset ∈ separatorOffsets separator text ↔
        text[offset]? = some separator ∧ QuotesClosed (text.take offset) ∧
          ¬ Surrounded text offset := by
  refine ⟨?_, pairwise_separatorOffsets separator text, fun offset => ?_⟩
  · rw [stackedOffsets?_eq plain, if_pos nested]
  · rw [mem_separatorOffsets plain]
    exact and_congr_right fun here => isTop_iff_of_wellNested nested plain here

def mixedBrackets : Text :=
  "f(<\x7ba;b\x7d>)->();\"q;\\\"\x7b\";t;\"(;".toList

theorem separatorOffsets_of_wellNested_mixed :
    WellNested mixedBrackets ∧ Nesting.isStructural ';' = false ∧
      separatorOffsets ';' mixedBrackets = [14, 22, 24] ∧
      stackedOffsets? ';' mixedBrackets = some (separatorOffsets ';' mixedBrackets) ∧
      (separatorOffsets ';' mixedBrackets).Pairwise (· < ·) ∧
      ∀ offset, offset ∈ separatorOffsets ';' mixedBrackets ↔
        mixedBrackets[offset]? = some ';' ∧ QuotesClosed (mixedBrackets.take offset) ∧
          ¬ Surrounded mixedBrackets offset :=
  ⟨by decide +kernel, by decide, by decide +kernel,
    separatorOffsets_of_wellNested (by decide +kernel) (by decide)⟩

/-- Of crossing brackets the counters lose account, and a stack does not. -/
example : separatorOffsets ';' "(\x7b);\x7d;".toList = [5] ∧
    stackedOffsets? ';' "(\x7b);\x7d;".toList = none := by
  decide

end Offsets

end Candid
