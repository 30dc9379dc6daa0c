import Candid.Proofs.Fragment.Closed

/-!
# Splitting again

What a text is split into is not split any further, and the parts put together with separators are
split into the same parts. Both hold of every text, also of one that leaves brackets or quotes open:
wherever a separator is found, the reader is as it was in front of the text.
-/

set_option autoImplicit false

namespace Candid

open Nesting

namespace Nesting

variable {separator c : Char} {state : Nesting} {text rest : Text}

theorem length_marked (separator : Char) (state : Nesting) (text : Text) :
    (state.marked separator text).length = text.length := by
  rw [← List.length_map (·.1), marked_map_fst]

/-- No separator is marked in a text exactly if none is marked in either part. -/
theorem marked_append_eq_unmarked :
    state.marked separator (text ++ rest) = unmarked (text ++ rest) ↔
      state.marked separator text = unmarked text ∧
        (state.run text).marked separator rest = unmarked rest := by
  rw [marked_append, unmarked, List.map_append]
  constructor
  · intro same
    exact List.append_inj same (by rw [length_marked, unmarked, List.length_map])
  · rintro ⟨front, behind⟩
    rw [front, behind]
    rfl

theorem step_blank (blank : isBlank c = true) (unescaped : state.escaped = false)
    (unquoted : state.quoted = false) : state.step c = { state with afterHyphen := false } := by
  have other (d : Char) (solid : isBlank d = false) : c ≠ d := by
    rintro rfl
    rw [blank] at solid
    cases solid
  have hyphen := other '-' (by decide)
  obtain ⟨braces, parens, angles, quoted, escaped, afterHyphen⟩ := state
  cases unescaped
  cases unquoted
  simp [step, other '"' (by decide), other '{' (by decide), other '}' (by decide),
    other '(' (by decide), other ')' (by decide), other '<' (by decide), other '>' (by decide), hyphen]

theorem run_blanks (blank : ∀ c ∈ text, isBlank c = true) : start.run text = start := by
  induction text with
  | nil => rfl
  | cons c text ih =>
      have first : start.step c = start := step_blank (blank c List.mem_cons_self) rfl rfl
      rw [run, List.foldl_cons, first]
      exact ih fun d member => blank d (List.mem_cons_of_mem c member)

/-- A blank brings no reader to the top that was not there. -/
theorem isTop_of_step_blank (blank : isBlank c = true)
    (escapes : state.escaped = true → state.quoted = true) (top : (state.step c).isTop = true) :
    state.isTop = true := by
  have noQuote : c ≠ '"' := by
    rintro rfl
    revert blank
    decide
  cases escaped : state.escaped with
  | true => simp [step, escaped, escapes escaped, isTop] at top
  | false =>
      cases quoted : state.quoted with
      | true =>
          by_cases escape : c = '\\' <;> simp [step, escaped, quoted, escape, noQuote, isTop] at top
      | false =>
          rw [step_blank blank escaped quoted] at top
          exact top

theorem isTop_of_run_blanks (blank : ∀ c ∈ rest, isBlank c = true)
    (top : (start.run (text ++ rest)).isTop = true) : (start.run text).isTop = true := by
  induction rest using List.reverseRecOn with
  | nil => simpa using top
  | append_singleton rest c ih =>
      rw [← List.append_assoc, run_append] at top
      apply ih fun d member => blank d (List.mem_append_left _ member)
      exact isTop_of_step_blank (blank c (by simp)) (quoted_of_escaped _) top

/-- Without its outer blanks a text has the same separators, and the reader is at the top behind it if
it was so before. -/
theorem marked_trim (none : start.marked separator text = unmarked text) :
    start.marked separator text.trim = unmarked text.trim := by
  obtain ⟨front, back, shape, blank, _⟩ := text.exists_trim
  rw [shape, marked_append_eq_unmarked, run_blanks blank, marked_append_eq_unmarked] at none
  exact none.2.1

theorem isTop_run_trim (top : (start.run text).isTop = true) :
    (start.run text.trim).isTop = true := by
  obtain ⟨front, back, shape, begins, ends⟩ := text.exists_trim
  rw [shape, run_append, run_blanks begins] at top
  exact isTop_of_run_blanks ends top

/-- A text holds no separator, or it is cut at the first one. -/
theorem marked_cases (separator : Char) (state : Nesting) (text : Text) :
    state.marked separator text = unmarked text ∨
      ∃ front rest, text = front ++ separator :: rest ∧
        state.marked separator front = unmarked front ∧
        (state.run front).separates separator separator = true := by
  induction text generalizing state with
  | nil => exact .inl rfl
  | cons c text ih =>
      cases found : state.separates separator c with
      | true =>
          have same : c = separator := by
            simp only [Nesting.separates, Bool.and_eq_true, beq_iff_eq] at found
            exact found.1.1
          cases same
          exact .inr ⟨[], text, rfl, rfl, found⟩
      | false =>
          rcases ih (state.step c) with none | ⟨front, rest, rfl, none, separates⟩
          · left
            rw [marked, found, none]
            rfl
          · refine .inr ⟨c :: front, rest, rfl, ?_, separates⟩
            rw [marked, found, none]
            rfl

end Nesting

section Splitting

variable {separator : Char} {text part rest : Text} {parts : List Text}

structure IsPart (separator : Char) (part : Text) : Prop where
  trimmed : part.trim = part
  some : part ≠ []
  none : start.marked separator part = unmarked part

theorem IsPart.splitTopLevel (whole : IsPart separator part) :
    splitTopLevel separator part = [part] := by
  rw [splitTopLevel_of_unmarked whole.none, whole.trimmed]
  simp [whole.some]

/-- Parts that a separator can follow, and perhaps a last one that none can. -/
inductive AreParts (separator : Char) : List Text → Prop where
  | none : AreParts separator []
  | last {part : Text} (whole : IsPart separator part) : AreParts separator [part]
  | more {part : Text} {parts : List Text} (whole : IsPart separator part)
      (separates : (start.run part).separates separator separator = true)
      (others : AreParts separator parts) : AreParts separator (part :: parts)

theorem isPart_trim (none : start.marked separator text = unmarked text) (solid : text.trim ≠ []) :
    IsPart separator text.trim :=
  ⟨Text.trim_trim text, solid, marked_trim none⟩

theorem separates_trim (separates : (start.run text).separates separator separator = true) :
    (start.run text.trim).separates separator separator = true := by
  simp only [Nesting.separates, Bool.and_eq_true] at separates ⊢
  exact ⟨separates.1, isTop_run_trim separates.2⟩

/-- Every text is split into such parts. -/
theorem areParts_splitTopLevel (other : separator ≠ '-') (text : Text) :
    AreParts separator (splitTopLevel separator text) := by
  rcases marked_cases separator start text with none | ⟨front, rest, rfl, none, separates⟩
  · rw [splitTopLevel_of_unmarked none]
    by_cases blank : text.trim = []
    · simpa [blank] using AreParts.none
    · simpa [blank] using AreParts.last (isPart_trim none blank)
  · have further := areParts_splitTopLevel other rest
    rw [splitTopLevel_of_marked (marked_of_separates other none separates rest)]
    by_cases blank : front.trim = []
    · simpa [blank] using further
    · simpa [blank] using
        AreParts.more (isPart_trim none blank) (separates_trim separates) further
termination_by text.length

theorem AreParts.isPart (are : AreParts separator parts) : ∀ part ∈ parts, IsPart separator part := by
  induction are with
  | none => simp
  | last whole => simpa using whole
  | more whole _ _ ih => exact List.forall_mem_cons.mpr ⟨whole, ih⟩

theorem AreParts.isTop (are : AreParts separator parts) :
    ∀ part ∈ parts.dropLast, (start.run part).isTop = true := by
  induction are with
  | none => simp
  | last => simp
  | @more part parts _ separates _ ih =>
      have top : (start.run part).isTop = true := by
        rw [Nesting.separates, Bool.and_eq_true] at separates
        exact separates.2
      cases parts with
      | nil => simp
      | cons next parts => exact List.forall_mem_cons.mpr ⟨top, ih⟩

/-- Parts put together with separators are split into the same parts. -/
theorem AreParts.splitTopLevel_joined (other : separator ≠ '-') (are : AreParts separator parts) :
    Candid.splitTopLevel separator (Text.joined [separator] parts) = parts := by
  induction are with
  | none => rfl
  | last whole => rw [Text.joined_singleton, whole.splitTopLevel]
  | @more part parts whole separates _ ih =>
      cases parts with
      | nil => rw [Text.joined_singleton, whole.splitTopLevel]
      | cons next parts =>
          have first : [part.trim].filter (!·.isEmpty) = [part] := by
            simp [whole.trimmed, whole.some]
          have marks := marked_of_separates other whole.none separates
            (Text.joined [separator] (next :: parts))
          rw [Text.joined_cons, List.singleton_append, splitTopLevel_of_marked marks, first, ih]
          rfl

/-- Splitting is stable for every separator but the hyphen, behind which an angle bracket does not
close: no part is split again, behind every part but the last the reader is outside quotes with all
counters at zero, and the parts put together with separators are split into the same parts. -/
theorem splitTopLevel_stable (other : separator ≠ '-') (text : Text) :
    (∀ part ∈ splitTopLevel separator text, splitTopLevel separator part = [part]) ∧
      (∀ part ∈ (splitTopLevel separator text).dropLast, (start.run part).isTop = true) ∧
      splitTopLevel separator (Text.joined [separator] (splitTopLevel separator text)) =
        splitTopLevel separator text := by
  have are := areParts_splitTopLevel other text
  refine ⟨fun part member => ?_, are.isTop, are.splitTopLevel_joined other⟩
  exact (are.isPart part member).splitTopLevel

/-- Of braces that close before they open, quoted semicolons and a blank part, three parts are left. The
last one leaves a brace too many closed, so its semicolon does not separate. -/
theorem splitTopLevel_stable_unbalanced :
    ';' ≠ '-' ∧
      splitTopLevel ';' "x \x7d \x7b ; \"a;b\" ;; c \x7d ; d".toList =
        ["x \x7d \x7b".toList, "\"a;b\"".toList, "c \x7d ; d".toList] ∧
      (∀ part ∈ splitTopLevel ';' "x \x7d \x7b ; \"a;b\" ;; c \x7d ; d".toList,
        splitTopLevel ';' part = [part]) ∧
      (∀ part ∈ (splitTopLevel ';' "x \x7d \x7b ; \"a;b\" ;; c \x7d ; d".toList).dropLast,
        (start.run part).isTop = true) ∧
      splitTopLevel ';' (Text.joined [';']
          (splitTopLevel ';' "x \x7d \x7b ; \"a;b\" ;; c \x7d ; d".toList)) =
        splitTopLevel ';' "x \x7d \x7b ; \"a;b\" ;; c \x7d ; d".toList :=
  ⟨by decide, by decide, splitTopLevel_stable (by decide) _⟩

end Splitting

end Candid
