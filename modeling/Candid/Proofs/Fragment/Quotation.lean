import Candid.Proofs.Fragment.Level

/-!
# Quoted parts

A quoted part runs from a double quote to the next one that no backslash escapes. What stands behind a
text is outside quoted parts if the text leaves none open, and the reader of nested brackets is then
outside quotes as well.
-/

set_option autoImplicit false

namespace Candid

/-- A quoted part behind its opening quote, with the closing one. -/
inductive QuotedRest : Text → Prop where
  | close : QuotedRest ['"']
  | escape {c : Char} {rest : Text} : QuotedRest rest → QuotedRest ('\\' :: c :: rest)
  | plain {c : Char} {rest : Text} (noQuote : c ≠ '"') (noEscape : c ≠ '\\') :
      QuotedRest rest → QuotedRest (c :: rest)

inductive QuotesClosed : Text → Prop where
  | nil : QuotesClosed []
  | plain {c : Char} {rest : Text} (noQuote : c ≠ '"') : QuotesClosed rest → QuotesClosed (c :: rest)
  | quoted {inside rest : Text} :
      QuotedRest inside → QuotesClosed rest → QuotesClosed ('"' :: (inside ++ rest))

namespace Nesting

/-- The reader follows a quoted part to its end and marks nothing in it. -/
theorem run_quotedRest {inside : Text} (quoted : QuotedRest inside) (separator : Char)
    (state : Nesting) (within : state.quoted = true) (unescaped : state.escaped = false) :
    state.run inside = { state with quoted := false, afterHyphen := false } ∧
      state.marked separator inside = unmarked inside := by
  have silent (state : Nesting) (within : state.quoted = true) (c : Char) :
      state.separates separator c = false := by
    simp [separates, isTop, within]
  induction quoted generalizing state with
  | close =>
      simp only [run, List.foldl_cons, List.foldl_nil, marked, unmarked, List.map_cons,
        List.map_nil, silent state within, and_true]
      simp [step, within, unescaped]
  | @escape c inside _ ih =>
      have escape : state.step '\\' = { state with escaped := true, afterHyphen := false } := by
        simp [step, within, unescaped]
      have next : ({ state with escaped := true, afterHyphen := false } : Nesting).step c =
          { state with afterHyphen := c == '-' } := by
        simp [step, unescaped]
      obtain ⟨finish, marks⟩ := ih { state with afterHyphen := c == '-' } within unescaped
      constructor
      · simpa only [run, List.foldl_cons, escape, next] using finish
      · simp only [marked, escape, next, marks, unmarked, List.map_cons]
        rw [silent state within, silent _ (by exact within)]
  | @plain c inside noQuote noEscape _ ih =>
      have next : state.step c = { state with afterHyphen := c == '-' } := by
        simp [step, within, unescaped, noQuote, noEscape]
      obtain ⟨finish, marks⟩ := ih { state with afterHyphen := c == '-' } within unescaped
      constructor
      · simpa only [run, List.foldl_cons, next] using finish
      · simp only [marked, next, marks, unmarked, List.map_cons, silent state within]

structure Unquoted (state : Nesting) : Prop where
  quoted : state.quoted = false
  escaped : state.escaped = false

variable {state : Nesting} {text : Text} {c : Char}

theorem Unquoted.step (outside : Unquoted state) (noQuote : c ≠ '"') :
    Unquoted (state.step c) := by
  obtain ⟨unquoted, unescaped⟩ := outside
  simp only [Nesting.step, unescaped, unquoted, Bool.false_eq_true, ↓reduceIte]
  split
  · contradiction
  all_goals first | exact ⟨rfl, rfl⟩ | split
  all_goals exact ⟨rfl, rfl⟩

theorem Unquoted.step_quote (outside : Unquoted state) :
    (state.step '"').quoted = true ∧ (state.step '"').escaped = false := by
  simp [Nesting.step, outside.quoted, outside.escaped]

theorem run_cons (state : Nesting) (c : Char) (text : Text) :
    state.run (c :: text) = (state.step c).run text := rfl

theorem Unquoted.run (outside : Unquoted state) (closed : QuotesClosed text) :
    Unquoted (state.run text) := by
  induction closed generalizing state with
  | nil => exact outside
  | plain noQuote _ ih => exact ih (outside.step noQuote)
  | @quoted inside rest quoted _ ih =>
      obtain ⟨within, unescaped⟩ := outside.step_quote
      obtain ⟨finish, _⟩ := run_quotedRest quoted ' ' (state.step '"') within unescaped
      rw [run_cons, run_append, finish]
      exact ih ⟨rfl, unescaped⟩

/-- A reader that leaves the quotes has come to the end of the quoted part. -/
theorem exists_quotedRest (within : state.quoted = true)
    (finish : (state.run text).quoted = false) :
    ∃ inside rest, text = inside ++ rest ∧
      QuotedRest (if state.escaped then '\\' :: inside else inside) := by
  induction text generalizing state with
  | nil =>
      rw [show state.run [] = state from rfl, within] at finish
      cases finish
  | cons c text ih =>
      rw [run_cons] at finish
      cases escaped : state.escaped with
      | true =>
          have next : (state.step c).quoted = true ∧ (state.step c).escaped = false := by
            simp [Nesting.step, escaped, within]
          obtain ⟨inside, rest, rfl, quoted⟩ := ih next.1 finish
          rw [next.2] at quoted
          exact ⟨c :: inside, rest, rfl, .escape quoted⟩
      | false =>
          by_cases quote : c = '"'
          · subst quote
            exact ⟨['"'], text, rfl, .close⟩
          · have next : (state.step c).quoted = true ∧ (state.step c).escaped = (c == '\\') := by
              by_cases escape : c = '\\' <;> simp [Nesting.step, escaped, within, quote, escape]
            obtain ⟨inside, rest, rfl, quoted⟩ := ih next.1 finish
            rw [next.2] at quoted
            refine ⟨c :: inside, rest, rfl, ?_⟩
            by_cases escape : c = '\\'
            · simpa [escape] using quoted
            · exact .plain quote escape (by simpa [escape] using quoted)

theorem quotesClosed_of_run {state : Nesting} {text : Text} (outside : Unquoted state)
    (finish : (state.run text).quoted = false) : QuotesClosed text := by
  match text with
  | [] => exact .nil
  | c :: text =>
      rw [run_cons] at finish
      by_cases quote : c = '"'
      · subst quote
        obtain ⟨within, unescaped⟩ := outside.step_quote
        obtain ⟨inside, rest, rfl, quoted⟩ := exists_quotedRest within finish
        replace quoted : QuotedRest inside := by simpa [unescaped] using quoted
        obtain ⟨behind, _⟩ := run_quotedRest quoted ' ' (state.step '"') within unescaped
        rw [run_append, behind] at finish
        exact .quoted quoted (quotesClosed_of_run (by exact ⟨rfl, unescaped⟩) finish)
      · exact .plain quote (quotesClosed_of_run (outside.step quote) finish)
termination_by text.length

/-- The reader of nested brackets is outside quotes exactly behind closed quoted parts. -/
theorem quotesClosed_iff_run (text : Text) :
    QuotesClosed text ↔ (start.run text).quoted = false := by
  have outside : Unquoted start := ⟨rfl, rfl⟩
  exact ⟨fun closed => (outside.run closed).quoted, quotesClosed_of_run outside⟩

end Nesting

instance (text : Text) : Decidable (QuotesClosed text) :=
  decidable_of_iff _ (Nesting.quotesClosed_iff_run text).symm

end Candid
