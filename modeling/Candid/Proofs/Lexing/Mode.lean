import Candid.Proofs.Lexing.Scanner
import Candid.Proofs.Outcome

/-!
# The two modes of the scanner

A scanner skips the characters that begin nothing, or stops at the first of them. Both modes take the same
steps as long as something begins, so they find the same tokens, and the error of the strict mode is about
the first offset that the other mode skips. The grammar reads the tokens of the strict mode.
-/

set_option autoImplicit false

namespace Candid.Idl

namespace Scanner

variable {scanner next : Scanner} {token : Option Token} {illegal : IllegalCharacter}

theorem runStrict_of_illegal (found : scanner.illegal? = some illegal) :
    scanner.runStrict = .error illegal := by
  rw [runStrict.eq_def, found]

theorem runStrict_of_none (legal : scanner.illegal? = none) (done : scanner.step? = none) :
    scanner.runStrict = .ok ([], scanner) := by
  rw [runStrict.eq_def, legal]
  simp only
  split
  · rfl
  · rename_i step
    cases done.symm.trans step

theorem runStrict_of_step? (legal : scanner.illegal? = none)
    (step : scanner.step? = some (token, next)) :
    scanner.runStrict = next.runStrict.map fun result => (token.toList ++ result.1, result.2) := by
  rw [runStrict.eq_def, legal]
  simp only
  split
  · rename_i done
    cases done.symm.trans step
  · rename_i other
    cases step.symm.trans other
    rfl

/-- An illegal character stands in front of the scanner, is not ignored, and no rule takes it. -/
theorem exists_of_illegal (found : scanner.illegal? = some illegal) :
    ∃ c rest, scanner.rest = c :: rest ∧ isIgnored c = false ∧ Rule.first? (c :: rest) = none ∧
      illegal = ⟨c, scanner.line, scanner.offset⟩ := by
  unfold illegal? at found
  split at found
  · cases found
  rename_i c rest shape
  split at found
  · cases found
  rename_i refused
  cases found
  rw [Bool.or_eq_true, not_or] at refused
  obtain ⟨notIgnored, noRule⟩ := refused
  exact ⟨c, rest, shape, Bool.eq_false_iff.mpr notIgnored, Option.not_isSome_iff_eq_none.mp noRule, rfl⟩

/-- What is illegal in one mode is skipped in the other. -/
theorem step?_of_illegal (found : scanner.illegal? = some illegal) :
    ∃ rest, scanner.rest = illegal.character :: rest ∧
      illegal = ⟨illegal.character, scanner.line, scanner.offset⟩ ∧
      scanner.step? = some (none, { scanner with
        rest, offset := scanner.offset + 1, skipped := scanner.skipped ++ [scanner.offset] }) := by
  obtain ⟨c, rest, shape, notIgnored, noRule, rfl⟩ := exists_of_illegal found
  refine ⟨rest, shape, rfl, ?_⟩
  rw [step?, shape]
  simp only [notIgnored, noRule, Bool.false_eq_true, ↓reduceIte]

/-- A step over anything else skips nothing: it takes a piece from the front of the source. -/
theorem step_of_legal (legal : scanner.illegal? = none)
    (step : scanner.step? = some (token, next)) :
    next.skipped = scanner.skipped ∧ ∃ piece, scanner.rest = piece ++ next.rest ∧
      next.line = scanner.line + piece.count '\n' ∧
      next.offset = scanner.offset + piece.length := by
  unfold step? at step
  split at step
  · cases step
  rename_i c rest shape
  rw [illegal?, shape] at legal
  simp only at legal
  split at step
  · rename_i ignored
    cases step
    have other : c ≠ '\n' := by
      intro feed
      subst feed
      cases ignored
    exact ⟨rfl, [c], shape, by simp [other], rfl⟩
  rename_i notIgnored
  split at step
  · rename_i noRule
    simp [notIgnored, noRule] at legal
  · rename_i rule piece behind found
    cases step
    have taken := Rule.take?_of_first? found
    obtain ⟨whole, _⟩ := Rule.take?_append taken
    refine ⟨rfl, piece, by rw [shape, whole], ?_, rfl⟩
    simp only [Rule.lines_of_take? taken]

/-- The two modes run together up to the first illegal character. There the one ends, and its offset is
the first that the other skips. -/
theorem runStrict_cases (scanner : Scanner) :
    (scanner.run.2.skipped = scanner.skipped ∧ scanner.runStrict = .ok scanner.run) ∨
      ∃ before c behind others, scanner.rest = before ++ c :: behind ∧
        scanner.run.2.skipped = scanner.skipped ++ (scanner.offset + before.length) :: others ∧
        scanner.runStrict =
          .error ⟨c, scanner.line + before.count '\n', scanner.offset + before.length⟩ := by
  induction size : scanner.rest.length using Nat.strongRecOn generalizing scanner with
  | ind length ih =>
      cases found : scanner.illegal? with
      | some illegal =>
          obtain ⟨rest, shape, here, step⟩ := step?_of_illegal found
          right
          obtain ⟨_, others, skipped, _⟩ := accounted_run { scanner with
            rest, offset := scanner.offset + 1, skipped := scanner.skipped ++ [scanner.offset] }
          refine ⟨[], illegal.character, rest, others, shape, ?_, ?_⟩
          · rw [run_of_step? step, skipped]
            simp
          · rw [runStrict_of_illegal found]
            exact congrArg Except.error here
      | none =>
          cases step : scanner.step? with
          | none =>
              left
              rw [run_of_none step]
              exact ⟨rfl, runStrict_of_none found step⟩
          | some result =>
              obtain ⟨token, next⟩ := result
              obtain ⟨kept, piece, shape, line, offset⟩ := step_of_legal found step
              rw [run_of_step? step, runStrict_of_step? found step]
              rcases ih next.rest.length (size ▸ length_lt_of_step? step) next rfl with
                ⟨clean, same⟩ | ⟨before, c, behind, others, cut, skipped, fails⟩
              · left
                rw [same]
                exact ⟨clean.trans kept, rfl⟩
              · right
                refine ⟨piece ++ before, c, behind, others, by rw [shape, cut, List.append_assoc], ?_, ?_⟩
                · rw [skipped, kept, offset, List.length_append, Nat.add_assoc]
                · rw [fails, line, offset, List.length_append, List.count_append, Nat.add_assoc,
                    Nat.add_assoc]
                  rfl

/-- Where nothing is skipped the modes find the same. -/
theorem tokenizeStrict_of_skipped_nil (scanner other : Scanner) {source : Text}
    (clean : (other.tokenize source).2.skipped = []) :
    scanner.tokenizeStrict source = .ok (other.tokenize source) := by
  rcases (scanner.input source).runStrict_cases with ⟨_, same⟩ | ⟨_, _, _, _, _, skipped, _⟩
  · exact same
  · have some : (other.tokenize source).2.skipped ≠ [] := by
      rw [tokenize, show other.input source = scanner.input source from rfl, skipped]
      simp
    exact absurd clean some

/-- The modes agree: a source is refused exactly if the other mode skips something, for the first of the
skipped characters and with its line, and otherwise they find the same. -/
theorem tokenizeStrict_agrees (strict tolerant : Scanner) (source : Text) :
    (∀ result, strict.tokenizeStrict source = .ok result ↔
        (tolerant.tokenize source).2.skipped = [] ∧ result = tolerant.tokenize source) ∧
      ∀ illegal, strict.tokenizeStrict source = .error illegal ↔
        ∃ offset others c, (tolerant.tokenize source).2.skipped = offset :: others ∧
          source[offset]? = some c ∧
          illegal = ⟨c, 1 + (source.take offset).count '\n', offset⟩ := by
  rcases (strict.input source).runStrict_cases with
    ⟨clean, same⟩ | ⟨before, c, behind, others, cut, skipped, fails⟩
  · have clean : (tolerant.tokenize source).2.skipped = [] := clean
    have same : strict.tokenizeStrict source = .ok (tolerant.tokenize source) := same
    rw [same, clean]
    constructor
    · intro result
      simp [eq_comm]
    · simp
  · have cut : source = before ++ c :: behind := cut
    have skipped : (tolerant.tokenize source).2.skipped = before.length :: others := by
      rw [← Nat.zero_add before.length]
      exact skipped
    have fails : strict.tokenizeStrict source =
        .error ⟨c, 1 + before.count '\n', before.length⟩ := by
      rw [← Nat.zero_add before.length]
      exact fails
    have here : source[before.length]? = some c := by simp [cut]
    have front : source.take before.length = before := by rw [cut, List.take_left]
    rw [fails, skipped]
    constructor
    · simp
    · intro illegal
      constructor
      · intro same
        refine ⟨before.length, others, c, rfl, here, ?_⟩
        rw [front]
        exact (Except.error.inj same).symm
      · intro found
        obtain ⟨offset, _, d, first, there, same⟩ := found
        cases first
        cases here.symm.trans there
        rw [same, front]

end Scanner

/-- Items with nothing skipped among them are tokens. -/
theorem eq_map_token {items : List Placed} (legal : items.filterMap Placed.skipped? = []) :
    items = (items.filterMap Placed.token?).map .token := by
  induction items with
  | nil => rfl
  | cons item items ih =>
      cases item with
      | token found =>
          have further : items.filterMap Placed.skipped? = [] := legal
          exact congrArg (.token found :: ·) (ih further)
      | illegal passed => cases legal

/-- What a token stream comes to where all of it is wanted. -/
def TokenStream.outcome (stream : TokenStream) : Except IllegalCharacter (List Token) :=
  match stream.stop with
  | some illegal => .error illegal
  | none => .ok stream.tokens

theorem TokenStream.outcome_eq_ok_iff {stream : TokenStream} {tokens : List Token} :
    stream.outcome = .ok tokens ↔ stream = ⟨tokens, none⟩ := by
  obtain ⟨found, stop⟩ := stream
  cases stop <;> simp [outcome]

theorem TokenStream.outcome_eq_error_iff {stream : TokenStream} {illegal : IllegalCharacter} :
    stream.outcome = .error illegal ↔ stream.stop = some illegal := by
  obtain ⟨found, stop⟩ := stream
  cases stop <;> simp [outcome]

theorem TokenStream.outcome_append (front : List Token) (stream : TokenStream) :
    (TokenStream.mk (front ++ stream.tokens) stream.stop).outcome =
      stream.outcome.map (front ++ ·) := by
  obtain ⟨tokens, stop⟩ := stream
  cases stop <;> rfl

namespace Scanner

variable {scanner : Scanner} {illegal : IllegalCharacter}

theorem placed_of_illegal (found : scanner.illegal? = some illegal) :
    ∃ others, placed scanner.line scanner.offset (lexemes scanner.rest) =
      .illegal illegal :: others := by
  obtain ⟨c, rest, shape, notIgnored, noRule, rfl⟩ := exists_of_illegal found
  have other : c ≠ '\n' := by
    intro feed
    subst feed
    exact Rule.first?_isSome_of_feed rest noRule
  rcases Rule.first?_front (solid_of_not_ignored notIgnored other) with ⟨_, front⟩ | ⟨_, _, _, taken, _⟩
  · rw [shape, lexemes_of_front front]
    exact ⟨_, rfl⟩
  · cases noRule.symm.trans taken

/-- The strict run finds what the token stream of the text comes to. -/
theorem runStrict_outcome (scanner : Scanner) :
    scanner.runStrict.map Prod.fst =
      (TokenStream.ofPlaced
        (placed scanner.line scanner.offset (lexemes scanner.rest))).outcome := by
  induction size : scanner.rest.length using Nat.strongRecOn generalizing scanner with
  | ind length ih =>
      cases found : scanner.illegal? with
      | some illegal =>
          obtain ⟨others, shape⟩ := placed_of_illegal found
          rw [runStrict_of_illegal found, shape]
          rfl
      | none =>
          cases step : scanner.step? with
          | none =>
              rw [runStrict_of_none found step, rest_of_none step, lexemes]
              rfl
          | some result =>
              obtain ⟨token, next⟩ := result
              obtain ⟨kept, _⟩ := step_of_legal found step
              obtain ⟨front, more, same, whole, tokens, passed⟩ := placed_of_step? step
              have nothing : more = [] := List.append_cancel_left (same.symm.trans (by simp [kept]))
              have further := ih next.rest.length (size ▸ length_lt_of_step? step) next rfl
              rw [runStrict_of_step? found step, whole, eq_map_token (passed.trans nothing), tokens,
                ofPlaced_append, TokenStream.outcome_append, ← further]
              cases next.runStrict <;> rfl

/-- The grammar reads the tokens of a scanner that skips nothing. -/
theorem tokenizeStrict_eq_ok_iff (scanner : Scanner) {source : Text} {tokens : List Token} :
    (∃ last, scanner.tokenizeStrict source = .ok (tokens, last)) ↔
      tokenStream source = ⟨tokens, none⟩ := by
  have same : (scanner.tokenizeStrict source).map Prod.fst = (tokenStream source).outcome :=
    (scanner.input source).runStrict_outcome
  rw [← TokenStream.outcome_eq_ok_iff, ← same, map_eq_ok, Prod.exists, exists_comm]
  simp

/-- A source is refused for the character that ends its token stream. -/
theorem tokenizeStrict_eq_error_iff (scanner : Scanner) {source : Text}
    {illegal : IllegalCharacter} :
    scanner.tokenizeStrict source = .error illegal ↔ (tokenStream source).stop = some illegal := by
  have same : (scanner.tokenizeStrict source).map Prod.fst = (tokenStream source).outcome :=
    (scanner.input source).runStrict_outcome
  rw [← TokenStream.outcome_eq_error_iff, ← same]
  cases scanner.tokenizeStrict source <;> simp [Except.map]

end Scanner

end Candid.Idl
