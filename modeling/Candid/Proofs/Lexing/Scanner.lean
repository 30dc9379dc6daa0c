import Candid.Idl.Lexer
import Candid.Idl.Scanner
import Candid.Proofs.Lexing.Placed
import Mathlib.Data.List.Forall2

/-!
# What a scanner accounts for

Each step of the scanner takes one piece from the front of the source: blanks, a complete comment, a
character that it records, or a token. So whatever it read before, a whole run divides the source into
such pieces without a rest, and no line feed is missed or counted twice: the rules that do not count
lines take none. What it finds are the tokens and the illegal characters among the lexemes.
-/

set_option autoImplicit false

namespace Candid.Idl

/-- The piece is passed over in front of the text: blanks, a line comment up to the end of its line, or
a block comment up to its first closing mark. -/
inductive Passed : Text → Text → Prop where
  | blanks {piece behind : Text} :
      (∀ c ∈ piece, Lexeme.isBlankLayout c = true) → Passed piece behind
  | lineComment {inside behind : Text} : '\n' ∉ inside → (∀ c ∈ behind.head?, c = '\n') →
      Passed ("//".toList ++ inside) behind
  | blockComment {inside behind : Text} : ¬ "*/".toList <:+: inside ++ ['*'] →
      Passed ("/*".toList ++ inside ++ "*/".toList) behind

/-- From a line and an offset on, the text consists of pieces that are passed over, of the tokens and
of single characters at the skipped offsets, in order. Every line feed ends a line. -/
inductive Accounted : Nat → Nat → Text → List Token → List Nat → Prop where
  | done (line offset : Nat) : Accounted line offset [] [] []
  | passed {line offset : Nat} {piece behind : Text} {tokens : List Token} {skipped : List Nat} :
      Passed piece behind →
      Accounted (line + piece.count '\n') (offset + piece.length) behind tokens skipped →
      Accounted line offset (piece ++ behind) tokens skipped
  | skipped {line offset : Nat} {c : Char} {behind : Text} {tokens : List Token}
      {skipped : List Nat} : c ≠ '\n' →
      Accounted line (offset + 1) behind tokens skipped →
      Accounted line offset (c :: behind) tokens (offset :: skipped)
  | token {line offset : Nat} {kind : TokenKind} {piece behind : Text} {tokens : List Token}
      {skipped : List Nat} : piece ≠ [] → '\n' ∉ piece →
      Accounted line (offset + piece.length) behind tokens skipped →
      Accounted line offset (piece ++ behind) (⟨kind, piece, line, offset⟩ :: tokens) skipped

theorem Quoted.flat {inside : Text} (quoted : Quoted inside) : '\n' ∉ inside := by
  induction quoted with
  | close => decide
  | escape noFeed _ ih => simpa using ⟨Ne.symm noFeed, ih⟩
  | plain _ _ noFeed _ ih => simpa using ⟨Ne.symm noFeed, ih⟩

/-- The inside of a block comment goes up to the first closing mark. -/
theorem first_of_closeComment? {text inside behind : Text}
    (closed : Lexeme.closeComment? text = some (inside, behind)) :
    ∃ body, inside = body ++ "*/".toList ∧ ¬ "*/".toList <:+: body ++ ['*'] := by
  fun_induction Lexeme.closeComment? text generalizing inside behind with
  | case1 => cases closed
  | case2 rest =>
      cases closed
      exact ⟨[], rfl, by decide⟩
  | case3 c rest noMark ih =>
      obtain ⟨⟨before, after⟩, step, same⟩ := Option.map_eq_some_iff.mp closed
      cases same
      obtain ⟨body, rfl, first⟩ := ih step
      refine ⟨c :: body, rfl, ?_⟩
      rw [List.cons_append, List.infix_cons_iff, not_or]
      refine ⟨?_, first⟩
      intro front
      obtain ⟨star, tail⟩ := List.cons_prefix_cons.mp front
      have whole := Lexeme.closeComment?_append step
      cases body with
      | nil => exact absurd (List.cons_prefix_cons.mp tail).1 (by decide)
      | cons d body =>
          obtain ⟨rfl, _⟩ := List.cons_prefix_cons.mp tail
          exact noMark _ star.symm whole.symm

namespace Rule

variable {rule : Rule} {text piece behind : Text}

/-- A rule that makes no token takes a piece that is passed over. -/
theorem passed_of_take? (taken : rule.take? text = some (piece, behind))
    (layout : rule.kind? piece = none) : Passed piece behind := by
  unfold take? at taken
  split at taken
  · obtain ⟨⟨inside, rest⟩, closed, same⟩ := Option.map_eq_some_iff.mp taken
    cases same
    obtain ⟨body, rfl, first⟩ := first_of_closeComment? closed
    exact .blockComment first
  · cases layout.symm.trans rfl
  · cases layout.symm.trans rfl
  · cases layout.symm.trans rfl
  · cases taken
    refine .blanks fun c member => ?_
    rcases List.mem_cons.mp member with rfl | later
    · rfl
    · have feed : c = '\n' := by simpa using List.mem_takeWhile_imp later
      subst feed
      rfl
  · cases taken
    obtain ⟨inLine, ends⟩ := all_of_span rfl rfl
    exact .lineComment (fun member => by simpa using inLine _ member)
      (fun c front => by simpa using ends c front)
  · cases layout.symm.trans rfl
  · obtain ⟨kind, punctuation, same⟩ := Option.map_eq_some_iff.mp taken
    cases same
    cases punctuation.symm.trans layout
  · cases taken

/-- A rule that does not count lines takes no line feed. -/
theorem flat_of_take? (taken : rule.take? text = some (piece, behind))
    (flat : rule.countsLines = false) : '\n' ∉ piece := by
  unfold take? at taken
  split at taken
  · cases flat
  · obtain ⟨⟨inside, rest⟩, closed, same⟩ := Option.map_eq_some_iff.mp taken
    cases same
    simpa using (quoted_of_closeQuote closed).flat
  · rename_i c rest
    split at taken
    · rename_i digit
      cases taken
      have digits : ∀ d ∈ c :: rest.takeWhile isDigit, isDigit d = true :=
        List.forall_mem_cons.mpr ⟨digit, fun _ => List.mem_takeWhile_imp⟩
      exact fun member => absurd (digits _ member) (by decide)
    · cases taken
  · rename_i c rest
    split at taken
    · rename_i start
      cases taken
      have parts : ∀ d ∈ c :: rest.takeWhile isNamePart, isNamePart d = true :=
        List.forall_mem_cons.mpr
          ⟨isNamePart_of_isNameStart start, fun _ => List.mem_takeWhile_imp⟩
      exact fun member => absurd (parts _ member) (by decide)
    · cases taken
  · cases flat
  · rename_i rest
    cases taken
    have inLine : '\n' ∉ rest.takeWhile (· ≠ '\n') :=
      fun member => by simpa using List.mem_takeWhile_imp member
    simpa using inLine
  · cases taken
    decide
  · obtain ⟨kind, punctuation, same⟩ := Option.map_eq_some_iff.mp taken
    cases same
    intro member
    cases List.mem_singleton.mp member
    cases punctuation
  · cases taken

/-- The line goes up by the line feeds in the piece, whatever the rule. -/
theorem lines_of_take? (taken : rule.take? text = some (piece, behind)) :
    (if rule.countsLines then piece.count '\n' else 0) = piece.count '\n' := by
  split
  · rfl
  · rename_i flat
    exact (List.count_eq_zero.mpr (flat_of_take? taken (by simpa using flat))).symm

theorem countsLines_of_kind? {kind : TokenKind} (token : rule.kind? piece = some kind) :
    rule.countsLines = false := by
  cases rule <;> first | rfl | cases token

theorem first?_isSome_of_feed (rest : Text) : first? ('\n' :: rest) ≠ none := by
  have noDigit : isDigit '\n' = false := by decide
  have noName : isNameStart '\n' = false := by decide
  simp [first?, all, take?, noDigit, noName]

end Rule

namespace Scanner

variable {scanner next : Scanner} {token : Option Token}

/-- A step accounts for one piece in front of those that the further steps account for. -/
theorem accounted_of_step? (step : scanner.step? = some (token, next)) :
    next.line + next.rest.count '\n' = scanner.line + scanner.rest.count '\n' ∧
      ∃ more, next.skipped = scanner.skipped ++ more ∧
        ∀ tokens skipped, Accounted next.line next.offset next.rest tokens skipped →
          Accounted scanner.line scanner.offset scanner.rest (token.toList ++ tokens)
            (more ++ skipped) := by
  unfold step? at step
  split at step
  · cases step
  rename_i c rest shape
  rw [shape]
  split at step
  · rename_i ignored
    cases step
    have other : c ≠ '\n' := by
      rintro rfl
      cases ignored
    refine ⟨by simp [other], [], by simp, fun tokens skipped further => ?_⟩
    have blank : ∀ d ∈ [c], Lexeme.isBlankLayout d = true := by
      rw [List.forall_mem_singleton, Lexeme.isBlankLayout]
      exact Bool.or_eq_true_iff.mpr (.inl ignored)
    exact .passed (.blanks blank) (by simpa [other] using further)
  · split at step
    · rename_i none
      cases step
      have other : c ≠ '\n' := by
        rintro rfl
        exact Rule.first?_isSome_of_feed rest none
      refine ⟨by simp [other], [scanner.offset], rfl, fun tokens skipped further => ?_⟩
      exact .skipped other further
    · rename_i rule piece behind found
      cases step
      have taken := Rule.take?_of_first? found
      obtain ⟨whole, some⟩ := Rule.take?_append taken
      rw [← whole]
      simp only [Rule.lines_of_take? taken, List.count_append]
      refine ⟨by omega, [], by simp, fun tokens skipped further => ?_⟩
      cases made : rule.kind? piece with
      | none => exact .passed (Rule.passed_of_take? taken made) further
      | some kind =>
          have flat := Rule.flat_of_take? taken (Rule.countsLines_of_kind? made)
          exact .token some flat (by simpa [List.count_eq_zero.mpr flat] using further)

theorem run_of_none (done : scanner.step? = none) : scanner.run = ([], scanner) := by
  rw [run.eq_def]
  split
  · rfl
  · rename_i step
    cases done.symm.trans step

theorem run_of_step? (step : scanner.step? = some (token, next)) :
    scanner.run = (token.toList ++ next.run.1, next.run.2) := by
  rw [run.eq_def]
  split
  · rename_i done
    cases done.symm.trans step
  · rename_i other
    cases step.symm.trans other
    rfl

theorem rest_of_none (done : scanner.step? = none) : scanner.rest = [] := by
  unfold step? at done
  split at done
  · assumption
  · split at done
    · cases done
    · split at done <;> cases done

/-- What the step accounts for at the front, the run accounts for in the whole. -/
theorem accounted_run (scanner : Scanner) :
    scanner.run.2.line = scanner.line + scanner.rest.count '\n' ∧
      ∃ skipped, scanner.run.2.skipped = scanner.skipped ++ skipped ∧
        Accounted scanner.line scanner.offset scanner.rest scanner.run.1 skipped := by
  induction size : scanner.rest.length using Nat.strongRecOn generalizing scanner with
  | ind length ih =>
      cases step : scanner.step? with
      | none =>
          rw [run_of_none step, rest_of_none step]
          exact ⟨rfl, [], by simp, .done _ _⟩
      | some result =>
          obtain ⟨token, next⟩ := result
          obtain ⟨lines, more, front, here⟩ := accounted_of_step? step
          obtain ⟨lastLine, skipped, behind, further⟩ :=
            ih next.rest.length (size ▸ length_lt_of_step? step) next rfl
          rw [run_of_step? step]
          refine ⟨lastLine.trans lines, more ++ skipped, ?_, here _ _ further⟩
          simp only [behind, front, List.append_assoc]

end Scanner

/-- Each token stands in the text where it says, in the line that it says. -/
theorem Accounted.located {line offset : Nat} {text : Text} {tokens : List Token} {skipped : List Nat}
    (accounted : Accounted line offset text tokens skipped) :
    ∀ token ∈ tokens, token.text ≠ [] ∧ ∃ before behind, text = before ++ (token.text ++ behind) ∧
      token.offset = offset + before.length ∧ token.line = line + before.count '\n' := by
  induction accounted with
  | done => simp
  | @passed line offset piece _ _ _ _ _ ih =>
      intro token member
      obtain ⟨some, before, behind, rfl, place, here⟩ := ih token member
      refine ⟨some, piece ++ before, behind, by simp, ?_, ?_⟩
      · rw [place, List.length_append, Nat.add_assoc]
      · rw [here, List.count_append, Nat.add_assoc]
  | @skipped line offset c _ _ _ other _ ih =>
      intro token member
      obtain ⟨some, before, behind, rfl, place, here⟩ := ih token member
      refine ⟨some, c :: before, behind, rfl, ?_, ?_⟩
      · rw [place, List.length_cons, Nat.add_assoc, Nat.add_comm 1]
      · rw [here, List.count_cons_of_ne other]
  | @token line offset kind piece _ _ _ some flat _ ih =>
      intro token member
      rcases List.mem_cons.mp member with rfl | later
      · exact ⟨some, [], _, rfl, rfl, rfl⟩
      · obtain ⟨filled, before, behind, rfl, place, here⟩ := ih token later
        refine ⟨filled, piece ++ before, behind, by simp, ?_, ?_⟩
        · rw [place, List.length_append, Nat.add_assoc]
        · rw [here, List.count_append, List.count_eq_zero.mpr flat, Nat.zero_add]

/-- Each token begins behind the end of the one in front of it. -/
theorem Accounted.ordered {line offset : Nat} {text : Text} {tokens : List Token} {skipped : List Nat}
    (accounted : Accounted line offset text tokens skipped) :
    (∀ token ∈ tokens, offset ≤ token.offset) ∧
      tokens.Pairwise fun token other =>
        token.offset + token.text.length ≤ other.offset := by
  induction accounted with
  | done => exact ⟨by simp, .nil⟩
  | passed _ _ ih =>
      obtain ⟨start, apart⟩ := ih
      exact ⟨fun token member => Nat.le_trans (Nat.le_add_right _ _) (start token member), apart⟩
  | skipped _ _ ih =>
      obtain ⟨start, apart⟩ := ih
      exact ⟨fun token member => Nat.le_trans (Nat.le_add_right _ _) (start token member), apart⟩
  | token _ _ _ ih =>
      obtain ⟨start, apart⟩ := ih
      refine ⟨List.forall_mem_cons.mpr ⟨Nat.le_refl _, fun token member => ?_⟩, .cons start apart⟩
      exact Nat.le_trans (Nat.le_add_right _ _) (start token member)

/-- What a scan of a source accounts for. The pieces make up the source; the tokens are in order and
apart, and each is the text at its offset, in the line of that offset; the last line is that of the
end. -/
structure Scanned (source : Text) (tokens : List Token) (scanner : Scanner) : Prop where
  accounted : Accounted 1 0 source tokens scanner.skipped
  increasing : tokens.Pairwise fun token other => token.offset < other.offset
  apart : tokens.Pairwise fun token other => token.offset + token.text.length ≤ other.offset
  spelt : ∀ token ∈ tokens, (source.drop token.offset).take token.text.length = token.text
  lines : ∀ token ∈ tokens, token.line = 1 + (source.take token.offset).count '\n'
  lastLine : scanner.line = 1 + source.count '\n'

theorem scanned_tokenize (scanner : Scanner) (source : Text) :
    Scanned source (scanner.tokenize source).1 (scanner.tokenize source).2 := by
  obtain ⟨lastLine, skipped, same, accounted⟩ := (scanner.input source).accounted_run
  have here : (scanner.tokenize source).2.skipped = skipped := same
  have apart := accounted.ordered.2
  have located := accounted.located
  have cut {token : Token} (member : token ∈ (scanner.tokenize source).1) :
      ∃ before behind, source = before ++ (token.text ++ behind) ∧ token.offset = before.length ∧
        token.line = 1 + before.count '\n' := by
    obtain ⟨_, before, behind, whole, place, line⟩ := located token member
    exact ⟨before, behind, whole, place.trans (Nat.zero_add _), line⟩
  refine ⟨here ▸ accounted, ?_, apart, ?_, ?_, lastLine⟩
  · refine apart.imp_of_mem fun member _ behind => ?_
    have positive := List.length_pos_iff.mpr (located _ member).1
    omega
  · intro token member
    obtain ⟨before, behind, whole, place, _⟩ := cut member
    rw [place, whole, List.drop_left, List.take_left]
  · intro token member
    obtain ⟨before, behind, whole, place, line⟩ := cut member
    rw [line, place, whole, List.take_left]

/-- A scanner accounts for every character and every line of each source that it reads, whatever it
read before. -/
theorem scanned_tokenizeAll (scanner : Scanner) (sources : List Text) :
    List.Forall₂ (fun source result => Scanned source result.1 result.2) sources
      (scanner.tokenizeAll sources) := by
  induction sources generalizing scanner with
  | nil => exact .nil
  | cons source sources ih =>
      exact .cons (scanned_tokenize scanner source) (ih (scanner.tokenize source).2)

namespace Rule

/-- The first rule in front of a solid character finds the first lexeme. -/
theorem first?_front {c : Char} {rest : Text} (solid : Lexeme.isBlankLayout c = false) :
    (first? (c :: rest) = none ∧ Lexeme.front c rest = (.illegal, [], rest)) ∨
      ∃ rule tail behind, first? (c :: rest) = some (rule, c :: tail, behind) ∧
        Lexeme.front c rest = ((rule.kind? (c :: tail)).elim .layout .token, tail, behind) := by
  have noFeed : c ≠ '\n' := by
    rintro rfl
    cases solid
  by_cases slash : c = '/'
  · subst slash
    have noDigit : isDigit '/' = false := by decide
    have noName : isNameStart '/' = false := by decide
    rcases rest with _ | ⟨d, rest⟩
    · left
      simp [first?, all, take?, Lexeme.front, noDigit, noName, solid, Lexeme.punctuation?]
    by_cases star : d = '*'
    · subst star
      cases closed : Lexeme.closeComment? rest with
      | none =>
          left
          simp [first?, all, take?, Lexeme.front, noDigit, noName, solid, closed, Lexeme.punctuation?]
      | some pair =>
          right
          refine ⟨.blockComment, '*' :: pair.1, pair.2, ?_, ?_⟩
          · simp [first?, all, take?, closed]
          · simp [Lexeme.front, solid, closed, kind?]
    by_cases line : d = '/'
    · subst line
      right
      refine ⟨.lineComment, '/' :: rest.takeWhile (· ≠ '\n'), rest.dropWhile (· ≠ '\n'), ?_, ?_⟩
      · simp [first?, all, take?, noDigit, noName]
      · simp [Lexeme.front, solid, kind?]
    · left
      simp [first?, all, take?, Lexeme.front, noDigit, noName, solid, star, line, Lexeme.punctuation?]
  by_cases quote : c = '"'
  · subst quote
    have noDigit : isDigit '"' = false := by decide
    have noName : isNameStart '"' = false := by decide
    cases closed : Lexeme.closeQuote? rest with
    | none =>
        left
        simp [first?, all, take?, Lexeme.front, noDigit, noName, solid, closed, Lexeme.punctuation?]
    | some pair =>
        right
        refine ⟨.text, pair.1, pair.2, ?_, ?_⟩
        · simp [first?, all, take?, closed]
        · simp [Lexeme.front, solid, closed, kind?]
  by_cases digit : isDigit c = true
  · right
    refine ⟨.number, rest.takeWhile isDigit, rest.dropWhile isDigit, ?_, ?_⟩
    · simp [first?, all, take?, slash, quote, digit]
    · simp [Lexeme.front, solid, slash, quote, digit, kind?]
  by_cases start : isNameStart c = true
  · right
    refine ⟨.word, rest.takeWhile isNamePart, rest.dropWhile isNamePart, ?_, ?_⟩
    · simp [first?, all, take?, slash, quote, digit, start]
    · simp [Lexeme.front, solid, slash, quote, digit, start, kind?]
  by_cases hyphen : c = '-'
  · subst hyphen
    rcases rest with _ | ⟨d, rest⟩
    · left
      simp [first?, all, take?, Lexeme.front, solid, digit, start, Lexeme.punctuation?]
    by_cases arrow : d = '>'
    · subst arrow
      right
      refine ⟨.arrow, ['>'], rest, ?_, ?_⟩
      · simp [first?, all, take?, digit, start]
      · simp [Lexeme.front, solid, digit, start, kind?]
    · left
      simp [first?, all, take?, Lexeme.front, solid, digit, start, arrow, Lexeme.punctuation?]
  cases punctuation : Lexeme.punctuation? c with
  | some kind =>
      right
      refine ⟨.mark, [], rest, ?_, ?_⟩
      · simp [first?, all, take?, slash, quote, digit, start, noFeed, hyphen, punctuation]
      · simp [Lexeme.front, solid, slash, quote, digit, start, hyphen, kind?, punctuation]
  | none =>
      left
      simp [first?, all, take?, Lexeme.front, solid, slash, quote, digit, start, noFeed, hyphen,
        punctuation]

theorem first?_feed (rest : Text) :
    first? ('\n' :: rest) =
      some (.newline, '\n' :: rest.takeWhile (· = '\n'), rest.dropWhile (· = '\n')) := by
  have noDigit : isDigit '\n' = false := by decide
  have noName : isNameStart '\n' = false := by decide
  simp [first?, all, take?, noDigit, noName]

end Rule

theorem lexemes_of_front {c : Char} {tail rest behind : Text} {kind : LexemeKind}
    (first : Lexeme.front c rest = (kind, tail, behind)) :
    lexemes (c :: rest) = ⟨kind, c :: tail⟩ :: lexemes behind := by
  rw [lexemes, first]

theorem lexemes_blanks {piece : Text} (blank : ∀ c ∈ piece, Lexeme.isBlankLayout c = true)
    (behind : Text) :
    lexemes (piece ++ behind) = piece.map (fun c => ⟨.layout, [c]⟩) ++ lexemes behind := by
  induction piece with
  | nil => rfl
  | cons c piece ih =>
      obtain ⟨first, others⟩ := List.forall_mem_cons.mp blank
      have front : Lexeme.front c (piece ++ behind) = (.layout, [], piece ++ behind) := by
        simp [Lexeme.front, first]
      rw [List.cons_append, lexemes_of_front front, ih others]
      rfl

theorem spelling_blanks (piece : Text) :
    spelling (piece.map fun c => ⟨.layout, [c]⟩) = piece := by
  induction piece with
  | nil => rfl
  | cons c piece ih => rw [List.map_cons, spelling_cons, ih, List.singleton_append]

theorem placed_blanks (line offset : Nat) (piece : Text) :
    placed line offset (piece.map fun c => ⟨.layout, [c]⟩) = [] := by
  induction piece generalizing line offset with
  | nil => rfl
  | cons c piece ih => exact ih _ _

def Placed.token? : Placed → Option Token
  | .token found => some found
  | .illegal _ => none

def Placed.skipped? : Placed → Option Nat
  | .token _ => none
  | .illegal passed => some passed.offset

namespace Scanner

variable {scanner next : Scanner} {token : Option Token}

theorem solid_of_not_ignored {c : Char} (notIgnored : isIgnored c = false) (other : c ≠ '\n') :
    Lexeme.isBlankLayout c = false :=
  Bool.or_eq_false_iff.mpr ⟨notIgnored, beq_eq_false_iff_ne.mpr other⟩

/-- A step takes the first lexemes: a token, an illegal character, or layout. -/
theorem placed_of_step? (step : scanner.step? = some (token, next)) :
    ∃ front more, next.skipped = scanner.skipped ++ more ∧
      placed scanner.line scanner.offset (lexemes scanner.rest) =
        front ++ placed next.line next.offset (lexemes next.rest) ∧
      front.filterMap Placed.token? = token.toList ∧ front.filterMap Placed.skipped? = more := by
  unfold step? at step
  split at step
  · cases step
  rename_i c rest shape
  rw [shape]
  split at step
  · rename_i ignored
    cases step
    have other : c ≠ '\n' := by
      rintro rfl
      cases ignored
    have blank : Lexeme.isBlankLayout c = true := Bool.or_eq_true_iff.mpr (.inl ignored)
    have front : Lexeme.front c rest = (.layout, [], rest) := by simp [Lexeme.front, blank]
    refine ⟨[], [], by simp, ?_, rfl, rfl⟩
    simp [lexemes_of_front front, placed, other]
  rename_i noIgnored
  by_cases feed : c = '\n'
  · subst feed
    rw [Rule.first?_feed] at step
    cases step
    have feeds : ∀ d ∈ '\n' :: rest.takeWhile (· = '\n'), Lexeme.isBlankLayout d = true := by
      refine List.forall_mem_cons.mpr ⟨rfl, fun d member => ?_⟩
      have feed : d = '\n' := by simpa using List.mem_takeWhile_imp member
      subst feed
      rfl
    have whole : '\n' :: rest = ('\n' :: rest.takeWhile (· = '\n')) ++ rest.dropWhile (· = '\n') := by
      simp
    refine ⟨[], [], by simp, ?_, rfl, rfl⟩
    rw [whole, lexemes_blanks feeds, placed_append, placed_blanks, spelling_blanks]
    rfl
  · have solid := solid_of_not_ignored (Bool.eq_false_iff.mpr noIgnored) feed
    rcases Rule.first?_front solid with ⟨none, front⟩ | ⟨rule, tail, behind, found, front⟩
    · rw [none] at step
      cases step
      refine ⟨[.illegal ⟨c, scanner.line, scanner.offset⟩], [scanner.offset], rfl, ?_, rfl, rfl⟩
      simp [lexemes_of_front front, placed, feed]
    · rw [found] at step
      cases step
      simp only [Rule.lines_of_take? (Rule.take?_of_first? found)]
      cases made : rule.kind? (c :: tail) with
      | none =>
          rw [made] at front
          refine ⟨[], [], by simp, ?_, rfl, rfl⟩
          rw [lexemes_of_front front]
          rfl
      | some kind =>
          rw [made] at front
          refine ⟨[.token ⟨kind, c :: tail, scanner.line, scanner.offset⟩], [], by simp, ?_, rfl, rfl⟩
          rw [lexemes_of_front front]
          rfl

theorem placed_run (scanner : Scanner) :
    scanner.run.1 =
        (placed scanner.line scanner.offset (lexemes scanner.rest)).filterMap Placed.token? ∧
      scanner.run.2.skipped = scanner.skipped ++
        (placed scanner.line scanner.offset (lexemes scanner.rest)).filterMap Placed.skipped? := by
  induction size : scanner.rest.length using Nat.strongRecOn generalizing scanner with
  | ind length ih =>
      cases step : scanner.step? with
      | none =>
          rw [run_of_none step, rest_of_none step, lexemes]
          simp [placed]
      | some result =>
          obtain ⟨token, next⟩ := result
          obtain ⟨front, more, same, whole, found, passed⟩ := placed_of_step? step
          obtain ⟨tokens, skipped⟩ := ih next.rest.length (size ▸ length_lt_of_step? step) next rfl
          rw [run_of_step? step, whole, List.filterMap_append, List.filterMap_append, found, passed]
          simp only [tokens, skipped, same, List.append_assoc, and_self]

/-- The scanner finds the tokens of the source, skips its illegal characters and ends on its last
line. -/
theorem tokenize_eq (scanner : Scanner) (source : Text) :
    (scanner.tokenize source).1 = tokens source ∧
      (scanner.tokenize source).2.skipped = Idl.skipped source ∧
      (scanner.tokenize source).2.line = lastLine source := by
  obtain ⟨found, passed⟩ := (scanner.input source).placed_run
  exact ⟨found, passed, (scanned_tokenize scanner source).lastLine⟩

end Scanner

end Candid.Idl
