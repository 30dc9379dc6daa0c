import Candid.Idl.Comment
import Candid.Proofs.Lexing.Trimmed
import Mathlib.Data.List.Infix

/-!
# Removed comments

The comments are removed from the text, without regard to its lexemes. Where no other lexeme holds a
mark that opens a comment, just the comments go, line comments first; and where no comment separates
what would otherwise join, the lexemes that are left are found again, so the tokens are the same.
-/

set_option autoImplicit false

namespace Candid.Idl

abbrev lineMark : Text := ['/', '/']

abbrev blockMark : Text := ['/', '*']

namespace Lexeme

def isLineComment (lexeme : Lexeme) : Bool :=
  lexeme.isLayout && lineMark.isPrefixOf lexeme.text

def isBlockComment (lexeme : Lexeme) : Bool :=
  lexeme.isLayout && blockMark.isPrefixOf lexeme.text

def isComment (lexeme : Lexeme) : Bool :=
  lexeme.isLineComment || lexeme.isBlockComment

/-- The lexeme in front of a row can be told from the comments around it: only a line comment holds
the mark of one, and only a comment that of a block comment, together with the character behind; the
lexeme is no quote and no slash that begins nothing; and it stands as well without a block comment
behind. -/
structure Separable (lexeme : Lexeme) (row : List Lexeme) : Prop where
  line : lexeme.isLineComment = true ∨ ¬ lineMark <:+: lexeme.text ++ (spelling row).take 1
  block : lexeme.isComment = true ∨ ¬ blockMark <:+: lexeme.text ++ (spelling row).take 1
  legal : lexeme.kind = .illegal → lexeme.text ≠ ['"'] ∧ lexeme.text ≠ ['/']
  alone : lexeme.isComment = true ∨ ∀ comment ∈ row.head?, comment.isBlockComment = true →
    lexeme.Stands (spelling row.tail)

instance Separable.decidable (lexeme : Lexeme) (row : List Lexeme) :
    Decidable (lexeme.Separable row) :=
  decidable_of_iff
    ((lexeme.isLineComment = true ∨ ¬ lineMark <:+: lexeme.text ++ (spelling row).take 1) ∧
      (lexeme.isComment = true ∨ ¬ blockMark <:+: lexeme.text ++ (spelling row).take 1) ∧
      (lexeme.kind = .illegal → lexeme.text ≠ ['"'] ∧ lexeme.text ≠ ['/']) ∧
      (lexeme.isComment = true ∨ ∀ comment ∈ row.head?, comment.isBlockComment = true →
        lexeme.Stands (spelling row.tail)))
    ⟨fun ⟨line, block, legal, alone⟩ => ⟨line, block, legal, alone⟩,
      fun ⟨line, block, legal, alone⟩ => ⟨line, block, legal, alone⟩⟩

end Lexeme

def Separable : List Lexeme → Prop
  | [] => True
  | lexeme :: row => lexeme.Separable row ∧ Separable row

instance Separable.decidable : (row : List Lexeme) → Decidable (Separable row)
  | [] => .isTrue trivial
  | _ :: row =>
      have := Separable.decidable row
      inferInstanceAs (Decidable (_ ∧ _))

def withoutLines (row : List Lexeme) : List Lexeme :=
  row.filter (!·.isLineComment)

def uncommented (row : List Lexeme) : List Lexeme :=
  row.filter (!·.isComment)

section Rows

variable {lexeme : Lexeme} (row : List Lexeme)

theorem isComment_of_line (line : lexeme.isLineComment = true) : lexeme.isComment = true := by
  rw [Lexeme.isComment, line, Bool.true_or]

theorem isComment_of_block (block : lexeme.isBlockComment = true) : lexeme.isComment = true := by
  rw [Lexeme.isComment, block, Bool.or_true]

theorem withoutLines_of_line (line : lexeme.isLineComment = true) :
    withoutLines (lexeme :: row) = withoutLines row :=
  List.filter_cons_of_neg (by simpa using line)

theorem withoutLines_of_kept (kept : ¬ lexeme.isLineComment = true) :
    withoutLines (lexeme :: row) = lexeme :: withoutLines row :=
  List.filter_cons_of_pos (by simpa using kept)

theorem uncommented_of_comment (comment : lexeme.isComment = true) :
    uncommented (lexeme :: row) = uncommented row :=
  List.filter_cons_of_neg (by simpa using comment)

theorem uncommented_of_kept (kept : ¬ lexeme.isComment = true) :
    uncommented (lexeme :: row) = lexeme :: uncommented row :=
  List.filter_cons_of_pos (by simpa using kept)

end Rows

section Marks

/-- A mark of two characters in front of a text stands in it up to the character behind. -/
theorem absent_in_front {mark : Text} {c : Char} {text rest : Text} (two : mark.length = 2)
    (absent : ¬ mark <:+: c :: text ++ rest.take 1) : ¬ mark <+: c :: (text ++ rest) := by
  intro front
  have short : mark <+: (c :: (text ++ rest)).take 2 :=
    List.prefix_take_iff.mpr ⟨front, two.le⟩
  have whole : (c :: (text ++ rest)).take 2 <+: c :: text ++ rest.take 1 := by
    cases text with
    | nil => simp
    | cons d text => simp
  exact absent (short.trans whole).isInfix

theorem withoutLineComments_cons {c : Char} {rest : Text} (absent : ¬ lineMark <+: c :: rest) :
    withoutLineComments (c :: rest) = c :: withoutLineComments rest := by
  rw [withoutLineComments.eq_def]
  split
  · contradiction
  · rename_i shape
    cases shape
    exact absurd (List.prefix_append ['/', '/'] _) absent
  · rename_i shape
    cases shape
    rfl

theorem withoutBlockComments_cons {c : Char} {rest : Text} (absent : ¬ blockMark <+: c :: rest) :
    withoutBlockComments (c :: rest) = c :: withoutBlockComments rest := by
  rw [withoutBlockComments.eq_def]
  split
  · contradiction
  · rename_i shape
    cases shape
    exact absurd (List.prefix_append ['/', '*'] _) absent
  · rename_i shape
    cases shape
    rfl

/-- Text without the mark of a line comment, together with the character behind, is kept. -/
theorem withoutLineComments_append {text rest : Text}
    (absent : ¬ lineMark <:+: text ++ rest.take 1) :
    withoutLineComments (text ++ rest) = text ++ withoutLineComments rest := by
  induction text with
  | nil => rfl
  | cons c text ih =>
      have further := ih fun inside => absent (inside.trans (List.suffix_cons c _).isInfix)
      rw [List.cons_append, withoutLineComments_cons (absent_in_front rfl absent), further,
        List.cons_append]

/-- Text without the mark of a block comment, together with the character behind, is kept. -/
theorem withoutBlockComments_append {text rest : Text}
    (absent : ¬ blockMark <:+: text ++ rest.take 1) :
    withoutBlockComments (text ++ rest) = text ++ withoutBlockComments rest := by
  induction text with
  | nil => rfl
  | cons c text ih =>
      have further := ih fun inside => absent (inside.trans (List.suffix_cons c _).isInfix)
      rw [List.cons_append, withoutBlockComments_cons (absent_in_front rfl absent), further,
        List.cons_append]

end Marks

section Comments

variable {lexeme : Lexeme} {rest : Text}

/-- A line comment goes up to the end of its line. -/
theorem line_of_stands (stands : lexeme.Stands rest) (line : lexeme.isLineComment = true) :
    ∃ inside, lexeme.text = '/' :: '/' :: inside ∧
      (inside ++ rest).dropWhile (· ≠ '\n') = rest := by
  obtain ⟨kind, text⟩ := lexeme
  simp only [Lexeme.isLineComment, Bool.and_eq_true, List.isPrefixOf_iff_prefix] at line
  obtain ⟨layout, inside, rfl⟩ := line
  obtain ⟨_, _, shape, first⟩ := stands
  cases shape
  refine ⟨inside, rfl, ?_⟩
  simp [Lexeme.front, Lexeme.isBlankLayout] at first
  simpa using first.2.2

/-- A block comment goes up to its first closing mark, whatever stands behind. -/
theorem block_of_stands (stands : lexeme.Stands rest) (block : lexeme.isBlockComment = true) :
    ∃ inside, lexeme.text = '/' :: '*' :: inside ∧
      Lexeme.closeComment? (inside ++ rest) = some (inside, rest) := by
  obtain ⟨kind, text⟩ := lexeme
  simp only [Lexeme.isBlockComment, Bool.and_eq_true, List.isPrefixOf_iff_prefix] at block
  obtain ⟨layout, inside, rfl⟩ := block
  obtain ⟨_, _, shape, first⟩ := stands
  cases shape
  refine ⟨inside, rfl, ?_⟩
  simp [Lexeme.front, Lexeme.isBlankLayout] at first
  split at first
  · rename_i closed
    simp only [Prod.mk.injEq, List.cons.injEq, true_and] at first
    obtain ⟨_, rfl, rfl⟩ := first
    exact closed
  · cases first

theorem closeComment?_suffix {text inside : Text}
    (closed : Lexeme.closeComment? text = some (inside, rest)) : ['*', '/'] <:+ inside := by
  fun_induction Lexeme.closeComment? text generalizing inside with
  | case1 => cases closed
  | case2 =>
      cases closed
      exact List.suffix_rfl
  | case3 c text _ ih =>
      obtain ⟨⟨before, after⟩, step, same⟩ := Option.map_eq_some_iff.mp closed
      cases same
      exact (ih step).trans (List.suffix_cons c before)

/-- What closes a comment is found whatever stands behind. -/
theorem closeComment?_congr {text inside rest : Text} (other : Text)
    (closed : Lexeme.closeComment? text = some (inside, rest)) :
    Lexeme.closeComment? (inside ++ other) = some (inside, other) := by
  fun_induction Lexeme.closeComment? text generalizing inside rest with
  | case1 => cases closed
  | case2 rest =>
      cases closed
      rfl
  | case3 c text noMark ih =>
      obtain ⟨⟨before, after⟩, step, same⟩ := Option.map_eq_some_iff.mp closed
      cases same
      have some : before ≠ [] := by
        rintro rfl
        exact absurd (List.suffix_nil.mp (closeComment?_suffix step)) (by simp)
      obtain ⟨d, before, rfl⟩ := List.exists_cons_of_ne_nil some
      have whole : d :: before ++ rest = text := Lexeme.closeComment?_append step
      rw [List.cons_append, Lexeme.closeComment?.eq_def]
      split
      · contradiction
      · rename_i shape
        cases shape
        exact (noMark _ rfl whole.symm).elim
      · rename_i shape
        cases shape
        rw [ih step]
        rfl

theorem withoutBlockComments_comment {inside rest : Text}
    (closed : Lexeme.closeComment? (inside ++ rest) = some (inside, rest)) :
    withoutBlockComments ('/' :: '*' :: (inside ++ rest)) = withoutBlockComments rest := by
  rw [withoutBlockComments]
  split
  · rename_i found
    cases closed.symm.trans found
    rfl
  · rename_i found
    cases closed.symm.trans found

end Comments

def Blanked (text : Text) : Prop :=
  ∀ c ∈ text.head?, Lexeme.isBlankLayout c = true

/-- The text begins like the other, or with a blank. -/
def Resumes (other text : Text) : Prop :=
  other.head? = text.head? ∨ Blanked other

section Heads

variable {lexeme : Lexeme} {row : List Lexeme} {rest other : Text}

theorem Lexeme.Stands.ne_nil (stands : lexeme.Stands rest) : lexeme.text ≠ [] := by
  obtain ⟨c, tail, shape, _⟩ := stands
  simp [shape]

theorem head_of_isLineComment (line : lexeme.isLineComment = true) :
    lexeme.text.head? = some '/' := by
  simp only [Lexeme.isLineComment, Bool.and_eq_true, List.isPrefixOf_iff_prefix] at line
  obtain ⟨_, inside, shape⟩ := line
  simp [← shape]

theorem head_of_isBlockComment (block : lexeme.isBlockComment = true) :
    lexeme.text.head? = some '/' := by
  simp only [Lexeme.isBlockComment, Bool.and_eq_true, List.isPrefixOf_iff_prefix] at block
  obtain ⟨_, inside, shape⟩ := block
  simp [← shape]

theorem head_of_isComment (comment : lexeme.isComment = true) : lexeme.text.head? = some '/' := by
  rcases Bool.or_eq_true_iff.mp comment with line | block
  · exact head_of_isLineComment line
  · exact head_of_isBlockComment block

/-- Where a text does not begin with a slash, removing lexemes that do does not change its front. -/
theorem head_filter {keep : Lexeme → Bool} (stand : Stand row rest)
    (removed : ∀ lexeme, keep lexeme = false → lexeme.text.head? = some '/')
    (first : (spelling row).head? ≠ some '/') :
    (spelling (row.filter keep)).head? = (spelling row).head? := by
  cases row with
  | nil => rfl
  | cons lexeme row =>
      have some := stand.1.ne_nil
      rw [spelling_cons, List.head?_append_of_ne_nil _ some] at first ⊢
      have kept : keep lexeme = true := by
        by_contra dropped
        exact first (removed lexeme (by simpa using dropped))
      rw [List.filter_cons_of_pos kept, spelling_cons, List.head?_append_of_ne_nil _ some]

theorem blanked_of_line (stands : lexeme.Stands rest) (line : lexeme.isLineComment = true) :
    Blanked rest := by
  obtain ⟨inside, _, ends⟩ := line_of_stands stands line
  have feed := List.head?_dropWhile_not (fun c => decide (c ≠ '\n')) (inside ++ rest)
  rw [ends] at feed
  intro c front
  rw [front] at feed
  have same : c = '\n' := by simpa using feed
  rw [same]
  rfl

theorem Blanked.head_ne_slash {text : Text} (blanked : Blanked text) : text.head? ≠ some '/' := by
  intro front
  exact absurd (blanked '/' front) (by decide)

theorem head_filter_of_line {keep : Lexeme → Bool} (stand : Stand (lexeme :: row) [])
    (removed : ∀ lexeme, keep lexeme = false → lexeme.text.head? = some '/')
    (line : lexeme.isLineComment = true) : Blanked (spelling (row.filter keep)) := by
  obtain ⟨first, others⟩ := stand
  rw [List.append_nil] at first
  have blanked := blanked_of_line first line
  rw [Blanked, head_filter others removed blanked.head_ne_slash]
  exact blanked

theorem resumes_withoutLines (stand : Stand row []) :
    Resumes (spelling (withoutLines row)) (spelling row) := by
  cases row with
  | nil => exact .inl rfl
  | cons lexeme row =>
      by_cases line : lexeme.isLineComment = true
      · rw [withoutLines_of_line row line]
        refine .inr (head_filter_of_line stand (fun lexeme dropped => ?_) line)
        exact head_of_isLineComment (by simpa using dropped)
      · rw [withoutLines_of_kept row line, spelling_cons, spelling_cons, Resumes,
          List.head?_append_of_ne_nil _ stand.1.ne_nil,
          List.head?_append_of_ne_nil _ stand.1.ne_nil]
        exact .inl rfl

/-- A mark of a block comment does not come about where a text resumes another. -/
theorem absent_of_resumes {text : Text} (resumes : Resumes other rest)
    (absent : ¬ blockMark <:+: text ++ rest.take 1) : ¬ blockMark <:+: text ++ other.take 1 := by
  intro inside
  have inText : ¬ blockMark <:+: text := fun inside =>
    absent (inside.trans (List.prefix_append _ _).isInfix)
  cases other with
  | nil => exact inText (by simpa using inside)
  | cons c other =>
      rcases resumes with same | blanked
      · cases rest with
        | nil => cases same
        | cons d rest =>
            cases same
            exact absent inside
      · have inside : blockMark <:+: text ++ [c] := inside
        rcases List.infix_concat_iff.mp inside with ⟨front, shape⟩ | earlier
        · have last := congrArg List.getLast? shape
          rw [List.getLast?_append_of_ne_nil _ (by decide), List.getLast?_concat] at last
          cases last
          exact absurd (blanked '*' rfl) (by decide)
        · exact inText earlier

end Heads

section Removal

variable {row : List Lexeme}

/-- Removing the line comments from the text removes those of its lexemes. -/
theorem withoutLineComments_spelling (stand : Stand row []) (separable : Separable row) :
    withoutLineComments (spelling row) = spelling (withoutLines row) := by
  induction row with
  | nil => rw [spelling_nil, withoutLineComments]; rfl
  | cons lexeme row ih =>
      have further := ih stand.2 separable.2
      by_cases line : lexeme.isLineComment = true
      · obtain ⟨inside, shape, ends⟩ := line_of_stands stand.1 line
        rw [List.append_nil] at ends
        rw [withoutLines_of_line row line, spelling_cons, shape, List.cons_append, List.cons_append,
          withoutLineComments, ends]
        exact further
      · rw [withoutLines_of_kept row line, spelling_cons, spelling_cons,
          withoutLineComments_append (separable.1.line.resolve_left line), further]

/-- Behind the line comments, removing the block comments from the text removes those of its
lexemes. -/
theorem withoutBlockComments_spelling (stand : Stand row []) (separable : Separable row) :
    withoutBlockComments (spelling (withoutLines row)) = spelling (uncommented row) := by
  induction row with
  | nil => rw [withoutLines, uncommented, List.filter_nil, spelling_nil, withoutBlockComments]; rfl
  | cons lexeme row ih =>
      have further := ih stand.2 separable.2
      by_cases line : lexeme.isLineComment = true
      · rw [withoutLines_of_line row line, uncommented_of_comment row (isComment_of_line line)]
        exact further
      rw [withoutLines_of_kept row line, spelling_cons]
      by_cases block : lexeme.isBlockComment = true
      · -- What stood behind the comment may have changed, but not where the comment ends.
        obtain ⟨inside, shape, closed⟩ := block_of_stands stand.1 block
        have closed := closeComment?_congr (spelling (withoutLines row)) closed
        rw [uncommented_of_comment row (isComment_of_block block), shape, List.cons_append,
          List.cons_append]
        exact (withoutBlockComments_comment closed).trans further
      · have kept : ¬ lexeme.isComment = true := by simp [Lexeme.isComment, line, block]
        have absent := absent_of_resumes (resumes_withoutLines stand.2)
          (separable.1.block.resolve_left kept)
        rw [uncommented_of_kept row kept, spelling_cons, withoutBlockComments_append absent, further]

theorem withoutComments_spelling (stand : Stand row []) (separable : Separable row) :
    withoutComments (spelling row) = spelling (uncommented row) := by
  rw [withoutComments, withoutLineComments_spelling stand separable,
    withoutBlockComments_spelling stand separable]

end Removal

section Remaining

variable {lexeme : Lexeme} {row : List Lexeme} {rest other : Text}

/-- An illegal character that opens nothing is illegal in front of a text that resumes the one
behind. -/
theorem illegal_of_resumes {text : Text} (stands : Lexeme.Stands ⟨.illegal, text⟩ rest)
    (noQuote : text ≠ ['"']) (noSlash : text ≠ ['/']) (resumes : Resumes other rest) :
    Lexeme.Stands ⟨.illegal, text⟩ other := by
  obtain ⟨c, tail, rfl, first⟩ := stands
  unfold Lexeme.front at first
  split at first
  · cases first
  rename_i solid
  split at first
  · rename_i slash
    cases slash
    split at first
    · split at first
      · cases first
      · cases first
        exact absurd rfl noSlash
    · cases first
    · cases first
      exact absurd rfl noSlash
  rename_i notSlash
  split at first
  · rename_i quote
    cases quote
    split at first
    · cases first
    · cases first
      exact absurd rfl noQuote
  rename_i notQuote
  split at first
  · cases first
  rename_i notDigit
  split at first
  · cases first
  rename_i notName
  split at first
  · -- A hyphen begins nothing unless the sign of an arrow comes to stand behind it.
    rename_i hyphen
    cases hyphen
    split at first
    · cases first
    · rename_i notArrow
      cases first
      have noDigit : isDigit '-' = false := by decide
      have noName : isNameStart '-' = false := by decide
      refine ⟨'-', [], rfl, ?_⟩
      have stillNot : ∀ behind, other ≠ '>' :: behind := by
        rintro behind rfl
        rcases resumes with same | blanked
        · obtain ⟨behind, shape⟩ := List.head?_eq_some_iff.mp same.symm
          exact notArrow behind shape
        · exact absurd (blanked '>' rfl) (by decide)
      simp [Lexeme.front, Lexeme.isBlankLayout, noDigit, noName]
  rename_i notHyphen
  split at first
  · cases first
  · rename_i notMark
    cases first
    refine ⟨c, [], rfl, ?_⟩
    simp [Lexeme.front, solid, notSlash, notQuote, notDigit, notName, notHyphen, notMark]

theorem Blanked.apart (blanked : Blanked rest) : Apart rest := by
  intro c front
  have blank := blanked c front
  simp only [Lexeme.isBlankLayout, Bool.or_eq_true, beq_iff_eq] at blank
  rcases blank with ((rfl | rfl) | rfl) | rfl <;> decide

/-- A lexeme that is no comment and opens none stands in front of a text that resumes the one
behind. -/
theorem stands_of_resumes (stands : lexeme.Stands rest) (separable : lexeme.Separable row)
    (kept : lexeme.isComment = false) (resumes : Resumes other rest) : lexeme.Stands other := by
  obtain ⟨kind, text⟩ := lexeme
  have ends : other.head? = rest.head? ∨ Apart other := resumes.imp_right Blanked.apart
  cases kind with
  | token kind => exact stands.change (.inl ⟨kind, rfl⟩) ends
  | illegal =>
      obtain ⟨noQuote, noSlash⟩ := separable.legal rfl
      exact illegal_of_resumes stands noQuote noSlash resumes
  | layout =>
      rcases layout_of_stands stands with blank | line | block
      · exact stands.change (.inr ⟨rfl, blank⟩) ends
      · have comment : lineMark.isPrefixOf text = true := List.isPrefixOf_iff_prefix.mpr line
        simp [Lexeme.isComment, Lexeme.isLineComment, Lexeme.isLayout, comment] at kept
      · have comment : blockMark.isPrefixOf text = true := List.isPrefixOf_iff_prefix.mpr block
        simp [Lexeme.isComment, Lexeme.isBlockComment, Lexeme.isLayout, comment] at kept

/-- No slash stands behind a block comment that can be told from a line comment. -/
theorem head_behind_comment (stands : lexeme.Stands (spelling row))
    (separable : lexeme.Separable row) (block : lexeme.isBlockComment = true) :
    (spelling row).head? ≠ some '/' := by
  intro slash
  obtain ⟨inside, shape, closed⟩ := block_of_stands stands block
  obtain ⟨before, ends⟩ := closeComment?_suffix closed
  obtain ⟨behind, follows⟩ := List.head?_eq_some_iff.mp slash
  have noLine : ¬ lexeme.isLineComment = true := by
    simp [Lexeme.isLineComment, shape]
  refine separable.line.resolve_left noLine ⟨'/' :: '*' :: (before ++ ['*']), [], ?_⟩
  rw [shape, follows, ← ends]
  simp

/-- The lexemes that are left without the comments are found again. -/
theorem stand_uncommented (stand : Stand row []) (separable : Separable row) :
    Stand (uncommented row) [] := by
  induction row with
  | nil => trivial
  | cons lexeme row ih =>
      have further := ih stand.2 separable.2
      by_cases comment : lexeme.isComment = true
      · rwa [uncommented_of_comment row comment]
      rw [uncommented_of_kept row comment]
      refine ⟨?_, further⟩
      have kept : lexeme.isComment = false := by simpa using comment
      have removed (lexeme : Lexeme) (dropped : (!lexeme.isComment) = false) :
          lexeme.text.head? = some '/' :=
        head_of_isComment (by simpa using dropped)
      have stands := stand.1
      rw [List.append_nil] at stands ⊢
      cases row with
      | nil => exact stands
      | cons next behind =>
          by_cases line : next.isLineComment = true
          · -- The line feed behind the comment comes to stand behind the lexeme.
            rw [uncommented_of_comment behind (isComment_of_line line)]
            refine stands_of_resumes stands separable.1 kept (.inr ?_)
            exact head_filter_of_line stand.2 removed line
          by_cases block : next.isBlockComment = true
          · -- What is behind the comment is no slash, so no further comment goes with this one.
            rw [uncommented_of_comment behind (isComment_of_block block)]
            have alone := separable.1.alone.resolve_left comment next rfl block
            have first := stand.2.1
            rw [List.append_nil] at first
            refine stands_of_resumes alone separable.1 kept (.inl ?_)
            exact head_filter stand.2.2 removed (head_behind_comment first separable.2.1 block)
          · have other : ¬ next.isComment = true := by simp [Lexeme.isComment, line, block]
            rw [uncommented_of_kept behind other]
            refine stands_of_resumes stands separable.1 kept (.inl ?_)
            rw [spelling_cons, spelling_cons, List.head?_append_of_ne_nil _ stand.2.1.ne_nil,
              List.head?_append_of_ne_nil _ stand.2.1.ne_nil]

end Remaining

section Tokens

theorem map_spelt_placed (line offset : Nat) {row : List Lexeme} {rest : Text}
    (stand : Stand row rest) :
    ((placed line offset row).filterMap fun
      | .token token => some token
      | .illegal _ => none).map Token.spelt = speltTokens row := by
  induction row generalizing line offset with
  | nil => rfl
  | cons lexeme row ih =>
      obtain ⟨kind, text⟩ := lexeme
      obtain ⟨⟨c, tail, shape, _⟩, further⟩ := stand
      cases shape
      cases kind <;> simp [placed, speltTokens, Token.spelt] <;> exact ih _ _ further

theorem map_spelt_tokens (source : Text) :
    (tokens source).map Token.spelt = speltTokens (lexemes source) :=
  map_spelt_placed 1 0 (stand_lexemes source)

theorem speltTokens_uncommented (row : List Lexeme) :
    speltTokens (uncommented row) = speltTokens row := by
  induction row with
  | nil => rfl
  | cons lexeme row ih =>
      by_cases comment : lexeme.isComment = true
      · have layout : ∀ single ∈ [lexeme], single.isLayout = true := by
          simp only [Lexeme.isComment, Lexeme.isLineComment, Lexeme.isBlockComment,
            ← Bool.and_or_distrib_left, Bool.and_eq_true] at comment
          simpa using comment.1
        rw [uncommented_of_comment row comment, ih, ← List.singleton_append, speltTokens_append,
          speltTokens_of_layout layout, List.nil_append]
      · rw [uncommented_of_kept row comment, ← List.singleton_append, speltTokens_append, ih,
          ← speltTokens_append, List.singleton_append]

/-- Where the lexemes of a source can be told from its comments, the source has the same tokens
without its comments. -/
theorem tokens_withoutComments {source : Text} (separable : Separable (lexemes source)) :
    (tokens (withoutComments source)).map Token.spelt = (tokens source).map Token.spelt := by
  have stand := stand_lexemes source
  have removed := withoutComments_spelling stand separable
  rw [spelling_lexemes] at removed
  rw [map_spelt_tokens, map_spelt_tokens, removed, lexemes_spelling (stand_uncommented stand separable),
    speltTokens_uncommented]

/-- A name with a block comment behind it and a line comment at the end. -/
theorem tokens_withoutComments_name :
    Separable (lexemes "a/*b*/ //c".toList) ∧
      (tokens (withoutComments "a/*b*/ //c".toList)).map Token.spelt =
        (tokens "a/*b*/ //c".toList).map Token.spelt := by
  let row : List Lexeme := [⟨.token .identifier, "a".toList⟩, ⟨.layout, "/*b*/".toList⟩,
    ⟨.layout, " ".toList⟩, ⟨.layout, "//c".toList⟩]
  have stand : Stand row [] := by decide
  have whole : lexemes "a/*b*/ //c".toList = row := lexemes_spelling stand
  have separable : Separable (lexemes "a/*b*/ //c".toList) := by
    rw [whole]
    decide
  exact ⟨separable, tokens_withoutComments separable⟩

/-- The mark of a line comment inside a quoted label cuts the label off. -/
theorem withoutComments_cuts_label :
    (tokens (withoutComments "type A = record \x7b \"a//b\" : nat \x7d;".toList)).map Token.spelt ≠
      (tokens "type A = record \x7b \"a//b\" : nat \x7d;".toList).map Token.spelt := by
  let front : List Lexeme := [⟨.token (.reserved .typeWord), "type".toList⟩, ⟨.layout, [' ']⟩,
    ⟨.token .identifier, ['A']⟩, ⟨.layout, [' ']⟩, ⟨.token .equals, ['=']⟩, ⟨.layout, [' ']⟩,
    ⟨.token (.reserved .recordWord), "record".toList⟩, ⟨.layout, [' ']⟩,
    ⟨.token .leftBrace, ['{']⟩, ⟨.layout, [' ']⟩]
  let row : List Lexeme := front ++ [⟨.token .text, "\"a//b\"".toList⟩, ⟨.layout, [' ']⟩,
    ⟨.token .colon, [':']⟩, ⟨.layout, [' ']⟩, ⟨.token .identifier, "nat".toList⟩,
    ⟨.layout, [' ']⟩, ⟨.token .rightBrace, ['}']⟩, ⟨.token .semicolon, [';']⟩]
  let cut : List Lexeme := front ++ [⟨.illegal, ['"']⟩, ⟨.token .identifier, ['a']⟩]
  have whole : lexemes "type A = record \x7b \"a//b\" : nat \x7d;".toList = row :=
    lexemes_spelling (show Stand row [] by decide)
  have removed : withoutComments "type A = record \x7b \"a//b\" : nat \x7d;".toList =
      spelling cut := by
    have lines : withoutLineComments (spelling cut ++ '/' :: '/' :: "b\" : nat \x7d;".toList) =
        spelling cut := by
      rw [withoutLineComments_append (by decide), withoutLineComments]
      show spelling cut ++ withoutLineComments [] = _
      rw [withoutLineComments, List.append_nil]
    have blocks : withoutBlockComments (spelling cut ++ []) = spelling cut := by
      rw [withoutBlockComments_append (by decide), withoutBlockComments, List.append_nil]
    rw [List.append_nil] at blocks
    exact (congrArg withoutBlockComments lines).trans blocks
  have left : lexemes (spelling cut) = cut := lexemes_spelling (by decide)
  rw [map_spelt_tokens, map_spelt_tokens, removed, whole, left]
  decide

end Tokens

end Candid.Idl
