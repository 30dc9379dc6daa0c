import Candid.Proofs.Grammar.Action
import Candid.Proofs.Grammar.Items
import Candid.Proofs.Grammar.Written
import Candid.Proofs.Lexing.Spelled

/-!
# Canonical texts are sentences

The canonical text of a type without service types spells a sentence of the grammar, and the derivation
of that sentence has the text as its value. So a type is built again from its text, in whatever form it
was written first.
-/

set_option autoImplicit false

namespace Candid.Idl

mutual

def Datatype.hasService : Datatype → Bool
  | .name _ => false
  | .opt inner => inner.hasService
  | .vec inner => inner.hasService
  | .record fields => haveService fields
  | .variant fields => haveService fields
  | .func signature => signature.hasService
  | .service _ => true

def haveService : List Field → Bool
  | [] => false
  | .mk _ type :: rest => type.hasService || haveService rest

def Signature.hasService : Signature → Bool
  | .mk args results _ => haveService args || haveService results

end

theorem form_of_isName {text : Text} (name : isName text = true) :
    Form (TokenKind.ofWord text) text := by
  cases text with
  | nil => cases name
  | cons c tail =>
      simp only [isName, Bool.and_eq_true] at name
      exact .word name.1 (List.all_eq_true.mp name.2)

theorem form_reserved (word : Reserved) : Form (.reserved word) word.text := by
  have kind : TokenKind.ofWord word.text = .reserved word := by cases word <;> decide
  rw [← kind]
  exact form_of_isName (by cases word <;> decide)

def Token.bare (kind : TokenKind) (text : Text) : Token := ⟨kind, text, 0, 0⟩

def Derivation.PrintsAs {symbol : Symbol} (tree : Derivation symbol) (text : Text) : Prop :=
  Prints text (tree.yield.map Token.spelt)

def Separator.mark : Separator → Char
  | .comma => ','
  | .semicolon => ';'

namespace Derivation

def bare (kind : TokenKind) (text : Text) : Derivation (.terminal kind) :=
  .leaf (.bare kind text) rfl

@[simp] theorem yield_bare (kind : TokenKind) (text : Text) :
    (bare kind text).yield = [.bare kind text] := rfl

def keyword (word : Reserved) : Derivation (.word word) :=
  .bare (.reserved word) word.text

@[simp] theorem yield_keyword (word : Reserved) :
    (keyword word).yield = [.bare (.reserved word) word.text] := rfl

def separatorLeaf (separator : Separator) : Derivation (.terminal separator.kind) :=
  .bare separator.kind [separator.mark]

section Members

variable {separator : Separator}

theorem record_memberList (first : Derivation (.nonterminal (.member separator)))
    (items : List (FurtherMember separator)) :
    (memberList first items).record = first.record :: items.map fun item => item.2.record := by
  have further (start : Derivation (.nonterminal (.memberList separator))) :
      (items.foldl (fun list item =>
        Derivation.node (.moreMembers separator) (.cons list (.cons item.1 (.cons item.2 .nil))))
        start).record = (start.record : List LabelledText) ++ items.map fun item => item.2.record := by
    induction items generalizing start with
    | nil => simp
    | cons item items ih => rw [List.foldl_cons, ih]; simp
  exact further _

def listOf (first : Derivation (.nonterminal (.member separator)))
    (others : List (Derivation (.nonterminal (.member separator)))) :
    Derivation (.nonterminal (.memberList separator)) :=
  memberList first (others.map fun member => (separatorLeaf separator, member))

theorem record_listOf (first : Derivation (.nonterminal (.member separator)))
    (others : List (Derivation (.nonterminal (.member separator)))) :
    (listOf first others).record = (first :: others).map record := by
  simp [listOf, record_memberList]

theorem printsAs_listOf (first : Derivation (.nonterminal (.member separator)))
    (others : List (Derivation (.nonterminal (.member separator))))
    (prints : ∀ member ∈ first :: others, member.PrintsAs member.record.render) :
    (listOf first others).PrintsAs
      (Text.joined [separator.mark, ' '] ((first :: others).map fun member =>
        LabelledText.render member.record)) := by
  induction others generalizing first with
  | nil =>
      intro rest apart
      simpa [listOf, yield_memberList] using prints first List.mem_cons_self rest apart
  | cons second others ih =>
      intro rest apart
      have glue : Spells [separator.mark, ' ']
          (Text.joined [separator.mark, ' '] ((second :: others).map fun member =>
            LabelledText.render member.record) ++ rest) [(separator.kind, [separator.mark])] := by
        cases separator with
        | comma => exact spells_of_glue [.mark .comma ',', .blank] (by decide) _
        | semicolon => exact spells_of_glue [.mark .semicolon ';', .blank] (by decide) _
      have ends (behind : Text) : Apart (separator.mark :: behind) := by
        cases separator <;> exact apart_cons (by decide) (by decide) behind
      have others := ih second (fun member inside => prints member (List.mem_cons_of_mem _ inside))
        rest apart
      have whole := (prints first List.mem_cons_self).append (ends _) (glue.append others)
      simpa [listOf, yield_memberList, furtherYield, separatorLeaf, Text.joined_cons, Token.bare,
        Token.spelt] using whole

theorem exists_members (members : List (Derivation (.nonterminal (.member separator))))
    (prints : ∀ member ∈ members, member.PrintsAs member.record.render) :
    ∃ tree : Derivation (.nonterminal (.members separator)),
      tree.record = members.map record ∧
        tree.PrintsAs (Text.joined [separator.mark, ' '] (members.map fun member =>
          LabelledText.render member.record)) := by
  cases members with
  | nil =>
      refine ⟨.node (.noMembers separator) (.cons (.node .empty .nil) .nil), rfl, ?_⟩
      exact fun rest _ => Spells.nil rest
  | cons first others =>
      refine ⟨.node (.membersBare separator) (.cons (listOf first others) .nil), ?_, ?_⟩
      · exact record_listOf first others
      · intro rest apart
        simpa using printsAs_listOf first others prints rest apart

end Members

theorem record_modeList (items : List ModeItem) :
    (modeList items).record = items.map (·.1) := by
  have further (start : Derivation (.nonterminal .modes)) :
      (items.foldl (fun list item =>
        Derivation.node (.moreModes item.1) (.cons list (.cons item.2 .nil))) start).record =
        (start.record : List Mode) ++ items.map (·.1) := by
    induction items generalizing start with
    | nil => simp
    | cons item items ih => rw [List.foldl_cons, ih]; simp
  exact further _

theorem exists_modes (modes : List Mode) :
    ∃ tree : Derivation (.nonterminal .modes), tree.record = modes ∧
      tree.PrintsAs (modes.flatMap fun mode => ' ' :: mode.text) := by
  let item (mode : Mode) : ModeItem :=
    ⟨mode, .keyword mode.word⟩
  refine ⟨modeList (modes.map item), by simp [record_modeList, item, Function.comp_def], ?_⟩
  rw [PrintsAs, yield_modeList]
  intro rest apart
  induction modes with
  | nil => exact Spells.nil rest
  | cons mode modes ih =>
      have word : Prints mode.text [(.reserved mode.word, mode.word.text)] := by
        have same : mode.text = mode.word.text := by cases mode <;> rfl
        rw [same]
        exact (form_reserved mode.word).prints
      have ends : Apart ((modes.flatMap fun mode => ' ' :: mode.text) ++ rest) := by
        cases modes with
        | nil => exact apart
        | cons next modes => exact apart_cons (by decide) (by decide) _
      exact (spells_of_glue [.blank] (by decide) _).append (word.append ends ih)

section Types

/-- The canonical text of a type spells the tokens of this derivation of it. -/
def Canonical (type : Derivation (.nonterminal .datatype)) : Prop :=
  type.PrintsAs type.record.text

theorem exists_name {name : Text} (identifier : Form .identifier name) :
    ∃ type : Derivation (.nonterminal .datatype), type.record.text = name ∧ type.Canonical :=
  ⟨.node .typeName (.cons (.bare .identifier name) .nil), rfl, identifier.prints⟩

theorem exists_wrapped (wrapper : Wrapper) {inner : Derivation (.nonterminal .datatype)}
    (canonical : inner.Canonical) :
    ∃ type : Derivation (.nonterminal .datatype),
      type.record.text = wrapper.word.text ++ ' ' :: inner.record.text ∧ type.Canonical := by
  refine ⟨.node (.wrapped wrapper) (.cons (.keyword wrapper.word) (.cons inner .nil)), rfl, ?_⟩
  intro rest apart
  have behind := (spells_of_glue [.blank] (by decide) _).append (canonical rest apart)
  have whole := (form_reserved wrapper.word).prints.append (apart_cons (by decide) (by decide) _)
    behind
  exact whole.of_eq rfl (by simp [speltTokens, Token.bare, Token.spelt])

theorem exists_compound (compound : Compound)
    (members : List (Derivation (.nonterminal (.member .semicolon))))
    (prints : ∀ member ∈ members, member.PrintsAs member.record.render) :
    ∃ type : Derivation (.nonterminal .datatype),
      type.record.text = Text.braced compound.word.text
        ((members.map record).map LabelledText.render) ∧ type.Canonical := by
  obtain ⟨body, record, bodyPrints⟩ := exists_members members prints
  let type : Derivation (.nonterminal .datatype) := .node (.compound compound) (.cons
    (.keyword compound.word) (.cons (.bare .leftBrace ['{'])
      (.cons body (.cons (.bare .rightBrace ['}']) .nil))))
  have text : type.record.text = Text.braced compound.word.text
      ((members.map Derivation.record).map LabelledText.render) := by
    rw [← record]
    rfl
  refine ⟨type, text, fun rest apart => ?_⟩
  have word := (form_reserved compound.word).prints
  rw [text]
  cases members with
  | nil =>
      have whole := word.append (apart_cons (by decide) (by decide) _)
        (spells_of_glue [.blank, .mark .leftBrace '{', .mark .rightBrace '}'] (by decide)
          rest)
      have nothing := (bodyPrints rest apart).tokens_nil
      exact whole.of_eq rfl (by simp [type, nothing, speltTokens, Token.bare, Token.spelt])
  | cons first others =>
      have closing := spells_of_glue [.blank, .mark .rightBrace '}'] (by decide) rest
      have inside := (bodyPrints _ (apart_cons (by decide) (by decide) _)).append closing
      have opening := spells_of_glue [.blank, .mark .leftBrace '{', .blank] (by decide)
      have whole := word.append (apart_cons (by decide) (by decide) _)
        ((opening _).append inside)
      refine whole.of_eq ?_ ?_
      · simp [Text.braced, Function.comp_def, Separator.mark]
      · simp [type, speltTokens, Token.bare, Token.spelt]

theorem exists_func {signature : Derivation (.nonterminal .signature)}
    (prints : signature.PrintsAs signature.record.render) :
    ∃ type : Derivation (.nonterminal .datatype),
      type.record.text = "func ".toList ++ SignatureText.render signature.record ∧
        type.Canonical := by
  let type : Derivation (.nonterminal .datatype) :=
    .node .funcType (.cons (.keyword .funcWord)
      (.cons signature .nil))
  have text : type.record.text = "func ".toList ++ SignatureText.render signature.record := rfl
  have keyword : "func ".toList = Reserved.funcWord.text ++ spelling [.blank] := by decide
  refine ⟨type, text, fun rest apart => ?_⟩
  have behind := (spells_of_glue [.blank] (by decide) _).append (prints rest apart)
  have whole := (form_reserved .funcWord).prints.append (apart_cons (by decide) (by decide) _) behind
  refine whole.of_eq (by rw [text, keyword, List.append_assoc]) ?_
  simp [type, speltTokens, Token.bare, Token.spelt]

theorem exists_labelled (separator : Separator) {label : Text} (form : LabelForm)
    (spelt : Form form.kind label) {type : Derivation (.nonterminal .datatype)}
    (canonical : type.Canonical) :
    ∃ member : Derivation (.nonterminal (.member separator)),
      member.record = ⟨some label, type.record.text⟩ ∧ member.PrintsAs member.record.render := by
  let member : Derivation (.nonterminal (.member separator)) :=
    .node (.labelledMember separator) (.cons
      (.node (.label form) (.cons (.bare form.kind label) .nil))
      (.cons (.bare .colon [':']) (.cons type .nil)))
  have shape : member.record = ⟨some label, type.record.text⟩ := rfl
  refine ⟨member, shape, fun rest apart => ?_⟩
  rw [shape]
  have behind := (spells_of_glue [.blank, .mark .colon ':', .blank] (by decide) _).append
    (canonical rest apart)
  have whole := spelt.prints.append (apart_cons (by decide) (by decide) _) behind
  exact whole.of_eq (by simp [LabelledText.render])
    (by simp [member, speltTokens, Token.bare, Token.spelt])

theorem exists_bare (separator : Separator) {type : Derivation (.nonterminal .datatype)}
    (canonical : type.Canonical) :
    ∃ member : Derivation (.nonterminal (.member separator)),
      member.record = ⟨none, type.record.text⟩ ∧ member.PrintsAs member.record.render := by
  refine ⟨.node (.bareMember separator) (.cons type .nil), rfl, fun rest apart => ?_⟩
  exact (canonical rest apart).of_eq rfl (by simp)

theorem exists_signature (args results : List (Derivation (.nonterminal (.member .comma))))
    (modes : List Mode) (printArgs : ∀ member ∈ args, member.PrintsAs member.record.render)
    (printResults : ∀ member ∈ results, member.PrintsAs member.record.render) :
    ∃ signature : Derivation (.nonterminal .signature),
      signature.record = ⟨args.map record, results.map record, modes⟩ ∧
        signature.PrintsAs signature.record.render := by
  obtain ⟨argList, argRecord, argPrints⟩ := exists_members args printArgs
  obtain ⟨resultList, resultRecord, resultPrints⟩ := exists_members results printResults
  obtain ⟨modeList, modeRecord, modePrints⟩ := exists_modes modes
  let signature : Derivation (.nonterminal .signature) :=
    .node .signature (.cons (.bare .leftParen ['(']) (.cons argList
      (.cons (.bare .rightParen [')']) (.cons (.bare .arrow ['-', '>'])
        (.cons (.bare .leftParen ['(']) (.cons resultList
          (.cons (.bare .rightParen [')']) (.cons modeList .nil))))))))
  have shape : signature.record = ⟨args.map record, results.map record, modes⟩ := by
    rw [← argRecord, ← resultRecord, ← modeRecord]
    rfl
  refine ⟨signature, shape, fun rest apart => ?_⟩
  have ends (text : Text) : Apart (')' :: text) := apart_cons (by decide) (by decide) text
  have closing := (spells_of_glue [.mark .rightParen ')'] (by decide) _).append
    (modePrints rest apart)
  have second := (resultPrints _ (ends _)).append closing
  have between := (spells_of_glue [.mark .rightParen ')', .blank, .arrow, .blank,
    .mark .leftParen '('] (by decide) _).append second
  have first := (argPrints _ (ends _)).append between
  have whole := (spells_of_glue [.mark .leftParen '('] (by decide) _).append first
  refine whole.of_eq ?_ ?_
  · simp [shape, SignatureText.render, Function.comp_def, Separator.mark]
  · simp [signature, speltTokens, Token.bare, Token.spelt]

end Types

end Derivation

section Trees

variable {all : List Token}

mutual

/-- A type without service types, whose names and labels are spelt like tokens, has a derivation from
its canonical text. -/
theorem Datatype.exists_canonical (spelt : ∀ token ∈ all, Form token.kind token.text) :
    (type : Datatype) → type.WrittenIn all → type.hasService = false →
      ∃ tree : Derivation (.nonterminal .datatype),
        tree.record.text = type.render ∧ tree.Canonical
  | .name _, ⟨token, member, identifier, same⟩, _ => by
      have form := spelt token member
      rw [identifier, same] at form
      exact Derivation.exists_name form
  | .opt inner, written, free => by
      obtain ⟨tree, text, canonical⟩ := inner.exists_canonical spelt written free
      obtain ⟨other, whole, wrapped⟩ := Derivation.exists_wrapped .opt canonical
      exact ⟨other, by rw [whole, text]; rfl, wrapped⟩
  | .vec inner, written, free => by
      obtain ⟨tree, text, canonical⟩ := inner.exists_canonical spelt written free
      obtain ⟨other, whole, wrapped⟩ := Derivation.exists_wrapped .vec canonical
      exact ⟨other, by rw [whole, text]; rfl, wrapped⟩
  | .record fields, written, free => by
      obtain ⟨members, records, prints⟩ := fields_exist_canonical spelt .semicolon fields written free
      obtain ⟨tree, text, canonical⟩ := Derivation.exists_compound .record members prints
      exact ⟨tree, by rw [text, records]; rfl, canonical⟩
  | .variant fields, written, free => by
      obtain ⟨members, records, prints⟩ := fields_exist_canonical spelt .semicolon fields written free
      obtain ⟨tree, text, canonical⟩ := Derivation.exists_compound .variant members prints
      exact ⟨tree, by rw [text, records]; rfl, canonical⟩
  | .func signature, written, free => by
      obtain ⟨inner, record, prints⟩ := signature.exists_canonical spelt written free
      obtain ⟨tree, text, canonical⟩ := Derivation.exists_func prints
      exact ⟨tree, by rw [text, record]; rfl, canonical⟩

theorem fields_exist_canonical (spelt : ∀ token ∈ all, Form token.kind token.text)
    (separator : Separator) : (fields : List Field) → FieldsWrittenIn all fields →
      haveService fields = false →
      ∃ members : List (Derivation (.nonterminal (.member separator))),
        members.map Derivation.record = fieldTexts fields ∧
          ∀ member ∈ members, member.PrintsAs member.record.render
  | [], _, _ => ⟨[], rfl, by simp⟩
  | .mk label type :: rest, ⟨labelWritten, written, restWritten⟩, free => by
      simp only [haveService, Bool.or_eq_false_iff] at free
      obtain ⟨tree, text, canonical⟩ := type.exists_canonical spelt written free.1
      obtain ⟨members, records, prints⟩ :=
        fields_exist_canonical spelt separator rest restWritten free.2
      have first : ∃ member : Derivation (.nonterminal (.member separator)),
          member.record = ⟨label, type.render⟩ ∧ member.PrintsAs member.record.render := by
        rw [← text]
        cases label with
        | none => exact Derivation.exists_bare separator canonical
        | some label =>
            obtain ⟨token, member, ⟨form, kind⟩, same⟩ := labelWritten label rfl
            have labelSpelt := spelt token member
            rw [kind, same] at labelSpelt
            exact Derivation.exists_labelled separator form labelSpelt canonical
      obtain ⟨member, record, memberPrints⟩ := first
      exact ⟨member :: members, by simp [fieldTexts, record, records],
        List.forall_mem_cons.mpr ⟨memberPrints, prints⟩⟩

theorem Signature.exists_canonical (spelt : ∀ token ∈ all, Form token.kind token.text) :
    (signature : Signature) → signature.WrittenIn all → signature.hasService = false →
      ∃ tree : Derivation (.nonterminal .signature),
        tree.record = signature.toText ∧ tree.PrintsAs tree.record.render
  | .mk args results modes, ⟨argsWritten, resultsWritten⟩, free => by
      simp only [Signature.hasService, Bool.or_eq_false_iff] at free
      obtain ⟨argTrees, argRecords, argPrints⟩ :=
        fields_exist_canonical spelt .comma args argsWritten free.1
      obtain ⟨resultTrees, resultRecords, resultPrints⟩ :=
        fields_exist_canonical spelt .comma results resultsWritten free.2
      obtain ⟨tree, record, prints⟩ :=
        Derivation.exists_signature argTrees resultTrees modes argPrints resultPrints
      exact ⟨tree, by rw [record, argRecords, resultRecords]; rfl, prints⟩

end

end Trees

end Candid.Idl
