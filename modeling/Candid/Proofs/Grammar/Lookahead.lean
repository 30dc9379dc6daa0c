import Candid.Idl.Interface
import Candid.Proofs.Grammar.Written

/-!
# What a reader looks at

A reader goes through its tokens from the front and looks at no token behind the one that it refuses.
Two token lists with a common front are therefore read alike as long as a common token is left: both
readings succeed there, or both refuse the same token. The fuel may differ, if both times there is
enough of it for the common front.
-/

set_option autoImplicit false

namespace Candid.Idl

/-- Nothing of the outcome lies in front of these tokens: what is left and what is refused are ends of
them. -/
abbrev Past {α : Type} (rest : List Token) : Except Unread (α × List Token) → Prop :=
  Keeps rest fun read => read.2 <:+ rest

/-- Two outcomes of reading a common front with different tokens behind it. Both leave or refuse the
same end of the front, of a length up to the bound, or the first has used the front up. -/
inductive Alike {α : Type} (rest other : List Token) (bound : Nat) :
    Except Unread (α × List Token) → Except Unread (α × List Token) → Prop where
  | read {value another : α} {left : List Token} (some : left ≠ []) (short : left.length ≤ bound) :
      Alike rest other bound (.ok (value, left ++ rest)) (.ok (another, left ++ other))
  | refused {left : List Token} (some : left ≠ []) (short : left.length ≤ bound) :
      Alike rest other bound (.error (left ++ rest)) (.error (left ++ other))
  | past {outcome otherOutcome : Except Unread (α × List Token)} (ends : Past rest outcome) :
      Alike rest other bound outcome otherOutcome

theorem past_of_reads {α : Type} {good : α → Prop} {rest : List Token}
    {outcome : Except Unread (α × List Token)} (reads : rest <:+ rest → Reads rest good outcome) :
    Past rest outcome := by
  have kept := reads (List.suffix_refl rest)
  cases outcome with
  | error unread => exact kept
  | ok read => exact kept.2

theorem past_of_suffix {α : Type} {rest behind : List Token}
    {outcome : Except Unread (α × List Token)} (ending : behind <:+ rest)
    (ends : Past behind outcome) : Past rest outcome := by
  cases outcome with
  | error unread => exact List.IsSuffix.trans ends ending
  | ok read => exact List.IsSuffix.trans ends ending

namespace Alike

variable {α β : Type} {rest other left : List Token} {bound : Nat}
  {outcome otherOutcome : Except Unread (α × List Token)}

theorem mono {greater : Nat} (alike : Alike rest other bound outcome otherOutcome)
    (fits : bound ≤ greater) : Alike rest other greater outcome otherOutcome := by
  cases alike with
  | read some short => exact .read some (Nat.le_trans short fits)
  | refused some short => exact .refused some (Nat.le_trans short fits)
  | past ends => exact .past ends

theorem past_of_zero (alike : Alike rest other 0 outcome otherOutcome) : Past rest outcome := by
  cases alike with
  | read some short => exact absurd (List.length_eq_zero_iff.mp (Nat.le_zero.mp short)) some
  | refused some short => exact absurd (List.length_eq_zero_iff.mp (Nat.le_zero.mp short)) some
  | past ends => exact ends

theorem again_of_error {unread : Unread} (alike : Alike rest other bound (.error unread) otherOutcome)
    (inside : ¬ unread <:+ rest) :
    ∃ left, left ++ rest = unread ∧ otherOutcome = .error (left ++ other) := by
  cases alike with
  | refused some short => exact ⟨_, rfl, rfl⟩
  | past ends => exact absurd ends inside

theorem done (value another : α) (left rest other : List Token) :
    Alike rest other left.length (.ok (value, left ++ rest)) (.ok (another, left ++ other)) := by
  cases left with
  | nil => exact .past (List.suffix_refl rest)
  | cons token left => exact .read (List.cons_ne_nil token left) (Nat.le_refl _)

theorem stop (left rest other : List Token) :
    Alike rest other left.length (.error (left ++ rest) : Except Unread (α × List Token))
      (.error (left ++ other)) := by
  cases left with
  | nil => exact .past (List.suffix_refl rest)
  | cons token left => exact .refused (List.cons_ne_nil token left) (Nat.le_refl _)

theorem bind {next following : α × List Token → Except Unread (β × List Token)}
    (first : Alike rest other bound outcome otherOutcome)
    (further : ∀ value another left rest other, left.length ≤ bound →
      Alike rest other left.length (next (value, left ++ rest)) (following (another, left ++ other))) :
    Alike rest other bound (outcome >>= next) (otherOutcome >>= following) := by
  cases first with
  | read some short => exact (further _ _ _ _ _ short).mono short
  | refused some short => exact .refused some short
  | past ends =>
      -- The first has used the front up, so of the second only what it does with `rest` matters: it
      -- is compared with itself, behind an empty front.
      cases outcome with
      | error unread => exact .past ends
      | ok read =>
          have behind := further read.1 read.1 [] read.2 [] (Nat.zero_le _)
          exact .past (past_of_suffix ends behind.past_of_zero)

theorem map {build construct : α → β} (first : Alike rest other bound outcome otherOutcome) :
    Alike rest other bound (do let (value, behind) ← outcome; pure (build value, behind))
      (do let (value, behind) ← otherOutcome; pure (construct value, behind)) :=
  first.bind fun value another left rest other _ => .done (build value) (construct another) left rest other

/-- The front of a list is looked at, and both times there is the same choice. -/
theorem choose {kind : TokenKind} {next following : List Token → Except Unread (α × List Token)}
    (found : ∀ behind rest other, behind.length ≤ left.length - 1 →
      Alike rest other behind.length (next (behind ++ rest)) (following (behind ++ other)))
    (missing : Alike rest other left.length outcome otherOutcome) :
    Alike rest other left.length
      (match Idl.expect kind (left ++ rest) with
        | .ok behind => next behind
        | .error _ => outcome)
      (match Idl.expect kind (left ++ other) with
        | .ok behind => following behind
        | .error _ => otherOutcome) := by
  cases left with
  | nil =>
      refine .past ?_
      cases rest with
      | nil => exact missing.past_of_zero
      | cons token behind =>
          by_cases fits : token.kind = kind
          · have ends := (found [] behind [] (Nat.zero_le _)).past_of_zero
            simp only [List.nil_append, Idl.expect, if_pos fits]
            exact past_of_suffix (List.suffix_cons token behind) ends
          · simp only [List.nil_append, Idl.expect, if_neg fits]
            exact missing.past_of_zero
  | cons token behind =>
      by_cases fits : token.kind = kind
      · simp only [List.cons_append, Idl.expect, if_pos fits]
        exact (found behind rest other (by simp)).mono (by simp)
      · simp only [List.cons_append, Idl.expect, if_neg fits]
        exact missing

theorem expect {kind : TokenKind} {next following : List Token → Except Unread (α × List Token)}
    (further : ∀ behind rest other, behind.length ≤ left.length - 1 →
      Alike rest other behind.length (next (behind ++ rest)) (following (behind ++ other))) :
    Alike rest other left.length (Idl.expect kind (left ++ rest) >>= next)
      (Idl.expect kind (left ++ other) >>= following) := by
  have refuses (tokens : List Token) (step : List Token → Except Unread (α × List Token)) :
      Idl.expect kind tokens >>= step =
        match Idl.expect kind tokens with
        | .ok behind => step behind
        | .error _ => .error tokens := by
    cases tokens with
    | nil => rfl
    | cons token behind =>
        by_cases fits : token.kind = kind
        · simp [Idl.expect, fits, Bind.bind, Except.bind]
        · simp [Idl.expect, fits, Bind.bind, Except.bind]
  rw [refuses, refuses]
  exact choose further (stop left rest other)

end Alike

/-- With enough fuel both times, four for each token of a common front and some more, the front is read
alike. -/
def ReadAlike {α : Type} (more : Nat) (reader : Nat → List Token → Except Unread (α × List Token))
    (fuel spare : Nat) : Prop :=
  ∀ shared rest other, shared.length = 0 ∨ 4 * shared.length + more ≤ min fuel spare →
    Alike rest other shared.length (reader fuel (shared ++ rest)) (reader spare (shared ++ other))

section ReadAlike

variable {α : Type} {more fuel spare : Nat}
  {reader : Nat → List Token → Except Unread (α × List Token)}

theorem readAlike_of_empty (none : min fuel spare = 0) (past : ∀ rest, Past rest (reader fuel rest)) :
    ReadAlike more reader fuel spare := by
  intro shared rest other enough
  have empty : shared = [] := List.length_eq_zero_iff.mp (by omega)
  subst empty
  exact .past (past rest)

theorem readAlike_of_cons (past : ∀ rest, Past rest (reader fuel rest))
    (solid : ∀ token left rest other, 4 * (left.length + 1) + more ≤ min fuel spare →
      Alike rest other (left.length + 1) (reader fuel (token :: (left ++ rest)))
        (reader spare (token :: (left ++ other)))) : ReadAlike more reader fuel spare := by
  intro shared rest other enough
  cases shared with
  | nil => exact .past (past rest)
  | cons token left =>
      rw [List.length_cons] at enough
      exact solid token left rest other (by omega)

end ReadAlike

structure ReadersAlike (fuel spare : Nat) : Prop where
  datatype : ReadAlike 1 readDatatype fuel spare
  wrapped : ReadAlike 2 readWrapped fuel spare
  field : ReadAlike 2 readField fuel spare
  fields (separator closing : TokenKind) : ReadAlike 3 (readFields separator closing) fuel spare
  signature : ReadAlike 0 readSignature fuel spare
  members : ReadAlike 0 readMembers fuel spare

section Step

variable {fuel spare : Nat}

theorem alike_datatype_step (inner : ReadersAlike fuel spare) :
    ReadAlike 1 readDatatype (fuel + 1) (spare + 1) := by
  refine readAlike_of_cons (fun rest => past_of_reads (readers_keep rest _).datatype)
    fun token left rest other enough => ?_
  obtain ⟨kind, text, line, offset⟩ := token
  cases kind with
  | identifier => exact (Alike.done _ _ left rest other).mono (by omega)
  | reserved word =>
      cases word with
      | optWord | vecWord =>
          simp only [readDatatype]
          exact ((inner.wrapped left rest other (by omega)).map).mono (by omega)
      | recordWord | variantWord =>
          simp only [readDatatype]
          refine Alike.mono (Alike.expect fun start rest other short => ?_) (Nat.le_succ _)
          exact (inner.fields .semicolon .rightBrace start rest other (by omega)).map
      | funcWord =>
          simp only [readDatatype]
          exact ((inner.signature left rest other (by omega)).map).mono (by omega)
      | serviceWord =>
          simp only [readDatatype]
          refine Alike.mono (Alike.expect fun start rest other short => ?_) (Nat.le_succ _)
          exact (inner.members start rest other (by omega)).map
      | _ => exact .stop (_ :: left) rest other
  | _ => exact .stop (_ :: left) rest other

theorem alike_wrapped_step (inner : ReadersAlike fuel spare) :
    ReadAlike 2 readWrapped (fuel + 1) (spare + 1) := by
  refine readAlike_of_cons (fun rest => past_of_reads (readers_keep rest _).wrapped)
    fun token left rest other enough => ?_
  have bare := inner.datatype (token :: left) rest other (by rw [List.length_cons]; omega)
  obtain ⟨kind, text, line, offset⟩ := token
  cases kind with
  | leftAngle =>
      simp only [readWrapped]
      refine Alike.mono ?_ (Nat.le_succ _)
      refine (inner.datatype left rest other (by omega)).bind
        fun type another behind rest other short => ?_
      exact Alike.expect fun behind rest other _ => .done _ _ behind rest other
  | _ => exact bare

theorem alike_labelled (inner : ReadersAlike fuel spare) (label : Text) (left rest other : List Token)
    (enough : 4 * left.length ≤ min fuel spare) :
    Alike rest other left.length
      (do let start ← expect .colon (left ++ rest)
          let (type, behind) ← readDatatype fuel start
          pure (Field.mk (some label) type, behind))
      (do let start ← expect .colon (left ++ other)
          let (type, behind) ← readDatatype spare start
          pure (Field.mk (some label) type, behind)) :=
  Alike.expect fun start rest other short => (inner.datatype start rest other (by omega)).map

theorem alike_unlabelled (inner : ReadersAlike fuel spare) (left rest other : List Token)
    (enough : 4 * left.length + 1 ≤ min fuel spare) :
    Alike rest other left.length
      (do let (type, behind) ← readDatatype fuel (left ++ rest)
          pure (Field.mk none type, behind))
      (do let (type, behind) ← readDatatype spare (left ++ other)
          pure (Field.mk none type, behind)) :=
  (inner.datatype left rest other (.inr enough)).map

theorem alike_field_step (inner : ReadersAlike fuel spare) :
    ReadAlike 2 readField (fuel + 1) (spare + 1) := by
  refine readAlike_of_cons (fun rest => past_of_reads (readers_keep rest _).field)
    fun token left rest other enough => ?_
  have separated (label : Text) :=
    (alike_labelled inner label left rest other (by omega)).mono (Nat.le_succ _)
  have bare := alike_unlabelled inner (token :: left) rest other (by rw [List.length_cons]; omega)
  obtain ⟨kind, text, line, offset⟩ := token
  cases kind with
  | identifier =>
      cases left with
      | nil =>
          -- The name is the last common token: whether a colon follows is seen behind the front.
          refine .past ?_
          obtain ⟨fuel, rfl⟩ := Nat.exists_eq_add_one_of_ne_zero (by omega : fuel ≠ 0)
          cases rest with
          | nil => exact List.suffix_refl []
          | cons mark behind =>
              obtain ⟨markKind, mark, markLine, markOffset⟩ := mark
              cases markKind with
              | colon =>
                  refine past_of_suffix (List.suffix_cons _ behind) ?_
                  have type := (readers_keep behind (fuel + 1)).datatype (List.suffix_refl behind)
                  exact type.bind fun _ read => read.2
              | _ => exact List.suffix_refl _
      | cons mark left =>
          obtain ⟨markKind, mark, markLine, markOffset⟩ := mark
          cases markKind with
          | colon => exact separated text
          | _ => exact bare
  | text => exact separated text
  | number => exact separated text
  | _ => exact bare

theorem alike_fields_step (inner : ReadersAlike fuel spare) (separator closing : TokenKind) :
    ReadAlike 3 (readFields separator closing) (fuel + 1) (spare + 1) := by
  intro shared rest other enough
  unfold readFields
  refine Alike.choose (fun behind rest other short => ?_) ?_
  · exact (Alike.done _ _ behind rest other)
  · refine (inner.field shared rest other (by omega)).bind fun field another left rest other short => ?_
    refine Alike.choose (fun behind rest other shorter => ?_) ?_
    · exact (inner.fields separator closing behind rest other (by omega)).map
    · exact Alike.expect fun behind rest other _ => .done _ _ behind rest other

theorem alike_modes {α : Type} (value another : α) (left rest other : List Token) :
    Alike rest other left.length (.ok (value, (readModes (left ++ rest)).2))
      (.ok (another, (readModes (left ++ other)).2)) := by
  induction left with
  | nil => exact .past (suffix_of_readModes (List.suffix_refl rest))
  | cons token left ih =>
      obtain ⟨kind, text, line, offset⟩ := token
      cases kind with
      | reserved word =>
          cases word with
          | queryWord | compositeQueryWord | onewayWord => exact ih.mono (Nat.le_succ _)
          | _ => exact .done value another (_ :: left) rest other
      | _ => exact .done value another (_ :: left) rest other

theorem alike_signature_step (inner : ReadersAlike fuel spare) :
    ReadAlike 0 readSignature (fuel + 1) (spare + 1) := by
  intro shared rest other enough
  unfold readSignature
  refine Alike.expect fun start rest other short => ?_
  refine (inner.fields .comma .rightParen start rest other (by omega)).bind
    fun args another left rest other short => ?_
  refine Alike.expect fun left rest other shorter => ?_
  refine Alike.expect fun start rest other shortest => ?_
  refine (inner.fields .comma .rightParen start rest other (by omega)).bind
    fun results another left rest other short => ?_
  exact alike_modes _ _ left rest other

theorem alike_label (left rest other : List Token) :
    Alike rest other left.length (readLabel (left ++ rest)) (readLabel (left ++ other)) := by
  cases left with
  | nil => exact .past (past_of_reads reads_readLabel)
  | cons token left =>
      obtain ⟨kind, text, line, offset⟩ := token
      cases kind with
      | identifier | text | number => exact (Alike.done _ _ left rest other).mono (Nat.le_succ _)
      | _ => exact .stop (_ :: left) rest other

theorem alike_method (inner : ReadersAlike fuel spare) (label another : Text)
    (start rest other : List Token)
    (enough : start.length = 0 ∨ 4 * start.length ≤ min fuel spare) :
    Alike rest other start.length
      (match start ++ rest with
        | ⟨.identifier, typeName, _, offset⟩ :: rest =>
          Except.ok (Member.referenced label typeName offset, rest)
        | _ => do
          let (signature, behind) ← readSignature fuel (start ++ rest)
          pure (Member.declared label signature, behind))
      (match start ++ other with
        | ⟨.identifier, typeName, _, offset⟩ :: rest =>
          Except.ok (Member.referenced another typeName offset, rest)
        | _ => do
          let (signature, behind) ← readSignature spare (start ++ other)
          pure (Member.declared another signature, behind)) := by
  have declared : Alike rest other start.length
      (do let (signature, behind) ← readSignature fuel (start ++ rest)
          pure (Member.declared label signature, behind))
      (do let (signature, behind) ← readSignature spare (start ++ other)
          pure (Member.declared another signature, behind)) :=
    (inner.signature start rest other enough).map
  cases start with
  | nil =>
      refine .past ?_
      split
      · rename_i name line offset behind shape
        rw [List.nil_append] at shape
        rw [shape]
        exact List.suffix_cons _ behind
      · exact declared.past_of_zero
  | cons token left =>
      obtain ⟨kind, text, line, offset⟩ := token
      cases kind with
      | identifier => exact (Alike.done _ _ left rest other).mono (Nat.le_succ _)
      | _ => exact declared

theorem alike_members_step (inner : ReadersAlike fuel spare) :
    ReadAlike 0 readMembers (fuel + 1) (spare + 1) := by
  intro shared rest other enough
  unfold readMembers
  refine Alike.choose (fun behind rest other short => ?_) ?_
  · exact (Alike.done _ _ behind rest other)
  · refine (alike_label shared rest other).bind fun label another left rest other short => ?_
    refine Alike.expect fun start rest other shorter => ?_
    refine (alike_method inner label another start rest other (by omega)).bind
      fun member another left rest other shortest => ?_
    refine Alike.expect fun behind rest other last => ?_
    exact (inner.members behind rest other (by omega)).map

theorem readersAlike (fuel spare : Nat) : ReadersAlike fuel spare := by
  have empty (fuel spare : Nat) (none : min fuel spare = 0) : ReadersAlike fuel spare := {
    datatype := readAlike_of_empty none fun rest => past_of_reads (readers_keep rest fuel).datatype
    wrapped := readAlike_of_empty none fun rest => past_of_reads (readers_keep rest fuel).wrapped
    field := readAlike_of_empty none fun rest => past_of_reads (readers_keep rest fuel).field
    fields := fun separator closing =>
      readAlike_of_empty none fun rest => past_of_reads (readers_keep rest fuel).fields
    signature := readAlike_of_empty none fun rest => past_of_reads (readers_keep rest fuel).signature
    members := readAlike_of_empty none fun rest => past_of_reads (readers_keep rest fuel).members }
  -- A reader that runs out of either fuel had an empty front, by the condition on both.
  induction fuel generalizing spare with
  | zero => exact empty 0 spare (by simp)
  | succ fuel ih =>
      cases spare with
      | zero => exact empty (fuel + 1) 0 (by simp)
      | succ spare =>
          have inner := ih spare
          exact {
            datatype := alike_datatype_step inner
            wrapped := alike_wrapped_step inner
            field := alike_field_step inner
            fields := alike_fields_step inner
            signature := alike_signature_step inner
            members := alike_members_step inner }

end Step

section Document

variable {fuel spare : Nat}

def finished {α : Type} (outcome : Except Unread α) : Except Unread (Unit × List Token) :=
  outcome.map fun _ => ((), [])

theorem finished_bind {α β : Type} (outcome : Except Unread α) (next : α → Except Unread β) :
    finished (outcome >>= next) = outcome >>= fun value => finished (next value) := by
  cases outcome <;> rfl

theorem finished_map {α β : Type} (outcome : Except Unread α) (build : α → β) :
    finished (do let value ← outcome; pure (build value)) = finished outcome := by
  cases outcome <;> rfl

theorem past_finished {α : Type} {good : α → Prop} {rest : List Token} {outcome : Except Unread α}
    (kept : rest <:+ rest → Keeps rest good outcome) : Past rest (finished outcome) := by
  have ends := kept (List.suffix_refl rest)
  cases outcome with
  | error unread => exact ends
  | ok value => exact List.nil_suffix

theorem alike_actorType (left rest other : List Token)
    (enough : left.length = 0 ∨ 4 * left.length ≤ min fuel spare) :
    Alike rest other left.length (readActorType fuel (left ++ rest))
      (readActorType spare (left ++ other)) := by
  cases left with
  | nil => exact .past (past_of_reads reads_readActorType)
  | cons token left =>
      rw [List.length_cons] at enough
      obtain ⟨kind, text, line, offset⟩ := token
      cases kind with
      | leftBrace =>
          refine Alike.mono ?_ (Nat.le_succ _)
          exact ((readersAlike fuel spare).members left rest other (by omega)).map
      | identifier => exact (Alike.done _ _ left rest other).mono (Nat.le_succ _)
      | _ => exact .stop (_ :: left) rest other

theorem alike_bare_actor (left rest other : List Token)
    (enough : left.length = 0 ∨ 4 * left.length ≤ min fuel spare) :
    Alike rest other left.length
      (do let (type, behind) ← readActorType fuel (left ++ rest)
          pure (Actor.mk [] type, behind))
      (do let (type, behind) ← readActorType spare (left ++ other)
          pure (Actor.mk [] type, behind)) :=
  (alike_actorType left rest other enough).map

theorem alike_actor (left rest other : List Token)
    (enough : left.length = 0 ∨ 4 * left.length ≤ min fuel spare) :
    Alike rest other left.length (readActor fuel (left ++ rest))
      (readActor spare (left ++ other)) := by
  have bare := alike_bare_actor left rest other enough
  cases left with
  | nil => exact .past (past_of_reads reads_readActor)
  | cons token left =>
      rw [List.length_cons] at enough
      obtain ⟨kind, text, line, offset⟩ := token
      cases kind with
      | leftParen =>
          refine Alike.mono ?_ (Nat.le_succ _)
          refine ((readersAlike fuel spare).fields .comma .rightParen left rest other (by omega)).bind
            fun init another left rest other short => ?_
          refine Alike.expect fun start rest other shorter => ?_
          exact (alike_actorType start rest other (by omega)).map
      | _ => exact bare

theorem alike_end (left rest other : List Token) :
    Alike rest other left.length (finished (readEnd (left ++ rest)))
      (finished (readEnd (left ++ other))) := by
  cases left with
  | nil => exact .past (past_finished keeps_readEnd)
  | cons token left =>
      obtain ⟨kind, text, line, offset⟩ := token
      cases kind with
      | semicolon =>
          cases left with
          | nil =>
              refine .past ?_
              cases rest with
              | nil => exact List.nil_suffix
              | cons next behind => exact List.suffix_refl _
          | cons next left => exact (Alike.stop (next :: left) rest other).mono (Nat.le_succ _)
      | _ => exact .stop (_ :: left) rest other

theorem alike_service_behind (left rest other : List Token)
    (enough : left.length = 0 ∨ 4 * left.length ≤ min fuel spare) :
    Alike rest other left.length
      (finished do
        let behind ← expect .colon (left ++ rest)
        let (actor, behind) ← readActor fuel behind
        readEnd behind
        pure actor)
      (finished do
        let behind ← expect .colon (left ++ other)
        let (actor, behind) ← readActor spare behind
        readEnd behind
        pure actor) := by
  simp only [finished_bind]
  refine Alike.expect fun start rest other shorter => ?_
  refine (alike_actor start rest other (by omega)).bind fun actor another behind rest other _ => ?_
  have ended := alike_end behind rest other
  rw [← finished_map (readEnd _) fun _ => actor, ← finished_map (readEnd _) fun _ => another,
    finished_bind, finished_bind] at ended
  exact ended

theorem alike_service (left rest other : List Token)
    (enough : left.length = 0 ∨ 4 * left.length ≤ min fuel spare) :
    Alike rest other left.length (finished (readService fuel (left ++ rest)))
      (finished (readService spare (left ++ other))) := by
  cases left with
  | nil => exact .past (past_finished (keeps_readService fuel))
  | cons token left =>
      have here := alike_service_behind (token :: left) rest other enough
      rw [List.length_cons] at enough
      obtain ⟨kind, text, line, offset⟩ := token
      cases kind with
      | identifier =>
          exact (alike_service_behind left rest other (by omega)).mono (Nat.le_succ _)
      | _ => exact here

def entriesBehind (fuel : Nat) (tokens : List Token) : Except Unread (Unit × List Token) :=
  (readEntries fuel tokens).behind.map fun behind => ((), behind)

theorem entriesBehind_of_entry {tokens : List Token} {outcome : Except Unread (Entry × List Token)}
    (begins : readEntry? fuel tokens = some outcome) :
    entriesBehind (fuel + 1) tokens = outcome >>= fun read => entriesBehind fuel read.2 := by
  rw [entriesBehind, readEntries, begins]
  cases outcome <;> rfl

theorem past_entries (fuel : Nat) (rest : List Token) : Past rest (entriesBehind fuel rest) := by
  have kept := (keeps_readEntries fuel (List.suffix_refl rest)).2
  unfold entriesBehind
  cases result : (readEntries fuel rest).behind with
  | error unread =>
      rw [result] at kept
      exact kept
  | ok behind =>
      rw [result] at kept
      exact kept

theorem alike_definition (left rest other : List Token)
    (enough : left.length = 0 ∨ 4 * left.length ≤ min fuel spare) :
    Alike rest other left.length
      (match left ++ rest with
        | ⟨.identifier, name, _, offset⟩ :: rest => do
          let start ← expect .equals rest
          let (type, behind) ← readDatatype fuel start
          let behind ← expect .semicolon behind
          pure (Entry.definition ⟨name, type, offset⟩, behind)
        | _ => .error (left ++ rest))
      (match left ++ other with
        | ⟨.identifier, name, _, offset⟩ :: rest => do
          let start ← expect .equals rest
          let (type, behind) ← readDatatype spare start
          let behind ← expect .semicolon behind
          pure (Entry.definition ⟨name, type, offset⟩, behind)
        | _ => .error (left ++ other)) := by
  have named (name another : Text) (place otherPlace : Nat) (start rest other : List Token)
      (short : start.length ≤ left.length - 1) :
      Alike rest other start.length
        (do
          let start ← expect .equals (start ++ rest)
          let (type, behind) ← readDatatype fuel start
          let behind ← expect .semicolon behind
          pure (Entry.definition ⟨name, type, place⟩, behind))
        (do
          let start ← expect .equals (start ++ other)
          let (type, behind) ← readDatatype spare start
          let behind ← expect .semicolon behind
          pure (Entry.definition ⟨another, type, otherPlace⟩, behind)) := by
    refine Alike.expect fun start rest other shorter => ?_
    refine ((readersAlike fuel spare).datatype start rest other (by omega)).bind
      fun type another behind rest other _ => ?_
    exact Alike.expect fun behind rest other _ => .done _ _ behind rest other
  cases left with
  | nil =>
      refine .past ?_
      split
      · rename_i name line offset behind shape
        rw [List.nil_append] at shape
        rw [shape]
        have ends := (named name name offset offset [] behind [] (Nat.zero_le _)).past_of_zero
        exact past_of_suffix (List.suffix_cons _ behind) ends
      · exact List.suffix_refl rest
  | cons token left =>
      obtain ⟨kind, text, line, offset⟩ := token
      cases kind with
      | identifier =>
          exact (named text text offset offset left rest other (Nat.le_refl _)).mono (Nat.le_succ _)
      | _ => exact .stop (_ :: left) rest other

theorem alike_import (left rest other : List Token) :
    Alike rest other left.length
      (match left ++ rest with
        | ⟨.text, path, _, _⟩ :: rest => do
          let behind ← expect .semicolon rest
          pure (Entry.imported path, behind)
        | _ => .error (left ++ rest))
      (match left ++ other with
        | ⟨.text, path, _, _⟩ :: rest => do
          let behind ← expect .semicolon rest
          pure (Entry.imported path, behind)
        | _ => .error (left ++ other)) := by
  have ended (path another : Text) (start rest other : List Token) :
      Alike rest other start.length
        (do let behind ← expect .semicolon (start ++ rest)
            pure (Entry.imported path, behind))
        (do let behind ← expect .semicolon (start ++ other)
            pure (Entry.imported another, behind)) :=
    Alike.expect fun behind rest other _ => .done _ _ behind rest other
  cases left with
  | nil =>
      refine .past ?_
      split
      · rename_i path line offset behind shape
        rw [List.nil_append] at shape
        rw [shape]
        exact past_of_suffix (List.suffix_cons _ behind) (ended path path [] behind []).past_of_zero
      · exact List.suffix_refl rest
  | cons token left =>
      obtain ⟨kind, text, line, offset⟩ := token
      cases kind with
      | text => exact (ended text text left rest other).mono (Nat.le_succ _)
      | _ => exact .stop (_ :: left) rest other

theorem alike_entries (fuel spare : Nat) (left rest other : List Token)
    (enough : left.length = 0 ∨ 4 * left.length ≤ min fuel spare) :
    Alike rest other left.length (entriesBehind fuel (left ++ rest))
      (entriesBehind spare (left ++ other)) := by
  -- An entry costs one fuel and takes at least its keyword, which pays for four.
  induction fuel generalizing spare left rest other with
  | zero =>
      have empty : left = [] := List.length_eq_zero_iff.mp (by omega)
      subst empty
      exact .past (past_entries 0 rest)
  | succ fuel ih =>
      cases left with
      | nil => exact .past (past_entries (fuel + 1) rest)
      | cons token left =>
          rw [List.length_cons] at enough
          obtain ⟨spare, rfl⟩ := Nat.exists_eq_add_one_of_ne_zero (by omega : spare ≠ 0)
          have entry {outcome otherOutcome : Except Unread (Entry × List Token)}
              (begins : readEntry? fuel (token :: (left ++ rest)) = some outcome)
              (beginsOther : readEntry? spare (token :: (left ++ other)) = some otherOutcome)
              (alike : Alike rest other left.length outcome otherOutcome) :
              Alike rest other (left.length + 1) (entriesBehind (fuel + 1) (token :: (left ++ rest)))
                (entriesBehind (spare + 1) (token :: (left ++ other))) := by
            rw [entriesBehind_of_entry begins, entriesBehind_of_entry beginsOther]
            refine Alike.mono (alike.bind fun _ _ behind rest other short => ?_) (Nat.le_succ _)
            exact ih spare behind rest other (by omega)
          obtain ⟨kind, text, line, offset⟩ := token
          cases kind with
          | reserved word =>
              cases word with
              | typeWord => exact entry rfl rfl (alike_definition left rest other (by omega))
              | importWord => exact entry rfl rfl (alike_import left rest other)
              | _ => exact .done () () (_ :: left) rest other
          | _ => exact .done () () (_ :: left) rest other

theorem finished_readDocument (fuel : Nat) (tokens : List Token) :
    finished (readDocument fuel tokens) = entriesBehind fuel tokens >>= fun read =>
      match read.2 with
      | [] => .ok ((), [])
      | ⟨.reserved .serviceWord, _, _, _⟩ :: rest => finished (readService fuel rest)
      | unread => .error unread := by
  simp only [readDocument, entriesBehind]
  cases (readEntries fuel tokens).behind with
  | error unread => rfl
  | ok behind =>
      cases behind with
      | nil => rfl
      | cons token rest =>
          obtain ⟨kind, text, line, offset⟩ := token
          cases kind with
          | reserved word =>
              cases word with
              | serviceWord => exact finished_map (readService fuel rest) _
              | _ => rfl
          | _ => rfl

theorem alike_document (left rest other : List Token)
    (enough : left.length = 0 ∨ 4 * left.length ≤ min fuel spare) :
    Alike rest other left.length (finished (readDocument fuel (left ++ rest)))
      (finished (readDocument spare (left ++ other))) := by
  rw [finished_readDocument, finished_readDocument]
  refine (alike_entries fuel spare left rest other enough).bind fun _ _ left rest other short => ?_
  cases left with
  | nil =>
      refine .past ?_
      simp only [List.nil_append]
      split
      · exact List.suffix_refl []
      · rename_i behind
        exact past_of_suffix (List.suffix_cons _ behind) (past_finished (keeps_readService fuel))
      · exact List.suffix_refl _
  | cons token left =>
      rw [List.length_cons] at short
      obtain ⟨kind, text, line, offset⟩ := token
      cases kind with
      | reserved word =>
          cases word with
          | serviceWord => exact (alike_service left rest other (by omega)).mono (Nat.le_succ _)
          | _ => exact .stop (_ :: left) rest other
      | _ => exact .stop (_ :: left) rest other

/-- A token that is refused is refused whatever stands behind it. -/
theorem refused_again {front behind : List Token} {token : Token}
    (refused : readDocument fuel (front ++ token :: behind) = .error (token :: behind))
    (enough : 4 * (front.length + 1) ≤ min fuel spare) (other : List Token) :
    readDocument spare (front ++ token :: other) = .error (token :: other) := by
  -- The token belongs to the common front: what is refused is longer than all that is behind it.
  have alike := alike_document (front ++ [token]) behind other
    (.inr (by simpa using enough))
  simp only [List.append_assoc, List.singleton_append, refused] at alike
  obtain ⟨left, shape, again⟩ := alike.again_of_error fun ending => by
    have short := ending.length_le
    rw [List.length_cons] at short
    omega
  have shape : left ++ behind = [token] ++ behind := shape
  obtain rfl := List.append_cancel_right shape
  cases result : readDocument spare (front ++ token :: other) with
  | ok document =>
      rw [result] at again
      cases again
  | error unread =>
      rw [result] at again
      cases again
      rfl

end Document

end Candid.Idl
