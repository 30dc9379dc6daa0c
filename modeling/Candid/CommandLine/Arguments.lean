import Candid.Number.Digit

/-!
# Command-line arguments

Separates the arguments of a command into flags and positional arguments. A flag is given by its name,
by an unambiguous beginning of a long name, or among other short flags behind one hyphen. Flags may
stand anywhere before `--`. Positional arguments are assigned in groups: each run of arguments
between flags fills as many of the positions still open as it can, so an optional position next to a
filled one is closed by the first flag behind it.
-/

set_option autoImplicit false

namespace Candid.CommandLine

inductive Flag where
  | help
  | verbose
  | strict
  | strictVariants
  | pretty
  deriving DecidableEq, Repr

/-- How many arguments a position takes; a subcommand takes everything from its name on. -/
inductive Arity where
  | one
  | atMostOne
  | many
  | subcommand
  deriving DecidableEq, Repr

structure Grammar where
  flags : List (Text × Flag)
  positions : List Arity

inductive Stop where
  | help
  | usage
  deriving DecidableEq, Repr

/-- What an argument looks like. An option is a known flag or an unknown one, with the text attached to
its name. -/
inductive Mark where
  | argument
  | separator
  | option (flag : Option (Text × Flag)) (attached : Option Text)
  deriving DecidableEq, Repr

def Mark.isOption : Mark → Bool
  | .option .. => true
  | _ => false

abbrev Marked := Text × Mark

/-- The flags that an argument of at least two characters may mean by an abbreviation or by letters
behind a short name. -/
def Grammar.candidates (grammar : Grammar) (arg : Text) : List Mark :=
  if "--".toList.isPrefixOf arg then
    let (start, attached) :=
      match Text.cut? '=' arg with
      | some (before, behind) => (before, some behind)
      | none => (arg, none)
    (grammar.flags.filter fun entry => start.isPrefixOf entry.1).map fun entry =>
      .option (some entry) attached
  else
    grammar.flags.filterMap fun entry =>
      if entry.1 = arg.take 2 then some (.option (some entry) (some (arg.drop 2)))
      else if arg.isPrefixOf entry.1 then some (.option (some entry) none)
      else none

def isNegativeNumber (text : Text) : Bool :=
  let text := if text.getLast? == some '\n' then text.dropLast else text
  match text with
  | '-' :: rest =>
    match Text.cut? '.' rest with
    | none => !rest.isEmpty && rest.all isDigit
    | some (whole, parts) => whole.all isDigit && !parts.isEmpty && parts.all isDigit
  | _ => false

def Grammar.named? (grammar : Grammar) (arg : Text) : Option Mark :=
  match grammar.flags.lookup arg with
  | some flag => some (.option (some (arg, flag)) none)
  | none =>
    (Text.cut? '=' arg).bind fun (name, attached) =>
      (grammar.flags.lookup name).map fun flag => .option (some (name, flag)) (some attached)

/-- The mark of an argument in front of `--`. Negative numbers and texts with a space are arguments
unless they begin like a flag. -/
def Grammar.mark (grammar : Grammar) (arg : Text) : Except Stop Mark :=
  match arg with
  | '-' :: _ :: _ =>
    match grammar.named? arg with
    | some mark => .ok mark
    | none =>
      match grammar.candidates arg with
      | [mark] => .ok mark
      | _ :: _ :: _ => .error .usage
      | [] =>
        if isNegativeNumber arg || arg.contains ' ' then .ok .argument
        else .ok (.option none none)
  | _ => .ok .argument

def Grammar.marks (grammar : Grammar) : List Text → Except Stop (List Marked)
  | [] => .ok []
  | arg :: rest =>
    if arg = "--".toList then .ok ((arg, .separator) :: rest.map (·, .argument))
    else do
      let mark ← grammar.mark arg
      let marks ← grammar.marks rest
      pure ((arg, mark) :: marks)

/-- The flags of one option. A long flag takes no attached text. The characters attached to a short name,
directly or by an equals sign, are the letters of further short flags; there has to be at least one, and
one that is no flag spoils the whole option. -/
def Grammar.cluster (grammar : Grammar) (name : Text) (flag : Flag) :
    (attached : Option Text) → Except Stop (List Flag)
  | none => .ok [flag]
  | some letters =>
    if "--".toList.isPrefixOf name || letters.isEmpty then .error .usage
    else
      match letters.mapM fun letter => grammar.flags.lookup ['-', letter] with
      | some further => .ok (flag :: further)
      | none => .error .usage

/-- How many marked arguments in front a position takes, or none if it cannot be filled. The separator
counts with the position beside it. -/
def Arity.take? (arity : Arity) (args : List Marked) : Option Nat :=
  let isSeparator (entry : Marked) : Bool := entry.2 == .separator
  let lead := (args.takeWhile isSeparator).length
  let behind := args.drop lead
  let one := match behind with
    | (_, .argument) :: rest => some (lead + 1 + (rest.takeWhile isSeparator).length)
    | _ => none
  match arity with
  | .one => one
  | .atMostOne => some (one.getD lead)
  | .many => some (args.takeWhile (!·.2.isOption)).length
  | .subcommand => one.map fun _ => args.length

def takeAll? : List Arity → List Marked → Option (List Nat)
  | [], _ => some []
  | arity :: arities, args => do
    let count ← arity.take? args
    let counts ← takeAll? arities (args.drop count)
    pure (count :: counts)

/-- What the longest row of positions that can be filled takes; the row is cut from its end. -/
def takeMost (row : List Arity) (args : List Marked) : (length : Nat) → List Nat
  | 0 => []
  | length + 1 =>
    match takeAll? (row.take (length + 1)) args with
    | some counts => counts
    | none => takeMost row args length

def withoutSeparator (args : List Text) : List Text :=
  args.erase "--".toList

/-- The values of positions that take the given numbers of arguments. A subcommand keeps its
separator. -/
def assigned : List Arity → List Nat → List Marked → List (List Text)
  | arity :: arities, count :: counts, args =>
    let values := (args.take count).map (·.1)
    (if arity = .subcommand then values else withoutSeparator values) ::
      assigned arities counts (args.drop count)
  | _, _, _ => []

/-- What has been read: the flags, the values of the filled positions, the positions still open, and
the arguments that fit nowhere. -/
structure Progress where
  flags : List Flag
  values : List (List Text)
  openPositions : List Arity
  extras : List Text
  deriving DecidableEq, Repr

def Progress.fill (progress : Progress) (args : List Marked) : Progress × Nat :=
  let counts := takeMost progress.openPositions args progress.openPositions.length
  ({ progress with
      values := progress.values ++ assigned progress.openPositions counts args
      openPositions := progress.openPositions.drop counts.length },
    counts.foldl (· + ·) 0)

def Progress.note (progress : Progress) (grammar : Grammar) (arg : Text)
    (flag : Option (Text × Flag)) (attached : Option Text) : Except Stop Progress :=
  match flag with
  | none => .ok { progress with extras := progress.extras ++ [arg] }
  | some (name, flag) => do
    let flags ← grammar.cluster name flag attached
    if .help ∈ flags then .error .help
    else pure { progress with flags := progress.flags ++ flags }

/-- Reads marked arguments. As long as an option is ahead, the arguments before it fill positions or
are extras; the arguments behind the last option fill what is open. -/
def Progress.read (grammar : Grammar) (progress : Progress) :
    List Marked → Except Stop Progress
  | [] => .ok (progress.fill []).1
  | (arg, mark) :: rest =>
    match mark with
    | .option flag attached => do
      let progress ← progress.note grammar arg flag attached
      progress.read grammar rest
    | _ =>
      let (filled, used) := progress.fill ((arg, mark) :: rest)
      if rest.any (·.2.isOption) then
        match used with
        | 0 => Progress.read grammar { filled with extras := filled.extras ++ [arg] } rest
        | used + 1 => filled.read grammar (rest.drop used)
      else
        .ok { filled with
          extras := filled.extras ++ (((arg, mark) :: rest).drop used).map (·.1) }
termination_by args => args.length
decreasing_by
  all_goals simp only [List.length_cons, List.length_drop]
  all_goals omega

def Grammar.read (grammar : Grammar) (args : List Text) : Except Stop Progress := do
  let marks ← grammar.marks args
  let progress ← Progress.read grammar ⟨[], [], grammar.positions, []⟩ marks
  if progress.openPositions.isEmpty then pure progress else .error .usage

end Candid.CommandLine
