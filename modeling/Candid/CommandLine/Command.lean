import Candid.CommandLine.Arguments

/-!
# Commands

The commands of the program and their arguments.
-/

set_option autoImplicit false

namespace Candid.CommandLine

inductive Command where
  | methods (file : Text)
  | resolve (file type : Text) (strict : Bool)
  | sample (file method : Text)
  | validate (file method json : Text) (strict : Bool)
  | build (file method : Text) (values : List Text) (pretty : Bool)
  | compose (values : List Text)
  deriving DecidableEq, Repr

structure Invocation where
  verbose : Bool
  command : Command
  deriving DecidableEq, Repr

inductive CommandName where
  | methods
  | resolve
  | sample
  | validate
  | build
  | compose
  deriving DecidableEq, Repr

def CommandName.text : CommandName → Text
  | .methods => "methods".toList
  | .resolve => "resolve".toList
  | .sample => "example".toList
  | .validate => "validate".toList
  | .build => "build".toList
  | .compose => "compose".toList

def CommandName.ofText? (word : Text) : Option CommandName :=
  [.methods, .resolve, .sample, .validate, .build, .compose].find? fun name : CommandName =>
    name.text == word

def helpFlags : List (Text × Flag) :=
  [("-h".toList, .help), ("--help".toList, .help)]

def outerGrammar : Grammar :=
  ⟨helpFlags ++ [("-v".toList, .verbose), ("--verbose".toList, .verbose)], [.subcommand]⟩

def CommandName.grammar : CommandName → Grammar
  | .methods => ⟨helpFlags, [.one]⟩
  | .resolve => ⟨helpFlags ++ [("--strict".toList, .strict)], [.one, .one]⟩
  | .sample => ⟨helpFlags, [.one, .one]⟩
  | .validate =>
    ⟨helpFlags ++ [("--strict-variants".toList, .strictVariants)], [.one, .one, .atMostOne]⟩
  | .build => ⟨helpFlags ++ [("--pretty".toList, .pretty)], [.one, .one, .many]⟩
  | .compose => ⟨helpFlags, [.many]⟩

/-- The value of a position that takes one argument. Where only `--` stood there, the position shows an
empty list. -/
def single (values : List Text) : Text :=
  values.headD "[]".toList

def standardInput : Text := ['-']

def CommandName.command (name : CommandName) (values : List (List Text)) (flags : List Flag) :
    Command :=
  let value (position : Nat) : List Text := (values[position]?).getD []
  let file := single (value 0)
  match name with
  | .methods => .methods file
  | .resolve => .resolve file (single (value 1)) (flags.contains .strict)
  | .sample => .sample file (single (value 1))
  | .validate =>
    .validate file (single (value 1)) ((value 2).headD standardInput)
      (flags.contains .strictVariants)
  | .build => .build file (single (value 1)) (value 2) (flags.contains .pretty)
  | .compose => .compose (value 0)

/-- Reads the arguments of the program. Arguments that fit nowhere are an error only once the command
has been read. -/
def Invocation.read (args : List Text) : Except Stop Invocation := do
  let outer ← outerGrammar.read args
  match outer.values with
  | [word :: rest] =>
    match CommandName.ofText? word with
    | none => .error .usage
    | some name => do
      let inner ← name.grammar.read rest
      if (outer.extras ++ inner.extras).isEmpty then
        pure ⟨outer.flags.contains .verbose, name.command inner.values inner.flags⟩
      else .error .usage
  | _ => .error .usage

end Candid.CommandLine
