import Candid.Argument.Literal
import Candid.CommandLine.Command
import Candid.Form

/-!
# Running a command

What a command prints and the code it ends with, given the files and the standard input.
-/

set_option autoImplicit false

namespace Candid.CommandLine

open Json

/-- What a command reads: the text of each file that exists, by its path as it was given, and the
standard input. -/
structure Surroundings where
  file? : Text → Option Text
  standardInput : Text

inductive Ending where
  | finished (code : Nat) (output errors : Text)
  | stopped (stop : Stop)
  deriving DecidableEq, Repr

def Stop.code : Stop → Nat
  | .help => 0
  | .usage => 2

structure Report where
  notices : List Notice
  outcome : Except Failure (Nat × Text)

def printed (text : Text) : Text :=
  text ++ ['\n']

/-- The text of a file with every line break as a line feed: a carriage return, alone or in front of a
line feed, is one. -/
def withLineFeeds : Text → Text
  | [] => []
  | '\r' :: '\n' :: rest => '\n' :: withLineFeeds rest
  | '\r' :: rest => '\n' :: withLineFeeds rest
  | c :: rest => c :: withLineFeeds rest

/-- The shown form of a path: no empty parts, no parts that stay in place, and a single point for
nothing at all. A path from the root keeps its slash; of two slashes in front both are kept. -/
def shownPath (path : Text) : Text :=
  let slashes := (path.takeWhile (· = '/')).length
  let root := List.replicate (if slashes = 2 then 2 else min slashes 1) '/'
  let parts := (path.pieces '/').filter fun part => !part.isEmpty && part ≠ ['.']
  let shown := root ++ Text.joined ['/'] parts
  if shown.isEmpty then ['.'] else shown

def reportMethods (source : Text) : Report :=
  { notices := Description.notices source
    outcome := (Description.ofSource source).map fun description =>
      (0, description.interface.methods.flatMap fun method => printed method.signature) }

def reportResolve (source type : Text) (strict : Bool) : Report :=
  let table := Alias.table source
  { notices := Alias.tableNotices source ++ Alias.resolveNotices table strict [type]
    outcome :=
      match Alias.resolve table strict type with
      | .ok resolved => .ok (0, printed resolved)
      | .error error => .error (.resolution error) }

def reportForm (source method : Text) (notices : Form → List Notice)
    (request : Form → Except Failure (Nat × Text)) : Report :=
  match Description.ofSource source with
  | .error failure => ⟨Description.notices source, .error failure⟩
  | .ok description =>
    let before := Description.notices source ++ description.formNotices false method
    match description.form false method with
    | .error failure => ⟨before, .error failure⟩
    | .ok form => ⟨before ++ notices form, request form⟩

def reportSample (source method : Text) : Report :=
  reportForm source method (fun _ => []) fun form =>
    form.exampleText.map fun text => (0, printed text)

def reportValidate (source method json : Text) (strict : Bool) : Report :=
  reportForm source method (fun _ => []) fun form =>
    match form.validate strict json with
    | [] => .ok (0, printed "OK".toList)
    | findings => .ok (2, findings.flatMap fun finding => printed finding.message)

def reportBuild (source method : Text) (values : List Text) (pretty : Bool) : Report :=
  let raws := values.map Value.text
  let style : Style := if pretty then .indented .refusedByName else .spaced .refused
  reportForm source method (fun form => Argument.buildNotices form.argTypes raws) fun form => do
    let value ← form.build raws
    let text ← (value.write style).mapError .unwritable
    pure (0, printed text)

def Command.report (surroundings : Surroundings) (command : Command) : Except Text Report :=
  let withSource (path : Text) (report : Text → Report) : Except Text Report :=
    match surroundings.file? path with
    | none => .error ("File not found: ".toList ++ shownPath path)
    | some text => .ok (report (withLineFeeds text))
  match command with
  | .methods file => withSource file reportMethods
  | .resolve file type strict => withSource file fun source => reportResolve source type strict
  | .sample file method => withSource file fun source => reportSample source method
  | .validate file method json strict =>
    withSource file fun source =>
      reportValidate source method
        (if json = standardInput then surroundings.standardInput else json) strict
  | .build file method values pretty =>
    withSource file fun source => reportBuild source method values pretty
  | .compose values => .ok ⟨[], .ok (0, printed (Argument.composeArgs values))⟩

def errorLine (message : Text) : Text :=
  "Error: ".toList ++ printed message

def run (surroundings : Surroundings) (args : List Text) : Ending :=
  match Invocation.read args with
  | .error stop => .stopped stop
  | .ok invocation =>
    match invocation.command.report surroundings with
    | .error message => .finished 1 [] (errorLine message)
    | .ok report =>
      let notices := if invocation.verbose then report.notices.flatMap (·.line) else []
      match report.outcome with
      | .ok (code, output) => .finished code output notices
      | .error failure => .finished 1 [] (notices ++ errorLine failure.message)

end Candid.CommandLine
