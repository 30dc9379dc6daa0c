import Candid.CommandLine.Run

/-!
# The program

Reads the files and the standard input, runs the command, and prints what it leaves behind.
-/

set_option autoImplicit false

namespace Candid

def CommandLine.Command.file? : Command → Option Text
  | .methods file => some file
  | .resolve file _ _ => some file
  | .sample file _ => some file
  | .validate file _ _ _ => some file
  | .build file _ _ _ => some file
  | .compose _ => none

def CommandLine.Command.readsInput : Command → Bool
  | .validate _ _ json _ => json == standardInput
  | _ => false

def usageLine : String :=
  "usage: candid-forms [-h] [-v] (methods | resolve | example | validate | build | compose) ..."

def fileText? (path : Text) : IO (Option Text) := do
  try
    let content ← IO.FS.readFile (String.ofList path)
    pure (some content.toList)
  catch _ => pure none

def runProgram (args : List String) : IO UInt32 := do
  let args := args.map String.toList
  let command := (CommandLine.Invocation.read args).toOption.map (·.command)
  let path := command.bind (·.file?)
  let content ← match path with
    | none => pure none
    | some path => fileText? path
  let input ←
    if command.any (·.readsInput) then (← IO.getStdin).readToEnd else pure ""
  let surroundings : CommandLine.Surroundings :=
    ⟨fun asked => if some asked = path then content else none, input.toList⟩
  match CommandLine.run surroundings args with
  | .stopped stop =>
    IO.eprintln usageLine
    pure (UInt32.ofNat stop.code)
  | .finished code output errors =>
    IO.print (String.ofList output)
    IO.eprint (String.ofList errors)
    pure (UInt32.ofNat code)

end Candid

def main (args : List String) : IO UInt32 :=
  Candid.runProgram args
