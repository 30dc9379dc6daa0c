import Candid.Argument.Check
import Candid.Argument.Convert
import Candid.Argument.Example
import Candid.Failure
import Candid.Text.WordSearch

/-!
# Forms

The argument form of a method: its argument types with every alias expanded. The methods come from
the interface of the source, the aliases from its declarations.
-/

set_option autoImplicit false

namespace Candid

structure Description where
  interface : Idl.Interface
  table : AliasTable

/-- The resolved argument types of a method. -/
structure Form where
  argTypes : List Text

def unsupportedWords : List Text :=
  ["variant".toList, "func".toList, "service".toList]

namespace Form

/-- Whether every argument type has form input: no word for variants, functions or services stands
in any of them. -/
def isSupported (form : Form) : Bool :=
  !form.argTypes.any (Text.containsWord unsupportedWords none)

def exampleText (form : Form) : Except Failure Text :=
  (Argument.examples form.argTypes).mapError .unwritable

def validate (form : Form) (strict : Bool) (text : Text) : List Argument.Finding :=
  Argument.validate strict form.argTypes text

def build (form : Form) (raws : List Json.Value) : Except Failure Json.Value :=
  (Argument.build form.argTypes raws).mapError .argument

def buildJson (form : Form) (raws : List Json.Value) : Except Failure Text :=
  (Argument.buildJson form.argTypes raws).mapError .argument

end Form

namespace Description

def ofSource (source : Text) : Except Failure Description :=
  match Idl.parse source with
  | .ok interface => .ok ⟨interface, Alias.table source⟩
  | .error error => .error (.parse error)

/-- What reading a source reports; its aliases are looked at only if it is an interface. -/
def notices (source : Text) : List Notice :=
  Idl.parseNotices source ++
    match Idl.parse source with
    | .ok _ => Alias.tableNotices source
    | .error _ => []

def method (description : Description) (name : Text) : Except Failure Idl.Method :=
  match description.interface.method? name with
  | some method => .ok method
  | none => .error (.unknownMethod name)

def form (description : Description) (strict : Bool) (name : Text) : Except Failure Form := do
  let method ← description.method name
  let argTypes ←
    (method.args.mapM (Alias.resolve description.table strict)).mapError .resolution
  pure ⟨argTypes⟩

def formNotices (description : Description) (strict : Bool) (name : Text) : List Notice :=
  match description.method name with
  | .ok method => Alias.resolveNotices description.table strict method.args
  | .error _ => []

end Description

end Candid
