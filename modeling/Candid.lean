import Candid.Main
import Candid.Editor.Session
import Candid.Text.Cased
import Candid.Text.LowerCase
import Candid.Proofs.Grammar
import Candid.Proofs.Alias.Table
import Candid.Proofs.Alias.Expansion
import Candid.Proofs.Alias.Normal
import Candid.Proofs.Argument.Conversion
import Candid.Proofs.Argument.Sample
import Candid.Proofs.Json.Inverse
import Candid.Proofs.Alias.Cycle
import Candid.Proofs.Alias.Strict
import Candid.Proofs.Alias.Declared
import Candid.Proofs.Lexing.Comment
import Candid.Proofs.Argument.Failure
import Candid.Proofs.Interface.ServiceText
import Candid.Proofs.Interface.Located
import Candid.Proofs.Editor.Diagnostic
import Candid.Proofs.Alias.Reach
import Candid.Proofs.Grammar.FirstError
import Candid.Proofs.Editor.Hover
import Candid.Proofs.Editor.Declared
import Candid.Proofs.Argument.Path
import Candid.Proofs.Argument.Spelling
import Candid.Proofs.Argument.Strict
import Candid.Proofs.Fragment.Closed
import Candid.Proofs.Argument.Integer
import Candid.Proofs.Argument.FieldNames
import Candid.Proofs.Interface.Inlined
import Candid.Proofs.Argument.Literal
import Candid.Proofs.Fragment.Split
import Candid.Proofs.Fragment.Stack
import Candid.Proofs.Text.Offset
import Candid.Proofs.Argument.Keyed
import Candid.Proofs.Form.Supported
import Candid.Proofs.Form.Built
