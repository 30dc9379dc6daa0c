import Candid.Editor.Declared
import Candid.Failure
import Candid.Text.Position

/-!
# Diagnostics

What an editor marks in a source: the parse error if there is one, and otherwise every declared alias
that is cyclic or uses unknown names, at its own declaration.
-/

set_option autoImplicit false

namespace Candid.Editor

inductive Severity where
  | error
  | warning
  deriving DecidableEq, Repr

structure Diagnostic where
  range : Range
  severity : Severity
  message : Text
  deriving DecidableEq, Repr

inductive DiagnosticError where
  | position (error : PositionError)
  | digitLimit (limit : DigitLimitError)
  deriving DecidableEq, Repr

def DiagnosticError.message : DiagnosticError → Text
  | .position error => error.message
  | .digitLimit limit => limit.message

/-- The digits behind the first `position` in a message that has digits behind it. -/
def positionDigits? : Text → Option (List Nat)
  | [] => none
  | c :: rest =>
    match (Text.after? "position ".toList (c :: rest)).map
        fun behind => (behind.takeWhile isDigit).filterMap digitValue? with
    | some (digit :: digits) => some (digit :: digits)
    | _ => positionDigits? rest

def mentionedOffset (message : Text) : Except DigitLimitError (Option Int) :=
  match positionDigits? message with
  | none => .ok none
  | some digits => (Numeral.value false digits).map some

def rangeAt (source : Text) (offset : Int) (length : Nat) : Except DiagnosticError Range :=
  (Range.ofOffset source offset length).mapError .position

/-- The diagnostic of a parse error, at the offset it speaks of or else on the last line. -/
def parseDiagnostic (source : Text) (error : Idl.ParseError) :
    Except DiagnosticError Diagnostic := do
  let message := error.message
  let mentioned ← (mentionedOffset message).mapError .digitLimit
  let range ← rangeAt source (mentioned.getD (Position.lineStart source source.length)) 1
  pure ⟨range, .error, message⟩

def aliasDiagnostics (source : Text) (table : AliasTable) (declared : Declared) :
    Except DiagnosticError (List Diagnostic) :=
  match Dictionary.find? declared.name table with
  | none => .ok []
  | some definition =>
    let marked (severity : Severity) (message : Text) : Except DiagnosticError Diagnostic := do
      let range ← rangeAt source declared.offset declared.name.length
      pure ⟨range, severity, message⟩
    match Alias.resolve table false declared.name with
    | .error error => do
      let diagnostic ← marked .error error.message
      pure [diagnostic]
    | .ok _ =>
      (Alias.unresolvedNames table definition).mapM fun unknown =>
        marked .warning ("Type '".toList ++ unknown ++ "' used by '".toList ++ declared.name ++
          "' is not defined".toList)

def diagnostics (source : Text) : Except DiagnosticError (List Diagnostic) :=
  match Idl.parse source with
  | .error error => do
    let diagnostic ← parseDiagnostic source error
    pure [diagnostic]
  | .ok _ => do
    let found ← (declaredNames source).mapM (aliasDiagnostics source (Alias.table source))
    pure found.flatten

end Candid.Editor
