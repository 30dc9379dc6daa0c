import Candid.Editor.Completion
import Candid.Editor.Diagnostic
import Candid.Editor.Hover

/-!
# Editing sessions

The open documents of an editor by file, and the requests on them. Every change of a document answers
with its diagnostics.
-/

set_option autoImplicit false

namespace Candid.Editor

structure Session where
  documents : Dictionary Text

namespace Session

def start : Session := ⟨[]⟩

/-- The text of a document; a document that was never opened is empty. -/
def source (session : Session) (file : Text) : Text :=
  (Dictionary.find? file session.documents).getD []

/-- The session with a new text for a document. The text is kept whatever its diagnostics are. -/
def edit (session : Session) (file source : Text) : Session :=
  ⟨Dictionary.put file source session.documents⟩

def complete (session : Session) (file : Text) (line character : Int) :
    Except PositionError (List Completion) :=
  (Position.make line character).map (completionsAt (session.source file))

def hover (session : Session) (file : Text) (line character : Int) :
    Except PositionError (Option Text) :=
  (Position.make line character).map (hoverAt (session.source file))

end Session

end Candid.Editor
