import Candid.Text.Basic

/-!
# Dictionaries

Named entries in the order of their first insertion. Putting a name that is already there keeps its
place and replaces its value.
-/

set_option autoImplicit false

namespace Candid

/-- Entries by name, in order of first insertion. -/
abbrev Dictionary (α : Type) := List (Text × α)

namespace Dictionary

variable {α : Type}

def find? (name : Text) (entries : Dictionary α) : Option α :=
  (List.find? (fun entry => entry.1 == name) entries).map (·.2)

/-- The dictionary with `value` under `name`, in the name's old place if it has one. -/
def put (name : Text) (value : α) : Dictionary α → Dictionary α
  | [] => [(name, value)]
  | entry :: rest =>
    if entry.1 = name then (name, value) :: rest else entry :: put name value rest

def ofList (entries : List (Text × α)) : Dictionary α :=
  entries.foldl (fun dictionary entry => put entry.1 entry.2 dictionary) []

def names (entries : Dictionary α) : List Text :=
  entries.map (·.1)

end Dictionary

end Candid
