import Candid.Idl.Method

/-!
# Datatypes

The syntax trees of type expressions and their canonical text.
-/

set_option autoImplicit false

namespace Candid.Idl

mutual

inductive Datatype where
  | name (name : Text)
  | opt (inner : Datatype)
  | vec (inner : Datatype)
  | record (fields : List Field)
  | variant (fields : List Field)
  | func (signature : Signature)
  | service (members : List Member)

/-- A member of a record or variant, or an argument or result; labels keep their quotes. -/
inductive Field where
  | mk (label : Option Text) (type : Datatype)

inductive Signature where
  | mk (args results : List Field) (modes : List Mode)

inductive Member where
  | declared (label : Text) (signature : Signature)
  | referenced (label typeName : Text) (offset : Nat)

end

def behindFirst (mark : Text) : Text → Text
  | [] => []
  | c :: rest =>
    match mark.after? (c :: rest) with
    | some behind => behind
    | none => behindFirst mark rest

/-- The text of a declared method inside a service type: its name without quotes and its signature
behind the first colon that stands between blanks. -/
def methodText (method : Method) : Text :=
  method.name ++ " : func ".toList ++ behindFirst " : ".toList method.signature

mutual

def Datatype.render : Datatype → Text
  | .name name => name
  | .opt inner => "opt ".toList ++ inner.render
  | .vec inner => "vec ".toList ++ inner.render
  | .record fields => Text.braced "record".toList ((fieldTexts fields).map (·.render))
  | .variant fields => Text.braced "variant".toList ((fieldTexts fields).map (·.render))
  | .func signature => "func ".toList ++ signature.toText.render
  | .service members => Text.braced "service".toList (memberTexts members)

def fieldTexts : List Field → List LabelledText
  | [] => []
  | .mk label type :: rest => ⟨label, type.render⟩ :: fieldTexts rest

def Signature.toText : Signature → SignatureText
  | .mk args results modes => ⟨fieldTexts args, fieldTexts results, modes⟩

def memberTexts : List Member → List Text
  | [] => []
  | .declared label signature :: rest =>
    methodText (.ofSignature label signature.toText) :: memberTexts rest
  | .referenced label typeName _ :: rest =>
    (label ++ " : ".toList ++ typeName) :: memberTexts rest

end

end Candid.Idl
