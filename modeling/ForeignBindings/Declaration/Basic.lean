import ForeignBindings.Declaration.Attributes

/-! Declarations of external values. -/

namespace ForeignBindings

/-- A place in a file, with its line and column from one; the file may be unknown. -/
structure Location where
  file : Option Text
  line : Int
  column : Int
  deriving DecidableEq

/-- The line and the column, after the name of the file if there is one. -/
def Location.text (l : Location) : Text :=
  let place := Text.ofInt l.line ++ ':' :: Text.ofInt l.column
  match l.file with
  | none | some [] => place
  | some file => file ++ ':' :: place

/-- An external value as a source declares it: its name, what it is bound to, the text of its type,
its attributes, and where its keyword stands. -/
structure Declaration where
  name : Text
  binding : Text
  typeText : Text
  attributes : Attributes
  file : Text
  line : Nat
  column : Nat
  deriving DecidableEq

namespace Declaration

/-- Where the keyword stands. -/
def location (d : Declaration) : Location := ⟨some d.file, d.line, d.column⟩

def toJson (d : Declaration) : Json :=
  .object
    [("name".toList, .string d.name),
     ("binding".toList, .string d.binding),
     ("resType".toList, .string d.typeText),
     ("attributes".toList, d.attributes.toJson),
     ("file".toList, .string d.file),
     ("line".toList, Json.ofNat d.line),
     ("column".toList, Json.ofNat d.column)]

end Declaration

end ForeignBindings
