import ForeignBindings.Text.Basic

/-! JSON values.  Whole numbers and numbers with a fraction or an exponent are told apart, and an
object keeps its members in the order in which they were written. -/

namespace ForeignBindings

/-- A JSON value. -/
inductive Json
  | null
  | bool (value : Bool)
  | int (value : Int)
  | real (value : Float)
  | string (value : Text)
  | array (items : List Json)
  | object (members : List (Text × Json))

namespace Json

/-- The value of the last member with the given key. -/
def member? (key : Text) : Json → Option Json
  | .object members => (members.reverse.find? fun (name, _) => name == key).map Prod.snd
  | _ => none

def text? : Json → Option Text
  | .string value => some value
  | _ => none

def texts (items : List Text) : Json := .array (items.map .string)

/-- A text, or null without one. -/
def ofText? : Option Text → Json
  | some text => .string text
  | none => .null

/-- A natural number. -/
def ofNat (n : Nat) : Json := .int n

end Json

end ForeignBindings
