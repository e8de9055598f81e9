import ForeignBindings.Json.Value
import ForeignBindings.Nesting.Piece
import ForeignBindings.Token.Basic

/-! The attributes of a declaration: where its value is imported from, along which properties it is
reached, under which name it is known there, and which flags are set.  Decorators act on the
attributes one after the other. -/

namespace ForeignBindings

/-- What the decorators before a declaration say. -/
structure Attributes where
  importPath : Option Text
  scope : Option (List Text)
  val : Bool
  send : Bool
  new : Bool
  get : Bool
  set : Bool
  rename : Option Text
  deriving DecidableEq

namespace Attributes

/-- No decorator has been read. -/
def empty : Attributes := ⟨none, none, false, false, false, false, false, none⟩

/-- The older spelling of an attribute puts this before its name. -/
def olderMark : Text := "bs.".toList

/-- The name of a decorator without the mark of the older spelling. -/
def plainName (name : Text) : Text :=
  if olderMark.isPrefixOf name then name.drop olderMark.length else name

/-- The path that the arguments of a scope spell: one segment each, or the parts of a tuple that is
the only argument. -/
def scopePath (args : List Text) : List Text :=
  let segments := match args with
    | [arg] =>
      if arg.enclosedBy '(' ')' then
        let parts := (arg.inner 1).splitTop [',']
        if 1 < parts.length then parts else args
      else args
    | _ => args
  segments.map unquote

/-- The attributes after one decorator; a name that is not known, or that lacks the argument it
needs, changes nothing. -/
def apply (attributes : Attributes) (decorator : Decorator) : Attributes :=
  let name := plainName decorator.name
  let firstArg := decorator.args.bind List.head?
  if name = "module".toList then
    match firstArg with
    | some arg => { attributes with importPath := some (unquote arg) }
    | none => attributes
  else if name = "scope".toList then
    match decorator.args with
    | some args => { attributes with scope := some (scopePath args) }
    | none => attributes
  else if name = "val".toList then { attributes with val := true }
  else if name = "send".toList then { attributes with send := true }
  else if name = "new".toList then { attributes with new := true }
  else if name = "get".toList then { attributes with get := true }
  else if name = "set".toList then { attributes with set := true }
  else if name = "as".toList then
    match firstArg with
    | some arg => { attributes with rename := some (unquote arg) }
    | none => attributes
  else attributes

/-- The attributes after decorators in order. -/
def applyAll (attributes : Attributes) (decorators : List Decorator) : Attributes :=
  decorators.foldl apply attributes

/-- Nothing is set. -/
def isEmpty (attributes : Attributes) : Bool := attributes == empty

/-- The member for a flag that is set. -/
def flagMember (name : Text) (value : Bool) : List (Text × Json) :=
  if value then [(name, .bool true)] else []

/-- What is set, by name. -/
def members (a : Attributes) : List (Text × Json) :=
  (match a.importPath with
    | some path => [("module".toList, .string path)]
    | none => []) ++
  (match a.scope with
    | some path => [("scope".toList, Json.texts path)]
    | none => []) ++
  flagMember "val".toList a.val ++ flagMember "send".toList a.send ++
  flagMember "new".toList a.new ++ flagMember "get".toList a.get ++
  flagMember "set".toList a.set ++
  (match a.rename with
    | some name => [("as".toList, .string name)]
    | none => [])

def toJson (a : Attributes) : Json := .object a.members

end Attributes

end ForeignBindings
