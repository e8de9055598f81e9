import ForeignBindings.Declaration.Basic
import ForeignBindings.Descriptor.Description
import ForeignBindings.Descriptor.Typescript

/-! Where the value of a declaration lives at run time, and what is asked about it. -/

namespace ForeignBindings

/-- Where a value lives: the module it is imported from, or none for a global value; the properties
that its scope walks along; and its own path after these. -/
structure Target where
  importPath : Option Text
  scope : List Text
  path : List Text
  deriving DecidableEq

/-- The properties from the root to the value. -/
def Target.segments (target : Target) : List Text := target.scope ++ target.path

/-- The name of a value at run time: the one that an attribute gives it, else what it is bound to,
else its own; an empty text names nothing. -/
def Declaration.runtimeName (d : Declaration) : Text :=
  match d.attributes.rename with
  | some (c :: rest) => c :: rest
  | _ => if d.binding = [] then d.name else d.binding

/-- Where the value of a declaration lives; dots cut its name into a path. -/
def Declaration.target (d : Declaration) : Target :=
  ⟨d.attributes.importPath, d.attributes.scope.getD [], Text.fields (· == '.') d.runtimeName⟩

/-- A declaration with the type that it claims and the place of its value. -/
structure Request where
  declaration : Declaration
  expected : Description
  target : Target

/-- What is asked about a declaration. -/
def Declaration.request (d : Declaration) : Request :=
  ⟨d, TypeText.describe d.typeText, d.target⟩

/-- The code of warnings about types that are not fully known. -/
def doubtCode : Text := "W0101".toList

/-- The claimed type as TypeScript. -/
def Request.expectedType (r : Request) : Text := Typescript.render r.expected.descriptor

end ForeignBindings
