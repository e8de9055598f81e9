import ForeignBindings.Json.Value

/-! Structural descriptions of types: what remains of a declared type once its names are
resolved. -/

namespace ForeignBindings

/-- A structural type.  A wrapper applies one of the known generic types; an unknown type says why
it could not be described. -/
inductive Descriptor
  | primitive (name : Text)
  | function (params : List Descriptor) (result : Descriptor)
  | tuple (elements : List Descriptor)
  | record (fields : List (Text × Descriptor))
  | wrapper (name : Text) (args : List Descriptor)
  | unknown (reason : Text)
  deriving Inhabited

namespace Descriptor

def isFunction : Descriptor → Bool
  | .function _ _ => true
  | _ => false

/-- The name of the wrapper for arrays and lists. -/
def arrayName : Text := "Array".toList

/-- The name of the wrapper for a value that may be absent. -/
def optionName : Text := "Option".toList

/-- The name of the wrapper for a value that may be null or absent. -/
def nullableName : Text := "Nullable".toList

/-- The name of the wrapper for a value that may be null. -/
def nullName : Text := "Null".toList

/-- The name of the wrapper for a value to come. -/
def promiseName : Text := "Promise".toList

/-- The name of the wrapper for values under arbitrary keys. -/
def dictName : Text := "Dict".toList

mutual

def toJson : Descriptor → Json
  | .primitive name =>
    .object [("kind".toList, .string "primitive".toList), ("name".toList, .string name)]
  | .function params result =>
    .object [("kind".toList, .string "function".toList), ("params".toList, .array (toJsons params)),
      ("result".toList, toJson result)]
  | .tuple elements =>
    .object [("kind".toList, .string "tuple".toList),
      ("elements".toList, .array (toJsons elements))]
  | .record fields =>
    .object [("kind".toList, .string "record".toList),
      ("fields".toList, .array (fieldsToJson fields))]
  | .wrapper name args =>
    .object [("kind".toList, .string "generic".toList), ("name".toList, .string name),
      ("args".toList, .array (toJsons args))]
  | .unknown reason =>
    .object [("kind".toList, .string "unknown".toList), ("reason".toList, .string reason)]

def toJsons : List Descriptor → List Json
  | [] => []
  | d :: rest => toJson d :: toJsons rest

def fieldsToJson : List (Text × Descriptor) → List Json
  | [] => []
  | (name, d) :: rest => .array [.string name, toJson d] :: fieldsToJson rest

end

end Descriptor

end ForeignBindings
