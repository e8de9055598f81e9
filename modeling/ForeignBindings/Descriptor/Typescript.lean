import ForeignBindings.Descriptor.Basic
import ForeignBindings.Json.Printer

/-! Descriptors as TypeScript types, and references to properties by name. -/

namespace ForeignBindings.Typescript

/-- A character that an identifier can start with. -/
def isIdentifierStart (c : Char) : Bool := c.isAlpha || c == '_' || c == '$'

/-- A character of an identifier. -/
def isIdentifierChar (c : Char) : Bool := c.isAlphanum || c == '_' || c == '$'

/-- An identifier of ASCII characters; one line feed may stand after it. -/
def isIdentifier (name : Text) : Bool :=
  let body : Text := if name.getLast? = some '\n' then name.dropLast else name
  body.head?.any isIdentifierStart && body.all isIdentifierChar

/-- The key of a property: an identifier as it stands, any other name as a string. -/
def propertyKey (name : Text) : Text := if isIdentifier name then name else Json.quote name

/-- The type that every value has. -/
def unknownType : Text := "unknown".toList

/-- A wrapper around an argument; a function type in a union needs parentheses. -/
def wrap (name : Text) (arg : Text) (argIsFunction : Bool) : Text :=
  let operand := if argIsFunction then '(' :: (arg ++ [')']) else arg
  if name = Descriptor.arrayName then "Array<".toList ++ arg ++ ['>']
  else if name = Descriptor.optionName then '(' :: (operand ++ " | undefined)".toList)
  else if name = Descriptor.nullableName then '(' :: (operand ++ " | null | undefined)".toList)
  else if name = Descriptor.nullName then '(' :: (operand ++ " | null)".toList)
  else if name = Descriptor.promiseName then "Promise<".toList ++ arg ++ ['>']
  else if name = Descriptor.dictName then
    "\x7b [key: string]: ".toList ++ arg ++ " \x7d".toList
  else unknownType

/-- Parameters are named by their place. -/
def numberParams (index : Nat) : List Text → List Text
  | [] => []
  | type :: rest =>
    ("arg".toList ++ Text.ofNat index ++ ": ".toList ++ type) :: numberParams (index + 1) rest

mutual

/-- The type that a descriptor describes. -/
def render : Descriptor → Text
  | .primitive name => name
  | .function params result =>
    '(' :: (Text.join ", ".toList (numberParams 0 (renderAll params)) ++ ") => ".toList ++
      render result)
  | .tuple elements => '\x5b' :: (Text.join ", ".toList (renderAll elements) ++ ['\x5d'])
  | .record fields =>
    match renderFields fields with
    | [] => "\x7b\x7d".toList
    | parts => "\x7b ".toList ++ Text.join "; ".toList parts ++ " \x7d".toList
  | .wrapper name args =>
    match args with
    | [] => wrap name unknownType false
    | arg :: _ => wrap name (render arg) arg.isFunction
  | .unknown _ => unknownType

/-- The types of descriptors. -/
def renderAll : List Descriptor → List Text
  | [] => []
  | d :: rest => render d :: renderAll rest

/-- The fields of a record. -/
def renderFields : List (Text × Descriptor) → List Text
  | [] => []
  | (name, d) :: rest => (propertyKey name ++ ": ".toList ++ render d) :: renderFields rest

end

/-- The type of the value that is reached from `root` along properties: identifiers are chained with
dots, and from the first other name on keys are indexed. -/
def typeQuery (root : Text) (segments : List Text) : Text :=
  let dotted := segments.takeWhile isIdentifier
  let keys := segments.dropWhile isIdentifier
  let query := "typeof ".toList ++ Text.join ['.'] (root :: dotted)
  if keys = [] then query
  else '(' :: (query ++ [')']) ++ keys.flatMap fun key => '\x5b' :: (Json.quote key ++ ['\x5d'])

end ForeignBindings.Typescript
