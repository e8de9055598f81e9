import ForeignBindings.Descriptor.Basic
import ForeignBindings.Nesting.Piece

/-! From the text of a declared type to its descriptor.  Every text has a descriptor: what cannot be
resolved becomes unknown, with a warning that says why.  Types are cut at separators outside all
brackets, and nested types are described the same way, down to a fixed height. -/

namespace ForeignBindings

/-- Why a part of a type stays unknown. -/
inductive Doubt
  | tooDeep (text : Text)
  | emptyType
  | typeVariable (text : Text)
  | unresolved (text : Text)
  | unsupported (text : Text)
  | missingArgument (callee : Text)
  | badField (text : Text)
  deriving DecidableEq

def Doubt.message : Doubt → Text
  | .tooDeep text => "type nested too deeply treated as unknown: ".toList ++ text
  | .emptyType => "empty type expression treated as unknown".toList
  | .typeVariable text => "type variable ".toList ++ text ++ " treated as unknown".toList
  | .unresolved text => "unresolved type ".toList ++ text ++ " treated as unknown".toList
  | .unsupported text => "unsupported type ".toList ++ text ++ " treated as unknown".toList
  | .missingArgument callee =>
    "missing type argument for ".toList ++ callee ++ " treated as unknown".toList
  | .badField text => "unsupported record field ".toList ++ text

/-- A descriptor, and the warnings in the order in which they arose. -/
structure Description where
  descriptor : Descriptor
  warnings : List Text

namespace Description

/-- A descriptor without doubts. -/
def plain (d : Descriptor) : Description := ⟨d, []⟩

/-- An unknown type, with its reason as the only warning. -/
def unknown (doubt : Doubt) : Description := ⟨.unknown doubt.message, [doubt.message]⟩

/-- The descriptor changed, the warnings kept. -/
def map (f : Descriptor → Descriptor) (t : Description) : Description :=
  ⟨f t.descriptor, t.warnings⟩

def descriptors (ts : List Description) : List Descriptor := ts.map descriptor

/-- The warnings of descriptions, in order. -/
def allWarnings (ts : List Description) : List Text := ts.flatMap warnings

end Description

namespace TypeText

/-- The primitive types and what they are at run time. -/
def primitives : List (Text × Text) :=
  [("int".toList, "number".toList), ("float".toList, "number".toList),
   ("string".toList, "string".toList), ("bool".toList, "boolean".toList),
   ("unit".toList, "void".toList), ("bigint".toList, "bigint".toList)]

/-- The generic types and the wrappers that they are. -/
def wrappers : List (Text × Text) :=
  [("array".toList, Descriptor.arrayName), ("list".toList, Descriptor.arrayName),
   ("Array.t".toList, Descriptor.arrayName), ("Js.Array.t".toList, Descriptor.arrayName),
   ("option".toList, Descriptor.optionName), ("promise".toList, Descriptor.promiseName),
   ("Promise".toList, Descriptor.promiseName), ("Promise.t".toList, Descriptor.promiseName),
   ("Js.Promise.t".toList, Descriptor.promiseName),
   ("Js.Nullable.t".toList, Descriptor.nullableName),
   ("Nullable.t".toList, Descriptor.nullableName), ("Js.Null.t".toList, Descriptor.nullName),
   ("Null.t".toList, Descriptor.nullName), ("dict".toList, Descriptor.dictName),
   ("Dict.t".toList, Descriptor.dictName), ("Js.Dict.t".toList, Descriptor.dictName)]

/-- The height down to which nested types are described. -/
def maxHeight : Nat := 100

/-- Commas separate parameters, elements, fields and arguments. -/
def comma : Text := [',']

/-- An identifier: ASCII letters, digits and underscores, no digit first. -/
def isIdentifier (text : Text) : Bool :=
  text.head?.any (fun c => c.isAlpha || c == '_') && text.all (fun c => c.isAlphanum || c == '_')

/-- What stands in a pair of parentheses around the whole text, trimmed, if it is balanced. -/
def parenthesized? (text : Text) : Option Text :=
  if text.enclosedBy '(' ')' ∧ (text.inner 1).isBalanced then some (text.inner 1).trim else none

theorem length_trim_le (text : Text) : text.trim.length ≤ text.length := by
  have h (t : Text) : (t.dropWhile isBlank).length ≤ t.length :=
    (List.dropWhile_sublist _).length_le
  simp only [Text.trim, Text.trimEnd, Text.trimStart, List.length_reverse]
  calc _ ≤ _ := h _
    _ = _ := List.length_reverse
    _ ≤ _ := h _

/-- What stands in parentheses is shorter than the text. -/
theorem length_lt_of_parenthesized? {text inside : Text} (h : parenthesized? text = some inside) :
    inside.length < text.length := by
  unfold parenthesized? at h
  split at h
  · rename_i hin
    simp only [Option.some.injEq] at h
    subst h
    have hle := length_trim_le (text.inner 1)
    have hpos : 0 < text.length := by
      cases text with
      | nil => simp [Text.enclosedBy] at hin
      | cons c rest => simp
    have : (text.inner 1).length ≤ text.length - 2 := by
      simp only [Text.inner, List.length_take]
      omega
    omega
  · simp at h

/-- The text without redundant parentheses around it; those of a tuple stay. -/
def stripGrouping (text : Text) : Text :=
  match _h : parenthesized? text with
  | none => text
  | some inside => if 1 < (inside.splitTop comma).length then text else stripGrouping inside
termination_by text.length
decreasing_by exact length_lt_of_parenthesized? ‹_›

/-- The parts of a tuple: parentheses around the whole text with more than one part in them. -/
def tupleParts? (text : Text) : Option (List Text) :=
  if text.enclosedBy '(' ')' ∧ (text.inner 1).isBalanced ∧
      1 < ((text.inner 1).splitTop comma).length then
    some ((text.inner 1).splitTop comma)
  else none

/-- What stands in the braces of a record. -/
def recordBody? (text : Text) : Option Text :=
  if text.enclosedBy '\x7b' '\x7d' ∧ (text.inner 1).isBalanced then some (text.inner 1) else none

/-- The name and the arguments of a generic type. -/
def application? (text : Text) : Option (Text × List Text) :=
  match text.findTop? ['<'] with
  | none => none
  | some angle =>
    let args := text.drop angle
    if 0 < angle ∧ text.getLast? = some '>' ∧ Text.isBalanced args then
      some (Text.trim (text.take angle), Text.splitTop (Text.inner 1 args) comma)
    else none

/-- A labelled parameter: its type, and whether it is optional. -/
def labelled? (text : Text) : Option (Text × Bool) :=
  match text with
  | '~' :: rest =>
    let label := rest.dropWhile isBlank
    let afterLabel := label.dropWhile fun c => c.isAlphanum || c == '_' || c == '\x27'
    if label.head?.any (fun c => c.isAlpha || c == '_') then
      match afterLabel.dropWhile isBlank with
      | ':' :: type =>
        if ['=', '?'].isSuffixOf type then some (type.take (type.length - 2), true)
        else some (type, false)
      | _ => none
    else none
  | _ => none

/-- A parameter; an optional one may be absent. -/
def param (describe : Text → Description) (text : Text) : Description :=
  match labelled? text.trim with
  | none => describe text
  | some (type, optional) =>
    if optional then (describe type).map fun d => .wrapper Descriptor.optionName [d]
    else describe type

/-- The texts of the parameters before an arrow: the parts inside parentheses after the mark for
uncurried functions, or the whole text if it has at most one part. -/
def paramTexts (text : Text) : List Text :=
  let inside := (parenthesized? text.trim).getD text.trim
  let unmarked := if inside.head? = some '.' then Text.trim (inside.drop 1) else inside
  if unmarked = [] then []
  else
    let parts := unmarked.splitTop comma
    if parts.length ≤ 1 then [unmarked] else parts

/-- A function from the texts before and after its arrow. -/
def function (describe : Text → Description) (before after : Text) : Description :=
  let params := (paramTexts before).map (param describe)
  let result := describe after
  ⟨.function (Description.descriptors params) result.descriptor,
    Description.allWarnings params ++ result.warnings⟩

/-- The text of a field without the mark for mutable fields. -/
def dropMutable (text : Text) : Text :=
  let mark := "mutable".toList
  let rest := text.drop mark.length
  if mark.isPrefixOf text ∧ rest.head?.any isBlank then rest.dropWhile isBlank else text

/-- A field of a record: its name and its type, or a warning. -/
def field (describe : Text → Description) (part : Text) : List (Text × Descriptor) × List Text :=
  let text := dropMutable part
  match text.dropWhile (· != ':') with
  | [] => ([], [(Doubt.badField text).message])
  | _ :: type =>
    let t := describe type
    ([(unquote (Text.trim (text.takeWhile (· != ':'))), t.descriptor)], t.warnings)

/-- A record from the text in its braces; empty parts are passed over. -/
def record (describe : Text → Description) (body : Text) : Description :=
  let parts := (body.trim.splitTop comma).filter (· ≠ [])
  let fields := parts.map (field describe)
  ⟨.record (fields.flatMap Prod.fst), fields.flatMap Prod.snd⟩

/-- A generic type from its name and arguments; only the first argument counts, but all are
described for their warnings. -/
def application (describe : Text → Description) (callee : Text) (args : List Text) :
    Description :=
  let described := args.map describe
  let warnings := Description.allWarnings described
  match wrappers.lookup callee with
  | none =>
    let doubt := Doubt.unresolved callee
    ⟨.unknown doubt.message, warnings ++ [doubt.message]⟩
  | some name =>
    match described with
    | [] =>
      let doubt := Doubt.missingArgument callee
      ⟨.wrapper name [.unknown doubt.message], [doubt.message]⟩
    | first :: _ => ⟨.wrapper name [first.descriptor], warnings⟩

/-- A type that is a single name, variable or nothing at all. -/
def name (text : Text) : Description :=
  if text.head? = some '\x27' then .unknown (.typeVariable text)
  else match primitives.lookup text with
    | some atRunTime => .plain (.primitive atRunTime)
    | none =>
      if text.contains '.' ∨ isIdentifier text then .unknown (.unresolved text)
      else .unknown (.unsupported text)

/-- A type that is no function. -/
def primary (describe : Text → Description) (text : Text) : Description :=
  if text = [] then .unknown .emptyType
  else match tupleParts? text with
    | some parts =>
      let elements := parts.map describe
      ⟨.tuple (Description.descriptors elements), Description.allWarnings elements⟩
    | none =>
      match recordBody? text with
      | some body => record describe body
      | none =>
        match application? text with
        | some (callee, args) => application describe callee args
        | none => name text

/-- A type whose parts are described by `describe`. -/
def step (describe : Text → Description) (text : Text) : Description :=
  let trimmed := text.trim
  if trimmed = ['(', ')'] then .plain (.primitive "void".toList)
  else
    let body := stripGrouping trimmed
    match body.cutAtTop? Piece.arrowText with
    | some (before, after) => function describe before after
    | none => primary describe body

/-- A type nested at most `height` deep; what lies deeper is unknown. -/
def describeWithin : Nat → Text → Description
  | 0, text => .unknown (.tooDeep text.trim)
  | height + 1, text => step (describeWithin height) text

/-- The description of a type. -/
def describe (text : Text) : Description := describeWithin maxHeight text

end TypeText

end ForeignBindings
