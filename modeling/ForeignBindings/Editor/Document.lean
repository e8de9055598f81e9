import ForeignBindings.Declaration.Scan
import ForeignBindings.Editor.Span
import ForeignBindings.Probe.Target

/-! What an editor learns about one document: a warning for every doubt about a type, the TypeScript
type of a declaration on hovering, and an outline. -/

namespace ForeignBindings.Editor

/-- A document by its declarations, each with its type and target. -/
structure Document where
  externals : List Request

/-- A warning for an editor: the span it is about, what it says, and its code. -/
structure Notice where
  span : Span
  message : Text
  code : Text
  deriving DecidableEq

/-- What is shown on hovering, and the span that it is about. -/
structure Hover where
  contents : Text
  span : Span
  deriving DecidableEq

/-- A line of the outline: a name, its type, whether it is a function, and where it stands. -/
structure Symbol where
  name : Text
  detail : Text
  isFunction : Bool
  span : Span
  deriving DecidableEq

/-- The warnings about a declaration whose type has the given description. -/
def doubts (d : Declaration) (type : Description) : List Notice :=
  type.warnings.map fun warning => ⟨spanOf d, d.name ++ ": ".toList ++ warning, doubtCode⟩

/-- The warnings about a source, of which nothing else is kept. -/
def diagnostics (name source : Text) : List Notice :=
  (scan name source).flatMap fun d => doubts d (TypeText.describe d.typeText)

/-- Text in code style. -/
def code (text : Text) : Text := '\x60' :: (text ++ ['\x60'])

/-- Where a value comes from; an empty module name counts as none. -/
def origin (target : Target) : Text :=
  match target.importPath with
  | none | some [] => code "globalThis".toList
  | some path => "module ".toList ++ code ('\x22' :: (path ++ ['\x22']))

/-- A type as a block of code. -/
def typeBlock (type : Text) : Text :=
  let fence : Text := List.replicate 3 '\x60'
  fence ++ "typescript\n".toList ++ type ++ '\n' :: fence

/-- What hovering over a declaration shows: its name, its type, its target, and its doubts. -/
def hoverText (r : Request) : Text :=
  Text.join "\n\n".toList
    (["**external ".toList ++ r.declaration.name ++ "**".toList,
      typeBlock r.expectedType,
      "Binds to ".toList ++ code (Text.join ['.'] r.target.segments) ++ " from ".toList ++
        origin r.target] ++
    if r.expected.warnings = [] then []
    else [Text.join ['\n'] (r.expected.warnings.map ("- ".toList ++ ·))])

namespace Document

/-- The document that a source makes. -/
def ofSource (name source : Text) : Document := ⟨(scan name source).map Declaration.request⟩

def warnings (document : Document) : List Notice :=
  document.externals.flatMap fun r => doubts r.declaration r.expected

/-- The last line, from zero, on which a declaration is looked for: as many lines after its keyword
as its type has line feeds, and one more. -/
def lastLine (d : Declaration) : Int := (d.line : Int) - 1 + d.typeText.count '\n' + 1

/-- The declaration on a line from zero: the last one that starts there or before, unless its lines
have ended. -/
def externalAt? (document : Document) (line : Int) : Option Request :=
  let begun := document.externals.takeWhile fun r => (r.declaration.line : Int) - 1 ≤ line
  begun.getLast?.filter fun r => line ≤ lastLine r.declaration

/-- What hovering over a line shows. -/
def hover? (document : Document) (line : Int) : Option Hover :=
  (document.externalAt? line).map fun r => ⟨hoverText r, spanOf r.declaration⟩

/-- The outline of a document. -/
def symbols (document : Document) : List Symbol :=
  document.externals.map fun r =>
    ⟨r.declaration.name, r.expectedType, r.expected.descriptor.isFunction, spanOf r.declaration⟩

end Document

end ForeignBindings.Editor
