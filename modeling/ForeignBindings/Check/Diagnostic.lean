import ForeignBindings.Declaration.Basic
import ForeignBindings.Text.Color
import ForeignBindings.Text.Lines

/-! Diagnostics: what a check has to say about a place in a file, as a record and as text. -/

namespace ForeignBindings

/-- How serious a diagnostic is. -/
inductive Severity
  | error
  | warning
  | info
  deriving DecidableEq

namespace Severity

def all : List Severity := [.error, .warning, .info]

def name : Severity → Text
  | .error => "error".toList
  | .warning => "warning".toList
  | .info => "info".toList

def ofName? (text : Text) : Option Severity := all.find? fun severity => severity.name == text

def ink : Severity → Ink
  | .error => .red
  | .warning => .yellow
  | .info => .cyan

end Severity

/-- A diagnostic: its severity, what it says, the file, the line and the column from one, and its
code if it has one. -/
structure Diagnostic where
  severity : Severity
  message : Text
  file : Text
  line : Int
  column : Int
  code : Option Text
  deriving DecidableEq

namespace Diagnostic

/-- A diagnostic about a file as a whole. -/
def aboutFile (severity : Severity) (message file code : Text) : Diagnostic :=
  ⟨severity, message, file, 1, 1, some code⟩

def aboutDeclaration (severity : Severity) (message : Text) (d : Declaration) (code : Text) :
    Diagnostic :=
  ⟨severity, message, d.file, d.line, d.column, some code⟩

/-- The code, unless it is empty. -/
def shownCode (d : Diagnostic) : Text := d.code.getD []

def location (d : Diagnostic) : Text :=
  d.file ++ ':' :: Text.ofInt d.line ++ ':' :: Text.ofInt d.column

def toJson (d : Diagnostic) : Json :=
  .object
    ([("level".toList, .string d.severity.name),
      ("message".toList, .string d.message),
      ("file".toList, .string d.file),
      ("line".toList, .int d.line),
      ("column".toList, .int d.column)] ++
    if d.shownCode = [] then [] else [("code".toList, .string d.shownCode)])

/-- The first line of a diagnostic: where, how serious, and what. -/
def headline (palette : Palette) (d : Diagnostic) : Text :=
  d.location ++ ' ' :: palette.ink d.severity.ink ++ palette.ink .bold ++ d.severity.name.upper ++
    (if d.shownCode = [] then [] else '\x5b' :: (d.shownCode ++ ['\x5d'])) ++
    palette.ink .plain ++ ' ' :: d.message

/-- The line of a source that a diagnostic is about. -/
def sourceLine? (d : Diagnostic) (source : Text) : Option Text :=
  if 1 ≤ d.line then source.lines[(d.line - 1).toNat]? else none

/-- A line of the source under its number, and a mark under the column. -/
def excerpt (palette : Palette) (d : Diagnostic) (line : Text) : List Text :=
  [palette.ink .blue ++ Text.padStart 4 (Text.ofInt d.line) ++ " |".toList ++ palette.ink .plain ++
     ' ' :: line,
   "     ".toList ++ palette.ink .blue ++ '|' :: palette.ink .plain ++ ' ' ::
     List.replicate (d.column - 1).toNat ' ' ++ palette.ink d.severity.ink ++ '^' ::
     palette.ink .plain]

/-- The diagnostic as text, with an excerpt of the source if there is one that has the line. -/
def render (palette : Palette) (source : Option Text) (d : Diagnostic) : Text :=
  Text.join ['\n']
    (d.headline palette :: ((source.bind d.sourceLine?).map (d.excerpt palette)).getD [])

end Diagnostic

end ForeignBindings
