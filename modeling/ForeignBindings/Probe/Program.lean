import ForeignBindings.Probe.Target
import ForeignBindings.Text.Lines

/-! The program that puts requests to a compiler.  It imports each module once, and for every
request it names the claimed type and the actual one and assigns a value of the second to the
first; so an error on one of these lines is about that request. -/

namespace ForeignBindings

/-- What a line of the program says about a request. -/
inductive Role
  | expected
  | actual
  | probe
  deriving DecidableEq

def Role.name : Role → Text
  | .expected => "expected".toList
  | .actual => "actual".toList
  | .probe => "probe".toList

/-- Where the program speaks about a request: the number of the request, its claimed type, and the
lines, from one, for each role. -/
structure ProbeEntry where
  index : Nat
  expectedType : Text
  expectedLine : Nat
  actualLine : Nat
  probeLine : Nat
  deriving DecidableEq

/-- The role of a line in an entry. -/
def ProbeEntry.role? (entry : ProbeEntry) (line : Nat) : Option Role :=
  if line = entry.expectedLine then some .expected
  else if line = entry.actualLine then some .actual
  else if line = entry.probeLine then some .probe
  else none

/-- A program by its lines, and its entries in the order of the requests. -/
structure Program where
  lines : List Text
  entries : List ProbeEntry

namespace Program

/-- The text of a program: every line ends with a line feed. -/
def text (program : Program) : Text := program.lines.flatMap (· ++ ['\n'])

/-- The request that a line is about, and the role of the line. -/
def locate? (program : Program) (line : Nat) : Option (Nat × Role) :=
  program.entries.findSome? fun entry => (entry.role? line).map fun role => (entry.index, role)

/-- The object whose properties are the global values. -/
def globalRoot : Text := "globalThis".toList

/-- The name under which the program imports the module of the given number. -/
def importAlias (number : Nat) : Text := "__mod".toList ++ Text.ofNat number

/-- The modules that requests import from, in the order of their first use. -/
def importPaths (requests : List Request) : List Text :=
  (requests.filterMap fun r => r.target.importPath).eraseDups

/-- The lines that import modules, the first under the given number. -/
def importLines (number : Nat) : List Text → List Text
  | [] => []
  | path :: rest =>
    ("import * as ".toList ++ importAlias number ++ " from ".toList ++ Json.quote path ++ [';']) ::
      importLines (number + 1) rest

/-- The name from which a request reaches its value. -/
def rootOf (paths : List Text) (r : Request) : Text :=
  match r.target.importPath with
  | some path => importAlias (paths.idxOf path)
  | none => globalRoot

/-- A comment for a warning, on one line whatever blanks the warning holds. -/
def warningLine (warning : Text) : Text :=
  "// warning: ".toList ++ Text.join [' '] warning.words

def expectedLine (number type : Text) : Text :=
  "type __expected_".toList ++ number ++ " = ".toList ++ type ++ [';']

def actualLine (number type : Text) : Text :=
  "type __actual_".toList ++ number ++ " = ".toList ++ type ++ [';']

/-- The line that declares a value of the actual type. -/
def valueLine (number : Text) : Text :=
  "declare const __value_".toList ++ number ++ ": __actual_".toList ++ number ++ [';']

/-- The line that assigns the value to the claimed type. -/
def probeLine (number : Text) : Text :=
  "const __check_".toList ++ number ++ ": __expected_".toList ++ number ++ " = __value_".toList ++
    number ++ [';']

/-- The lines for the request of the given number. -/
def requestLines (root : Text) (index : Nat) (r : Request) : List Text :=
  let number := Text.ofNat index
  r.expected.warnings.map warningLine ++
    [expectedLine number r.expectedType,
     actualLine number (Typescript.typeQuery root r.target.segments),
     valueLine number, probeLine number]

/-- The entry of the request of the given number, with `above` lines before its own. -/
def requestEntry (index above : Nat) (r : Request) : ProbeEntry :=
  let first := above + r.expected.warnings.length + 1
  ⟨index, r.expectedType, first, first + 1, first + 3⟩

/-- The lines and entries of requests, numbered from `index` on, with `above` lines before them. -/
def layout (paths : List Text) (index above : Nat) : List Request → Program
  | [] => ⟨[], []⟩
  | r :: rest =>
    let own := requestLines (rootOf paths r) index r
    let later := layout paths (index + 1) (above + own.length) rest
    ⟨own ++ later.lines, requestEntry index above r :: later.entries⟩

def ofRequests (requests : List Request) : Program :=
  let paths := importPaths requests
  let head := importLines 0 paths ++ ["type __Global = typeof ".toList ++ globalRoot ++ [';']]
  let body := layout paths 0 head.length requests
  ⟨head ++ body.lines ++ ["export \x7b\x7d;".toList], body.entries⟩

end Program

end ForeignBindings
