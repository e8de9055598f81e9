import ForeignBindings.Check.Bindings
import ForeignBindings.CommandLine.Arguments

/-! What the commands put out. -/

namespace ForeignBindings.CommandLine

/-- What a run puts out, or what stopped it, and the compilers that it started. -/
structure Run where
  outcome : Except Fault Output
  invocations : List Invocation

/-- A run that starts no compiler. -/
def quiet (status : Nat) (output errors : Text) : Run := ⟨.ok ⟨status, output, errors⟩, []⟩

/-- A run that a fault stops before it puts anything out. -/
def broken (fault : Fault) : Run := ⟨.error fault, []⟩

/-- A line of text. -/
def line (text : Text) : Text := text ++ ['\n']

/-- Text in a colour. -/
def colored (palette : Palette) (ink : Ink) (text : Text) : Text :=
  palette.ink ink ++ text ++ palette.ink .plain

/-- An error under a title in red. -/
def errorLine (palette : Palette) (title message : Text) : Text :=
  line (colored palette .red title ++ ' ' :: message)

/-- The lines for events that are important enough. -/
def eventLines (level : Importance) (events : List Event) : Text :=
  (events.filter fun event => level.rank ≤ event.importance.rank).flatMap fun event =>
    line event.line

/-- The colour of a report: red for errors, yellow for warnings, else green. -/
def statusInk (summary : Summary) : Ink :=
  if summary.errors ≠ 0 then .red else if summary.warnings ≠ 0 then .yellow else .green

def summaryLine (palette : Palette) (s : Summary) : Text :=
  palette.ink (statusInk s) ++ palette.ink .bold ++ "Checked ".toList ++ Text.ofInt s.externals ++
    " externals:".toList ++ palette.ink .plain ++ ' ' :: Text.ofNat s.errors ++
    " error(s), ".toList ++ Text.ofNat s.warnings ++ " warning(s).".toList

/-- The source of a diagnostic, if it is shown and can be read. -/
def sourceOf? (fs : FileSystem) (isShown : Bool) (d : Diagnostic) : Option Text :=
  if isShown then (fs.read (.ofText d.file)).toOption else none

/-- A report as text. -/
def reportText (palette : Palette) (fs : FileSystem) (showSource : Bool) (report : Report) : Text :=
  line (summaryLine palette report.summary) ++
    report.diagnostics.flatMap fun d => line (d.render palette (sourceOf? fs showSource d))

/-- The error that stopped a check. -/
def faultLine (palette : Palette) : Fault → Text
  | .failure cause => errorLine palette "Error:".toList cause.text
  | fault => errorLine palette "Internal error:".toList fault.message

/-- The options of a check: those of the environment, then those of the command line. -/
def checkOptions (host : Host) (a : CheckArguments) : Except Fault Options :=
  ((Options.ofEnvironment host.environment).mapError .failure).map (·.override a.options)

/-- The output of a check with the given outcome. -/
def checkOutput (palette : Palette) (host : Host) (level : Importance) (a : CheckArguments)
    (outcome : Outcome) : Output :=
  let events := eventLines level outcome.events
  match outcome.report with
  | .error fault => ⟨1, [], events ++ faultLine palette fault⟩
  | .ok report =>
    let text := if a.asJson then line report.toJson.pretty
      else reportText palette host.files a.showSource report
    ⟨if report.hasErrors then 1 else 0, text, events⟩

/-- A check. -/
def check (palette : Palette) (host : Host) (level : Importance) (a : CheckArguments) : Run :=
  match checkOptions host a with
  | .error fault => quiet 1 [] (faultLine palette fault)
  | .ok options =>
    let outcome := Check.run host options
    ⟨.ok (checkOutput palette host level a outcome), outcome.invocations⟩

/-- An attribute as it is listed: a flag by its name, any other with its value. -/
def attributeText : Text × Json → Text
  | (name, .bool true) => '@' :: name
  | (name, value) => '@' :: (name ++ '(' :: (value.compact ++ [')']))

/-- A declaration as it is listed. -/
def declarationLine (palette : Palette) (d : Declaration) : Text :=
  let attributes := Text.join [' '] (d.attributes.members.map attributeText)
  line (Text.trimEnd
    (colored palette .gray d.location.text ++ ' ' :: colored palette .cyan d.name ++
      ": ".toList ++ d.typeText ++ " = ".toList ++ Json.quote d.binding ++ ' ' :: attributes))

/-- What a run does with a file, if the file is there. -/
def withFile (fs : FileSystem) (input : Path) (run : Run) : Run :=
  match fs.contains input with
  | .error e => broken (.system e)
  | .ok false => quiet 1 [] (line ("Error: File not found: ".toList ++ input.text))
  | .ok true => run

/-- A listing of declarations. -/
def declarationList (palette : Palette) (asJson : Bool) (found : List Declaration) : Text :=
  if asJson then line (Json.array (found.map Declaration.toJson)).pretty
  else found.flatMap (declarationLine palette) ++
    line (Text.ofNat found.length ++ " external(s)".toList)

/-- A listing of the declarations in a file. -/
def scan (palette : Palette) (fs : FileSystem) (a : ScanArguments) : Run :=
  withFile fs a.input <| match fs.declarations a.input with
    | .error fault => quiet 1 [] (errorLine palette "Error:".toList fault.message)
    | .ok found => quiet 0 (declarationList palette a.asJson found) []

/-- A type as TypeScript, with the doubts as warnings. -/
def describe (palette : Palette) (type : Text) : Run :=
  let description := TypeText.describe type
  quiet 0 (line (Typescript.render description.descriptor))
    (description.warnings.flatMap fun warning =>
      line (colored palette .yellow "warning:".toList ++ ' ' :: warning))

/-- A token as it is listed. -/
def tokenLine (input : Path) (t : Token) : Text :=
  let location : Location := ⟨some input.text, t.start.line, t.start.column⟩
  line ("Token(".toList ++ t.lexeme.name ++ ", ".toList ++ Text.quoted t.text ++ ", ".toList ++
    location.text ++ [')'])

/-- A listing of the tokens of a file. -/
def tokens (fs : FileSystem) (input : Path) : Run :=
  withFile fs input <| match fs.read input with
    | .error fault => quiet 1 [] (line ("Error: ".toList ++ fault.message))
    | .ok source => quiet 0 ((tokenize source).flatMap (tokenLine input)) []

/-- What an order leads to: it needs a level, and without a command the help is shown. -/
def execute (palette : Palette) (host : Host) (order : Order) : Run :=
  match order.level, order.command with
  | none, _ => broken .noLevel
  | _, none => ⟨.ok (grammar.stopped .help), []⟩
  | some level, some (.check a) => check palette host level a
  | _, some (.scan a) => scan palette host.files a
  | _, some (.describe type) => describe palette type
  | _, some (.tokens input) => tokens host.files input

/-- The program: what a command line leads to. -/
def run (palette : Palette) (host : Host) (words : List Text) : Run :=
  match readOrder words with
  | .error output => ⟨.ok output, []⟩
  | .ok order => execute palette host order

end ForeignBindings.CommandLine
