import ForeignBindings.Compiler.Temporary
import ForeignBindings.Compiler.Verdict
import ForeignBindings.Files.Walk
import ForeignBindings.Json.Printer

/-! A run of the compiler over the program for some requests.  The program and a configuration that
names it are written into the root of the project, the compiler is started there, and both files
are removed however the run ends. -/

namespace ForeignBindings

/-- What an oracle gives back: its verdicts, one for each request, or what stopped it; the events on
the way; and the compilers that it started. -/
structure Consultation where
  outcome : Except Fault (List Verdict)
  events : List Event
  invocations : List Invocation

/-- A consultation, and the files after it. -/
structure Session where
  consultation : Consultation
  files : FileSystem

namespace Compiler

/-- The options of the compiler without a configuration to extend. -/
def defaultOptions : List (Text × Json) :=
  [("target".toList, .string "ES2022".toList),
   ("module".toList, .string "ESNext".toList),
   ("moduleResolution".toList, .string "Bundler".toList),
   ("lib".toList, Json.texts ["ES2022".toList, "DOM".toList]),
   ("strict".toList, .bool true),
   ("skipLibCheck".toList, .bool true),
   ("esModuleInterop".toList, .bool true)]

/-- The options that every program needs. -/
def probeOptions : List (Text × Json) :=
  [("noEmit".toList, .bool true),
   ("noUnusedLocals".toList, .bool false),
   ("noUnusedParameters".toList, .bool false)]

/-- The name of a configuration of the compiler. -/
def configurationName : Text := "tsconfig.json".toList

/-- The configuration that a project has, resolved: the given one, or the one in its root. -/
def baseConfiguration? (files : FileSystem) (root : Path) (given : Option Path) :
    Except SystemError (Option Path) :=
  let base := given.getD (root.child configurationName)
  (files.hasFile base).map fun found =>
    if found then Path.resolve? files.directory base else none

/-- The configuration for a program of the given name, as an extension of another one or on its
own. -/
def configuration (name : Text) (base : Option Path) : Json :=
  .object ([("files".toList, Json.texts [name]), ("include".toList, .array [])] ++
    match base with
    | some path =>
      [("extends".toList, .string path.text), ("compilerOptions".toList, .object probeOptions)]
    | none => [("compilerOptions".toList, .object (defaultOptions ++ probeOptions))])

/-- The failure of a search for a compiler. -/
def notInstalled : Failure :=
  .ofOracle
    ("TypeScript compiler not found. Install typescript in the project or set ".toList ++
      Options.commandVariable ++ ['.'])
    ["tsc".toList]

/-- Where a project has a compiler of its own. -/
def installedIn (root : Path) : Path :=
  ((root.child packagesName).child ".bin".toList).child "tsc".toList

/-- The words of the command that starts the compiler: the given command line, that of the
environment, the compiler of the project, or the one on the search path. -/
def command (host : Host) (root : Path) (given : Option Text) : Except Fault (List Text) :=
  let line := match given with
    | none | some [] => host.environment.value? Options.commandVariable
    | some line => some line
  match line with
  | some line => (ShellWords.split line).mapError .commandLine
  | none =>
    match host.files.hasFile (installedIn root), host.compilerOnPath with
    | .error e, _ => .error (.system e)
    | .ok true, _ => .ok [(installedIn root).text]
    | .ok false, none | .ok false, some [] => .error (.failure notInstalled)
    | .ok false, some path => .ok [path]

/-- The failure to write temporary files. -/
def unwritable (root : Path) (e : SystemError) : Failure :=
  .ofOracle ("Cannot write temporary files in ".toList ++ root.text ++ ": ".toList ++ e.message) []

/-- The words that a command and the file of a configuration make. -/
def fullCommand (words : List Text) (configuration : Path) : List Text :=
  words ++ ["-p".toList, configuration.text, "--noEmit".toList, "--pretty".toList, "false".toList]

/-- The verdicts that the messages in the output of a finished compiler give, if they say anything
about the requests or the compiler ended well. -/
def judge (program : Program) (name : Text) (words : List Text) (output : Text) (status : Int)
    (messages : List CompilerMessage) : Except Fault (List Verdict) :=
  let findings := program.findings name messages
  if status ≠ 0 ∧ findings = [] then
    .error (.failure
      ⟨"TypeScript compiler failed without reporting on the checked bindings".toList, none,
        .oracleOutput ⟨words, output⟩⟩)
  else .ok (program.verdicts findings)

/-- The verdicts and the events that the end of a start gives. -/
def conclude (program : Program) (words : List Text) (invocation : Invocation) :
    Launch → Except Fault (List Verdict) × List Event
  | .finished output errors status =>
    let name := invocation.program.name
    match CompilerMessage.all (output ++ errors) with
    | .error e => (.error (.tooManyDigits e), [])
    | .ok messages =>
      (judge program name words (output ++ errors) status messages, Program.ignored name messages)
  | .notFound =>
    match words with
    | [] => (.error .noCommandWord, [])
    | first :: _ =>
      (.error (.failure (.ofOracle ("TypeScript compiler not found: ".toList ++ first)
        invocation.words)), [])
  | .timedOut =>
    match invocation.timeout.brief with
    | .error fault => (.error (.timeout fault), [])
    | .ok seconds =>
      (.error (.failure (.ofOracle
        ("TypeScript compiler timed out after ".toList ++ seconds ++ ['s'])
        invocation.words)), [])
  | .denied =>
    (.error (.system (.about .permissionDenied (invocation.words.headD []))), [])
  | .failed error => (.error (.start error), [])

/-- A session that ends before a compiler is started. -/
def stopped (files : FileSystem) (fault : Fault) : Session := ⟨⟨.error fault, [], []⟩, files⟩

/-- A start of the compiler once both temporary files are written. -/
def start (host : Host) (program : Program) (words : List Text) (invocation : Invocation) :
    Consultation :=
  let (outcome, events) := conclude program words invocation (host.launch invocation)
  ⟨outcome, .running invocation.words :: events, [invocation]⟩

/-- An attempt to write a configuration that names a program and extends the base of the project. -/
def writeConfiguration (host : Host) (files : FileSystem) (root : Path) (base : Option Path)
    (directory : Path) (name : Text) : Temporary.Attempt :=
  match baseConfiguration? host.files root base with
  | .error e => .failed files none e
  | .ok extended =>
    Temporary.write host files directory ".json".toList (configuration name extended).pretty

/-- A run with a command that has been found. -/
def run (host : Host) (root : Path) (base : Option Path) (timeout : Timeout) (program : Program)
    (words : List Text) : Session :=
  let directory := Path.absolute host.files.directory root
  match Temporary.write host host.files directory ".ts".toList program.text with
  | .failed files created e =>
    stopped (Temporary.clean files directory created.toList) (.failure (unwritable root e))
  | .written withProgram name =>
    match writeConfiguration host withProgram root base directory name with
    | .failed files created e =>
      stopped (Temporary.clean files directory (name :: created.toList))
        (.failure (unwritable root e))
    | .written withBoth configurationName =>
      let file := directory.child configurationName
      let invocation : Invocation :=
        ⟨fullCommand words file, root, timeout, directory.child name, file, withBoth⟩
      ⟨start host program words invocation,
        Temporary.clean withBoth directory [name, configurationName]⟩

/-- The options of the compiler as a check gives them: the command line, the configuration, and the
time limit. -/
structure Setup where
  command : Option Text
  configuration : Option Path
  timeout : Timeout

/-- A consultation of the compiler about requests; without requests none is needed. -/
def consult (host : Host) (setup : Setup) (root : Path) (requests : List Request) : Session :=
  if requests.isEmpty then ⟨⟨.ok [], [], []⟩, host.files⟩
  else match command host root setup.command with
    | .error fault => stopped host.files fault
    | .ok words =>
      if root.hasNull then stopped host.files .nullInPath
      else run host root setup.configuration setup.timeout (.ofRequests requests) words

end Compiler

end ForeignBindings
