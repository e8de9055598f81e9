import ForeignBindings.Check.Options
import ForeignBindings.Check.Report
import ForeignBindings.Compiler.Run
import ForeignBindings.Project.Configuration
import ForeignBindings.Project.Sources

/-! The check of a project: find it, read its declarations, describe their types, ask an oracle
whether the values fit, and report.  What is wrong with the project becomes a diagnostic. -/

namespace ForeignBindings

/-- An oracle answers requests about a project with the given root. -/
abbrev Oracle := Path → List Request → Consultation

/-- How a check ended: its report, or what stopped it; the events on the way; the compilers that
were started; and what the oracle was asked. -/
structure Outcome where
  report : Except Fault Report
  events : List Event
  invocations : List Invocation
  asked : Option (Path × List Request)

namespace Check

/-- The code for a project that was not found. -/
def notFoundCode : Text := "E0101".toList

/-- The code for a configuration that cannot be used. -/
def configurationCode : Text := "E0102".toList

/-- The code for a source file that cannot be read. -/
def unreadableCode : Text := "E0103".toList

/-- The code for an oracle that cannot run. -/
def oracleCode : Text := "E0201".toList

/-- The code for an oracle whose output says nothing. -/
def oracleOutputCode : Text := "E0202".toList

/-- The code for a value that does not fit. -/
def mismatchCode : Text := "E0301".toList

/-- The code for a value that was not found. -/
def unresolvedCode : Text := "E0302".toList

/-- What reading source files gives. -/
structure SourceScan where
  declarations : List Declaration
  diagnostics : List Diagnostic
  events : List Event

/-- What reading one source file gives: its declarations, or an error. -/
def scanFile (fs : FileSystem) (file : Path) : SourceScan :=
  match fs.declarations file with
  | .ok found => ⟨found, [], [.scanned file found.length]⟩
  | .error fault =>
    ⟨[], [.aboutFile .error ("Cannot read source file: ".toList ++ fault.message) file.text
        unreadableCode],
      [.skipped file fault]⟩

/-- What reading the source files below directories gives. -/
def scanSources (fs : FileSystem) (directories : List Path) : Except WalkFault SourceScan :=
  (fs.modules directories).map fun files =>
    let scans := files.map (scanFile fs)
    ⟨scans.flatMap SourceScan.declarations, scans.flatMap SourceScan.diagnostics,
      scans.flatMap SourceScan.events⟩

/-- The source directories that do not exist, up to one that cannot be walked. -/
def missingDirectories (fs : FileSystem) : List Path → List Path
  | [] => []
  | directory :: rest =>
    match fs.sources directory with
    | .error _ => []
    | .ok _ =>
      match fs.hasDirectory directory with
      | .ok false => directory :: missingDirectories fs rest
      | _ => missingDirectories fs rest

def warnings (r : Request) : List Diagnostic :=
  r.expected.warnings.map fun warning =>
    .aboutDeclaration .warning (r.declaration.name ++ ": ".toList ++ warning) r.declaration
      doubtCode

/-- A text that may be missing. -/
def shown (text : Option Text) : Text := text.getD "None".toList

/-- What a verdict says against a declaration. -/
def objection? (d : Declaration) : Verdict → Option Diagnostic
  | .assignable => none
  | .unresolved _ detail =>
    let message := "Failed to resolve TypeScript types for external ".toList ++ d.name
    let message := match detail with
      | none | some [] => message
      | some detail => message ++ ": ".toList ++ detail
    some (.aboutDeclaration .error message d unresolvedCode)
  | .mismatch expected actual detail =>
    let message := "Type mismatch for ".toList ++ d.name ++ ": ".toList
    let message := match actual, detail with
      | some actual, _ =>
        message ++ "expected ".toList ++ shown expected ++ ", got ".toList ++ actual ++ ['.']
      | none, none | none, some [] => message ++ "not assignable".toList
      | none, some detail => message ++ detail
    some (.aboutDeclaration .error message d mismatchCode)

/-- The diagnostics for requests and the verdicts on them. -/
def judgements (requests : List Request) (verdicts : List Verdict) : List Diagnostic :=
  (requests.zip verdicts).flatMap fun (r, verdict) =>
    warnings r ++ (objection? r.declaration verdict).toList

/-- The code for a failure of the oracle; other failures have none. -/
def Cause.code? : Cause → Option Text
  | .oracle _ => some oracleCode
  | .oracleOutput _ => some oracleOutputCode
  | _ => none

/-- The diagnostics that a consultation about requests gives, and one more event if the oracle
failed; what is no failure of the oracle stops the check. -/
def conclude (root : Path) (requests : List Request) :
    Except Fault (List Verdict) → Except Fault (List Diagnostic) × List Event
  | .ok verdicts => (.ok (judgements requests verdicts), [])
  | .error (.failure cause) =>
    match Cause.code? cause.cause with
    | some code =>
      (.ok (requests.flatMap warnings ++ [.aboutFile .error cause.message root.text code]),
        [.oracleFailed cause])
    | none => (.error (.failure cause), [])
  | .error fault => (.error fault, [])

/-- An outcome without a consultation. -/
def unasked (report : Except Fault Report) (events : List Event) : Outcome :=
  ⟨report, events, [], none⟩

/-- The outcome with events before its own. -/
def preceded (events : List Event) (outcome : Outcome) : Outcome :=
  { outcome with events := events ++ outcome.events }

/-- The outcome for sources that have been read; without declarations no oracle is asked. -/
def judged (oracle : Oracle) (root : Path) (scan : SourceScan) : Outcome :=
  if scan.declarations.isEmpty then unasked (.ok (.ofDiagnostics 0 scan.diagnostics)) []
  else
    let requests := scan.declarations.map Declaration.request
    let consultation := oracle root requests
    let (result, more) := conclude root requests consultation.outcome
    ⟨result.map fun found =>
        .ofDiagnostics scan.declarations.length (scan.diagnostics ++ found),
      consultation.events ++ more, consultation.invocations, some (root, requests)⟩

/-- The check of a project that was found. -/
def project (fs : FileSystem) (oracle : Oracle) (p : Project) : Outcome :=
  let before := .checking p.root ::
    (missingDirectories fs p.sourceDirectories).map .directoryMissing
  match scanSources fs p.sourceDirectories with
  | .error e => unasked (.error (.ofWalk e)) before
  | .ok scan => preceded (before ++ scan.events) (judged oracle p.root scan)

def onlyError (message file code : Text) : Report :=
  .ofDiagnostics 0 [.aboutFile .error message file code]

/-- The outcome for a project that was looked for from a directory. -/
def located (fs : FileSystem) (oracle : Oracle) (start : Path) :
    Except Fault (Option Project) → Outcome
  | .ok (some p) => project fs oracle p
  | .ok none =>
    unasked
      (.ok (onlyError "rescript.json not found in this directory tree.".toList start.text
        notFoundCode))
      [.noConfiguration start]
  | .error (.failure ⟨message, _, .configuration path⟩) =>
    let file := match path with
      | none | some [] => start.text
      | some path => path
    unasked (.ok (onlyError message file configurationCode)) []
  | .error fault => unasked (.error fault) []

/-- The check of the project that a resolved directory belongs to. -/
def bindings (fs : FileSystem) (oracle : Oracle) (start : Path) : Outcome :=
  preceded ((fs.configuration? start).toOption.join.toList.map .configurationFound)
    (located fs oracle start (Project.above fs start))

/-- The check that options ask for, with the compiler as the oracle. -/
def run (host : Host) (options : Options) : Outcome :=
  match options.start host.files.directory with
  | .error fault => unasked (.error fault) []
  | .ok start =>
    let setup : Compiler.Setup := ⟨options.command, options.configurationPath?, options.limit⟩
    bindings host.files (fun root requests =>
      (Compiler.consult host setup root requests).consultation) start

end Check

end ForeignBindings
