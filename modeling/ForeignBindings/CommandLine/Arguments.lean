import ForeignBindings.Check.Options
import ForeignBindings.CommandLine.Grammar
import ForeignBindings.Event

/-! The command lines of the program: options for all commands, and one grammar for each command. -/

namespace ForeignBindings.CommandLine

/-- What a check is asked for. -/
structure CheckArguments where
  options : Options := {}
  asJson : Bool := false
  showSource : Bool := false

/-- What a listing of declarations is asked for. -/
structure ScanArguments where
  input : Path := .ofText []
  asJson : Bool := false

/-- What the program is asked to do. -/
inductive Command
  | check (arguments : CheckArguments)
  | scan (arguments : ScanArguments)
  | describe (type : Text)
  | tokens (input : Path)

/-- What a command line says: how important an event must be to be told, unless that is set to
nothing, and the command with its words. -/
structure Common where
  level : Option Importance
  command : Option (Text × List Text)

/-- A request to the program. -/
structure Order where
  level : Option Importance
  command : Option Command

/-- Lines of text. -/
def paragraph (lines : List String) : Text := lines.flatMap fun line => line.toList ++ ['\n']

def programName : Text := "bindcheck".toList

/-- The program and its version. -/
def versionText : Text := paragraph ["bindcheck 0.1.0"]

def helpSwitch {σ : Type} : Switch σ := ⟨["-h".toList, "--help".toList], .help⟩

def commandNames : List Text :=
  ["check".toList, "scan".toList, "translate".toList, "tokens".toList]

/-- The option that sets from which importance on events are told. -/
def levelSwitch {σ : Type} (set : Option Importance → σ → σ) : Switch σ :=
  let read (text : Text) : Except Text (σ → σ) :=
    match Importance.ofName? text with
    | some level => .ok (set (some level))
    | none => .error (invalidChoice text (Importance.all.map Importance.name))
  ⟨["--log-level".toList], .value read (set none)⟩

/-- How the program is used. -/
def usage : Text :=
  paragraph
    ["usage: bindcheck [-h] [-V] [--log-level \x7bdebug,info,warning,error\x7d]",
     "                 \x7bcheck,scan,translate,tokens\x7d ..."]

/-- The grammar up to the command. -/
def grammar : Grammar Common :=
  ⟨programName, usage,
    usage ++ paragraph
      ["",
       "Verify ReScript external bindings against TypeScript declarations",
       "",
       "positional arguments:",
       "  \x7bcheck,scan,translate,tokens\x7d",
       "                        Available commands",
       "    check               Check every external in a ReScript project",
       "    scan                List the external declarations in a file",
       "    translate           Translate a ReScript type expression to TypeScript",
       "    tokens              Show the token stream of a file (debug)",
       "",
       "options:",
       "  -h, --help            show this help message and exit",
       "  -V, --version         show program's version number and exit",
       "  --log-level \x7bdebug,info,warning,error\x7d",
       "                        Logging level (default: warning)"],
    versionText,
    [helpSwitch, ⟨["-V".toList, "--version".toList], .version⟩,
     levelSwitch fun level common => { common with level }],
    some (.command "command".toList commandNames fun name words common =>
      { common with command := some (name, words) })⟩

/-- How a check is used. -/
def checkUsage : Text :=
  paragraph
    ["usage: bindcheck check [-h] [--json] [--tsc COMMAND] [--tsconfig TSCONFIG]",
     "                       [--timeout TIMEOUT] [--show-source]",
     "                       [dir]"]

/-- A change to the options of a check. -/
def CheckArguments.withOptions (change : Options → Options) (a : CheckArguments) :
    CheckArguments :=
  { a with options := change a.options }

/-- The option that sets the command line of the compiler. -/
def commandSwitch : Switch CheckArguments :=
  let set (command : Text) : CheckArguments → CheckArguments :=
    .withOptions fun o => { o with command := some command }
  ⟨["--tsc".toList], .value (fun text => .ok (set text)) (set [])⟩

/-- The option that sets the configuration that is extended. -/
def configurationSwitch : Switch CheckArguments :=
  let set (configuration : Option Path) : CheckArguments → CheckArguments :=
    .withOptions fun o => { o with configuration := some configuration }
  ⟨["--tsconfig".toList], .value (fun text => .ok (set (some (.ofText text)))) (set none)⟩

/-- The option that sets a time limit, a number of seconds. -/
def timeoutSwitch : Switch CheckArguments :=
  let set (timeout : Timeout) : CheckArguments → CheckArguments :=
    .withOptions fun o => { o with timeout := some timeout }
  let read (text : Text) : Except Text (CheckArguments → CheckArguments) :=
    match Literal.real? text with
    | some seconds => .ok (set (.real seconds))
    | none => .error ("invalid float value: ".toList ++ text.quoted)
  ⟨["--timeout".toList], .value read (set .nothing)⟩

def checkGrammar : Grammar CheckArguments :=
  ⟨"bindcheck check".toList, checkUsage,
    checkUsage ++ paragraph
      ["",
       "positional arguments:",
       "  dir                  Directory to search upward from for rescript.json",
       "                       (default: cwd)",
       "",
       "options:",
       "  -h, --help           show this help message and exit",
       "  --json               Print the result as JSON",
       "  --tsc COMMAND        Command used to run the TypeScript compiler (default:",
       "                       $BINDCHECK_TSC, node_modules/.bin/tsc, or tsc on PATH)",
       "  --tsconfig TSCONFIG  tsconfig.json to extend (default: <project",
       "                       root>/tsconfig.json)",
       "  --timeout TIMEOUT    Seconds to wait for the TypeScript compiler (default:",
       "                       120)",
       "  --show-source        Show the offending source line under each diagnostic"],
    versionText,
    [helpSwitch,
     ⟨["--json".toList], .set fun a => { a with asJson := true }⟩,
     commandSwitch, configurationSwitch, timeoutSwitch,
     ⟨["--show-source".toList], .set fun a => { a with showSource := true }⟩],
    some (.optional "dir".toList fun text =>
      .withOptions fun o => { o with directory := some (.ofText text) })⟩

/-- How a listing of declarations is used. -/
def scanUsage : Text := paragraph ["usage: bindcheck scan [-h] [--json] input"]

def scanGrammar : Grammar ScanArguments :=
  ⟨"bindcheck scan".toList, scanUsage,
    scanUsage ++ paragraph
      ["",
       "positional arguments:",
       "  input       ReScript source file (.res or .resi)",
       "",
       "options:",
       "  -h, --help  show this help message and exit",
       "  --json      Print declarations as JSON"],
    versionText,
    [helpSwitch, ⟨["--json".toList], .set fun a => { a with asJson := true }⟩],
    some (.required "input".toList fun text a => { a with input := .ofText text })⟩

/-- How the description of a type is used. -/
def describeUsage : Text := paragraph ["usage: bindcheck translate [-h] type"]

/-- The grammar of the description of a type. -/
def describeGrammar : Grammar Text :=
  ⟨"bindcheck translate".toList, describeUsage,
    describeUsage ++ paragraph
      ["",
       "positional arguments:",
       "  type        ReScript type expression, e.g. \"(string, int) => promise<unit>\"",
       "",
       "options:",
       "  -h, --help  show this help message and exit"],
    versionText, [helpSwitch], some (.required "type".toList fun text _ => text)⟩

/-- How a listing of tokens is used. -/
def tokensUsage : Text := paragraph ["usage: bindcheck tokens [-h] input"]

def tokensGrammar : Grammar Path :=
  ⟨"bindcheck tokens".toList, tokensUsage,
    tokensUsage ++ paragraph
      ["",
       "positional arguments:",
       "  input       ReScript source file",
       "",
       "options:",
       "  -h, --help  show this help message and exit"],
    versionText, [helpSwitch], some (.required "input".toList fun text _ => .ofText text)⟩

/-- Reads the words of a command, and gives back the words that fit nowhere. -/
def readCommand {σ : Type} (g : Grammar σ) (initial : σ) (make : σ → Command)
    (words : List Text) : Except Output (Command × List Text) :=
  ((g.read initial words).mapError g.stopped).map fun (settings, extras) => (make settings, extras)

/-- Reads the words of the command of the given name. -/
def commandOf (name : Text) (words : List Text) : Except Output (Command × List Text) :=
  if name = "check".toList then readCommand checkGrammar {} .check words
  else if name = "scan".toList then readCommand scanGrammar {} .scan words
  else if name = "translate".toList then readCommand describeGrammar [] .describe words
  else readCommand tokensGrammar (.ofText []) .tokens words

/-- The order that extra words spoil. -/
def complete (order : Order) (extras : List Text) : Except Output Order :=
  if extras = [] then .ok order else .error (grammar.stopped (unrecognized extras))

/-- The order that a command line gives, or what is put out instead. -/
def readOrder (words : List Text) : Except Output Order := do
  let (common, extras) ← (grammar.read ⟨some .warning, none⟩ words).mapError grammar.stopped
  match common.command with
  | none => complete ⟨common.level, none⟩ extras
  | some (name, rest) =>
    let (command, more) ← commandOf name rest
    complete ⟨common.level, some command⟩ (extras ++ more)

end ForeignBindings.CommandLine
