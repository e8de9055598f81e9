import ForeignBindings.CommandLine.Arguments
import ForeignBindings.Editor.Server

/-! The command line of the server for editors. -/

namespace ForeignBindings.CommandLine

/-- How the server talks to editors: over its own input and output, or over the network, where the
host and the port may be set to nothing. -/
inductive Connection
  | standard
  | network (host : Option Text) (port : Option Int)
  deriving DecidableEq

/-- What the server is asked for. -/
structure ServerArguments where
  network : Bool := false
  host : Option Text := some "127.0.0.1".toList
  port : Option Int := some 2088
  level : Option Importance := some .info

def serverUsage : Text :=
  paragraph
    ["usage: bindcheck-lsp [-h] [--tcp] [--host HOST] [--port PORT]",
     "                     [--log-level \x7bdebug,info,warning,error\x7d]"]

def hostSwitch : Switch ServerArguments :=
  ⟨["--host".toList], .value (fun text => .ok fun a => { a with host := some text })
    fun a => { a with host := none }⟩

/-- The option that sets the port, an integer. -/
def portSwitch : Switch ServerArguments :=
  let read (text : Text) : Except Text (ServerArguments → ServerArguments) :=
    match Literal.integer? text with
    | some port => .ok fun a => { a with port := some port }
    | none => .error ("invalid int value: ".toList ++ text.quoted)
  ⟨["--port".toList], .value read fun a => { a with port := none }⟩

def serverGrammar : Grammar ServerArguments :=
  ⟨Editor.serverName, serverUsage,
    serverUsage ++ paragraph
      ["",
       "bindcheck Language Server",
       "",
       "options:",
       "  -h, --help            show this help message and exit",
       "  --tcp                 Start server in TCP mode instead of stdio",
       "  --host HOST           Host to bind to in TCP mode (default: 127.0.0.1)",
       "  --port PORT           Port to listen on in TCP mode (default: 2088)",
       "  --log-level \x7bdebug,info,warning,error\x7d",
       "                        Logging level (default: info)"],
    versionText,
    [helpSwitch,
     ⟨["--tcp".toList], .set fun a => { a with network := true }⟩,
     hostSwitch, portSwitch, levelSwitch fun level a => { a with level }],
    none⟩

/-- How a server with the given arguments talks to editors; it needs a level. -/
def ServerArguments.connection (a : ServerArguments) : Except Fault Connection :=
  match a.level with
  | none => .error .noLevel
  | some _ => .ok (if a.network then .network a.host a.port else .standard)

/-- What the server is asked for, or what is put out instead. -/
def readServer (words : List Text) : Except Output ServerArguments :=
  match serverGrammar.read {} words with
  | .error stop => .error (serverGrammar.stopped stop)
  | .ok (a, []) => .ok a
  | .ok (_, extras) => .error (serverGrammar.stopped (unrecognized extras))

end ForeignBindings.CommandLine
