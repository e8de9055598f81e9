import ForeignBindings.Compiler.Timeout
import ForeignBindings.Declaration.Basic
import ForeignBindings.Files.Fault
import ForeignBindings.Json.Reader
import ForeignBindings.Text.Blank
import ForeignBindings.Text.ShellWords

/-! Failures.  A failure is something that the program itself has to say about a run; a fault is
anything that can end an operation, a failure or a refusal from below. -/

namespace ForeignBindings

/-- A command that failed: its words, and what it wrote. -/
structure FailedCommand where
  words : List Text
  output : Text
  deriving DecidableEq

/-- What failed: something in general, the configuration at a path, the oracle, or the reading of
what the oracle wrote. -/
inductive Cause
  | general
  | configuration (path : Option Text)
  | oracle (command : FailedCommand)
  | oracleOutput (command : FailedCommand)
  deriving DecidableEq

/-- A failure: what it says, where, and what failed. -/
structure Failure where
  message : Text
  location : Option Location
  cause : Cause
  deriving DecidableEq

/-- The command that failed, if one did. -/
def Cause.command? : Cause → Option FailedCommand
  | .oracle command | .oracleOutput command => some command
  | _ => none

/-- What a report says about a command: its words and its output, each if there are any. -/
def FailedCommand.text (command : FailedCommand) : Text :=
  (if command.words = [] then []
    else "\n  Command: ".toList ++ Text.join [' '] command.words) ++
  (if command.output = [] then [] else "\n  Output: ".toList ++ command.output.trim)

namespace Failure

/-- The message after its location, and the command that failed. -/
def text (failure : Failure) : Text :=
  (match failure.location with
    | some location => '\x5b' :: (location.text ++ "] ".toList)
    | none => []) ++
  failure.message ++
  match failure.cause.command? with
  | some command => command.text
  | none => []

/-- The oracle could not run a command. -/
def ofOracle (message : Text) (words : List Text) : Failure :=
  ⟨message, none, .oracle ⟨words, []⟩⟩

/-- The configuration is not usable. -/
def ofConfiguration (message : Text) (path : Option Text) : Failure :=
  ⟨message, none, .configuration path⟩

end Failure

/-- Why a program does not start, or what it puts out is not taken: no program can be given a word
with a null character, and there are other reasons, each with its wording. -/
inductive StartError
  | nullInWord
  | other (message : Text)
  deriving DecidableEq

def StartError.message : StartError → Text
  | .nullInWord => "embedded null byte".toList
  | .other message => message

/-- What can end an operation. -/
inductive Fault
  | failure (failure : Failure)
  | system (error : SystemError)
  | undecodable (error : Utf8.DecodeError)
  | commandLine (fault : ShellWords.Fault)
  | tooManyDigits (error : Literal.TooManyDigits)
  | tooDeep (compound : Json.Compound)
  | walkTooDeep (wording : Text)
  | timeout (fault : TimeoutFault)
  | nullInPath
  | noCommandWord
  | start (error : StartError)
  | noLevel

namespace Fault

/-- A reading fault as a fault. -/
def ofRead : ReadFault → Fault
  | .system error => .system error
  | .undecodable error => .undecodable error

/-- What stops a walk as a fault. -/
def ofWalk : WalkFault → Fault
  | .system error => .system error
  | .tooDeep wording => .walkTooDeep wording

def message : Fault → Text
  | .failure cause => cause.text
  | .system error => error.message
  | .undecodable error => error.message
  | .commandLine fault => fault.message
  | .tooManyDigits error => error.message
  | .tooDeep compound => compound.tooDeep
  | .walkTooDeep wording => wording
  | .timeout fault => fault.message
  | .nullInPath => "embedded null byte".toList
  | .start error => error.message
  | .noCommandWord => "list index out of range".toList
  | .noLevel => "'list' object has no attribute 'upper'".toList

end Fault

end ForeignBindings
