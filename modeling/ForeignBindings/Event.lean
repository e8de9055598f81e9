import ForeignBindings.Failure

/-! What a run tells while it works: events of four levels of importance, each from one part of the
program. -/

namespace ForeignBindings

/-- How important an event is. -/
inductive Importance
  | debug
  | info
  | warning
  | error
  deriving DecidableEq

namespace Importance

/-- The levels in increasing order. -/
def all : List Importance := [.debug, .info, .warning, .error]

def name : Importance → Text
  | .debug => "debug".toList
  | .info => "info".toList
  | .warning => "warning".toList
  | .error => "error".toList

/-- The place of a level. -/
def rank : Importance → Nat
  | .debug => 0
  | .info => 1
  | .warning => 2
  | .error => 3

def ofName? (text : Text) : Option Importance := all.find? fun level => level.name == text

end Importance

/-- What happens in a run. -/
inductive Event
  | configurationFound (path : Path)
  | directoryMissing (path : Path)
  | noConfiguration (start : Path)
  | checking (root : Path)
  | skipped (file : Path) (fault : ReadFault)
  | scanned (file : Path) (count : Nat)
  | oracleFailed (failure : Failure)
  | running (command : List Text)
  | messageIgnored (message : Text)

namespace Event

def importance : Event → Importance
  | .configurationFound _ | .directoryMissing _ | .scanned _ _ | .running _ | .messageIgnored _ =>
    .debug
  | .noConfiguration _ | .checking _ => .info
  | .skipped _ _ => .warning
  | .oracleFailed _ => .error

/-- The part of the program that tells of an event. -/
def source : Event → Text
  | .configurationFound _ | .directoryMissing _ => "bindcheck.compiler.discovery".toList
  | .running _ | .messageIgnored _ => "bindcheck.compiler.oracle".toList
  | _ => "bindcheck.compiler.checker".toList

def message : Event → Text
  | .configurationFound path => "Found project configuration ".toList ++ path.text
  | .directoryMissing path => "Source directory ".toList ++ path.text ++ " does not exist".toList
  | .noConfiguration start =>
    "No rescript.json or bsconfig.json found above ".toList ++ start.text
  | .checking root => "Checking project ".toList ++ root.text
  | .skipped file fault => "Skipping ".toList ++ file.text ++ ": ".toList ++ fault.message
  | .scanned file count =>
    "Scanned ".toList ++ file.text ++ ": ".toList ++ Text.ofNat count ++ " external(s)".toList
  | .oracleFailed cause => "Assignability oracle failed: ".toList ++ cause.text
  | .running command => "Running ".toList ++ Text.join [' '] command
  | .messageIgnored text => "Ignoring compiler error outside the probe: ".toList ++ text

/-- The line that tells of an event: its level, its source and its wording. -/
def line (event : Event) : Text :=
  event.importance.name.upper ++ ' ' :: event.source ++ ": ".toList ++ event.message

end Event

end ForeignBindings
