import ForeignBindings.Compiler.Message
import ForeignBindings.Event
import ForeignBindings.Probe.Program

/-! From the messages of a compiler to verdicts.  An error on the line that assigns is a mismatch;
one on a line that names a type means that the type was not found, which outweighs a mismatch.
Only the first message of the weightier kind counts. -/

namespace ForeignBindings

/-- What an oracle says about a request: the value fits; the value or its type was not found; or
the value does not fit. -/
inductive Verdict
  | assignable
  | unresolved (expected detail : Option Text)
  | mismatch (expected actual detail : Option Text)
  deriving DecidableEq

/-- A message about a request: the number of the request, the role of the line, and the text. -/
structure Finding where
  index : Nat
  role : Role
  text : Text
  deriving DecidableEq

/-- The verdict after one more message. -/
def Verdict.update (expected : Text) (verdict : Verdict) (finding : Finding) : Verdict :=
  match verdict, finding.role with
  | .unresolved e d, _ => .unresolved e d
  | .mismatch e a d, .probe => .mismatch e a d
  | .assignable, .probe =>
    .mismatch (some expected) (CompilerMessage.actualType? finding.text) (some finding.text)
  | _, _ => .unresolved (some expected) (some finding.text)

/-- The message is about a file of the given name, wherever the file is. -/
def CompilerMessage.isAbout (message : CompilerMessage) (name : Text) : Bool :=
  (Path.ofText message.file).name == name

namespace Program

/-- The messages about requests, when the file of the program has the given name. -/
def findings (program : Program) (name : Text) (messages : List CompilerMessage) :
    List Finding :=
  (messages.filter (·.isAbout name)).filterMap fun message =>
    (program.locate? message.line).map fun (index, role) => ⟨index, role, message.text⟩

/-- The verdict on one entry. -/
def verdict (findings : List Finding) (entry : ProbeEntry) : Verdict :=
  (findings.filter fun finding => finding.index == entry.index).foldl
    (Verdict.update entry.expectedType) .assignable

def verdicts (program : Program) (findings : List Finding) : List Verdict :=
  program.entries.map (verdict findings)

/-- The events that tell of messages about other files. -/
def ignored (name : Text) (messages : List CompilerMessage) : List Event :=
  (messages.filter fun message => !message.isAbout name).map fun message =>
    .messageIgnored message.text

end Program

end ForeignBindings
