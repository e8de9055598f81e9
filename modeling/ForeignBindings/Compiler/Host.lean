import ForeignBindings.Check.Options
import ForeignBindings.Files.Tree

/-! What surrounds a run: the files, the environment, and what starting a compiler or writing a file
leads to. -/

namespace ForeignBindings

/-- A start of a compiler: its words, the directory it runs in, how long it may take, the files of
the program and of its configuration, and all files as they are at that moment. -/
structure Invocation where
  words : List Text
  directory : Path
  timeout : Timeout
  program : Path
  configuration : Path
  files : FileSystem

/-- How a start of a compiler ends: with what the compiler wrote and its status, or in one of the
ways that starts are known to fail, or in any other way.  A command whose first word leads through a
file, output that is no text, and a limit that is no time are such other ways. -/
inductive Launch
  | finished (output errors : Text) (status : Int)
  | notFound
  | timedOut
  | denied
  | failed (error : StartError)

/-- What storage does with a new file: it takes it, refuses to create it, or creates it and then
fails to take its contents. -/
inductive Storage
  | accepts
  | refuses (refusal : Refusal)
  | fills (refusal : Refusal)

/-- The surroundings of a run; `freshNames` are the names to try for a temporary file.  How the
process of a compiler ends depends on its start alone, and it leaves the files as they are: what a
compiler writes on its own account is not part of the surroundings. -/
structure Host where
  files : FileSystem
  environment : Environment
  compilerOnPath : Option Text
  process : Invocation → Launch
  freshNames : List Text
  storage : Path → Storage

/-- How a start of a compiler ends; no process comes of words with a null character. -/
def Host.launch (host : Host) (invocation : Invocation) : Launch :=
  if invocation.words.any (·.contains '\x00') then .failed .nullInWord
  else host.process invocation

end ForeignBindings
