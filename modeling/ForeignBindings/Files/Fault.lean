import ForeignBindings.Files.Path
import ForeignBindings.Text.Quoted
import ForeignBindings.Text.Utf8

/-! What can go wrong with files. -/

namespace ForeignBindings

/-- Why the system refuses to do something with a file. -/
inductive Refusal
  | notFound
  | permissionDenied
  | alreadyExists
  | notDirectory
  | isDirectory
  | noSpace
  | nameTooLong
  deriving DecidableEq

namespace Refusal

def number : Refusal → Nat
  | .notFound => 2
  | .permissionDenied => 13
  | .alreadyExists => 17
  | .notDirectory => 20
  | .isDirectory => 21
  | .noSpace => 28
  | .nameTooLong => 36

def description : Refusal → Text
  | .notFound => "No such file or directory".toList
  | .permissionDenied => "Permission denied".toList
  | .alreadyExists => "File exists".toList
  | .notDirectory => "Not a directory".toList
  | .isDirectory => "Is a directory".toList
  | .noSpace => "No space left on device".toList
  | .nameTooLong => "File name too long".toList

end Refusal

/-- A refusal, the wording for it, and the name that it is about, if it is about one. -/
structure SystemError where
  refusal : Refusal
  description : Text
  subject : Option Text
  deriving DecidableEq

namespace SystemError

/-- A refusal about a name. -/
def about (refusal : Refusal) (subject : Text) : SystemError :=
  ⟨refusal, refusal.description, some subject⟩

/-- The wording of an error: its number, its description, and the quoted name. -/
def message (e : SystemError) : Text :=
  "[Errno ".toList ++ Text.ofNat e.refusal.number ++ "] ".toList ++ e.description ++
    match e.subject with
    | some name => ": ".toList ++ Text.quoted name
    | none => []

end SystemError

/-- Why a walk stops: the system refuses something on the way, or there is one level more than the
walk can go down. -/
inductive WalkFault
  | system (error : SystemError)
  | tooDeep (wording : Text)
  deriving DecidableEq

/-- Why a file has no text. -/
inductive ReadFault
  | system (error : SystemError)
  | undecodable (error : Utf8.DecodeError)

def ReadFault.message : ReadFault → Text
  | .system error => error.message
  | .undecodable error => error.message

end ForeignBindings
