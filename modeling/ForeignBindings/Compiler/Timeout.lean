import ForeignBindings.Decimal.Shortest

/-! How long to wait for a compiler. -/

namespace ForeignBindings

/-- A number of seconds, whole or with a fraction; or a limit that was set to nothing at all. -/
inductive Timeout
  | whole (seconds : Int)
  | real (seconds : Float)
  | nothing

/-- Why a limit has no brief text. -/
inductive TimeoutFault
  | tooLarge
  | noNumber
  deriving DecidableEq

def TimeoutFault.message : TimeoutFault → Text
  | .tooLarge => "int too large to convert to float".toList
  | .noNumber => "unsupported format string passed to list.__format__".toList

namespace Timeout

/-- Two minutes. -/
def default : Timeout := .real 120.0

/-- The number in full. -/
def text : Timeout → Text
  | .whole n => Text.ofInt n
  | .real x => Digits.full x
  | .nothing => ['\x5b', '\x5d']

/-- The number with at most six digits. -/
def brief : Timeout → Except TimeoutFault Text
  | .whole n => if (floatOfInt n).isInf then .error .tooLarge else .ok (Digits.brief (floatOfInt n))
  | .real x => .ok (Digits.brief x)
  | .nothing => .error .noNumber

end Timeout

end ForeignBindings
